/-
  A pass: the machine that flattens a root file and everything it includes.

  The state has four stacks, innermost first — the open files with their unread lines, the open
  loops, the aliases, and (in `output`) the pieces written so far — together with the dictionaries
  made for ranges and the registry.  One `step` reads one line of the innermost file, or leaves it
  where no line is left:

    * an open loop without keys skips lines, counting the loops inside it, up to its own end;
    * the end of a loop goes back to the lines after the header with the next key, or closes the
      loop;
    * any other line has its tokens replaced and is then read as a directive.

  A loop keeps the lines after its header (`Loop.body`), so going back is reading these again.
  `step` decides nothing about how often it is called; that a pass ends is shown beside `Pass.run`.
-/
import ShaderWeave.Directive.Range
import ShaderWeave.Piece
import ShaderWeave.Registry
import ShaderWeave.Source
import ShaderWeave.Substitution

namespace ShaderWeave

/-- What a pass works on and does not change. -/
structure Job where
  source : Source
  config : Config
  dictionary : Dictionary
  /-- The absolute path of the root file. -/
  root : Path

/-- A file being read. -/
structure OpenFile where
  path : Path
  /-- The number of the file in the registry. -/
  id : Nat
  /-- How many lines were read: the number of the line read last. -/
  line : Nat
  /-- The lines still to be read. -/
  unread : List Text
  /-- The indentation of all including lines, outermost first. -/
  indentation : Text
  deriving DecidableEq, Repr

/-- A loop being expanded. -/
structure Loop where
  /-- How many files were open around the file of the loop. -/
  depth : Nat
  /-- The path of the loop's file, as shown. -/
  file : Text
  /-- The line of the header. -/
  header : Nat
  /-- The lines after the header. -/
  body : List Text
  keyName : Option Text
  valueName : Text
  /-- The resolved path of the collection. -/
  collection : Text
  /-- The current key and those still to come; empty only where the collection is. -/
  keys : List Text
  /-- Inside the body of an empty loop: the headers seen and not yet ended. -/
  skipped : Nat
  deriving DecidableEq, Repr

/-- What a loop binds for a key: the key's name to the quoted key, the value's name to the path
    below the collection. -/
def Loop.bindings (l : Loop) (key : Text) : List (Text × Text) :=
  (l.keyName.map fun name => (name, '"' :: (key ++ ['"']))).toList ++
    [(l.valueName, l.collection ++ '.' :: key)]

/-- The state of a pass. -/
structure Pass where
  files : List OpenFile
  loops : List Loop
  aliases : AliasTable
  /-- The dictionaries of the ranges met so far, by name. -/
  ranges : Dictionary
  registry : Registry
  /-- The newest piece first. -/
  output : List Piece

/-- How a pass ended: the registry as it was left, and the pieces or an error. -/
structure Outcome where
  registry : Registry
  result : Except Error (List Piece)

/-- What a step leads to. -/
inductive Step where
  | next (p : Pass)
  | stop (o : Outcome)

namespace Pass

/-- Nothing read and nothing written. -/
def initial (registry : Registry) : Pass := ⟨[], [], .empty, .empty, registry, []⟩

/-- The line read last. -/
def location (p : Pass) : Location :=
  match p.files with
  | [] => ⟨[], 0⟩
  | f :: _ => ⟨f.path.text, f.line⟩

/-- What names mean here. -/
def environment (job : Job) (p : Pass) : Environment := ⟨p.aliases, p.ranges, job.dictionary⟩

/-- Ends the pass with an error. -/
def fail (p : Pass) (e : Error) : Step := .stop ⟨p.registry, .error e⟩

/-- Ends the pass because of the line read last. -/
def reject (p : Pass) (fault : Fault) : Step := p.fail (.malformed fault p.location)

/-- Writes a piece. -/
def emit (p : Pass) (piece : Piece) : Pass := { p with output := piece :: p.output }

/-- Writes a marker for the line read last. -/
def mark (job : Job) (p : Pass) : Pass :=
  match p.files with
  | [] => p
  | f :: _ => p.emit (.marker job.config.isolateMarkers f.line f.id f.path)

/-! ## Files

  A file is entered by an include, or as the root, and left behind its last line.  Whatever is
  written after either must be counted anew, so both write a marker; only the root begins without
  one. -/

/-- Opens a file; `margin` is the indentation of the line that asks for it.  The path is tested
    again here, also where it was found by a test. -/
def enter (job : Job) (p : Pass) (path : Path) (track : Bool) (margin : Text) : Step :=
  if !job.source.isFile path then p.fail (.includeNotFound path p.location)
  else if p.files.any (·.path.same path) then p.fail (.includeCycle path p.location)
  else
    let (registry, id) := p.registry.register path track
    match job.source.read path with
    | .unreadable reason => .stop ⟨registry, .error (.unreadable path reason)⟩
    | .text t =>
      match p.files with
      | [] => .next { p with registry, files := [⟨path, id, 0, t.lines, margin⟩] }
      | parent :: _ =>
        let file : OpenFile := ⟨path, id, 0, t.lines, parent.indentation ++ margin⟩
        .next (mark job { p with registry, files := file :: p.files })

/-- Opening a file, told by what is found under its path. -/
theorem enter_eq (job : Job) (p : Pass) (path : Path) (track : Bool) (margin : Text) :
    enter job p path track margin =
      match job.source.find? path with
      | none => p.fail (.includeNotFound path p.location)
      | some content =>
        if p.files.any (·.path.same path) then p.fail (.includeCycle path p.location)
        else
          let (registry, id) := p.registry.register path track
          match content with
          | .unreadable reason => .stop ⟨registry, .error (.unreadable path reason)⟩
          | .text t =>
            match p.files with
            | [] => .next { p with registry, files := [⟨path, id, 0, t.lines, margin⟩] }
            | parent :: _ =>
              let file : OpenFile := ⟨path, id, 0, t.lines, parent.indentation ++ margin⟩
              .next (mark job { p with registry, files := file :: p.files }) := by
  unfold enter Source.find?
  cases job.source.isFile path <;> rfl

/-- Leaves the innermost file, of which no line is left; `outer` are the files around it. -/
def leave (job : Job) (p : Pass) (outer : List OpenFile) : Step :=
  let left := Step.next (mark job { p with files := outer })
  match p.loops with
  | [] => left
  | l :: _ =>
    if outer.length ≤ l.depth then p.fail (.malformed .fileEndsInLoop ⟨l.file, l.header⟩) else left

/-- Ends the pass when no file is open. -/
def finish (job : Job) (p : Pass) : Step :=
  match p.loops with
  | l :: _ => p.fail (.malformed .passEndsInLoop ⟨l.file, l.header⟩)
  | [] =>
    if 0 < p.aliases.openScopes then p.fail (.malformed .passEndsInScope ⟨job.root.text, 0⟩)
    else .stop ⟨p.registry, .ok p.output.reverse⟩

/-! ## Loops

  A loop is opened with the keys of its collection and keeps those that are left.  Its lines are not
  kept apart: they stay in the file, and the end of the loop goes back to them. -/

/-- Opens a loop over a collection that resolves to a dictionary. -/
def openLoop (job : Job) (p : Pass) (file : OpenFile) (outer : List OpenFile) (header : LoopHeader)
    (collection : Text) : Step :=
  let env := p.environment job
  match env.resolve? collection with
  | none => p.fail (.substitution collection .unresolved p.location)
  | some resolved =>
    match env.dictionary? resolved with
    | none => p.fail (.substitution collection (.notDictionary resolved) p.location)
    | some d =>
      let loop : Loop :=
        ⟨outer.length, file.path.text, file.line, file.unread, header.key, header.value, resolved,
          d.keys, 0⟩
      match d.keys with
      | [] =>
        .next { p.emit .loopEmpty with loops := loop :: p.loops, aliases := p.aliases.push [] }
      | key :: _ =>
        .next { mark job (p.emit (.loopStart resolved key)) with
          loops := loop :: p.loops, aliases := p.aliases.push (loop.bindings key) }

/-- Opens the loop of a header.  Without a key its collection is a range, whose dictionary is made
    first. -/
def startLoop (job : Job) (p : Pass) (file : OpenFile) (outer : List OpenFile)
    (header : LoopHeader) : Step :=
  match header.key with
  | some _ => openLoop job p file outer header header.collection
  | none =>
    match Range.parse header.collection with
    | .error fault => p.reject fault
    | .ok range =>
      let ranges := p.ranges.set range.name (.dictionary range.dictionary.entries)
      openLoop job { p with ranges } file outer header range.name

/-- Ends an iteration of the innermost loop: goes back for the next key, or closes the loop. -/
def endLoop (job : Job) (p : Pass) (file : OpenFile) (outer : List OpenFile) : Step :=
  match p.loops with
  | [] => p.reject .endWithoutLoop
  | l :: loops =>
    if l.depth ≠ outer.length then p.reject (.endInOtherFile l.file l.header)
    else match p.aliases.pop? with
      | none => p.reject .scopeNotOpen
      | some aliases =>
        match l.keys with
        | _ :: key :: more =>
          let p := { p with
            aliases := aliases.push (l.bindings key)
            loops := { l with keys := key :: more } :: loops
            files := { file with line := l.header, unread := l.body } :: outer }
          .next (mark job (p.emit (.loopKey l.collection key)))
        | _ => .next (mark job ({ p with aliases, loops }.emit (.loopEnd l.collection)))

/-! ## Lines

  A line that ends a loop is told by what stands in the file.  Any other is expanded first, so what
  it asks for may come from a token; only in an empty loop, where nothing is expanded, headers too
  are told by what stands in the file. -/

/-- Does what a line asks for, its tokens replaced. -/
def perform (job : Job) (p : Pass) (file : OpenFile) (outer : List OpenFile) (margin line : Text) :
    Directive → Step
  | .version =>
    match job.config.context with
    | none => p.fail (.missingContext p.location)
    | some context => .next (p.emit (.version file.id file.line context))
  | .platform => .next (mark job (p.emit .platform))
  | .inclusion i =>
    let resolved := match i.form with
      | .quoted => job.source.resolveQuoted? job.config.includePaths file.path i.path
      | .angled => job.source.resolveAngled? i.path
    match resolved with
    | none => p.fail (.includeNotFound i.path p.location)
    | some path => enter job p path i.track margin
  | .loop header => startLoop job p file outer header
  | .plain => .next (p.emit (.source file.id file.line (file.indentation ++ margin ++ line)))

/-- Reads a line outside empty loops. -/
def execute (job : Job) (p : Pass) (file : OpenFile) (outer : List OpenFile) (margin line : Text) :
    Step :=
  if LoopHeader.isEnd line then endLoop job p file outer
  else match Substitution.expandLine
    (p.environment job) job.config.maxSubstitutions p.location line with
    | .error e => p.fail e
    | .ok line =>
      match Directive.parse line with
      | .error fault => p.reject fault
      | .ok directive => perform job p file outer margin line directive

/-- Reads a line inside an empty loop, of which only the nesting of loops counts. -/
def skip (job : Job) (p : Pass) (file : OpenFile) (outer : List OpenFile) (l : Loop)
    (loops : List Loop) (line : Text) : Step :=
  if LoopHeader.isEnd line then
    match l.skipped with
    | 0 => endLoop job p file outer
    | n + 1 => .next { p with loops := { l with skipped := n } :: loops }
  else if LoopHeader.isHeader line then
    .next { p with loops := { l with skipped := l.skipped + 1 } :: loops }
  else .next p

/-- Reads one line of the innermost file, or leaves it, or ends the pass. -/
def step (job : Job) (p : Pass) : Step :=
  match p.files with
  | [] => finish job p
  | file :: outer =>
    match file.unread with
    | [] => leave job p outer
    | raw :: unread =>
      let file := { file with line := file.line + 1, unread }
      let p := { p with files := file :: outer }
      match p.loops with
      | l :: loops =>
        if l.keys.isEmpty then skip job p file outer l loops raw.content
        else execute job p file outer raw.margin raw.content
      | [] => execute job p file outer raw.margin raw.content

/-- The first step: the root file is opened, and tracked. -/
def start (job : Job) (registry : Registry) : Step := enter job (initial registry) job.root true []

/-- The state after at most `n` steps, or the outcome if the pass ended before. -/
def after (job : Job) : Nat → Step → Step
  | 0, s => s
  | _, .stop o => .stop o
  | n + 1, .next p => after job n (p.step job)

end Pass
end ShaderWeave
