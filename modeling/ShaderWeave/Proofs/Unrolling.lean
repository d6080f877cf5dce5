/-
  Unrolling: what a pass should come to, told without a cursor.

  A pass has no tree of its file: the end of a loop moves a cursor back to the lines after the
  header, and an empty loop is skipped by counting lines.  Here the same text is told by recursion
  on the tree (`Body`):

    * a plain line is expanded once and does what it asks for (`Trace.dispatch?`);
    * a loop expands its header once and interprets its body once for each key, in the order of the
      dictionary, with the bindings of the key around it (`Opening.unroll?`); an empty loop leaves
      its body out;
    * a file that is entered is read as a body first, so one whose loops do not match is not
      interpreted at all (`Trace.visit?`).

  The recursion is structural within a file.  Between files it ends because a file is entered only
  while it is not open, so each inclusion has one file of the source less to enter (`fresh`).
  `none` stands for any error: which error a pass ends with is not told here.
-/
import ShaderWeave.Preprocessor
import ShaderWeave.Proofs.Aliases
import ShaderWeave.Proofs.Body
import ShaderWeave.Proofs.Transition

namespace ShaderWeave

/-- Which error there is does not matter here, only whether there is one. -/
theorem toOption_eq_some_iff {ε α : Type} {x : Except ε α} {a : α} :
    x.toOption = some a ↔ x = .ok a := by
  cases x <;> simp [Except.toOption]

/-- What open loops bind, innermost first. -/
abbrev Scopes := List (List (Text × Text))

/-- A file being interpreted. -/
structure Frame where
  path : Path
  /-- The number of the file in the registry. -/
  id : Nat
  /-- The indentation of all including lines. -/
  indentation : Text

/-- What was made so far. -/
structure Trace where
  /-- The dictionaries of the ranges met so far. -/
  ranges : Dictionary
  registry : Registry
  /-- The newest piece first. -/
  output : List Piece

/-- A loop that a header opens. -/
structure Opening where
  header : LoopHeader
  /-- The resolved path of the collection. -/
  collection : Text
  /-- The keys of the collection, in order. -/
  keys : List Text

/-- What a loop binds for a key: the key's name to the quoted key, the value's name to the path
    below the collection. -/
def Opening.bindings (o : Opening) (key : Text) : List (Text × Text) :=
  (o.header.key.map fun name => (name, '"' :: (key ++ ['"']))).toList ++
    [(o.header.value, o.collection ++ '.' :: key)]

namespace Trace

/-- Writes a piece. -/
def write (t : Trace) (piece : Piece) : Trace := { t with output := piece :: t.output }

/-- Writes the marker of line `n`. -/
def mark (job : Job) (f : Frame) (n : Nat) (t : Trace) : Trace :=
  t.write (.marker job.config.isolateMarkers n f.id f.path)

/-! ## Lines

  A line is interpreted by what it says and by what was made so far, and by nothing else: there is
  no state in which it could be skipped or come again. -/

/-- Line `n` with its tokens replaced, and what it asks for. -/
def read? (job : Job) (f : Frame) (n : Nat) (raw : Text) (scopes : Scopes) (t : Trace) :
    Option (Text × Directive) := do
  let env : Environment := ⟨.ofScopes scopes, t.ranges, job.dictionary⟩
  let line ← (Substitution.expandLine env job.config.maxSubstitutions ⟨f.path.text, n⟩
    raw.content).toOption
  let directive ← (Directive.parse line).toOption
  return (line, directive)

/-- A line is read if it can be expanded and says something that can be understood. -/
theorem read?_eq_some_iff {job : Job} {f : Frame} {n : Nat} {raw line : Text} {scopes : Scopes}
    {t : Trace} {directive : Directive} :
    t.read? job f n raw scopes = some (line, directive) ↔
      Substitution.expandLine ⟨.ofScopes scopes, t.ranges, job.dictionary⟩
          job.config.maxSubstitutions ⟨f.path.text, n⟩ raw.content = .ok line ∧
        Directive.parse line = .ok directive := by
  simp only [read?, Option.bind_eq_bind, Option.bind_eq_some_iff, toOption_eq_some_iff,
    Option.pure_def, Option.some.injEq, Prod.mk.injEq]
  constructor
  · rintro ⟨_, hl, _, hd, rfl, rfl⟩
    exact ⟨hl, hd⟩
  · rintro ⟨hl, hd⟩
    exact ⟨_, hl, _, hd, rfl, rfl⟩

/-- How an included file is interpreted: its path, whether it is tracked, its indentation and the
    scopes around it. -/
abbrev Visit := Path → Bool → Text → Scopes → Trace → Option Trace

/-- Interprets a line that does not open a loop. -/
def dispatch? (job : Job) (visit : Visit) (f : Frame) (n : Nat) (raw : Text) (scopes : Scopes)
    (t : Trace) : Option Trace := do
  let (line, directive) ← t.read? job f n raw scopes
  match directive with
  | .version => job.config.context.map fun context => t.write (.version f.id n context)
  | .platform => some ((t.write .platform).mark job f n)
  | .inclusion i =>
    let path ← Pass.resolve? job f.path i
    let t ← visit path i.track (f.indentation ++ raw.margin) scopes t
    return t.mark job f n
  | .loop _ => none
  | .plain => some (t.write (.source f.id n (f.indentation ++ raw.margin ++ line)))

/-- Reads line `n` as the header of a loop and finds the loop's collection. -/
def opening? (job : Job) (f : Frame) (n : Nat) (raw : Text) (scopes : Scopes) (t : Trace) :
    Option (Opening × Trace) := do
  let (_, directive) ← t.read? job f n raw scopes
  match directive with
  | .loop header =>
    let (ranges, name) ← (header.gather t.ranges).toOption
    let env : Environment := ⟨.ofScopes scopes, ranges, job.dictionary⟩
    let collection ← env.resolve? name
    let d ← env.dictionary? collection
    return (⟨header, collection, d.keys⟩, { t with ranges })
  | _ => none

end Trace

/-! ## Loops

  The body of a loop is interpreted by one and the same function for each key, with other bindings
  in front; what the loop writes around it tells the first key from the others. -/

/-- Interprets the body of a loop for each key in turn; `mark` writes the marker of the header. -/
def Opening.unroll? (o : Opening) (mark : Trace → Trace)
    (body : List (Text × Text) → Trace → Option Trace) (t : Trace) : Option Trace :=
  match o.keys with
  | [] => some (t.write .loopEmpty)
  | key :: more => do
    let t ← body (o.bindings key) (mark (t.write (.loopStart o.collection key)))
    more.foldlM (fun t key => body (o.bindings key) (mark (t.write (.loopKey o.collection key)))) t

/-- Interprets a body of which the first line comes after line `n`. -/
def Body.unroll? (job : Job) (visit : Trace.Visit) (f : Frame) :
    Body → Nat → Scopes → Trace → Option Trace
  | done, _, _, t => some t
  | line raw _ rest, n, scopes, t => do
    let t ← t.dispatch? job visit f (n + 1) raw scopes
    rest.unroll? job visit f (n + 1) scopes t
  | loop header _ body _ _ rest, n, scopes, t => do
    let (o, t) ← t.opening? job f (n + 1) header scopes
    let t ← o.unroll? (.mark job f (n + 1))
      (fun bindings => body.unroll? job visit f (n + 1) (bindings :: scopes)) t
    let last := n + 1 + body.size + 1
    rest.unroll? job visit f last scopes ((t.write (.loopEnd o.collection)).mark job f last)

/-! ## Files

  A file is interpreted inside the list of files that are open, to which it is added. -/

/-- The trace with which the lines of a file are begun; the root file begins without a marker. -/
def Trace.entered (job : Job) (f : Frame) (track isRoot : Bool) (t : Trace) : Trace :=
  let t := { t with registry := (t.registry.register f.path track).1 }
  if isRoot then t else t.mark job f 0

/-- Interprets a file inside the files `opened`. -/
def Trace.visit? (job : Job) (opened : List Path) :
    Trace.Visit := fun path track indentation scopes t =>
  match _hf : job.source.find? path with
  | some (.text text) =>
    if _hn : opened.any (·.same path) = true then none
    else
      let f : Frame := ⟨path, (t.registry.register path track).2, indentation⟩
      (Body.ofLines? text.lines).bind fun b =>
        b.unroll? job (visit? job (path :: opened)) f 0 scopes
          (t.entered job f track opened.isEmpty)
  | _ => none
termination_by Pass.fresh job.source.files opened
decreasing_by
  exact Pass.fresh_cons_lt (Source.listed_of_find?_eq_text _hf) (Bool.eq_false_iff.2 _hn)

/-- The equation of the recursion, without the proofs that it ends. -/
theorem Trace.visit?_eq {job : Job} {opened : List Path} {path : Path} {track : Bool}
    {indentation : Text} {scopes : Scopes} {t : Trace} :
    visit? job opened path track indentation scopes t =
      match job.source.find? path with
      | some (.text text) =>
        if opened.any (·.same path) = true then none
        else
          let f : Frame := ⟨path, (t.registry.register path track).2, indentation⟩
          (Body.ofLines? text.lines).bind fun b =>
            b.unroll? job (visit? job (path :: opened)) f 0 scopes
              (t.entered job f track opened.isEmpty)
      | _ => none := by
  rw [visit?]
  split
  · next text hf =>
    rw [hf]
    split <;> rfl
  · next h =>
    split
    · next text hf => exact absurd hf (h text)
    · rfl

/-- The pieces of the root file and all it includes, by unrolling. -/
def Preprocessor.unrolled? (p : Preprocessor) : Option (List Piece) :=
  (Trace.visit? p.job [] p.job.root true [] [] ⟨.empty, p.registry, []⟩).map (·.output.reverse)

end ShaderWeave
