/-
  A pass does not depend on what was before, but for the numbers of files.

  Two passes over the same job, from different registries, go in lockstep: their states differ in
  the registry and in numbers of files, and no step looks at either to decide what to do.  `bare`
  takes these away; the law is that a step of the bare state is the bare step (`bare_step`),
  function by function as `step` is made of them, and so for any number of steps (`bare_after`) and
  for whole passes (`exists_after_eq_process_both`).

  Both passes enter the same files in the same order (`visitsFrom_eq`).  So a second pass after a
  first one registers files that are registered already, which changes nothing, and numbers them as
  before.

  What is left is to read numbers by the registry: a marker's number is registered under the
  marker's path, so texts whose markers show the registered path instead of the number agree for all
  registries.
-/
import ShaderWeave.Proofs.Visits

namespace ShaderWeave

/-! ## States without numbers

  `bare` is a projection: it sets every number of a file to zero, in the open files and in the
  output, and empties the registry.  Two states are in lockstep if their bare states are equal, so
  lockstep is an equation and not a relation to be carried along. -/

/-- The file without its number. -/
def OpenFile.bare (f : OpenFile) : OpenFile := { f with id := 0 }

/-- The piece without numbers of files. -/
def Piece.bare : Piece → Piece
  | .source _ line text => .source 0 line text
  | .version _ line context => .version 0 line context
  | .marker isolated line _ path => .marker isolated line 0 path
  | piece => piece

/-- The state without registry and without numbers of files. -/
def Pass.bare (p : Pass) : Pass :=
  { p with files := p.files.map OpenFile.bare, registry := {}, output := p.output.map Piece.bare }

/-- The outcome without registry and without numbers of files. -/
def Outcome.bare (o : Outcome) : Outcome := ⟨{}, o.result.map (·.map Piece.bare)⟩

/-- What a step leads to, without registry and without numbers of files. -/
def Step.bare : Step → Step
  | .next p => .next p.bare
  | .stop o => .stop o.bare

/-- Steps that are the same but for numbers both end the pass, or both go on, and their outcomes or
    states are the same but for numbers. -/
theorem Step.bare_cases {s t : Step} (h : s.bare = t.bare) :
    (∃ o o', s = .stop o ∧ t = .stop o' ∧ o.bare = o'.bare) ∨
      ∃ p q, s = .next p ∧ t = .next q ∧ p.bare = q.bare := by
  cases s with
  | stop o =>
    cases t with
    | stop o' => exact .inl ⟨o, o', rfl, rfl, Step.stop.inj h⟩
    | next q => cases h
  | next p =>
    cases t with
    | stop o' => cases h
    | next q => exact .inr ⟨p, q, rfl, rfl, Step.next.inj h⟩

@[simp] theorem Piece.bare_bare (piece : Piece) : piece.bare.bare = piece.bare := by
  cases piece <;> rfl

@[simp] theorem OpenFile.bare_comp_bare : OpenFile.bare ∘ OpenFile.bare = OpenFile.bare := rfl

@[simp] theorem Piece.bare_comp_bare : Piece.bare ∘ Piece.bare = Piece.bare :=
  funext Piece.bare_bare

namespace Pass

variable {job : Job} {p : Pass} {file : OpenFile} {outer : List OpenFile}

/-- Taking numbers away is idempotent: it is by this that `bare_step` turns a step of the one state
    into a step of the other. -/
@[simp] theorem bare_bare (p : Pass) : p.bare.bare = p.bare := by
  simp only [bare, List.map_map, OpenFile.bare_comp_bare, Piece.bare_comp_bare]

/-! Three things that a step asks a state for do not depend on numbers: what names stand for, the
    location it is at, and which files may be entered. -/

@[simp] theorem environment_bare (job : Job) (p : Pass) :
    p.bare.environment job = p.environment job := rfl

@[simp] theorem location_bare (p : Pass) : p.bare.location = p.location := by
  unfold location bare
  cases p.files <;> rfl

@[simp] theorem admits_bare (job : Job) (p : Pass) : p.bare.admits job = p.admits job := by
  funext path
  simp only [admits, bare, List.any_map]
  rfl

/-! ## Lockstep

    One lemma for each function that `step` is made of.  Each says that it commutes with `bare`:
    where the function branches, the branch is chosen by something that `bare` keeps, and what it
    builds from a number is a piece or an open file, which `bare` strips. -/

/-- Pieces that are the same but for numbers are written alike. -/
theorem bare_emit {p q : Pass} (h : p.bare = q.bare) {a b : Piece} (hpiece : a.bare = b.bare) :
    (p.emit a).bare = (q.emit b).bare := by
  simp only [bare, mk.injEq] at h
  simp only [emit, bare, List.map_cons, hpiece, h]

/-- A marker shows the number of the innermost file, and nothing else of it that `bare` takes
    away. -/
theorem bare_mark {p q : Pass} (h : p.bare = q.bare) : (mark job p).bare = (mark job q).bare := by
  have hfiles : p.files.map OpenFile.bare = q.files.map OpenFile.bare := congrArg Pass.files h
  unfold mark
  cases hp : p.files with
  | nil =>
    cases hq : q.files with
    | nil => exact h
    | cons g files => rw [hp, hq] at hfiles; cases hfiles
  | cons f files =>
    cases hq : q.files with
    | nil => rw [hp, hq] at hfiles; cases hfiles
    | cons g files' =>
      rw [hp, hq] at hfiles
      have hfile : f.bare = g.bare := (List.cons.inj hfiles).1
      simp only [OpenFile.bare, OpenFile.mk.injEq] at hfile
      exact bare_emit h (by simp only [Piece.bare, hfile])

/-- An error shows a location, and no number. -/
theorem bare_reject (p : Pass) (fault : Fault) :
    (p.reject fault).bare = (p.bare.reject fault).bare := by
  simp only [reject, location_bare]
  rfl

/-- The registry is asked for a number here, and only here; it goes into the file that is entered
    and decides nothing.  Whether the file may be entered depends on the source and the open
    files. -/
theorem bare_enter (path : Path) (track : Bool) (margin : Text) :
    (enter job p path track margin).bare = (enter job p.bare path track margin).bare := by
  have hany : p.bare.files.any (·.path.same path) = p.files.any (·.path.same path) := by
    simp only [bare, List.any_map]
    rfl
  rw [enter_eq, enter_eq, location_bare, hany]
  cases job.source.find? path with
  | none => rfl
  | some content =>
    simp only
    split
    · rfl
    · cases content with
      | unreadable reason => rfl
      | text t =>
        cases hf : p.files with
        | nil => simp [bare, hf, Step.bare, OpenFile.bare]
        | cons parent files =>
          simp only [Step.bare, bare, hf, List.map_cons]
          congr 1
          apply bare_mark
          simp [bare, OpenFile.bare]

/-- A file is left as the loops say. -/
theorem bare_leave :
    (leave job p outer).bare = (leave job p.bare (outer.map OpenFile.bare)).bare := by
  obtain ⟨files, loops, aliases, ranges, registry, output⟩ := p
  unfold leave
  rw [List.length_map]
  cases loops with
  | nil => exact congrArg Step.next (bare_mark (by simp [bare]))
  | cons l loops =>
    simp only [bare]
    by_cases hd : outer.length ≤ l.depth
    · simp only [hd, if_true]
      rfl
    · simp only [hd, if_false]
      exact congrArg Step.next (bare_mark (by simp [bare]))

/-- The pass is finished as the loops and scopes say. -/
theorem bare_finish : (finish job p).bare = (finish job p.bare).bare := by
  obtain ⟨files, loops, aliases, ranges, registry, output⟩ := p
  unfold finish
  cases loops with
  | cons l loops => rfl
  | nil =>
    simp only [bare]
    by_cases hs : 0 < aliases.openScopes
    · simp only [hs, if_true]
      rfl
    · simp only [hs, if_false]
      simp [Step.bare, Outcome.bare, Except.map]

/-- A loop keeps the path of its file, not the number. -/
theorem bare_openLoop (header : LoopHeader) (collection : Text) :
    (openLoop job p file outer header collection).bare =
      (openLoop job p.bare file.bare (outer.map OpenFile.bare) header collection).bare := by
  unfold openLoop
  rw [environment_bare, location_bare, List.length_map]
  simp only
  cases (p.environment job).resolve? collection with
  | none => rfl
  | some resolved =>
    simp only
    cases (p.environment job).dictionary? resolved with
    | none => rfl
    -- An empty dictionary opens a loop to skip; any other binds its first key and marks the place.
    | some d =>
      simp only
      cases d.keys with
      | nil => simp [Step.bare, bare, emit, Piece.bare, OpenFile.bare]
      | cons key more =>
        have hmark : (mark job (p.emit (.loopStart resolved key))).bare =
            (mark job (p.bare.emit (.loopStart resolved key))).bare :=
          bare_mark (bare_emit (bare_bare p).symm rfl)
        simp only [bare, mk.injEq] at hmark
        simp only [Step.bare, bare, hmark]
        rfl

/-- A range is gathered before its loop is opened, from ranges that `bare` keeps. -/
theorem bare_startLoop (header : LoopHeader) :
    (startLoop job p file outer header).bare =
      (startLoop job p.bare file.bare (outer.map OpenFile.bare) header).bare := by
  rw [startLoop_eq, startLoop_eq]
  have hranges : p.bare.ranges = p.ranges := rfl
  rw [hranges]
  cases header.gather p.ranges with
  | error fault => exact bare_reject p fault
  | ok gathered => exact bare_openLoop (p := { p with ranges := gathered.1 }) header gathered.2

/-- A loop is ended as its keys, its depth and the scopes say, none of which is a number of a
    file. -/
theorem bare_endLoop :
    (endLoop job p file outer).bare =
      (endLoop job p.bare file.bare (outer.map OpenFile.bare)).bare := by
  unfold endLoop
  have hloops : p.bare.loops = p.loops := rfl
  have haliases : p.bare.aliases = p.aliases := rfl
  rw [hloops, haliases, List.length_map]
  cases p.loops with
  | nil => exact bare_reject p _
  | cons l loops =>
    simp only
    by_cases hd : l.depth ≠ outer.length
    · rw [if_pos hd, if_pos hd]
      exact bare_reject p _
    · rw [if_neg hd, if_neg hd]
      cases p.aliases.pop? with
      | none => exact bare_reject p _
      | some aliases =>
        simp only
        split
        · exact congrArg Step.next (bare_mark (bare_emit (by simp [bare, OpenFile.bare]) rfl))
        · exact congrArg Step.next (bare_mark (bare_emit (by simp [bare]) rfl))

/-- A directive is performed the same: one case for each. -/
theorem bare_perform (margin line : Text) (directive : Directive) :
    (perform job p file outer margin line directive).bare =
      (perform job p.bare file.bare (outer.map OpenFile.bare) margin line directive).bare := by
  cases directive with
  | version =>
    unfold perform
    cases job.config.context with
    | none =>
      simp only [location_bare]
      rfl
    | some context => exact congrArg Step.next (bare_emit (bare_bare p).symm rfl)
  | platform => exact congrArg Step.next (bare_mark (bare_emit (bare_bare p).symm rfl))
  | inclusion i =>
    rw [perform_inclusion, perform_inclusion]
    have hpath : file.bare.path = file.path := rfl
    rw [hpath, location_bare]
    cases resolve? job file.path i with
    | none => rfl
    | some path => exact bare_enter path i.track margin
  | loop header => exact bare_startLoop header
  | plain => exact congrArg Step.next (bare_emit (bare_bare p).symm rfl)

/-- A line is executed the same: its tokens are replaced by the environment, which `bare` keeps. -/
theorem bare_execute (margin line : Text) :
    (execute job p file outer margin line).bare =
      (execute job p.bare file.bare (outer.map OpenFile.bare) margin line).bare := by
  unfold execute
  rw [environment_bare, location_bare]
  by_cases hc : LoopHeader.isEnd line = true
  · simp only [hc, if_true]
    exact bare_endLoop
  · simp only [hc]
    cases Substitution.expandLine (p.environment job) job.config.maxSubstitutions p.location
      line with
    | error e => rfl
    | ok line =>
      simp only
      cases Directive.parse line with
      | error fault => exact bare_reject p fault
      | ok directive => exact bare_perform margin line directive

/-- Skipped lines count headers and ends only. -/
theorem bare_skip (l : Loop) (loops : List Loop) (line : Text) :
    (skip job p file outer l loops line).bare =
      (skip job p.bare file.bare (outer.map OpenFile.bare) l loops line).bare := by
  unfold skip
  by_cases hc : LoopHeader.isEnd line = true
  · simp only [hc, if_true]
    cases l.skipped with
    | zero => exact bare_endLoop
    | succ n => simp [Step.bare, bare]
  · simp only [hc]
    by_cases ho : LoopHeader.isHeader line = true
    · simp [ho, Step.bare, bare]
    · simp [ho, Step.bare]

/-- **A step of the bare state is the bare step.**  The cases are those of `step`: no file, no
    unread line, and a line under no loop, under an empty one, or under a running one. -/
theorem bare_step (job : Job) (p : Pass) : (step job p).bare = (step job p.bare).bare := by
  obtain ⟨files, loops, aliases, ranges, registry, output⟩ := p
  unfold step
  cases files with
  | nil => exact bare_finish
  | cons f outer =>
    obtain ⟨path, id, n, unread, indentation⟩ := f
    cases unread with
    | nil => exact bare_leave
    | cons raw unread =>
      cases loops with
      | nil => exact bare_execute raw.margin raw.content
      | cons l loops =>
        simp only [bare, List.map_cons, OpenFile.bare]
        by_cases hk : l.keys.isEmpty = true
        · simp only [hk, if_true]
          exact bare_skip l loops raw.content
        · simp only [hk]
          exact bare_execute raw.margin raw.content

/-- Steps from steps that are the same but for numbers lead to steps that are the same but for
    numbers. -/
theorem bare_after (job : Job) {s t : Step} (h : s.bare = t.bare) (n : Nat) :
    (after job n s).bare = (after job n t).bare := by
  induction n generalizing s t with
  | zero => exact h
  | succ n ih =>
    rcases Step.bare_cases h with ⟨o, o', rfl, rfl, _⟩ | ⟨p, q, rfl, rfl, hbare⟩
    · exact h
    · exact ih (by rw [bare_step, hbare, ← bare_step])

/-- The root is entered with a number that depends on the registry, and otherwise alike. -/
theorem bare_start (job : Job) (r₁ r₂ : Registry) : (start job r₁).bare = (start job r₂).bare := by
  unfold start
  rw [bare_enter, bare_enter (p := initial r₂)]
  rfl

/-- A pass that ends after some steps does so from every registry, with the same outcome but for
    numbers.  The number of steps is the same for both, so that further facts can be carried over
    step by step. -/
theorem exists_after_eq_process_both (job : Job) (r₁ r₂ : Registry) :
    ∃ n, after job n (start job r₁) = .stop (process job r₁) ∧
      after job n (start job r₂) = .stop (process job r₂) ∧
      (process job r₁).bare = (process job r₂).bare := by
  obtain ⟨n, hn⟩ := exists_after_eq_process job r₁
  have hboth := bare_after job (bare_start job r₁ r₂) n
  rw [hn] at hboth
  rcases Step.bare_cases hboth with ⟨o, o', hstop, ht, ho⟩ | ⟨p, q, hnext, _, _⟩
  · -- The second pass has ended, too, so this is its outcome.
    cases hstop
    rw [process_of_after n ht]
    exact ⟨n, hn, ht, ho⟩
  · cases hnext

/-! ## The files that are entered

  Which file a step enters is decided before it is registered, by what the state shows without
  numbers; so the list of the files entered is a function of the job alone. -/

/-! The file that the next step enters, if any, is told by the bare state, and so are the files
    entered in any number of steps. -/

theorem visited?_bare (job : Job) (p : Pass) : p.bare.visited? job = p.visited? job := by
  have hadmits := admits_bare job p
  obtain ⟨files, loops, aliases, ranges, registry, output⟩ := p
  unfold visited?
  rw [hadmits]
  cases files with
  | nil => rfl
  | cons f outer =>
    obtain ⟨path, id, n, unread, indentation⟩ := f
    cases unread <;> rfl

theorem visits_eq {s t : Step} (h : s.bare = t.bare) (n : Nat) :
    visits job n s = visits job n t := by
  induction n generalizing s t with
  | zero => cases s <;> cases t <;> rfl
  | succ n ih =>
    rcases Step.bare_cases h with ⟨o, o', rfl, rfl, _⟩ | ⟨p, q, rfl, rfl, hbare⟩
    · rfl
    · have hrest := ih (s := step job p) (t := step job q) (by rw [bare_step, hbare, ← bare_step])
      rw [visits, visits, hrest, ← visited?_bare, hbare, visited?_bare]

/-- **Which files a pass enters does not depend on the registry.** -/
theorem visitsFrom_eq (job : Job) (n : Nat) (r₁ r₂ : Registry) :
    visitsFrom job n r₁ = visitsFrom job n r₂ := by
  rw [visitsFrom, visitsFrom, visits_eq (bare_start job r₁ r₂)]

/-- **A second pass leaves the registry alone.** -/
theorem registry_process_process (job : Job) {r : Registry} (h : r.Indexed) :
    (process job (process job r).registry).registry = (process job r).registry := by
  obtain ⟨n, hfirst, hsecond, _⟩ := exists_after_eq_process_both job r (process job r).registry
  -- A registry ends as all the files entered, registered in order.
  have hr : (process job r).registry = r.registerAll (visitsFrom job n r) := by
    rw [← registry_after_start, hfirst]
    rfl
  have hr' : (process job (process job r).registry).registry =
      (process job r).registry.registerAll (visitsFrom job n r) := by
    rw [visitsFrom_eq job n r (process job r).registry, ← registry_after_start, hsecond]
    rfl
  rw [hr', hr, h.registerAll_self]

end Pass

/-! ## Texts that show paths for numbers

  Numbers occur in the text only in markers, and a marker has the path of its file beside the
  number.  Rendering with a function for the number and the path makes the text of one registry
  comparable with that of another. -/

/-- The text of a piece in which a marker shows its file in another way than by its number. -/
def Piece.renderAs (shown : Nat → Path → Text) : Piece → Text
  | .marker isolated line file path =>
    (if isolated then separator else []) ++ "\n#line ".toList ++ Text.ofNat line ++ ' ' ::
      shown file path ++ " // ".toList ++ path.text ++ ['\n']
  | piece => piece.render

namespace Piece

/-- Showing the number is how pieces are rendered. -/
theorem renderAs_ofNat : renderAs (fun file _ => Text.ofNat file) = render := by
  funext piece
  cases piece <;> rfl

/-- A marker that shows what its path tells is rendered without looking at the number. -/
theorem renderAs_bare (shown : Path → Text) (piece : Piece) :
    piece.bare.renderAs (fun _ path => shown path) = piece.renderAs (fun _ path => shown path) := by
  cases piece <;> rfl

/-- Texts are the same where pieces are, but for numbers, and every marker shows what its path
    tells. -/
theorem flatMap_renderAs_eq {shown₁ shown₂ : Nat → Path → Text} (told : Path → Text)
    {as bs : List Piece} (h : as.map bare = bs.map bare)
    (h₁ : ∀ isolated n file path, .marker isolated n file path ∈ as → shown₁ file path = told path)
    (h₂ : ∀ isolated n file path, .marker isolated n file path ∈ bs →
      shown₂ file path = told path) :
    as.flatMap (renderAs shown₁) = bs.flatMap (renderAs shown₂) := by
  -- Rendered by path, both are texts of the same bare pieces.
  have by_path : ∀ {shown : Nat → Path → Text} {pieces : List Piece},
      (∀ isolated n file path, .marker isolated n file path ∈ pieces →
        shown file path = told path) →
      pieces.flatMap (renderAs shown) =
        (pieces.map bare).flatMap (renderAs fun _ path => told path) := by
    intro shown pieces hshown
    rw [List.flatMap_map]
    refine List.flatMap_congr fun piece hmem => ?_
    rw [renderAs_bare]
    cases piece with
    | marker isolated n file path => simp only [renderAs, hshown isolated n file path hmem]
    | _ => rfl
  rw [by_path h₁, by_path h₂, h]

end Piece

/-- What is registered under a number, spelled out. -/
def Registry.nameOf (r : Registry) (id : Nat) : Text := (r.pathOf? id).elim [] Path.text

/-- The text of pieces in which every marker shows the path registered under its number. -/
def Piece.renderNamed (r : Registry) (pieces : List Piece) : Text :=
  pieces.flatMap (renderAs fun file _ => r.nameOf file)

namespace Preprocessor

/-- The markers of a pass are signed with numbers that are registered under their paths. -/
theorem markers_of_process {p : Preprocessor} {pieces : List Piece} (hok : p.process.2 = .ok pieces)
    {isolated : Bool} {n file : Nat} {path : Path} (h : .marker isolated n file path ∈ pieces) :
    path.IsNormal ∧ p.process.1.registry.idOf? path = some file := by
  obtain ⟨q, hreached, houtput, hregistry⟩ := Pass.exists_reached_of_process_eq_ok hok
  have hsigned := Pass.Signed.of_reached p.isNormal_root hreached
  have hregistry : q.registry = p.process.1.registry := hregistry
  rw [← houtput] at h
  rw [← hregistry]
  exact hsigned.markers isolated n file path (List.mem_reverse.1 h)

/-- Read the other way: the number in a marker is registered for the path beside it. -/
theorem pathOf?_of_process {p : Preprocessor} (hsound : p.registry.Sound) {pieces : List Piece}
    (hok : p.process.2 = .ok pieces) {isolated : Bool} {n file : Nat} {path : Path}
    (h : .marker isolated n file path ∈ pieces) :
    p.process.1.registry.pathOf? file = some path := by
  obtain ⟨hnormal, hid⟩ := markers_of_process hok h
  exact (sound_process hsound).pathOf?_of_idOf? hnormal hid

/-- Passes over one job write the same text, or end in the same error, where they leave files
    numbered alike. -/
theorem renderAll_of_idOf? {p q : Preprocessor} (hjob : q.job = p.job)
    (hid : ∀ path, q.process.1.registry.idOf? path = p.process.1.registry.idOf? path) :
    q.process.2.map Piece.renderAll = p.process.2.map Piece.renderAll := by
  obtain ⟨n, _, _, hbare⟩ := Pass.exists_after_eq_process_both p.job p.registry q.registry
  rw [← hjob] at hbare
  have hresult : p.process.2.map (·.map Piece.bare) = q.process.2.map (·.map Piece.bare) := by
    unfold process
    rw [← hjob]
    exact congrArg Outcome.result hbare
  cases h₁ : p.process.2 with
  | error e =>
    cases h₂ : q.process.2 with
    | error e' => rw [h₁, h₂] at hresult; cases hresult; rfl
    | ok pieces => rw [h₁, h₂] at hresult; cases hresult
  | ok pieces =>
    cases h₂ : q.process.2 with
    | error e' => rw [h₁, h₂] at hresult; cases hresult
    | ok pieces' =>
      rw [h₁, h₂] at hresult
      have hpieces : pieces'.map Piece.bare = pieces.map Piece.bare := (Except.ok.inj hresult).symm
      -- Every marker of either pass shows the number that its path has after the first.
      let told : Path → Text := fun path => (p.process.1.registry.idOf? path).elim [] Text.ofNat
      have htext : pieces'.flatMap (Piece.renderAs fun file _ => Text.ofNat file) =
          pieces.flatMap (Piece.renderAs fun file _ => Text.ofNat file) :=
        Piece.flatMap_renderAs_eq told hpieces
          (fun isolated n file path hmem => by
            have hfile := (markers_of_process h₂ hmem).2
            rw [hid] at hfile
            simp only [told, hfile, Option.elim_some])
          (fun isolated n file path hmem => by
            simp only [told, (markers_of_process h₁ hmem).2, Option.elim_some])
      rw [Piece.renderAs_ofNat] at htext
      exact congrArg Except.ok htext

/-- A second pass writes the text of the first, or ends in its error. -/
theorem renderAll_process_process {p : Preprocessor} (h : p.registry.Indexed) :
    p.process.1.process.2.map Piece.renderAll = p.process.2.map Piece.renderAll := by
  have hregistry : p.process.1.process.1.registry = p.process.1.registry :=
    Pass.registry_process_process p.job h
  exact renderAll_of_idOf? rfl fun path => by rw [hregistry]

/-- **A pass does not depend on history** but for the numbers of files.  From any two registries
    that came about in earlier passes, a pass ends in the same error, or it writes texts that are
    equal when every marker shows the path registered under its number; every number in a marker is
    registered, and under the path that stands beside it.  A second pass with nothing changed writes
    the same text, or ends in the same error, and leaves the registry as it was, with no entry
    changed and nothing told to a watcher. -/
theorem process_independent_of_history (p : Preprocessor) (r : Registry) (hp : p.registry.Arises)
    (hr : r.Arises) :
    ((∃ e, p.process.2 = .error e ∧ { p with registry := r }.process.2 = .error e) ∨
      ∃ pieces pieces', p.process.2 = .ok pieces ∧
        { p with registry := r }.process.2 = .ok pieces' ∧
        Piece.renderNamed p.process.1.registry pieces =
          Piece.renderNamed { p with registry := r }.process.1.registry pieces' ∧
        (∀ isolated n file path, .marker isolated n file path ∈ pieces →
          p.process.1.registry.pathOf? file = some path) ∧
        ∀ isolated n file path, .marker isolated n file path ∈ pieces' →
          { p with registry := r }.process.1.registry.pathOf? file = some path) ∧
    p.process.1.process.2.map Piece.renderAll = p.process.2.map Piece.renderAll ∧
    p.process.1.process.1.registry = p.process.1.registry := by
  have hindexed := hp.sound.toIndexed
  refine ⟨?_, renderAll_process_process hindexed, Pass.registry_process_process p.job hindexed⟩
  -- `q` is the same preprocessor with the other registry; the two passes end alike but for numbers.
  generalize hq : ({ p with registry := r } : Preprocessor) = q
  have hqsound : q.registry.Sound := by rw [← hq]; exact hr.sound
  obtain ⟨n, _, _, hbare⟩ := Pass.exists_after_eq_process_both p.job p.registry r
  have hresult : p.process.2.map (·.map Piece.bare) = q.process.2.map (·.map Piece.bare) := by
    rw [← hq]
    exact congrArg Outcome.result hbare
  cases h₁ : p.process.2 with
  | error e =>
    cases h₂ : q.process.2 with
    | error e' =>
      rw [h₁, h₂] at hresult
      cases hresult
      exact .inl ⟨e, rfl, rfl⟩
    | ok pieces' => rw [h₁, h₂] at hresult; cases hresult
  | ok pieces =>
    cases h₂ : q.process.2 with
    | error e' => rw [h₁, h₂] at hresult; cases hresult
    | ok pieces' =>
      rw [h₁, h₂] at hresult
      have marked : ∀ isolated n file path, .marker isolated n file path ∈ pieces →
          p.process.1.registry.pathOf? file = some path :=
        fun _ _ _ _ hmem => pathOf?_of_process hp.sound h₁ hmem
      have marked' : ∀ isolated n file path, .marker isolated n file path ∈ pieces' →
          q.process.1.registry.pathOf? file = some path :=
        fun _ _ _ _ hmem => pathOf?_of_process hqsound h₂ hmem
      -- Shown by path, a marker of either text shows the path that stands in it.
      refine .inr ⟨pieces, pieces', rfl, rfl, ?_, marked, marked'⟩
      refine Piece.flatMap_renderAs_eq Path.text (Except.ok.inj hresult) ?_ ?_
      · intro isolated n file path hmem
        simp only [Registry.nameOf, marked isolated n file path hmem, Option.elim_some]
      · intro isolated n file path hmem
        simp only [Registry.nameOf, marked' isolated n file path hmem, Option.elim_some]

/-- A session that passes over the included file alone. -/
def partAlone : Session :=
  .ofFiles (Memory.ofList [(⟨"/part".toList⟩, .text "x\n".toList)]) ⟨"/part".toList⟩ .empty {}

/-- The registry of that session after the pass, with a watcher attached. -/
def partFirst : Registry := (partAlone.run [.process, .attachWatcher "w".toList]).registry

/-- After that pass the included file has the number 0, which a pass over the root gives to the
    root. -/
theorem partFirst_eq : partFirst =
    { entries := [⟨⟨"/part".toList⟩, 0, true⟩]
      index := [([.root, .name "part".toList], 0)]
      watcher := some "w".toList
      journal := [.watch "w".toList ⟨"/part".toList⟩] } := by
  have ends : Pass.after partAlone.preprocessor.job 3 (Pass.start partAlone.preprocessor.job {}) =
      .stop ⟨Registry.append {} ⟨"/part".toList⟩ true, .ok [.source 0 1 "x".toList]⟩ := rfl
  have hprocess : (partAlone.perform .process).1.registry =
      Registry.append {} ⟨"/part".toList⟩ true := by
    rw [Session.registry, Session.preprocessor_process]
    exact congrArg Outcome.registry (Pass.process_of_after 3 ends)
  show (partAlone.perform .process).1.registry.attach "w".toList = _
  rw [hprocess]
  rfl

/-- From this registry the numbers in the text are not those of a fresh pass, and the texts agree
    once every marker shows a path. -/
theorem process_independent_of_history_partFirst :
    nestedLoops.registry.Arises ∧ partFirst.Arises ∧
    ∃ pieces pieces', nestedLoops.process.2 = .ok pieces ∧
      { nestedLoops with registry := partFirst }.process.2 = .ok pieces' ∧
      Piece.renderAll pieces ≠ Piece.renderAll pieces' ∧
      Piece.renderNamed nestedLoops.process.1.registry pieces =
        Piece.renderNamed { nestedLoops with registry := partFirst }.process.1.registry
          pieces' := by
  have hfresh : nestedLoops.registry.Arises := .fresh
  have harises : partFirst.Arises := Session.IsReached.arises ⟨_, _, _, _, _, rfl⟩
  obtain ⟨registry, registry', first, second, ends, ends', hdiffer⟩ :
      ∃ registry registry' first second,
        Pass.after nestedLoops.job 19 (Pass.start nestedLoops.job nestedLoops.registry) =
          .stop ⟨registry, .ok first⟩ ∧
        Pass.after nestedLoops.job 19 (Pass.start nestedLoops.job partFirst) =
          .stop ⟨registry', .ok second⟩ ∧
        Piece.renderAll first ≠ Piece.renderAll second := by
    rw [partFirst_eq]
    exact ⟨_, _, _, _, rfl, rfl, by decide⟩
  have hfirst : nestedLoops.process.2 = .ok first :=
    congrArg Outcome.result (Pass.process_of_after 19 ends)
  have hsecond : { nestedLoops with registry := partFirst }.process.2 = .ok second :=
    congrArg Outcome.result (Pass.process_of_after 19 ends')
  refine ⟨hfresh, harises, first, second, hfirst, hsecond, hdiffer, ?_⟩
  rcases (process_independent_of_history nestedLoops partFirst hfresh harises).1 with
    ⟨e, he, _⟩ | ⟨pieces, pieces', h₁, h₂, htext, _⟩
  · rw [hfirst] at he
    cases he
  · rw [hfirst] at h₁
    rw [hsecond] at h₂
    cases h₁
    cases h₂
    exact htext

end Preprocessor
end ShaderWeave
