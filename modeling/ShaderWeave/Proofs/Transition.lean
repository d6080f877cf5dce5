/-
  What one step can do.

  `step` is a nest of matches; here it is said once, as a relation with one case for each way a step
  can go on, and every later invariant is a case analysis of that relation.

    * `Transition`  a file is left, or one line of the innermost file is read;
    * `Effect` what reading a line does: in an empty loop only the nesting of loops counts, at the
                    end of a loop its lines come again or the loop is closed, and any other line is
                    expanded and does what it asks for.

  The crux is `step_eq_next_iff`: a step goes on to `q` exactly where there is a transition to `q`.
  A step that does not go on ends the pass, with an error unless all files were left; `Rejection`
  and `Refusal` list the errors in the same way (`ending_of_step`).
-/
import ShaderWeave.Pass.Run

namespace ShaderWeave

/-- The file with one line more read; `unread` are the lines after it. -/
def OpenFile.advance (f : OpenFile) (unread : List Text) : OpenFile :=
  { f with line := f.line + 1, unread }

/-- The dictionaries of ranges and the name of the collection once a header is read: a header
    without a key makes the dictionary of its range. -/
def LoopHeader.gather (header : LoopHeader) (ranges : Dictionary) :
    Except Fault (Dictionary × Text) :=
  match header.key with
  | some _ => .ok (ranges, header.collection)
  | none => (Range.parse header.collection).map fun range =>
      (ranges.set range.name (.dictionary range.dictionary.entries), range.name)

/-- The first member of a list that was taken apart. -/
theorem mem_of_eq_cons {α : Type} {l rest : List α} {a : α} (h : l = a :: rest) : a ∈ l := by
  rw [h]
  exact List.mem_cons_self

/-- The other members of a list that was taken apart. -/
theorem mem_of_mem_rest {α : Type} {l rest : List α} {a b : α} (h : l = a :: rest) (hb : b ∈ rest) :
    b ∈ l := by
  rw [h]
  exact List.mem_cons_of_mem _ hb

namespace Pass

/-! ## Frame lemmas

    A marker is written to the output and touches nothing else. -/

@[simp] theorem aliases_mark (job : Job) (p : Pass) : (mark job p).aliases = p.aliases := by
  unfold mark; split <;> rfl

@[simp] theorem ranges_mark (job : Job) (p : Pass) : (mark job p).ranges = p.ranges := by
  unfold mark; split <;> rfl

@[simp] theorem registry_mark (job : Job) (p : Pass) : (mark job p).registry = p.registry := by
  unfold mark; split <;> rfl

/-- The marker of the line read last in a file. -/
def marker (job : Job) (f : OpenFile) : Piece :=
  .marker job.config.isolateMarkers f.line f.id f.path

/-! ## The relation

  Each constructor is one thing that a line can do, with all the conditions under which it does it,
  and with the whole state after it.  A proof that a step keeps something has a case for each, and
  never looks into the functions that make up the step. -/

/-- No empty loop is open innermost: lines are read, not skipped. -/
def Active (p : Pass) : Prop := ∀ l ∈ p.loops.head?, l.keys ≠ []

/-- The line `raw`, read last in `file`, is `line` once its tokens are replaced. -/
def Expands (job : Job) (p : Pass) (file : OpenFile) (raw line : Text) : Prop :=
  Substitution.expandLine (p.environment job) job.config.maxSubstitutions
    ⟨file.path.text, file.line⟩ raw.content = .ok line

/-- The file that an include in the file `path` leads to. -/
def resolve? (job : Job) (path : Path) (i : Inclusion) : Option Path :=
  match i.form with
  | .quoted => job.source.resolveQuoted? job.config.includePaths path i.path
  | .angled => job.source.resolveAngled? i.path

/-- What reading the line `raw` leads to; `file` is the innermost file with the line read, `outer`
    are the files around it. -/
inductive Effect (job : Job) (p : Pass) (file : OpenFile) (outer : List OpenFile) (raw : Text) :
    Pass → Prop where
  /-- In an empty loop a line is skipped, unread. -/
  | skip {l loops} (hl : p.loops = l :: loops) (hk : l.keys = [])
      (hc : LoopHeader.isEnd raw.content = false)
      (ho : LoopHeader.isHeader raw.content = false) :
      Effect job p file outer raw { p with files := file :: outer }
  /-- In an empty loop a header opens no loop, but is counted. -/
  | deepen {l loops} (hl : p.loops = l :: loops) (hk : l.keys = [])
      (hc : LoopHeader.isEnd raw.content = false)
      (ho : LoopHeader.isHeader raw.content = true) :
      Effect job p file outer raw
        { p with files := file :: outer, loops := { l with skipped := l.skipped + 1 } :: loops }
  /-- In an empty loop an end that belongs to a counted header is counted off. -/
  | rise {l loops n} (hl : p.loops = l :: loops) (hk : l.keys = [])
      (hc : LoopHeader.isEnd raw.content = true) (hn : l.skipped = n + 1) :
      Effect job p file outer raw
        { p with files := file :: outer, loops := { l with skipped := n } :: loops }
  /-- At the end of a loop with keys to come, its lines come again, and the next key is bound. -/
  | again {l loops k key more aliases} (hl : p.loops = l :: loops) (hk : l.keys = k :: key :: more)
      (hc : LoopHeader.isEnd raw.content = true) (hd : l.depth = outer.length)
      (hp : p.aliases.pop? = some aliases) :
      Effect job p file outer raw
        { p with
          files := { file with line := l.header, unread := l.body } :: outer
          loops := { l with keys := key :: more } :: loops
          aliases := aliases.push (l.bindings key)
          output := marker job { file with line := l.header, unread := l.body } ::
            .loopKey l.collection key :: p.output }
  /-- At the end of a loop with its last key, or of an empty one, the loop is closed. -/
  | close {l loops aliases} (hl : p.loops = l :: loops)
      (hk : (l.keys = [] ∧ l.skipped = 0) ∨ ∃ k, l.keys = [k])
      (hc : LoopHeader.isEnd raw.content = true) (hd : l.depth = outer.length)
      (hp : p.aliases.pop? = some aliases) :
      Effect job p file outer raw
        { p with
          files := file :: outer, loops, aliases
          output := marker job file :: .loopEnd l.collection :: p.output }
  /-- The directive for the version writes the version and extensions of the context. -/
  | version {line context} (ha : p.Active) (hc : LoopHeader.isEnd raw.content = false)
      (he : Expands job p file raw line) (hd : Directive.parse line = .ok .version)
      (hx : job.config.context = some context) :
      Effect job p file outer raw
        { p with files := file :: outer, output := .version file.id file.line context :: p.output }
  /-- The directive for the platform writes its block, and a marker behind it. -/
  | platform {line} (ha : p.Active) (hc : LoopHeader.isEnd raw.content = false)
      (he : Expands job p file raw line) (hd : Directive.parse line = .ok .platform) :
      Effect job p file outer raw
        { p with files := file :: outer, output := marker job file :: .platform :: p.output }
  /-- An include registers the file it leads to and opens it on top, indented by the margin of the
      line. -/
  | inclusion {line i path t} (ha : p.Active) (hc : LoopHeader.isEnd raw.content = false)
      (he : Expands job p file raw line) (hd : Directive.parse line = .ok (.inclusion i))
      (hr : resolve? job file.path i = some path) (hf : job.source.find? path = some (.text t))
      (hn : (file :: outer).any (·.path.same path) = false) :
      Effect job p file outer raw
        { p with
          registry := (p.registry.register path i.track).1
          files := ⟨path, (p.registry.register path i.track).2, 0, t.lines,
            file.indentation ++ raw.margin⟩ :: file :: outer
          output := marker job ⟨path, (p.registry.register path i.track).2, 0, t.lines,
            file.indentation ++ raw.margin⟩ :: p.output }
  /-- A header over an empty dictionary opens a loop without keys and an empty scope. -/
  | openEmpty {line header ranges collection resolved d} (ha : p.Active)
      (hc : LoopHeader.isEnd raw.content = false) (he : Expands job p file raw line)
      (hd : Directive.parse line = .ok (.loop header))
      (hg : header.gather p.ranges = .ok (ranges, collection))
      (hr : Environment.resolve? ⟨p.aliases, ranges, job.dictionary⟩ collection = some resolved)
      (hv : Environment.dictionary? ⟨p.aliases, ranges, job.dictionary⟩ resolved = some d)
      (hk : d.keys = []) :
      Effect job p file outer raw
        { p with
          files := file :: outer, ranges
          loops := ⟨outer.length, file.path.text, file.line, file.unread, header.key, header.value,
            resolved, [], 0⟩ :: p.loops
          aliases := p.aliases.push []
          output := .loopEmpty :: p.output }
  /-- Any other header opens a loop and a scope with its first key. -/
  | opens {line header ranges collection resolved d key more} {l : Loop} (ha : p.Active)
      (hc : LoopHeader.isEnd raw.content = false) (he : Expands job p file raw line)
      (hd : Directive.parse line = .ok (.loop header))
      (hg : header.gather p.ranges = .ok (ranges, collection))
      (hr : Environment.resolve? ⟨p.aliases, ranges, job.dictionary⟩ collection = some resolved)
      (hv : Environment.dictionary? ⟨p.aliases, ranges, job.dictionary⟩ resolved = some d)
      (hk : d.keys = key :: more)
      (hl : l = ⟨outer.length, file.path.text, file.line, file.unread, header.key, header.value,
        resolved, key :: more, 0⟩) :
      Effect job p file outer raw
        { p with
          files := file :: outer, ranges
          loops := l :: p.loops
          aliases := p.aliases.push (l.bindings key)
          output := marker job file :: .loopStart resolved key :: p.output }
  /-- Any other line is written, behind the indentation of its file and its own margin. -/
  | plain {line} (ha : p.Active) (hc : LoopHeader.isEnd raw.content = false)
      (he : Expands job p file raw line) (hd : Directive.parse line = .ok .plain) :
      Effect job p file outer raw
        { p with
          files := file :: outer
          output := .source file.id file.line (file.indentation ++ raw.margin ++ line) :: p.output }

/-- What a step that goes on does. -/
inductive Transition (job : Job) (p : Pass) : Pass → Prop where
  /-- A file of which all lines are read is left, unless a loop of its own is open. -/
  | leave {f outer} (hf : p.files = f :: outer) (hu : f.unread = [])
      (hl : ∀ l ∈ p.loops.head?, l.depth < outer.length) :
      Transition job p (mark job { p with files := outer })
  /-- A line is read, and does one of the above. -/
  | line {f outer raw unread q} (hf : p.files = f :: outer) (hu : f.unread = raw :: unread)
      (he : Effect job p (f.advance unread) outer raw q) : Transition job p q

/-! ## A step is a transition

    First from the step to the relation: one lemma for each function, by the branches it takes.
    Branches that stop contradict the hypothesis that the step goes on. -/

section Inversion

variable {job : Job} {p q : Pass} {file : OpenFile} {outer : List OpenFile} {raw : Text}

/-- The end of a loop either closes it or goes on with its next key.  `hs` says that the end does
    not belong to a header skipped before; the functions that come here have seen to it. -/
theorem effect_of_endLoop (hc : LoopHeader.isEnd raw.content = true)
    (hs : ∀ l ∈ p.loops.head?, l.keys = [] → l.skipped = 0)
    (h : endLoop job { p with files := file :: outer } file outer = .next q) :
    Effect job p file outer raw q := by
  unfold endLoop at h
  split at h
  · simp at h
  · -- The innermost loop has to be one of the innermost file.
    next l loops hl =>
    have hl : p.loops = l :: loops := hl
    split at h
    · simp at h
    · next hd =>
      have hd : l.depth = outer.length := by simpa using hd
      split at h
      · simp at h
      · next aliases hp =>
        split at h
        · -- Two keys are left or more: the loop takes up the second of them.
          next k key more hk =>
          cases h
          exact .again hl hk hc hd hp
        · next hk =>
          cases h
          -- Otherwise it is closed, in its last turn or skipped altogether.
          refine .close hl ?_ hc hd hp
          cases hkeys : l.keys with
          | nil => exact .inl ⟨rfl, hs l (by simp [hl]) hkeys⟩
          | cons k more =>
            cases more with
            | nil => exact .inr ⟨k, rfl⟩
            | cons key more => exact absurd hkeys (hk k key more)

/-- What a line does in an empty loop. -/
theorem effect_of_skip {l : Loop} {loops : List Loop} (hl : p.loops = l :: loops) (hk : l.keys = [])
    (h : skip job { p with files := file :: outer } file outer l loops raw.content = .next q) :
    Effect job p file outer raw q := by
  unfold skip at h
  split at h
  · next hc =>
    split at h
    · next hn => exact effect_of_endLoop hc (by simpa [hl] using fun _ => hn) h
    · -- The end of a loop that was counted; without such a loop it would be the end of this one.
      next n hn =>
      cases h
      exact .rise hl hk hc hn
  · next hc =>
    have hc : LoopHeader.isEnd raw.content = false := by simpa using hc
    split at h
    · next ho =>
      cases h
      exact .deepen hl hk hc ho
    · next ho =>
      cases h
      exact .skip hl hk hc (by simpa using ho)

/-- Opening the loop of a header, with both kinds of collection in one equation. -/
theorem startLoop_eq (header : LoopHeader) :
    startLoop job p file outer header =
      match header.gather p.ranges with
      | .error fault => p.reject fault
      | .ok (ranges, collection) =>
        openLoop job { p with ranges } file outer header collection := by
  unfold startLoop LoopHeader.gather
  cases header.key with
  | some key => rfl
  | none => cases Range.parse header.collection <;> rfl

/-- What a header does: it opens an empty loop or one with a first key. -/
theorem effect_of_startLoop {line : Text} {header : LoopHeader} (ha : p.Active)
    (hc : LoopHeader.isEnd raw.content = false) (he : Expands job p file raw line)
    (hd : Directive.parse line = .ok (.loop header))
    (h : startLoop job { p with files := file :: outer } file outer header = .next q) :
    Effect job p file outer raw q := by
  rw [startLoop_eq] at h
  split at h
  · simp at h
  · next ranges collection hg =>
    unfold openLoop at h
    simp only at h
    split at h
    · simp at h
    · next resolved hr =>
      split at h
      · simp at h
      · next d hv =>
        split at h
        · next hk =>
          rw [hk] at h
          cases h
          exact .openEmpty ha hc he hd hg hr hv hk
        · next key more hk =>
          rw [hk] at h
          cases h
          exact .opens ha hc he hd hg hr hv hk rfl

/-- What a line does that is not skipped: it ends a loop, or its directive is performed. -/
theorem effect_of_execute (ha : p.Active)
    (h : execute job { p with files := file :: outer } file outer raw.margin raw.content =
      .next q) :
    Effect job p file outer raw q := by
  unfold execute at h
  split at h
  · next hc =>
    -- An end; the loop it ends has a key, since lines are read.
    exact effect_of_endLoop hc (fun l hl hk => absurd hk (ha l hl)) h
  · next hc =>
    have hc : LoopHeader.isEnd raw.content = false := by simpa using hc
    split at h
    · simp at h
    · -- Any other line is expanded, and the directive is that of what comes out.
      next line he =>
      split at h
      · simp at h
      · next directive hd =>
        cases directive with
        | version =>
          simp only [perform] at h
          split at h
          · simp at h
          · next context hx =>
            cases h
            exact .version ha hc he hd hx
        | platform =>
          simp only [perform] at h
          cases h
          exact .platform ha hc he hd
        | inclusion i =>
          simp only [perform] at h
          split at h
          · simp at h
          · -- An include goes through four questions: where it leads, whether there is a file,
            -- whether this is open already, and whether it has a text.
            next path hr =>
            rw [enter_eq] at h
            split at h
            · simp at h
            · next content hf =>
              split at h
              · simp at h
              · next hn =>
                have hn : (file :: outer).any (·.path.same path) = false := by simpa using hn
                simp only at h
                split at h
                · cases h
                · next t =>
                  cases h
                  exact .inclusion ha hc he hd hr hf hn
        | loop header => exact effect_of_startLoop ha hc he hd h
        | plain =>
          cases h
          exact .plain ha hc he hd

/-- A step that goes on leaves a file or reads a line; with no file open it only ends. -/
theorem transition_of_step (h : step job p = .next q) : Transition job p q := by
  unfold step at h
  split at h
  · unfold finish at h
    split at h
    · simp at h
    · split at h
      · simp at h
      · cases h
  · next f outer hf =>
    split at h
    · next hu =>
      -- Where all lines are read, the file is left, unless a loop of its is open.
      unfold leave at h
      simp only at h
      split at h
      · next hl =>
        cases h
        exact .leave hf hu (by simp [hl])
      · next l loops hl =>
        split at h
        · simp at h
        · next hd =>
          cases h
          exact .leave hf hu (by simp [hl]; omega)
    · next raw unread hu =>
      simp only at h
      -- Else a line is read; the innermost loop tells whether it is skipped.
      refine .line hf hu ?_
      split at h
      · next l loops hl =>
        have hl : p.loops = l :: loops := hl
        split at h
        · next hk => exact effect_of_skip hl (by simpa using hk) h
        · next hk => exact effect_of_execute (by simpa [Active, hl] using hk) h
      · next hl =>
        have hl : p.loops = [] := hl
        exact effect_of_execute (by simp [Active, hl]) h

/-- Reading a line while lines are read, not skipped. -/
theorem step_of_active {f : OpenFile} {unread : List Text} (hf : p.files = f :: outer)
    (hu : f.unread = raw :: unread) (ha : p.Active) :
    step job p =
      execute job { p with files := f.advance unread :: outer } (f.advance unread) outer
        raw.margin raw.content := by
  unfold step
  simp only [hf, hu]
  cases hl : p.loops with
  | nil => rfl
  | cons l loops =>
    have hk : l.keys ≠ [] := ha l (by simp [hl])
    simp only [List.isEmpty_iff, hk, if_false]
    rfl

/-- Reading a line inside an empty loop. -/
theorem step_of_skipping {f : OpenFile} {unread : List Text} {l : Loop} {loops : List Loop}
    (hf : p.files = f :: outer) (hu : f.unread = raw :: unread) (hl : p.loops = l :: loops)
    (hk : l.keys = []) :
    step job p =
      skip job { p with files := f.advance unread :: outer } (f.advance unread) outer l loops
        raw.content := by
  unfold step
  simp only [hf, hu, hl, hk, List.isEmpty_nil, if_true]
  rfl

/-- The end of a loop with keys to come, computed. -/
theorem endLoop_again {l : Loop} {loops : List Loop} {k key : Text} {more : List Text}
    {aliases : AliasTable} (hl : p.loops = l :: loops) (hk : l.keys = k :: key :: more)
    (hd : l.depth = outer.length) (hp : p.aliases.pop? = some aliases) :
    endLoop job p file outer = .next
      { p with
        files := { file with line := l.header, unread := l.body } :: outer
        loops := { l with keys := key :: more } :: loops
        aliases := aliases.push (l.bindings key)
        output := marker job { file with line := l.header, unread := l.body } ::
          .loopKey l.collection key :: p.output } := by
  unfold endLoop
  simp only [hl, hd, ne_eq, not_true_eq_false, if_false, hp, hk]
  rfl

/-- The end of a loop without keys to come, computed. -/
theorem endLoop_close {l : Loop} {loops : List Loop} {aliases : AliasTable}
    (hf : p.files = file :: outer) (hl : p.loops = l :: loops)
    (hk : ∀ k key more, l.keys ≠ k :: key :: more) (hd : l.depth = outer.length)
    (hp : p.aliases.pop? = some aliases) :
    endLoop job p file outer = .next
      { p with
        files := file :: outer, loops, aliases
        output := marker job file :: .loopEnd l.collection :: p.output } := by
  unfold endLoop
  simp only [hl, hd, ne_eq, not_true_eq_false, if_false, hp, mark, emit, hf, marker]

/-- A line that does not end a loop is expanded and performed. -/
theorem execute_eq_perform {line : Text} {directive : Directive}
    (hc : LoopHeader.isEnd raw.content = false) (he : Expands job p file raw line)
    (hd : Directive.parse line = .ok directive) :
    execute job { p with files := file :: outer } file outer raw.margin raw.content =
      perform job { p with files := file :: outer } file outer raw.margin line directive := by
  unfold execute
  simp only [hc, Bool.false_eq_true, if_false]
  have he' : Substitution.expandLine (environment job { p with files := file :: outer })
      job.config.maxSubstitutions (location { p with files := file :: outer }) raw.content =
      .ok line := he
  rw [he']
  simp only [hd]

/-- An include, with both ways to look its file up in one equation. -/
theorem perform_inclusion (margin line : Text) (i : Inclusion) :
    perform job p file outer margin line (.inclusion i) =
      match resolve? job file.path i with
      | none => p.fail (.includeNotFound i.path p.location)
      | some path => enter job p path i.track margin :=
  rfl

/-- Then from the relation to the step: what the case asks for is what the function branches on. -/
theorem step_of_effect {f : OpenFile} {unread : List Text} (hf : p.files = f :: outer)
    (hu : f.unread = raw :: unread) (h : Effect job p (f.advance unread) outer raw q) :
    step job p = .next q := by
  cases h with
  -- The innermost loop is empty, and no line of it is executed.
  | skip hl hk hc ho =>
    rw [step_of_skipping hf hu hl hk]
    simp [Pass.skip, hc, ho]
  | deepen hl hk hc ho =>
    rw [step_of_skipping hf hu hl hk]
    simp [Pass.skip, hc, ho]
  | rise hl hk hc hn =>
    rw [step_of_skipping hf hu hl hk]
    simp [Pass.skip, hc, hn]
  -- The next two are ends; the second may come at the end of an empty loop, too.
  | again hl hk hc hd hp =>
    rw [step_of_active hf hu (by simp [Active, hl, hk]), execute, if_pos hc]
    exact endLoop_again hl hk hd hp
  | close hl hk hc hd hp =>
    rcases hk with ⟨hk, hn⟩ | ⟨k, hk⟩
    · rw [step_of_skipping hf hu hl hk, Pass.skip, if_pos hc, hn]
      exact endLoop_close rfl hl (by simp [hk]) hd hp
    · rw [step_of_active hf hu (by simp [Active, hl, hk]), execute, if_pos hc]
      exact endLoop_close rfl hl (by simp [hk]) hd hp
  | version ha hc he hd hx =>
    rw [step_of_active hf hu ha, execute_eq_perform hc he hd]
    simp only [perform, hx]
    rfl
  | platform ha hc he hd =>
    rw [step_of_active hf hu ha, execute_eq_perform hc he hd]
    rfl
  | @inclusion line i path t ha hc he hd hr hfind hn =>
    rw [step_of_active hf hu ha, execute_eq_perform hc he hd]
    rw [perform_inclusion, hr]
    simp only [enter_eq, hfind, hn, Bool.false_eq_true, if_false]
    rfl
  | openEmpty ha hc he hd hg hr hv hk =>
    rw [step_of_active hf hu ha, execute_eq_perform hc he hd]
    simp only [perform, startLoop_eq, hg, openLoop, environment, hr, hv, hk]
    rfl
  | opens ha hc he hd hg hr hv hk hl =>
    rw [step_of_active hf hu ha, execute_eq_perform hc he hd]
    subst hl
    simp only [perform, startLoop_eq, hg, openLoop, environment, hr, hv, hk]
    rfl
  | plain ha hc he hd =>
    rw [step_of_active hf hu ha, execute_eq_perform hc he hd]
    rfl

/-- **A step goes on exactly where there is a transition.** -/
theorem step_eq_next_iff : step job p = .next q ↔ Transition job p q := by
  constructor
  · exact transition_of_step
  · intro h
    cases h with
    | line hf hu he => exact step_of_effect hf hu he
    | leave hf hu hl =>
      unfold step
      simp only [hf, hu, leave]
      cases hloops : p.loops with
      | nil => rfl
      | cons l loops =>
        -- A file is left only if its loops are closed.
        have hd := hl l (by simp [hloops])
        simp only [Nat.not_le.2 hd, if_false]

end Inversion

/-! ## Steps that end the pass

  The errors of a pass are told in the same way: each constructor is one reason to stop, with the
  state in which it applies and the registry that is left behind. -/

/-- The ways in which the line `raw`, read last in `file`, ends the pass: the registry then, and the
    error. -/
inductive Rejection (job : Job) (p : Pass) (file : OpenFile) (outer : List OpenFile) (raw : Text) :
    Registry → Error → Prop where
  /-- An end where no loop is open. -/
  | endWithoutLoop (hl : p.loops = []) (hc : LoopHeader.isEnd raw.content = true) :
      Rejection job p file outer raw p.registry
        (.malformed .endWithoutLoop ⟨file.path.text, file.line⟩)
  /-- An end in another file than the header. -/
  | endInOtherFile {l loops} (hl : p.loops = l :: loops) (hs : l.keys = [] → l.skipped = 0)
      (hc : LoopHeader.isEnd raw.content = true) (hd : l.depth ≠ outer.length) :
      Rejection job p file outer raw p.registry
        (.malformed (.endInOtherFile l.file l.header) ⟨file.path.text, file.line⟩)
  /-- An end whose loop has no scope: no pass gets there. -/
  | scopeNotOpen {l loops} (hl : p.loops = l :: loops) (hc : LoopHeader.isEnd raw.content = true)
      (hp : p.aliases.pop? = none) :
      Rejection job p file outer raw p.registry
        (.malformed .scopeNotOpen ⟨file.path.text, file.line⟩)
  /-- A token that cannot be replaced, or too many of them. -/
  | expansion {e} (ha : p.Active) (hc : LoopHeader.isEnd raw.content = false)
      (he : Substitution.expandLine (p.environment job) job.config.maxSubstitutions
        ⟨file.path.text, file.line⟩ raw.content = .error e) :
      Rejection job p file outer raw p.registry e
  /-- A directive that is not well formed. -/
  | directive {line fault} (ha : p.Active) (hc : LoopHeader.isEnd raw.content = false)
      (he : Expands job p file raw line) (hd : Directive.parse line = .error fault) :
      Rejection job p file outer raw p.registry (.malformed fault ⟨file.path.text, file.line⟩)
  /-- A version asked for where no context is set. -/
  | missingContext {line} (ha : p.Active) (hc : LoopHeader.isEnd raw.content = false)
      (he : Expands job p file raw line) (hd : Directive.parse line = .ok .version)
      (hx : job.config.context = none) :
      Rejection job p file outer raw p.registry (.missingContext ⟨file.path.text, file.line⟩)
  /-- An include that is found nowhere. -/
  | unresolvedInclude {line i} (ha : p.Active) (hc : LoopHeader.isEnd raw.content = false)
      (he : Expands job p file raw line) (hd : Directive.parse line = .ok (.inclusion i))
      (hr : resolve? job file.path i = none) :
      Rejection job p file outer raw p.registry
        (.includeNotFound i.path ⟨file.path.text, file.line⟩)
  /-- An include that leads to a file that is not there. -/
  | absentFile {line i path} (ha : p.Active) (hc : LoopHeader.isEnd raw.content = false)
      (he : Expands job p file raw line) (hd : Directive.parse line = .ok (.inclusion i))
      (hr : resolve? job file.path i = some path) (hf : job.source.find? path = none) :
      Rejection job p file outer raw p.registry (.includeNotFound path ⟨file.path.text, file.line⟩)
  /-- An include that leads to a file that is open. -/
  | includeCycle {line i path content} (ha : p.Active) (hc : LoopHeader.isEnd raw.content = false)
      (he : Expands job p file raw line) (hd : Directive.parse line = .ok (.inclusion i))
      (hr : resolve? job file.path i = some path) (hf : job.source.find? path = some content)
      (hn : (file :: outer).any (·.path.same path) = true) :
      Rejection job p file outer raw p.registry (.includeCycle path ⟨file.path.text, file.line⟩)
  /-- An include of a file that cannot be read; the file is registered before it is read. -/
  | unreadable {line i path reason} (ha : p.Active) (hc : LoopHeader.isEnd raw.content = false)
      (he : Expands job p file raw line) (hd : Directive.parse line = .ok (.inclusion i))
      (hr : resolve? job file.path i = some path)
      (hf : job.source.find? path = some (.unreadable reason))
      (hn : (file :: outer).any (·.path.same path) = false) :
      Rejection job p file outer raw (p.registry.register path i.track).1 (.unreadable path reason)
  /-- A range that is not well formed. -/
  | range {line header fault} (ha : p.Active) (hc : LoopHeader.isEnd raw.content = false)
      (he : Expands job p file raw line) (hd : Directive.parse line = .ok (.loop header))
      (hg : header.gather p.ranges = .error fault) :
      Rejection job p file outer raw p.registry (.malformed fault ⟨file.path.text, file.line⟩)
  /-- A collection that is not there, or is no dictionary. -/
  | collection {line header ranges collection fault} (ha : p.Active)
      (hc : LoopHeader.isEnd raw.content = false) (he : Expands job p file raw line)
      (hd : Directive.parse line = .ok (.loop header))
      (hg : header.gather p.ranges = .ok (ranges, collection))
      (hr : Environment.resolve? ⟨p.aliases, ranges, job.dictionary⟩ collection = none ∨
        ∃ resolved, Environment.resolve? ⟨p.aliases, ranges, job.dictionary⟩ collection =
          some resolved ∧
          Environment.dictionary? ⟨p.aliases, ranges, job.dictionary⟩ resolved = none) :
      Rejection job p file outer raw p.registry
        (.substitution collection fault ⟨file.path.text, file.line⟩)

/-- The ways in which a step ends the pass with an error. -/
inductive Refusal (job : Job) (p : Pass) : Registry → Error → Prop where
  /-- A file ends inside a loop of its own. -/
  | fileEndsInLoop {f outer l} (hf : p.files = f :: outer) (hu : f.unread = [])
      (hl : l ∈ p.loops.head?) (hd : outer.length ≤ l.depth) :
      Refusal job p p.registry (.malformed .fileEndsInLoop ⟨l.file, l.header⟩)
  /-- All files are left, but a loop is open, or a scope.  No pass gets there. -/
  | passEndsInLoop {l} (hf : p.files = []) (hl : l ∈ p.loops.head?) :
      Refusal job p p.registry (.malformed .passEndsInLoop ⟨l.file, l.header⟩)
  | passEndsInScope (hf : p.files = []) (hl : p.loops = []) (hs : 0 < p.aliases.openScopes) :
      Refusal job p p.registry (.malformed .passEndsInScope ⟨job.root.text, 0⟩)
  /-- A line is rejected. -/
  | line {f outer raw unread registry e} (hf : p.files = f :: outer) (hu : f.unread = raw :: unread)
      (he : Rejection job p (f.advance unread) outer raw registry e) : Refusal job p registry e

/-- The ways in which a step ends the pass. -/
inductive Ending (job : Job) (p : Pass) : Outcome → Prop where
  | finished (hf : p.files = []) (hl : p.loops = []) (hs : p.aliases.openScopes = 0) :
      Ending job p ⟨p.registry, .ok p.output.reverse⟩
  | refused {registry e} (h : Refusal job p registry e) : Ending job p ⟨registry, .error e⟩

section Endings

variable {job : Job} {p : Pass} {file : OpenFile} {outer : List OpenFile} {raw : Text} {o : Outcome}

/-- An outcome that is an error the line `raw` is rejected with. -/
def Rejected (job : Job) (p : Pass) (file : OpenFile) (outer : List OpenFile) (raw : Text)
    (o : Outcome) : Prop :=
  ∃ e, o.result = .error e ∧ Rejection job p file outer raw o.registry e

/-- The end of a loop is rejected where there is no loop to end here. -/
theorem rejected_of_endLoop (hc : LoopHeader.isEnd raw.content = true)
    (hs : ∀ l ∈ p.loops.head?, l.keys = [] → l.skipped = 0)
    (h : endLoop job { p with files := file :: outer } file outer = .stop o) :
    Rejected job p file outer raw o := by
  unfold endLoop at h
  split at h
  · next hl => cases h; exact ⟨_, rfl, .endWithoutLoop hl hc⟩
  · next l loops hl =>
    have hl : p.loops = l :: loops := hl
    split at h
    · next hd => cases h; exact ⟨_, rfl, .endInOtherFile hl (hs l (by simp [hl])) hc hd⟩
    · split at h
      · next hp => cases h; exact ⟨_, rfl, .scopeNotOpen hl hc hp⟩
      · split at h <;> cases h

/-- A header is rejected for its range or its collection. -/
theorem rejected_of_startLoop {line : Text} {header : LoopHeader} (ha : p.Active)
    (hc : LoopHeader.isEnd raw.content = false) (he : Expands job p file raw line)
    (hd : Directive.parse line = .ok (.loop header))
    (h : startLoop job { p with files := file :: outer } file outer header = .stop o) :
    Rejected job p file outer raw o := by
  rw [startLoop_eq] at h
  split at h
  · next fault hg => cases h; exact ⟨_, rfl, .range ha hc he hd hg⟩
  · next ranges collection hg =>
    unfold openLoop at h
    simp only at h
    split at h
    · next hr => cases h; exact ⟨_, rfl, .collection ha hc he hd hg (.inl hr)⟩
    · next resolved hr =>
      split at h
      · next hv => cases h; exact ⟨_, rfl, .collection ha hc he hd hg (.inr ⟨resolved, hr, hv⟩)⟩
      · split at h <;> cases h

/-- A line that is not skipped is rejected as the end of a loop, for its tokens, or for its
    directive. -/
theorem rejected_of_execute (ha : p.Active)
    (h : execute job { p with files := file :: outer } file outer raw.margin raw.content =
      .stop o) :
    Rejected job p file outer raw o := by
  unfold execute at h
  split at h
  · next hc => exact rejected_of_endLoop hc (fun l hl hk => absurd hk (ha l hl)) h
  · next hc =>
    have hc : LoopHeader.isEnd raw.content = false := by simpa using hc
    split at h
    · next e he => cases h; exact ⟨_, rfl, .expansion ha hc he⟩
    · next line he =>
      split at h
      · next fault hd => cases h; exact ⟨_, rfl, .directive ha hc he hd⟩
      · next directive hd =>
        cases directive with
        | version =>
          simp only [perform] at h
          split at h
          · next hx => cases h; exact ⟨_, rfl, .missingContext ha hc he hd hx⟩
          · cases h
        | platform => cases h
        | inclusion i =>
          rw [perform_inclusion] at h
          split at h
          · next hr => cases h; exact ⟨_, rfl, .unresolvedInclude ha hc he hd hr⟩
          · -- An include is rejected by the first of its four questions that is answered with no.
            next path hr =>
            rw [enter_eq] at h
            split at h
            · next hf => cases h; exact ⟨_, rfl, .absentFile ha hc he hd hr hf⟩
            · next content hf =>
              split at h
              · next hn => cases h; exact ⟨_, rfl, .includeCycle ha hc he hd hr hf hn⟩
              · next hn =>
                simp only at h
                split at h
                · cases h; exact ⟨_, rfl, .unreadable ha hc he hd hr hf (by simpa using hn)⟩
                · cases h
        | loop header => exact rejected_of_startLoop ha hc he hd h
        | plain => cases h

/-- In an empty loop only the end of the loop can be rejected. -/
theorem rejected_of_skip {l : Loop} {loops : List Loop} (hl : p.loops = l :: loops)
    (h : skip job { p with files := file :: outer } file outer l loops raw.content = .stop o) :
    Rejected job p file outer raw o := by
  unfold skip at h
  split at h
  · next hc =>
    split at h
    · next hn => exact rejected_of_endLoop hc (by simpa [hl] using fun _ => hn) h
    · cases h
  · split at h <;> cases h

/-- A step that does not go on ends the pass in one of these ways. -/
theorem ending_of_step (h : step job p = .stop o) : Ending job p o := by
  have rejected : ∀ {f : OpenFile} {outer : List OpenFile} {raw : Text} {unread : List Text},
      p.files = f :: outer → f.unread = raw :: unread →
      Rejected job p (f.advance unread) outer raw o → Ending job p o := by
    -- A line that is rejected ends the pass with the error it is rejected with.
    rintro f outer raw unread hf hu ⟨e, ho, hr⟩
    obtain ⟨registry, result⟩ := o
    simp only at ho
    subst ho
    exact .refused (.line hf hu hr)
  unfold step at h
  split at h
  · next hf =>
    unfold finish at h
    split at h
    · next l loops hl => cases h; exact .refused (.passEndsInLoop hf (by simp [hl]))
    · next hl =>
      split at h
      · next hs => cases h; exact .refused (.passEndsInScope hf hl hs)
      · next hs => cases h; exact .finished hf hl (by omega)
  · next f outer hf =>
    split at h
    · next hu =>
      unfold leave at h
      simp only at h
      split at h
      · cases h
      · next l loops hl =>
        split at h
        · next hd => cases h; exact .refused (.fileEndsInLoop hf hu (by simp [hl]) hd)
        · cases h
    · next raw unread hu =>
      simp only at h
      split at h
      · next l loops hl =>
        have hl : p.loops = l :: loops := hl
        split at h
        · exact rejected hf hu (rejected_of_skip hl h)
        · next hk => exact rejected hf hu (rejected_of_execute (by simpa [Active, hl] using hk) h)
      · next hl =>
        have hl : p.loops = [] := hl
        exact rejected hf hu (rejected_of_execute (by simp [Active, hl]) h)

/-- An error that ends the pass is one of these. -/
theorem refusal_of_step {registry : Registry} {e : Error}
    (h : step job p = .stop ⟨registry, .error e⟩) : Refusal job p registry e := by
  have ending := ending_of_step h
  generalize ho : (⟨registry, .error e⟩ : Outcome) = o at ending
  cases ending with
  | finished => cases ho
  | refused h =>
    cases ho
    exact h

end Endings

/-- Whether a step ended the pass with an error. -/
def IsError (s : Step) : Prop := ∃ registry e, s = .stop ⟨registry, .error e⟩

end Pass
end ShaderWeave
