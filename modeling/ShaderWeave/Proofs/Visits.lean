/-
  What passes do to the registry.

  A pass registers the files it enters, one after the other, and does nothing else to the registry
  (`Pass.registry_step`).  Which file a step registers can be told from the line that is read
  (`Pass.visited?`); it does not depend on the registry.  The paths are in normal form, so
  registries that come about in any number of passes (`Registry.Arises`) are sound, and those of
  sessions are such registries (`Session.IsReached.arises`).

  A line marker names an open file, so its number is registered under its path (`Pass.Signed`).
-/
import ShaderWeave.Proofs.Numbering
import ShaderWeave.Session

namespace ShaderWeave

/-! ## Files that are entered

  Whether a step enters a file, and which, can be said before the step: the line is executed, asks
  for an include, and this leads to a file that is there and not open. -/

/-- Whether a piece is a line marker. -/
def Piece.isMarker : Piece → Bool
  | .marker .. => true
  | _ => false

/-- The registry when a step is done. -/
def Step.registry : Step → Registry
  | .next p => p.registry
  | .stop o => o.registry

namespace Pass

/-- An include leads to the absolute path of a spelling. -/
theorem exists_absolute_of_resolve? {job : Job} {including path : Path} {i : Inclusion}
    (h : resolve? job including i = some path) : ∃ q, path = job.source.absolute q := by
  unfold resolve? at h
  split at h
  · obtain ⟨q, _, rfl⟩ := Option.map_eq_some_iff.1 h
    exact ⟨q, rfl⟩
  · unfold Source.resolveAngled? at h
    simp only at h
    split at h
    · cases h
      exact ⟨_, rfl⟩
    · cases h

/-- So it leads to a path in normal form. -/
theorem isNormal_of_resolve? {job : Job} {including path : Path} {i : Inclusion}
    (h : resolve? job including i = some path) : path.IsNormal := by
  obtain ⟨q, rfl⟩ := exists_absolute_of_resolve? h
  exact Path.isNormal_absolute _ _

/-- The file is there and is not open. -/
def admits (job : Job) (p : Pass) (path : Path) : Bool :=
  (job.source.find? path).isSome && !p.files.any (·.path.same path)

/-- The file that the line read next asks to enter, and whether it is to be tracked; `none` where it
    asks for none, or for one that cannot be entered. -/
def visited? (job : Job) (p : Pass) : Option (Path × Bool) :=
  match p.files with
  | ⟨file, _, n, raw :: _, _⟩ :: _ =>
    if p.loops.head?.any (·.keys.isEmpty) || LoopHeader.isEnd raw.content then none
    else match Substitution.expandLine (p.environment job) job.config.maxSubstitutions
        ⟨file.text, n + 1⟩ raw.content with
      | .error _ => none
      | .ok line =>
        match Directive.parse line with
        | .ok (.inclusion i) => ((resolve? job file i).filter (p.admits job)).map (·, i.track)
        | _ => none
  | _ => none

/-! ## The registry after a step

    Again one lemma for each function of the step.  Only `enter` registers; the others leave the
    registry as it is, also where they stop with an error. -/

section Registering

variable {job : Job} {p : Pass} {file : OpenFile} {outer : List OpenFile}

/-- A file that is there and not open is registered, before its text is asked for: one that cannot
    be read is registered, too. -/
theorem registry_enter (path : Path) (track : Bool) (margin : Text) :
    (enter job p path track margin).registry =
      if p.admits job path then (p.registry.register path track).1 else p.registry := by
  rw [enter_eq]
  unfold admits
  cases job.source.find? path with
  | none => rfl
  | some content =>
    simp only [Option.isSome_some, Bool.true_and, Bool.not_eq_true']
    by_cases hopen : p.files.any (·.path.same path) = true
    · simp only [hopen, if_true]
      rfl
    · simp only [hopen]
      -- It is registered now, whatever becomes of its text.
      cases content with
      | unreadable reason => rfl
      | text t =>
        cases p.files with
        | nil => rfl
        | cons parent files => rfl

/-! The end of a loop registers nothing, nor does its start, nor a line that is skipped. -/

theorem registry_endLoop : (endLoop job p file outer).registry = p.registry := by
  unfold endLoop
  split
  · rfl
  · split
    · rfl
    · split
      · rfl
      · split
        · exact registry_mark _ _
        · exact registry_mark _ _

theorem registry_startLoop (header : LoopHeader) :
    (startLoop job p file outer header).registry = p.registry := by
  rw [startLoop_eq]
  split
  · rfl
  · unfold openLoop
    simp only
    split
    · rfl
    · split
      · rfl
      · split
        · rfl
        · exact registry_mark _ _

theorem registry_skip (l : Loop) (loops : List Loop) (line : Text) :
    (skip job p file outer l loops line).registry = p.registry := by
  unfold skip
  split
  · split
    · exact registry_endLoop
    · rfl
  · split <;> rfl

/-! A file stays registered when it is left, and when the pass is over. -/

theorem registry_leave : (leave job p outer).registry = p.registry := by
  have left : (Step.next (mark job { p with files := outer })).registry = p.registry :=
    registry_mark _ _
  unfold leave
  simp only
  split
  · exact left
  · split
    · rfl
    · exact left

theorem registry_finish : (finish job p).registry = p.registry := by
  unfold finish
  split
  · rfl
  · split <;> rfl

/-- Of all directives only an include registers a file, and only if it leads to one that may be
    entered. -/
theorem registry_perform (margin line : Text) (directive : Directive) :
    (perform job p file outer margin line directive).registry =
      p.registry.registerAll (match directive with
        | .inclusion i => ((resolve? job file.path i).filter (p.admits job)).map (·, i.track)
        | _ => none).toList := by
  cases directive with
  | version =>
    unfold perform
    simp only
    split <;> rfl
  | platform => exact registry_mark _ _
  | inclusion i =>
    rw [perform_inclusion]
    cases hr : resolve? job file.path i with
    | none =>
      simp only [hr]
      rfl
    | some path =>
      simp only [hr, registry_enter, Option.filter_some]
      split <;> rfl
  | loop header => exact registry_startLoop header
  | plain => rfl

/-- So a line registers what its include, once its tokens are replaced, leads to. -/
theorem registry_execute (margin line : Text) :
    (execute job p file outer margin line).registry =
      p.registry.registerAll (
        if LoopHeader.isEnd line then none
        else match Substitution.expandLine
          (p.environment job) job.config.maxSubstitutions p.location line with
          | .error _ => none
          | .ok line =>
            match Directive.parse line with
            | .ok (.inclusion i) =>
              ((resolve? job file.path i).filter (p.admits job)).map (·, i.track)
            | _ => none).toList := by
  unfold execute
  split
  · exact registry_endLoop
  · cases Substitution.expandLine
      (p.environment job) job.config.maxSubstitutions p.location line with
    | error e => rfl
    | ok line =>
      cases hd : Directive.parse line with
      | error fault =>
        simp only [hd]
        rfl
      | ok directive =>
        simp only [hd, registry_perform]
        cases directive <;> rfl

/-- **A step registers the file it enters** and nothing else.  What this is, `visited?` tells from
    the state alone. -/
theorem registry_step (job : Job) (p : Pass) :
    (step job p).registry = p.registry.registerAll (p.visited? job).toList := by
  cases hf : p.files with
  | nil =>
    unfold step visited?
    simp only [hf]
    exact registry_finish
  | cons f outer =>
    obtain ⟨path, id, n, unread, indentation⟩ := f
    cases unread with
    | nil =>
      unfold step visited?
      simp only [hf]
      exact registry_leave
    | cons raw unread =>
      cases hskip : p.loops.head?.any (·.keys.isEmpty) with
      | true =>
        -- Inside an empty loop no line asks for anything.
        have hnone : p.visited? job = none := by
          unfold visited?
          simp only [hf, hskip, Bool.true_or, if_true]
        obtain ⟨l, loops, hl⟩ : ∃ l loops, p.loops = l :: loops := by
          cases hl : p.loops with
          -- No loop, so nothing is skipped.
          | nil => rw [hl] at hskip; cases hskip
          | cons l loops => exact ⟨l, loops, rfl⟩
        have hk : l.keys = [] := by simpa [hl] using hskip
        rw [hnone, step_of_skipping hf rfl hl hk]
        exact registry_skip l loops _
      | false =>
        have ha : p.Active := by
          intro l hl hk
          rw [Option.mem_def.1 hl] at hskip
          simp [hk] at hskip
        -- The line that is read does not change which files are open.
        have hadmits : ∀ f : OpenFile, f.path = path →
            admits job { p with files := f :: outer } = p.admits job := by
          intro f hpath
          funext path'
          simp only [admits, hf, List.any_cons, hpath]
        rw [step_of_active hf rfl ha, registry_execute, hadmits _ rfl]
        unfold visited?
        simp only [hf, hskip, Bool.false_or]
        rfl

/-- The files that the next `n` steps register. -/
def visits (job : Job) : Nat → Step → List (Path × Bool)
  | n + 1, .next p => (p.visited? job).toList ++ visits job n (p.step job)
  | _, _ => []

/-- Any number of steps registers the files they enter, in order. -/
theorem registry_after (job : Job) (n : Nat) (s : Step) :
    (after job n s).registry = s.registry.registerAll (visits job n s) := by
  induction n generalizing s with
  | zero => cases s <;> rfl
  | succ n ih =>
    cases s with
    | stop o => rfl
    | next p =>
      rw [after, ih, registry_step, visits, Registry.registerAll_append]
      rfl

/-! A file that is entered is entered under an absolute path, and so are all that are entered in any
    number of steps. -/

theorem exists_absolute_of_visited? {v : Path × Bool} (h : p.visited? job = some v) :
    ∃ q, v.1 = job.source.absolute q := by
  unfold visited? at h
  split at h
  · split at h
    · cases h
    · split at h
      · cases h
      · split at h
        · obtain ⟨path, hpath, rfl⟩ := Option.map_eq_some_iff.1 h
          exact exists_absolute_of_resolve? (Option.filter_eq_some_iff.1 hpath).1
        · cases h
  · cases h

theorem exists_absolute_of_mem_visits {n : Nat} {s : Step} :
    ∀ v ∈ visits job n s, ∃ q, v.1 = job.source.absolute q := by
  induction n generalizing s with
  | zero => exact fun v hv => by cases s <;> exact absurd hv List.not_mem_nil
  | succ n ih =>
    cases s with
    | stop o => exact fun v hv => absurd hv List.not_mem_nil
    | next p =>
      intro v hv
      rcases List.mem_append.1 hv with hv | hv
      · exact exists_absolute_of_visited? (Option.mem_toList.1 hv)
      · exact ih v hv

/-- The files that a pass registers in its first step and in the next `n` steps. -/
def visitsFrom (job : Job) (n : Nat) (registry : Registry) : List (Path × Bool) :=
  (if (job.source.find? job.root).isSome then [(job.root, true)] else []) ++
    visits job n (start job registry)

/-- The registry of a pass at any time: the one it started with, and then the root, if it is there,
    and the files entered since. -/
theorem registry_after_start (job : Job) (n : Nat) (registry : Registry) :
    (after job n (start job registry)).registry =
      registry.registerAll (visitsFrom job n registry) := by
  have hstart : (start job registry).registry = registry.registerAll
      (if (job.source.find? job.root).isSome then [(job.root, true)] else []) := by
    unfold start
    rw [registry_enter]
    simp only [admits, initial, List.any_nil, Bool.not_false, Bool.and_true]
    split <;> rfl
  rw [registry_after, hstart, visitsFrom, Registry.registerAll_append]

/-- Whatever a pass registers has an absolute path, if its root has one. -/
theorem exists_absolute_of_mem_visitsFrom (hroot : ∃ q, job.root = job.source.absolute q) {n : Nat}
    {registry : Registry} : ∀ v ∈ visitsFrom job n registry, ∃ q, v.1 = job.source.absolute q := by
  intro v hv
  rcases List.mem_append.1 hv with hv | hv
  · split at hv
    · rw [List.mem_singleton.1 hv]
      exact hroot
    · cases hv
  · exact exists_absolute_of_mem_visits v hv

end Registering

/-! ## Markers

  A marker shows a number and a path.  The number was looked up when the file was entered, and it
  stays that of the path for the rest of the pass. -/

/-- The paths of open files are in normal form, and the number of a marker is registered under its
    path. -/
structure Signed (p : Pass) : Prop where
  files : ∀ f ∈ p.files, f.path.IsNormal
  markers : ∀ isolated n f path, .marker isolated n f path ∈ p.output →
    path.IsNormal ∧ p.registry.idOf? path = some f

namespace Signed

variable {job : Job} {p q : Pass} {f f' : OpenFile} {outer : List OpenFile}

/-- A piece is no marker, or it is the marker of an open file. -/
def Names (job : Job) (files : List OpenFile) (piece : Piece) : Prop :=
  piece.isMarker = true → ∃ f ∈ files, piece = marker job f

/-- What a step writes names open files, and what it keeps was signed before: so the output stays
    signed, as numbers are never given to another path (`hkept`). -/
theorem wrote (hp : Signed p) (hq : Grounded job q) (hfiles : ∀ f ∈ q.files, f.path.IsNormal)
    (hkept : ∀ {path id}, p.registry.idOf? path = some id → q.registry.idOf? path = some id)
    (pieces : List Piece) (hout : q.output = pieces ++ p.output)
    (hnew : ∀ piece ∈ pieces, Names job q.files piece) : Signed q := by
  refine ⟨hfiles, fun isolated n f path hmem => ?_⟩
  rw [hout] at hmem
  rcases List.mem_append.1 hmem with hmem | hmem
  · obtain ⟨g, hg, he⟩ := hnew _ hmem rfl
    cases he
    exact ⟨hfiles g hg, hq.ids g hg⟩
  · obtain ⟨hnormal, hid⟩ := hp.markers isolated n f path hmem
    exact ⟨hnormal, hkept hid⟩

/-- A step keeps the markers signed.  Each effect writes a piece, a marker, or both; that the number
    in the marker is the one of the file is the invariant `Grounded` of the state it leads to. -/
theorem transition (hp : Signed p) (hq : Grounded job q) (h : Transition job p q) : Signed q := by
  have hkept : ∀ {path id}, p.registry.idOf? path = some id → q.registry.idOf? path = some id :=
    idOf?_of_transition h
  -- A step that writes nothing.
  have silent : ∀ {files : List OpenFile}, ∀ piece ∈ ([] : List Piece), Names job files piece :=
    fun _ h => absurd h List.not_mem_nil
  -- A piece that is no marker.
  have plain : ∀ {piece : Piece} {files : List OpenFile}, piece.isMarker = false →
      ∀ piece' ∈ [piece], Names job files piece' := by
    intro piece files hn piece' hmem hm
    rw [List.mem_singleton.1 hmem, hn] at hm
    cases hm
  -- The marker of the innermost file, behind a piece that is none.
  have marked : ∀ {piece : Piece} {f : OpenFile} {outer : List OpenFile}, piece.isMarker = false →
      ∀ piece' ∈ [marker job f, piece], Names job (f :: outer) piece' := by
    intro piece f outer hn piece' hmem
    rcases List.mem_cons.1 hmem with rfl | hmem
    · exact fun _ => ⟨f, List.mem_cons_self, rfl⟩
    · exact plain hn piece' hmem
  -- The innermost file is read on, or back, under its path.
  have reread : ∀ {f f' : OpenFile} {outer : List OpenFile}, p.files = f :: outer →
      f'.path = f.path → ∀ g ∈ f' :: outer, g.path.IsNormal := by
    intro f f' outer hf hpath g hg
    rcases List.mem_cons.1 hg with rfl | hg
    · rw [hpath]
      exact hp.files f (mem_of_eq_cons hf)
    · exact hp.files g (mem_of_mem_rest hf hg)
  cases h with
  | @leave f outer hf hu hl =>
    cases outer with
    | nil => exact hp.wrote hq (fun g hg => absurd hg List.not_mem_nil) hkept [] rfl silent
    | cons g outer =>
      refine hp.wrote hq (fun g' hg => hp.files g' (mem_of_mem_rest hf hg)) hkept
        [marker job g] rfl ?_
      intro piece hmem _
      exact ⟨g, List.mem_cons_self, List.mem_singleton.1 hmem⟩
  | @line f outer raw unread q hf hu he =>
    cases he with
    | skip => exact hp.wrote hq (reread hf rfl) hkept [] rfl silent
    | deepen => exact hp.wrote hq (reread hf rfl) hkept [] rfl silent
    | rise => exact hp.wrote hq (reread hf rfl) hkept [] rfl silent
    | again => exact hp.wrote hq (reread hf rfl) hkept [_, _] rfl (marked rfl)
    | close => exact hp.wrote hq (reread hf rfl) hkept [_, _] rfl (marked rfl)
    | version => exact hp.wrote hq (reread hf rfl) hkept [_] rfl (plain rfl)
    | platform => exact hp.wrote hq (reread hf rfl) hkept [_, _] rfl (marked rfl)
    | @inclusion line i path t _ _ _ _ hr =>
      have advanced : ∀ g ∈ f.advance unread :: outer, g.path.IsNormal := reread hf rfl
      refine hp.wrote hq (fun g hg => ?_) hkept [_] rfl ?_
      · rcases List.mem_cons.1 hg with rfl | hg
        · exact isNormal_of_resolve? hr
        · exact advanced g hg
      · intro piece hmem _
        exact ⟨_, List.mem_cons_self, List.mem_singleton.1 hmem⟩
    | openEmpty => exact hp.wrote hq (reread hf rfl) hkept [_] rfl (plain rfl)
    | opens => exact hp.wrote hq (reread hf rfl) hkept [_, _] rfl (marked rfl)
    | plain => exact hp.wrote hq (reread hf rfl) hkept [_] rfl (plain rfl)

/-- **In every state a pass gets to, markers are signed with registered numbers.** -/
theorem of_reached {registry : Registry} (hroot : job.root.IsNormal) (h : Reached job registry p) :
    Signed p := by
  refine h.induct (fun p hp => ?_) fun p q hreached hp h => ?_
  · obtain ⟨t, _, rfl⟩ := start_eq_next hp
    refine ⟨fun f hf => ?_, fun _ _ _ _ hmem => absurd hmem List.not_mem_nil⟩
    rw [List.mem_singleton.1 hf]
    exact hroot
  · have hground := Grounded.of_reached hreached
    exact hp.transition (hground.transition
      ((Disciplined.of_reached hreached).transition h).toNested h) h

end Signed
end Pass

/-! ## Histories

  A session runs passes and commands between them, over one registry.  `Arises` are the registries
  that can come about so; `IsReached` are the sessions. -/

namespace Preprocessor

/-- The root of a pass is an absolute path, whatever it was set to. -/
theorem isNormal_root (p : Preprocessor) : p.job.root.IsNormal := Path.isNormal_absolute _ _

/-- A pass registers files and does nothing else to the registry. -/
theorem exists_registry_eq (p : Preprocessor) :
    ∃ n, p.process.1.registry = p.registry.registerAll (Pass.visitsFrom p.job n p.registry) := by
  obtain ⟨n, hn⟩ := Pass.exists_after_eq_process p.job p.registry
  refine ⟨n, ?_⟩
  rw [← Pass.registry_after_start, hn]
  rfl

/-- A pass keeps a registry sound, whether it succeeds or not. -/
theorem sound_process {p : Preprocessor} (h : p.registry.Sound) : p.process.1.registry.Sound := by
  obtain ⟨n, hn⟩ := p.exists_registry_eq
  rw [hn]
  refine h.registerAll fun v hv => ?_
  obtain ⟨q, hq⟩ := Pass.exists_absolute_of_mem_visitsFrom ⟨p.filename, rfl⟩ v hv
  rw [hq]
  exact Path.isNormal_absolute _ _

end Preprocessor

/-- Registries that come about in any number of passes, over whatever files, roots, dictionaries and
    configurations, with watchers and callbacks attached and run between them. -/
inductive Registry.Arises : Registry → Prop where
  | fresh : Arises {}
  | process {p : Preprocessor} (h : p.registry.Arises) : Arises p.process.1.registry
  | attach {r : Registry} (h : r.Arises) (watcher : Text) : Arises (r.attach watcher)
  | setCallback {r : Registry} (h : r.Arises) (callback : Callback) :
      Arises (r.setCallback callback)
  | notify {r : Registry} (h : r.Arises) : Arises r.notify

namespace Registry

/-! What is told to a callback changes neither the entries nor the index. -/

theorem entries_notify (r : Registry) : r.notify.entries = r.entries := by
  unfold notify
  split <;> rfl

theorem index_notify (r : Registry) : r.notify.index = r.index := by
  unfold notify
  split <;> rfl

/-- **Registries that arise are sound.**  A pass is the only one of the five ways that registers
    anything; the others change who is told. -/
theorem Arises.sound {r : Registry} (h : r.Arises) : r.Sound := by
  induction h with
  | fresh => exact sound_empty
  | process _ ih => exact Preprocessor.sound_process ih
  | attach _ _ ih => exact ih.of_eq rfl rfl
  | setCallback _ _ ih => exact ih.of_eq rfl rfl
  | notify _ ih => exact ih.of_eq (entries_notify _) (index_notify _)

/-- A change on disk is told to the callback once for each watch on the file; nothing is registered
    by it. -/
theorem entries_touch (r : Registry) (path : Path) : (r.touch path).1.entries = r.entries := by
  unfold touch
  simp only
  induction r.watchCount path with
  | zero => rfl
  | succ n ih => rw [Nat.repeat, entries_notify, ih]

/-- So a registry that arises does so after a change on disk. -/
theorem Arises.touch {r : Registry} (h : r.Arises) (path : Path) : (r.touch path).1.Arises := by
  unfold Registry.touch
  simp only
  induction r.watchCount path generalizing r with
  | zero => exact h
  | succ n ih => exact (ih h).notify

end Registry

namespace Session

/-- The session after commands. -/
def run (s : Session) (commands : List Command) : Session :=
  commands.foldl (fun s c => (s.perform c).1) s

/-- The answer to `process` is made of what the pass gave; the preprocessor is the one after the
    pass. -/
theorem preprocessor_process (s : Session) :
    (s.perform .process).1.preprocessor = s.preprocessor.process.1 := by
  unfold perform
  simp only
  split
  · next h => rw [h]
  · next h => rw [h]

/-- A compilation runs the same pass, and reads its log afterwards. -/
theorem preprocessor_compile (s : Session) (log : Option Text) :
    (s.perform (.compile log)).1.preprocessor = s.preprocessor.process.1 := by
  unfold perform Preprocessor.compile
  simp only
  split
  · next h => exact (Prod.mk.inj h).1.symm
  · next h => exact (Prod.mk.inj h).1.symm

/-- What is done to a registry without a pass. -/
inductive Informs (r : Registry) : Registry → Prop where
  | kept : Informs r r
  | attached (watcher : Text) : Informs r (r.attach watcher)
  | setCallback (callback : Callback) : Informs r (r.setCallback callback)
  | notified : Informs r r.notify
  | touched (path : Path) : Informs r (r.touch path).1

/-- What a command does to the preprocessor: it runs a pass, or it changes files and settings and
    tells watchers and callbacks. -/
inductive Affects (p : Preprocessor) : Preprocessor → Prop where
  | processed : Affects p p.process.1
  | changed {q : Preprocessor} (hs : q.source = p.source ∨ ∃ m : Memory, q.source = m.source)
      (hr : Informs p.registry q.registry) : Affects p q

/-- Every command does one of the two.  A setting that is set to what it was does nothing, one that
    changes tells the callback. -/
theorem affects_perform (s : Session) (c : Command) :
    Affects s.preprocessor (s.perform c).1.preprocessor := by
  cases c with
  | process =>
    rw [preprocessor_process]
    exact .processed
  | compile log =>
    rw [preprocessor_compile]
    exact .processed
  | setDictionary d =>
    show Affects s.preprocessor (s.preprocessor.setDictionary d)
    unfold Preprocessor.setDictionary
    split
    · exact .changed (.inl rfl) .kept
    · exact .changed (.inl rfl) .notified
  | setFilename path =>
    show Affects s.preprocessor (s.preprocessor.setFilename path)
    unfold Preprocessor.setFilename
    split
    · exact .changed (.inl rfl) .kept
    · exact .changed (.inl rfl) .notified
  | addIncludePath path =>
    have hadd : Affects s.preprocessor (s.preprocessor.addIncludePath path).1 := by
      unfold Preprocessor.addIncludePath
      split
      · exact .changed (.inl rfl) .kept
      · split <;> exact .changed (.inl rfl) .kept
    unfold perform
    simp only
    split
    · next he =>
      rw [he] at hadd
      exact hadd
    · next he =>
      rw [he] at hadd
      exact hadd
  | setConfig config => exact .changed (.inl rfl) .kept
  | attachWatcher name => exact .changed (.inl rfl) (.attached name)
  | setCallback tag => exact .changed (.inl rfl) (.setCallback _)
  | touch path => exact .changed (.inl rfl) (.touched path)
  | replaceFiles files => exact .changed (.inr ⟨_, rfl⟩) .kept
  | write path content => exact .changed (.inr ⟨_, rfl⟩) .kept
  | remove path => exact .changed (.inr ⟨_, rfl⟩) .kept

/-! Without a pass nothing is registered, and a registry that arises still does. -/

theorem Informs.entries_eq {r r' : Registry} (h : Informs r r') : r'.entries = r.entries := by
  cases h with
  | kept => rfl
  | attached => rfl
  | setCallback => rfl
  | notified => exact Registry.entries_notify r
  | touched path => exact Registry.entries_touch r path

theorem Informs.arises {r r' : Registry} (h : Informs r r') (hr : r.Arises) : r'.Arises := by
  cases h with
  | kept => exact hr
  | attached watcher => exact hr.attach watcher
  | setCallback callback => exact hr.setCallback callback
  | notified => exact hr.notify
  | touched path => exact hr.touch path

/-- A session that was started with some files, root, dictionary and configuration, and asked some
    commands. -/
def IsReached (s : Session) : Prop :=
  ∃ memory filename dictionary config commands,
    s = (ofFiles memory filename dictionary config).run commands

/-- What holds of every session at its start and what a command keeps, holds of every session. -/
theorem IsReached.induct {motive : Session → Prop} {s : Session} (h : s.IsReached)
    (hstart : ∀ memory filename dictionary config,
      motive (ofFiles memory filename dictionary config))
    (hstep : ∀ s c, motive s → motive (s.perform c).1) : motive s := by
  obtain ⟨memory, filename, dictionary, config, commands, rfl⟩ := h
  have kept : ∀ s, motive s → motive (s.run commands) := by
    induction commands with
    | nil => exact fun s hs => hs
    | cons c commands ih => exact fun s hs => ih _ (hstep s c hs)
  exact kept _ (hstart memory filename dictionary config)

/-- **The registry of a session arises**, whatever was asked of the session before. -/
theorem IsReached.arises {s : Session} (h : s.IsReached) : s.registry.Arises := by
  -- Only what a command does to the registry is looked at, not which command it was.
  refine h.induct (motive := fun s => s.registry.Arises)
    (fun _ _ _ _ => Registry.Arises.fresh) fun s c hs => ?_
  have haffects := affects_perform s c
  unfold registry at hs ⊢
  generalize (s.perform c).1.preprocessor = q at haffects
  cases haffects with
  | processed => exact .process hs
  | changed _ hr => exact hr.arises hs

end Session
end ShaderWeave
