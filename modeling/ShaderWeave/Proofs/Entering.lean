/-
  The files a pass enters.

  A file is entered when it is asked for, is there, and is not open already; that it can then be
  read is not needed.  It is asked for as the root, or by a line that is executed and turns out to
  be an include (`Pass.Enters`).  Entering is what registers files: a pass leaves the registry as it
  is after the files that it enters were registered one after the other (`Pass.registry_process`).

  `Pass.entered` lists these files in the order of entry, with repetitions, each with whether it is
  to be tracked.  It follows the run of the pass to its end, whatever the end is, by recursion on
  the same accessibility as `Pass.run`.
-/
import ShaderWeave.Proofs.Visits

namespace ShaderWeave
namespace Pass

/-- The line read next is executed and includes the file at `path`, which is there and is not open;
    the include says whether the file is to be tracked. -/
inductive Enters (job : Job) (p : Pass) (path : Path) : Bool → Prop where
  | inclusion {f outer raw unread line i} (hf : p.files = f :: outer)
      (hu : f.unread = raw :: unread) (ha : p.Active) (hc : LoopHeader.isEnd raw.content = false)
      (he : Expands job p (f.advance unread) raw line)
      (hd : Directive.parse line = .ok (.inclusion i)) (hr : resolve? job f.path i = some path)
      (hn : p.admits job path = true) : Enters job p path i.track

section Entering

variable {job : Job} {p : Pass} {path : Path} {track : Bool}

/-- Lines are read unless the innermost loop is empty. -/
theorem active_iff : p.Active ↔ p.loops.head?.any (·.keys.isEmpty) = false := by
  unfold Active
  cases p.loops.head? with
  | none => simp
  | some l => simp

/-- The file that a step registers is the one it enters. -/
theorem visited?_eq_some_iff : p.visited? job = some (path, track) ↔ Enters job p path track := by
  constructor
  · intro h
    unfold visited? at h
    split at h
    · next hf =>
      split at h
      · cases h
      · -- An unread line, not skipped and no end, that expands to an include of a file that is
        -- admitted.
        next hskip =>
        rw [Bool.or_eq_true, not_or, Bool.not_eq_true, Bool.not_eq_true] at hskip
        split at h
        · cases h
        · next line he =>
          split at h
          · next i hd =>
            obtain ⟨path', hpath, e⟩ := Option.map_eq_some_iff.1 h
            cases e
            obtain ⟨hr, hn⟩ := Option.filter_eq_some_iff.1 hpath
            exact .inclusion hf rfl (active_iff.2 hskip.1) hskip.2 he hd hr hn
          · cases h
    · cases h
  · rintro ⟨hf, hu, ha, hc, he, hd, hr, hn⟩
    next f outer raw unread line i =>
    obtain ⟨file, id, n, lines, indentation⟩ := f
    have hlines : lines = raw :: unread := hu
    have he : Substitution.expandLine (p.environment job) job.config.maxSubstitutions
        ⟨file.text, n + 1⟩ raw.content = .ok line := he
    unfold visited?
    simp only [hf, hlines, active_iff.1 ha, hc, Bool.or_self, Bool.false_eq_true, if_false, he, hd,
      hr, Option.filter_some, hn, if_true, Option.map_some]

/-! ## All files of a pass

  `entered` recurses on the run itself, so it needs no bound on the number of steps; proofs count
  steps instead, as `visits` does, and `entered_eq_visitsFrom` lets them: with as many steps as the
  pass has the two lists are one. -/

/-- The files that are entered from here on. -/
def enteredFrom (job : Job) (p : Pass) (h : Acc (Next job) p) : List (Path × Bool) :=
  (p.visited? job).toList ++
    match e : step job p with
    | .stop _ => []
    | .next q => enteredFrom job q (h.inv e)
termination_by (⟨p, h⟩ : { p // Acc (Next job) p })
decreasing_by exact e

/-- The files that a pass enters: the root, if it is there, and those that are included. -/
def entered (job : Job) (registry : Registry) : List (Path × Bool) :=
  (if (job.source.find? job.root).isSome then [(job.root, true)] else []) ++
    match e : start job registry with
    | .stop _ => []
    | .next p => enteredFrom job p (acc_start e)

/-- A pass that has stopped enters nothing. -/
theorem visits_stop (job : Job) (n : Nat) (o : Outcome) : visits job n (.stop o) = [] := by
  cases n <;> rfl

/-- What is entered up to the end is what any number of steps enters that comes to the end. -/
theorem enteredFrom_eq_visits {o : Outcome} :
    ∀ (n : Nat) (p : Pass) (h : Acc (Next job) p), after job n (.next p) = .stop o →
      enteredFrom job p h = visits job n (.next p) := by
  intro n
  induction n with
  | zero =>
    intro p h hend
    cases hend
  | succ n ih =>
    intro p h hend
    rw [after] at hend
    rw [enteredFrom, visits]
    congr 1
    split
    · next o' hs => rw [hs, visits_stop]
    · next q hs =>
      rw [hs] at hend
      exact (ih q _ hend).trans (congrArg (visits job n) hs.symm)

/-- The steps up to the end are those that enter files. -/
theorem entered_eq_visitsFrom {registry : Registry} {n : Nat} {o : Outcome}
    (h : after job n (start job registry) = .stop o) :
    entered job registry = visitsFrom job n registry := by
  rw [entered, visitsFrom]
  congr 1
  split
  · next o' hs => rw [hs, visits_stop]
  · next p hs =>
    rw [hs] at h
    exact (enteredFrom_eq_visits n p _ h).trans (congrArg (visits job n) hs.symm)

/-- **A pass registers the files it enters**, in this order, and does nothing else to the
    registry. -/
theorem registry_process (job : Job) (registry : Registry) :
    (process job registry).registry = registry.registerAll (entered job registry) := by
  obtain ⟨n, hn⟩ := exists_after_eq_process job registry
  rw [entered_eq_visitsFrom hn, ← registry_after_start, hn]
  rfl

/-- What some steps enter is entered by one of them. -/
theorem mem_visits_iff {n : Nat} {s : Step} {v : Path × Bool} :
    v ∈ visits job n s ↔ ∃ m p, m < n ∧ after job m s = .next p ∧ p.visited? job = some v := by
  induction n generalizing s with
  | zero =>
    constructor
    · intro h
      cases s <;> cases h
    · rintro ⟨m, p, hm, _⟩
      omega
  | succ n ih =>
    cases s with
    | stop o =>
      rw [visits_stop]
      constructor
      · intro h
        cases h
      · rintro ⟨m, p, _, hp, _⟩
        rw [after_stop] at hp
        cases hp
    | next q =>
      rw [visits, List.mem_append, ih, Option.mem_toList]
      constructor
      · -- Entered by the first step, or by one of the others, which is then one later.
        rintro (hv | ⟨m, p, hm, hp, hv⟩)
        · exact ⟨0, q, by omega, rfl, hv⟩
        · exact ⟨m + 1, p, by omega, hp, hv⟩
      · rintro ⟨m, p, hm, hp, hv⟩
        cases m with
        | zero =>
          cases hp
          exact .inl hv
        | succ m => exact .inr ⟨m, p, by omega, hp, hv⟩

/-- A file is entered as the root, or by a line in some state that the pass gets to. -/
theorem mem_entered_iff {registry : Registry} :
    (path, track) ∈ entered job registry ↔
      ((job.source.find? job.root).isSome = true ∧ path = job.root ∧ track = true) ∨
        ∃ p, Reached job registry p ∧ Enters job p path track := by
  obtain ⟨n, hn⟩ := exists_after_eq_process job registry
  rw [entered_eq_visitsFrom hn, visitsFrom, List.mem_append, mem_visits_iff]
  have hroot :
      (path, track) ∈ (if (job.source.find? job.root).isSome then [(job.root, true)] else []) ↔
        (job.source.find? job.root).isSome = true ∧ path = job.root ∧ track = true := by
    split
    · next h => simp [h]
    · next h => simp [h]
  rw [hroot]
  refine or_congr Iff.rfl ⟨?_, ?_⟩
  · rintro ⟨m, p, _, hp, hv⟩
    exact ⟨p, ⟨m, hp⟩, visited?_eq_some_iff.1 hv⟩
  · rintro ⟨p, ⟨m, hp⟩, hv⟩
    refine ⟨m, p, ?_, hp, visited?_eq_some_iff.2 hv⟩
    -- After the end of the pass there are no more states.
    rcases Nat.lt_or_ge m n with hlt | hge
    · exact hlt
    · obtain ⟨k, rfl⟩ := Nat.exists_eq_add_of_le hge
      rw [after_add, hn, after_stop] at hp
      cases hp

end Entering
end Pass
end ShaderWeave
