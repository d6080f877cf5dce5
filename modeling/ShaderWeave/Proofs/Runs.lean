/-
  Runs of a pass.

  `Leads` and `Fails` are the two ways a run from a state can go, `Reached` says that a pass gets to
  a state.  `Reached.induct` turns what a transition keeps into what every pass keeps.

  Every pass ends: from the first state only finitely many steps can come, whatever the files, the
  dictionary and the configuration are, so one of them is the last.
-/
import ShaderWeave.Preprocessor
import ShaderWeave.Proofs.Expansion
import ShaderWeave.Proofs.Transition

namespace ShaderWeave
namespace Pass

/-- `q` comes some steps after `p`. -/
def Leads (job : Job) (p q : Pass) : Prop := ∃ n, after job n (.next p) = .next q

/-- From `p` the pass ends in an error. -/
def Fails (job : Job) (p : Pass) : Prop := ∃ n, IsError (after job n (.next p))

/-- A pass over the job gets to `p`. -/
def Reached (job : Job) (registry : Registry) (p : Pass) : Prop :=
  ∃ n, after job n (start job registry) = .next p

section Runs

variable {job : Job} {registry : Registry} {p q r : Pass}

/-! A pass that has stopped stays where it is, and steps are counted one after the other. -/

theorem after_stop (job : Job) (n : Nat) (o : Outcome) : after job n (.stop o) = .stop o := by
  cases n <;> rfl

theorem after_add (job : Job) (m n : Nat) (s : Step) :
    after job (m + n) s = after job n (after job m s) := by
  induction m generalizing s with
  | zero => rw [Nat.zero_add, after]
  | succ m ih =>
    cases s with
    | stop o => rw [after_stop, after_stop, after_stop]
    | next p => rw [Nat.succ_add, after, after, ih]

/-! Runs can be empty, be one step, and be put one behind the other. -/

theorem Leads.refl (job : Job) (p : Pass) : Leads job p p := ⟨0, rfl⟩

theorem Leads.of_step (h : step job p = .next q) : Leads job p q := ⟨1, by rw [after, h, after]⟩

theorem Leads.trans (h : Leads job p q) (k : Leads job q r) : Leads job p r := by
  obtain ⟨m, hm⟩ := h
  obtain ⟨n, hn⟩ := k
  exact ⟨m + n, by rw [after_add, hm, hn]⟩

/-! A run fails by its last step, whatever comes before. -/

theorem Fails.of_step (h : IsError (step job p)) : Fails job p := ⟨1, by rw [after, after]; exact h⟩

theorem Leads.fails (h : Leads job p q) (k : Fails job q) : Fails job p := by
  obtain ⟨m, hm⟩ := h
  obtain ⟨n, hn⟩ := k
  exact ⟨m + n, by rw [after_add, hm]; exact hn⟩

/-- The state a pass starts from: the root file is open, and nothing else. -/
theorem start_eq_next (h : start job registry = .next p) :
    ∃ t, job.source.find? job.root = some (.text t) ∧
      p = ⟨[⟨job.root, (registry.register job.root true).2, 0, t.lines, []⟩], [], .empty, .empty,
        (registry.register job.root true).1, []⟩ := by
  rw [start, initial, enter_eq] at h
  split at h
  · simp at h
  · next content hf =>
    split at h
    · simp at h
    · simp only at h
      split at h
      · cases h
      · next t => cases h; exact ⟨t, hf, rfl⟩

/-- The first step ends a pass where the root is not there, or cannot be read. -/
theorem start_eq_stop {o : Outcome} (h : start job registry = .stop o) :
    (job.source.find? job.root = none ∧
      o = ⟨registry, .error (.includeNotFound job.root ⟨[], 0⟩)⟩) ∨
      ∃ reason, job.source.find? job.root = some (.unreadable reason) ∧
        o = ⟨(registry.register job.root true).1, .error (.unreadable job.root reason)⟩ := by
  rw [start, initial, enter_eq] at h
  split at h
  · next hfind =>
    cases h
    exact .inl ⟨hfind, rfl⟩
  · next content hfind =>
    split at h
    · -- No file is open, so the root is no cycle.
      next hany => cases hany
    · simp only at h
      split at h
      · next reason =>
        cases h
        exact .inr ⟨reason, hfind, rfl⟩
      · cases h

/-- A pass starts where its root file can be read. -/
theorem start_of_find? {t : Text} (h : job.source.find? job.root = some (.text t))
    (registry : Registry) :
    start job registry =
      .next ⟨[⟨job.root, (registry.register job.root true).2, 0, t.lines, []⟩], [], .empty, .empty,
        (registry.register job.root true).1, []⟩ := by
  rw [start, initial, enter_eq, h]
  rfl

/-- What comes after a state that a pass gets to is a state that it gets to. -/
theorem Reached.leads (h : Reached job registry p) (k : Leads job p q) :
    Reached job registry q := by
  obtain ⟨m, hm⟩ := h
  obtain ⟨n, hn⟩ := k
  exact ⟨m + n, by rw [after_add, hm, hn]⟩

/-- **What a pass keeps**: an invariant of the first state that transitions keep, from states a pass
    gets to, holds in every state a pass gets to. -/
theorem Reached.induct {P : Pass → Prop} (hstart : ∀ p, start job registry = .next p → P p)
    (hstep : ∀ p q, Reached job registry p → P p → Transition job p q → P q)
    (h : Reached job registry p) : P p := by
  obtain ⟨n, hn⟩ := h
  induction n generalizing p with
  | zero => exact hstart p hn
  | succ n ih =>
    rw [after_add] at hn
    cases hp : after job n (start job registry) with
    | stop o =>
      rw [hp, after_stop] at hn
      cases hn
    | next p₀ =>
      rw [hp, after, after] at hn
      exact hstep p₀ p ⟨n, hp⟩ (ih hp) (step_eq_next_iff.1 hn)

/-- What transitions keep, a run keeps. -/
theorem Leads.keeps {P : Pass → Prop} (hstep : ∀ p q, P p → Transition job p q → P q)
    (h : Leads job p q) (hp : P p) : P q := by
  obtain ⟨n, hn⟩ := h
  induction n generalizing p with
  | zero =>
    cases hn
    exact hp
  | succ n ih =>
    cases hs : step job p with
    | stop o =>
      rw [after, hs, after_stop] at hn
      cases hn
    | next r =>
      rw [after, hs] at hn
      exact ih (hstep p r hp (step_eq_next_iff.1 hs)) hn

/-! ## Every pass ends

  That no run is endless was proved for the relation between a state and the next; here it is put in
  terms of runs.  Nothing is assumed of files, dictionary or configuration, and the outcome can be
  an error. -/

/-- From a state after which only finitely many steps come, the pass ends. -/
theorem exists_after_eq_stop (h : Acc (Next job) p) : ∃ n o, after job n (.next p) = .stop o := by
  -- The induction goes along the steps that can still come, of which there are finitely many.
  induction h with
  | intro p _ ih =>
    cases hs : step job p with
    | stop o => exact ⟨1, o, by rw [after, hs, after]⟩
    | next q =>
      obtain ⟨n, o, hn⟩ := ih q hs
      exact ⟨n + 1, o, by rw [after, hs, hn]⟩

/-- A pass ends where it starts, or with a step from a state it got to. -/
theorem stop_of_after {o : Outcome} {n : Nat} (h : after job n (start job registry) = .stop o) :
    start job registry = .stop o ∨ ∃ p, Reached job registry p ∧ step job p = .stop o := by
  induction n with
  | zero => exact .inl h
  | succ n ih =>
    rw [after_add] at h
    cases hn : after job n (start job registry) with
    | stop o' =>
      rw [hn, after_stop] at h
      cases h
      exact ih hn
    | next p =>
      rw [hn, after, after] at h
      exact .inr ⟨p, ⟨n, hn⟩, h⟩

/-- The outcome of a pass shows up after finitely many steps. -/
theorem exists_after_eq_process (job : Job) (registry : Registry) :
    ∃ n, after job n (start job registry) = .stop (process job registry) := by
  cases hs : start job registry with
  | stop o => exact ⟨0, congrArg Step.stop (process_of_after 0 hs).symm⟩
  | next p =>
    obtain ⟨n, o, hn⟩ := exists_after_eq_stop (acc_start hs)
    rw [← hs] at hn ⊢
    exact ⟨n, by rw [hn, process_of_after n hn]⟩

/-- What a pass comes to is what its first or its last step comes to. -/
theorem start_or_step_eq_process (job : Job) (registry : Registry) :
    start job registry = .stop (process job registry) ∨
      ∃ p, Reached job registry p ∧ step job p = .stop (process job registry) := by
  obtain ⟨n, hn⟩ := exists_after_eq_process job registry
  exact stop_of_after hn

/-- A pass ends well in a state in which it has left all files, with the pieces written by then. -/
theorem exists_finished_of_process_eq_ok {pieces : List Piece}
    (h : (process job registry).result = .ok pieces) :
    ∃ p, Reached job registry p ∧ p.files = [] ∧ p.output.reverse = pieces ∧
      p.registry = (process job registry).registry := by
  rcases start_or_step_eq_process job registry with hs | ⟨p, hreached, hs⟩
  · -- The first step ends a pass only in an error.
    rcases start_eq_stop hs with ⟨_, ho⟩ | ⟨reason, _, ho⟩
    · rw [ho] at h
      cases h
    · rw [ho] at h
      cases h
  · have ending := ending_of_step hs
    generalize process job registry = o at h ending
    cases ending with
    | finished hf =>
      cases h
      exact ⟨p, hreached, hf, rfl, rfl⟩
    | refused => cases h

/-- The pieces of a pass that ends well are those of the last state it gets to. -/
theorem exists_reached_of_process_eq_ok {pieces : List Piece}
    (h : (process job registry).result = .ok pieces) :
    ∃ p, Reached job registry p ∧ p.output.reverse = pieces ∧
      p.registry = (process job registry).registry := by
  obtain ⟨p, hreached, _, hpieces, hregistry⟩ := exists_finished_of_process_eq_ok h
  exact ⟨p, hreached, hpieces, hregistry⟩

/-- Along an endless run no step would be the last. -/
theorem after_eq_run {run : Nat → Pass} (h0 : start job registry = .next (run 0))
    (hrun : ∀ i, step job (run i) = .next (run (i + 1))) (n : Nat) :
    after job n (start job registry) = .next (run n) := by
  induction n with
  | zero => exact h0
  | succ n ih => rw [after_add, ih, after, after, hrun n]

end Runs

end Pass

/-- **Every pass ends.**  Its outcome shows up after finitely many steps and no run is endless;
    within a step, each line is expanded by at most as many replacements as the configuration
    allows. -/
theorem Preprocessor.process_ends (p : Preprocessor) :
    (∃ n, Pass.after p.job n (Pass.start p.job p.registry) =
      .stop ⟨p.process.1.registry, p.process.2⟩) ∧
    (¬∃ run : Nat → Pass, Pass.start p.job p.registry = .next (run 0) ∧
      ∀ i, Pass.step p.job (run i) = .next (run (i + 1))) ∧
    ∀ env loc line, ∃ n ≤ p.config.maxSubstitutions, ∃ out, Substitution.Replaces env n line out ∧
      Substitution.Halts env p.config.maxSubstitutions loc (p.config.maxSubstitutions - n) out
        (Substitution.expandLine env p.config.maxSubstitutions loc line) := by
  have ends := Pass.exists_after_eq_process p.job p.registry
  refine ⟨ends, ?_, ?_⟩
  · rintro ⟨run, h0, hrun⟩
    obtain ⟨n, hn⟩ := ends
    rw [Pass.after_eq_run h0 hrun n] at hn
    cases hn
  · intro env loc line
    exact Substitution.expandLine_halts env _ loc line

end ShaderWeave
