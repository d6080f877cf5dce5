/-
  Running a pass to its end.

  `run` repeats `step`; it needs no bound, because every pass ends (`acc_start`).  `run_of_after`
  computes it: the outcome that shows up after some number of steps is the outcome.
-/
import ShaderWeave.Pass.Termination

namespace ShaderWeave.Pass

/-- Steps until the pass stops. -/
def run (job : Job) (p : Pass) (h : Acc (Next job) p) : Outcome :=
  match e : step job p with
  | .stop o => o
  | .next q => run job q (h.inv e)
termination_by (⟨p, h⟩ : { p // Acc (Next job) p })
decreasing_by exact e

/-- A whole pass over the root file. -/
def process (job : Job) (registry : Registry) : Outcome :=
  match e : start job registry with
  | .stop o => o
  | .next p => run job p (acc_start e)

theorem run_of_after {job : Job} {o : Outcome} :
    ∀ (n : Nat) (p : Pass) (h : Acc (Next job) p), after job n (.next p) = .stop o → run job p h = o
  | 0, _, _, e => by simp [after] at e
  | n + 1, p, h, e => by
    rw [after] at e
    rw [run]
    split
    · next o' hs => rw [hs] at e; cases n <;> simpa [after] using e
    · next q hs => rw [hs] at e; exact run_of_after n q _ e

/-- The outcome that shows up after some number of steps is that of the pass. -/
theorem process_of_after {job : Job} {registry : Registry} {o : Outcome} (n : Nat)
    (e : after job n (start job registry) = .stop o) : process job registry = o := by
  unfold process
  split
  · next o' hs => rw [hs] at e; cases n <;> simpa [after] using e
  · next p hs => rw [hs] at e; exact run_of_after n p _ e

end ShaderWeave.Pass
