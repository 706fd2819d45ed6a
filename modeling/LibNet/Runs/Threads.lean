import Mathlib

/-!
# Totals over finitely many threads

Each thread contributes a value, a count or a multiset of things it holds, that
depends on its control location.  Moving one thread changes the total by
exactly what that thread gives up and takes on.
-/

namespace LibNet.Runs

variable {Thread Control Value : Type} [Fintype Thread] [AddCommMonoid Value]

/-- What all threads contribute together. -/
def total (measure : Control → Value) (threads : Thread → Control) : Value :=
  ∑ thread, measure (threads thread)

/-- Moving one thread trades its old contribution for its new one. -/
theorem total_update [DecidableEq Thread] (measure : Control → Value)
    (threads : Thread → Control) (thread : Thread) (control : Control) :
    total measure (Function.update threads thread control) + measure (threads thread) =
      total measure threads + measure control := by
  have moved : (fun t => measure (Function.update threads thread control t)) =
      Function.update (fun t => measure (threads t)) thread (measure control) :=
    Function.comp_update measure threads thread control
  have stay := Finset.add_sum_erase Finset.univ (fun t => measure (threads t))
    (Finset.mem_univ thread)
  unfold total
  rw [moved, Finset.sum_update_of_mem (Finset.mem_univ thread), ← Finset.erase_eq,
    ← stay, add_comm (measure control), add_comm (measure (threads thread)), add_right_comm]

/-- A thread whose contribution does not change leaves the total alone. -/
theorem total_update_of_eq [DecidableEq Thread] [IsRightCancelAdd Value]
    {measure : Control → Value} {threads : Thread → Control} {thread : Thread}
    {control : Control} (same : measure control = measure (threads thread)) :
    total measure (Function.update threads thread control) = total measure threads := by
  have moved := total_update measure threads thread control
  rw [same] at moved
  exact add_right_cancel moved

/-- If every thread contributes nothing, so do all of them together. -/
theorem total_eq_zero {measure : Control → Value} {threads : Thread → Control}
    (nothing : ∀ thread, measure (threads thread) = 0) :
    total measure threads = 0 :=
  Finset.sum_eq_zero fun thread _ => nothing thread

end LibNet.Runs
