import LibNet.Runs.Machine

/-!
# Machines with a record

What the steps of a run have shown is often not in the state it reaches.  A recording
machine runs as before and keeps a list of it, which nothing else reads.
-/

namespace LibNet.Runs

universe u v w

variable {State : Type u} {Label : Type v} {Entry : Type w}

namespace Machine

/-- The machine together with a record of what its steps show. -/
def recording (machine : Machine State Label) (shows : State → Label → List Entry) :
    Machine (State × List Entry) Label where
  Start := fun recorded => machine.Start recorded.1 ∧ recorded.2 = []
  step? := fun recorded label =>
    (machine.step? recorded.1 label).map fun after =>
      (after, recorded.2 ++ shows recorded.1 label)

variable {machine : Machine State Label} {shows : State → Label → List Entry}

theorem recording_step? {before after : State × List Entry} {label : Label}
    (taken : (machine.recording shows).step? before label = some after) :
    machine.step? before.1 label = some after.1 ∧ after.2 = before.2 ++ shows before.1 label := by
  obtain ⟨state, moved, rfl⟩ := Option.map_eq_some_iff.mp taken
  exact ⟨moved, rfl⟩

variable (Guard : State → Label → Prop)

/-- Recording takes no steps of its own. -/
theorem ReachableUnder.of_recording {recorded : State × List Entry}
    (reached : (machine.recording shows).ReachableUnder (fun before => Guard before.1) recorded) :
    machine.ReachableUnder Guard recorded.1 := by
  induction reached with
  | start starts => exact .start starts.1
  | step _ allowed taken ih => exact .step ih allowed (recording_step? taken).1

/-- Every run has its record. -/
theorem ReachableUnder.exists_record {state : State}
    (reached : machine.ReachableUnder Guard state) (shows : State → Label → List Entry) :
    ∃ record, (machine.recording shows).ReachableUnder (fun before => Guard before.1)
      (state, record) := by
  induction reached with
  | start starts => exact ⟨[], .start ⟨starts, rfl⟩⟩
  | step _ allowed taken ih =>
      obtain ⟨record, recorded⟩ := ih
      exact ⟨_, recorded.step allowed (Option.map_eq_some_iff.mpr ⟨_, taken, rfl⟩)⟩

/-- The invariant rule for a state and its record. -/
theorem ReachableUnder.record_invariant {Invariant : State → List Entry → Prop}
    (initial : ∀ state, machine.Start state → Invariant state [])
    (preserved : ∀ before label after record, machine.ReachableUnder Guard before →
      Invariant before record → Guard before label →
      machine.step? before label = some after → Invariant after (record ++ shows before label))
    {state : State} {record : List Entry}
    (reached : (machine.recording shows).ReachableUnder (fun before => Guard before.1)
      (state, record)) : Invariant state record := by
  suffices general : ∀ recorded,
      (machine.recording shows).ReachableUnder (fun before => Guard before.1) recorded →
      Invariant recorded.1 recorded.2 from general _ reached
  intro recorded reached
  induction reached with
  | start starts =>
      rw [starts.2]
      exact initial _ starts.1
  | step reached allowed taken ih =>
      obtain ⟨moved, record⟩ := recording_step? taken
      rw [record]
      exact preserved _ _ _ _ (reached.of_recording Guard) ih allowed moved

end Machine

end LibNet.Runs
