import Mathlib

/-!
# Labelled machines and their guarded runs

A machine has starting states and a partial labelled step function; a refused
step is `none`.  A run is guarded when every step it takes meets a condition on
the state before the step and the label, so a property that holds only of well
behaved schedules is stated over the states such runs reach.
-/

namespace LibNet.Runs

universe u v

/-- Where runs start, and what one labelled step does. -/
structure Machine (State : Type u) (Label : Type v) where
  Start : State → Prop
  step? : State → Label → Option State

namespace Machine

variable {State : Type u} {Label : Type v}

/-- The states reached by runs all of whose steps meet `Guard`. -/
inductive ReachableUnder (machine : Machine State Label)
    (Guard : State → Label → Prop) : State → Prop where
  | start {state : State} (starts : machine.Start state) :
      ReachableUnder machine Guard state
  | step {before after : State} {label : Label}
      (reached : ReachableUnder machine Guard before)
      (allowed : Guard before label)
      (taken : machine.step? before label = some after) :
      ReachableUnder machine Guard after

/-- The states reached by any run at all. -/
def Reachable (machine : Machine State Label) : State → Prop :=
  machine.ReachableUnder fun _ _ => True

/-- A weaker guard admits every run of a stronger one. -/
theorem ReachableUnder.mono {machine : Machine State Label}
    {Strong Weak : State → Label → Prop}
    (weaker : ∀ state label, Strong state label → Weak state label)
    {state : State} (reached : machine.ReachableUnder Strong state) :
    machine.ReachableUnder Weak state := by
  induction reached with
  | start starts => exact .start starts
  | step _ allowed taken ih => exact .step ih (weaker _ _ allowed) taken

theorem ReachableUnder.reachable {machine : Machine State Label}
    {Guard : State → Label → Prop} {state : State}
    (reached : machine.ReachableUnder Guard state) : machine.Reachable state :=
  reached.mono fun _ _ _ => trivial

/--
The invariant rule.  The step case may also use that the state before the step
was itself reached, so invariants proved earlier are available to later ones.
-/
theorem ReachableUnder.invariant {machine : Machine State Label}
    {Guard : State → Label → Prop} {Invariant : State → Prop}
    (initial : ∀ state, machine.Start state → Invariant state)
    (preserved : ∀ before label after, machine.ReachableUnder Guard before →
      Invariant before → Guard before label →
      machine.step? before label = some after → Invariant after)
    {state : State} (reached : machine.ReachableUnder Guard state) :
    Invariant state := by
  induction reached with
  | start starts => exact initial _ starts
  | step reached allowed taken ih => exact preserved _ _ _ reached ih allowed taken

/-- The invariant rule for unrestricted runs. -/
theorem Reachable.invariant {machine : Machine State Label}
    {Invariant : State → Prop}
    (initial : ∀ state, machine.Start state → Invariant state)
    (preserved : ∀ before label after, Invariant before →
      machine.step? before label = some after → Invariant after)
    {state : State} (reached : machine.Reachable state) : Invariant state :=
  ReachableUnder.invariant initial
    (fun before label after _ holds _ taken => preserved before label after holds taken)
    reached

/-- Replay a list of labels, refusing the first one that breaks the guard. -/
def follow (machine : Machine State Label) (Guard : State → Label → Prop)
    [∀ state label, Decidable (Guard state label)] :
    State → List Label → Option State
  | state, [] => some state
  | state, label :: rest =>
      if Guard state label then
        match machine.step? state label with
        | none => none
        | some next => follow machine Guard next rest
      else none

/-- A successful replay is a guarded run. -/
theorem reachableUnder_of_follow {machine : Machine State Label}
    {Guard : State → Label → Prop} [∀ state label, Decidable (Guard state label)]
    {labels : List Label} {first last : State}
    (reached : machine.ReachableUnder Guard first)
    (replayed : machine.follow Guard first labels = some last) :
    machine.ReachableUnder Guard last := by
  induction labels generalizing first with
  | nil =>
      cases replayed
      exact reached
  | cons label rest ih =>
      unfold follow at replayed
      split at replayed
      · next allowed =>
          split at replayed
          · cases replayed
          · next taken => exact ih (.step reached allowed taken) replayed
      · cases replayed

/-- A replay that ends in a state passing `test` yields a guarded run to one. -/
theorem exists_reachableUnder_of_follow (machine : Machine State Label)
    (Guard : State → Label → Prop) [∀ state label, Decidable (Guard state label)]
    (labels : List Label) {first : State} (test : State → Bool)
    (starts : machine.Start first)
    (replayed : (machine.follow Guard first labels).any test = true) :
    ∃ last, machine.ReachableUnder Guard last ∧ test last = true := by
  obtain ⟨last, ended, passes⟩ := (Option.any_eq_true _ _).mp replayed
  exact ⟨last, reachableUnder_of_follow (.start starts) ended, passes⟩

end Machine

end LibNet.Runs
