import LibNet.Runs.Settle

/-!
# Refinement between machines

A detailed machine refines an abstract one when what is seen of its states moves as the abstract
machine does: a step of it is seen as one step of the other, or as none.  Then everything that
holds in the runs of the abstract machine holds of what is seen in the runs of the detailed one.
If besides the detailed machine can do every step of the abstract one, from some of its states to
others of them, both show the same runs.
-/

namespace LibNet.Runs

universe u v w x

variable {State : Type u} {Label : Type v} {Seen : Type w} {Action : Type x}

/-- The guard that asks of a step what another guard asks of the action it is seen as. -/
def Shown (view : State → Seen) (seen : State → Label → Option Action)
    (Guard : Seen → Action → Prop) (before : State) (label : Label) : Prop :=
  ∀ action ∈ seen before label, Guard (view before) action

/-- What is seen of a state, which action a step is seen as, and what every step keeps. -/
structure Refines (detailed : Machine State Label) (abstract : Machine Seen Action)
    (Invariant : State → Prop) (view : State → Seen) (seen : State → Label → Option Action) :
    Prop where
  starts : ∀ state, detailed.Start state → Invariant state ∧ abstract.Start (view state)
  kept : ∀ before label after, Invariant before → detailed.step? before label = some after →
    Invariant after
  hidden : ∀ before label after, Invariant before → detailed.step? before label = some after →
    seen before label = none → view after = view before
  visible : ∀ before label after action, Invariant before →
    detailed.step? before label = some after → seen before label = some action →
    abstract.step? (view before) action = some (view after)

/-- From the states that `Ready` holds of, the detailed machine does what the abstract one does. -/
structure Reproduces (detailed : Machine State Label) (abstract : Machine Seen Action)
    (Ready : State → Prop) (view : State → Seen) (seen : State → Label → Option Action) :
    Prop where
  starts : ∀ first, abstract.Start first →
    ∃ state, detailed.Start state ∧ Ready state ∧ view state = first
  steps : ∀ state action after, Ready state → abstract.step? (view state) action = some after →
    ∃ labels next, detailed.Path
      (Shown view seen fun shown own => shown = view state ∧ own = action) state labels next ∧
      Ready next ∧ view next = after

variable {detailed : Machine State Label} {abstract : Machine Seen Action}
  {Invariant Ready : State → Prop} {view : State → Seen} {seen : State → Label → Option Action}
  {Guard : Seen → Action → Prop}

theorem shown_of_hidden {before : State} {label : Label} (hidden : seen before label = none) :
    Shown view seen Guard before label := by
  intro action shown
  rw [hidden] at shown
  cases shown

theorem shown_of_visible {before : State} {label : Label} {action : Action}
    (visible : seen before label = some action) (allowed : Guard (view before) action) :
    Shown view seen Guard before label := by
  intro own shown
  rw [visible] at shown
  cases shown
  exact allowed

namespace Refines

theorem invariant (refines : Refines detailed abstract Invariant view seen)
    {Allowed : State → Label → Prop} {state : State}
    (reached : detailed.ReachableUnder Allowed state) : Invariant state := by
  induction reached with
  | start starts => exact (refines.starts _ starts).1
  | step _ _ taken ih => exact refines.kept _ _ _ ih taken

/-- A run whose visible steps meet a guard is seen as a run under that guard. -/
theorem reachableUnder (refines : Refines detailed abstract Invariant view seen) {state : State}
    (reached : detailed.ReachableUnder (Shown view seen Guard) state) :
    abstract.ReachableUnder Guard (view state) := by
  induction reached with
  | start starts => exact .start (refines.starts _ starts).2
  | @step before after label earlier allowed taken ih =>
      have holds := refines.invariant earlier
      cases shown : seen before label with
      | none =>
          rw [refines.hidden _ _ _ holds taken shown]
          exact ih
      | some action =>
          exact ih.step (allowed action shown) (refines.visible _ _ _ action holds taken shown)

end Refines

/-- Every run of the abstract machine is seen in a run of the detailed one. -/
theorem Reproduces.exists_reachableUnder
    (reproduces : Reproduces detailed abstract Ready view seen)
    {last : Seen} (reached : abstract.ReachableUnder Guard last) :
    ∃ state, detailed.ReachableUnder (Shown view seen Guard) state ∧ Ready state ∧
      view state = last := by
  induction reached with
  | start starts =>
      obtain ⟨state, started, ready, same⟩ := reproduces.starts _ starts
      exact ⟨state, .start started, ready, same⟩
  | @step before after action earlier allowed taken ih =>
      obtain ⟨state, there, ready, rfl⟩ := ih
      obtain ⟨labels, next, path, ready', same⟩ := reproduces.steps state action after ready taken
      refine ⟨next, Machine.Path.reachableUnder (path.mono ?_) there, ready', same⟩
      intro middle label shown own visible
      obtain ⟨here, rfl⟩ := shown own visible
      rw [here]
      exact allowed

end LibNet.Runs
