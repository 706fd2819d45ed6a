import LibNet.Runs.Machine

/-!
# Machines that come to rest

The surroundings of a machine may hand it more to do, and each label says how much it
hands in; a label that hands in nothing is work.  If every step makes what is left smaller
but for what the label handed in, then only so many steps are possible, and left to itself
the machine stops.  It remains to say what a state looks like in which no work can be done.
-/

namespace LibNet.Runs

universe u v

variable {State : Type u} {Label : Type v}

namespace Machine

/-- A run from one state to another by the given labels, all of which meet `Guard`. -/
inductive Path (machine : Machine State Label) (Guard : State → Label → Prop) :
    State → List Label → State → Prop where
  | nil (state : State) : Path machine Guard state [] state
  | cons {before middle last : State} {label : Label} {labels : List Label}
      (allowed : Guard before label) (taken : machine.step? before label = some middle)
      (rest : Path machine Guard middle labels last) :
      Path machine Guard before (label :: labels) last

namespace Path

variable {machine : Machine State Label} {Guard : State → Label → Prop} {first last : State}
  {labels : List Label}

theorem reachableUnder (path : machine.Path Guard first labels last)
    (reached : machine.ReachableUnder Guard first) : machine.ReachableUnder Guard last := by
  induction path with
  | nil state => exact reached
  | cons allowed taken rest ih => exact ih (reached.step allowed taken)

theorem mono {Weaker : State → Label → Prop} (path : machine.Path Guard first labels last)
    (weaker : ∀ state label, Guard state label → Weaker state label) :
    machine.Path Weaker first labels last := by
  induction path with
  | nil state => exact .nil state
  | cons allowed taken rest ih => exact .cons (weaker _ _ allowed) taken ih

theorem append {middle : State} {more : List Label}
    (path : machine.Path Guard first labels middle) (rest : machine.Path Guard middle more last) :
    machine.Path Guard first (labels ++ more) last := by
  induction path with
  | nil state => exact rest
  | cons allowed taken _ ih => exact .cons allowed taken (ih rest)

/-- A successful replay is a run by its labels. -/
theorem of_follow [∀ state label, Decidable (Guard state label)]
    (replayed : machine.follow Guard first labels = some last) :
    machine.Path Guard first labels last := by
  induction labels generalizing first with
  | nil =>
      cases replayed
      exact .nil _
  | cons label rest ih =>
      rw [Machine.follow] at replayed
      by_cases allowed : Guard first label
      · rw [if_pos allowed] at replayed
        cases taken : machine.step? first label with
        | none => simp [taken] at replayed
        | some next =>
            simp only [taken] at replayed
            exact .cons allowed taken (ih replayed)
      · rw [if_neg allowed] at replayed
        cases replayed

/-- What every step adds to a part of the state, all of a run has added to it. -/
theorem gathers {Item : Type} (part : State → List Item) (adds : Label → List Item)
    (step : ∀ before label after, machine.ReachableUnder Guard before → Guard before label →
      machine.step? before label = some after → part after = part before ++ adds label)
    (path : machine.Path Guard first labels last)
    (reached : machine.ReachableUnder Guard first) :
    part last = part first ++ labels.flatMap adds := by
  induction path with
  | nil state => exact (List.append_nil _).symm
  | cons allowed taken rest ih =>
      rw [ih (reached.step allowed taken), step _ _ _ reached allowed taken,
        List.flatMap_cons, List.append_assoc]

end Path

end Machine

/-- What is left to do, what a label hands in, what every allowed step keeps, and what the
machine has come to when no work can be done. -/
structure Settling (machine : Machine State Label) (Guard : State → Label → Prop)
    (handed : Label → Nat) (Invariant : State → Prop) (left : State → Nat)
    (Settled : State → Prop) : Prop where
  kept : ∀ before label after, Invariant before → Guard before label →
    machine.step? before label = some after → Invariant after
  less : ∀ before label after, Invariant before → Guard before label →
    machine.step? before label = some after → left after < left before + handed label
  settled : ∀ state, Invariant state →
    (∀ label, Guard state label → handed label = 0 → machine.step? state label = none) →
    Settled state

namespace Settling

variable {machine : Machine State Label} {Guard : State → Label → Prop} {handed : Label → Nat}
  {Invariant Settled : State → Prop} {left : State → Nat}

/-- A run has no more steps than what was left at its start and what was handed in. -/
theorem length_add_left_le (settling : Settling machine Guard handed Invariant left Settled)
    {first last : State} {labels : List Label} (holds : Invariant first)
    (path : machine.Path Guard first labels last) :
    labels.length + left last ≤ left first + (labels.map handed).sum := by
  induction path with
  | nil state => simp
  | cons allowed taken rest ih =>
      have less := settling.less _ _ _ holds allowed taken
      have bound := ih (settling.kept _ _ _ holds allowed taken)
      simp only [List.length_cons, List.map_cons, List.sum_cons]
      omega

theorem invariant_of_path (settling : Settling machine Guard handed Invariant left Settled)
    {first last : State} {labels : List Label} (holds : Invariant first)
    (path : machine.Path Guard first labels last) : Invariant last := by
  induction path with
  | nil state => exact holds
  | cons allowed taken rest ih => exact ih (settling.kept _ _ _ holds allowed taken)

/-- From every state work alone leads to a settled one. -/
theorem exists_settled (settling : Settling machine Guard handed Invariant left Settled)
    {first : State} (holds : Invariant first) :
    ∃ labels last, machine.Path Guard first labels last ∧ (labels.map handed).sum = 0 ∧
      Settled last := by
  induction bound : left first using Nat.strong_induction_on generalizing first with
  | _ amount ih =>
      by_cases stuck : ∀ label, Guard first label → handed label = 0 →
          machine.step? first label = none
      · exact ⟨[], first, .nil first, rfl, settling.settled first holds stuck⟩
      · push Not at stuck
        obtain ⟨label, allowed, work, possible⟩ := stuck
        obtain ⟨middle, taken⟩ := Option.ne_none_iff_exists'.mp possible
        have less := settling.less _ _ _ holds allowed taken
        rw [work, Nat.add_zero, bound] at less
        obtain ⟨labels, last, rest, nothing, ends⟩ :=
          ih (left middle) less (settling.kept _ _ _ holds allowed taken) rfl
        refine ⟨label :: labels, last, .cons allowed taken rest, ?_, ends⟩
        rw [List.map_cons, List.sum_cons, work, nothing]

end Settling

end LibNet.Runs
