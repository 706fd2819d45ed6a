import LibNet.Base.IpcSem
import LibNet.Runs.Settle

/-!
# Getting into a section

What `sem_p` waits for.  While every `SETVAL` of `create_sem` succeeds, a process that
has the identifier of the set is kept out only by the process that created the set and
has not come to its `SETVAL`, or by the process inside.  A `SETVAL` that fails is never
made up for: the set stays at 0, and `create_sem` is refused as long as it exists.
-/

namespace LibNet.Base

open LibNet.Runs

variable {ι : Type} [DecidableEq ι]

section Calls

variable {state : Sections ι} {process : ι} {semid : Int}

theorem step?_setSemVal {semval : Nat} (present : state.set = some ⟨semid, semval⟩)
    (setting : state.setting process = some semid) :
    state.step? (.setSemVal process true) =
      some { state with
        set := some ⟨semid, 1⟩
        setting := Function.update state.setting process none } := by
  simp only [Sections.step?, setting, present, if_true]

variable (idle : state.setting process = none) (named : state.semid process = some semid)
include idle named

/-- `sem_p` of a process that has the identifier goes through at 1. -/
theorem step?_semP (present : state.set = some ⟨semid, 1⟩) :
    state.step? (.semP process true) =
      some { state with
        set := some ⟨semid, 0⟩
        inside := Function.update state.inside process true } := by
  have lowered : semP 1 = some 0 := rfl
  simp only [Sections.step?, idle, named, present, lowered, if_true]

/-- `sem_v` of the process inside goes through at 0. -/
theorem step?_semV (present : state.set = some ⟨semid, 0⟩)
    (inside : state.inside process = true) :
    state.step? (.semV process true) =
      some { state with
        set := some ⟨semid, 1⟩
        inside := Function.update state.inside process false } := by
  have raised : semV 0 = some 1 := rfl
  simp only [Sections.step?, idle, named, present, inside, raised, if_true]

end Calls

/-- A step in which no `SETVAL` fails. -/
def SetvalWorks (_ : Sections ι) : SemLabel ι → Prop
  | .setSemVal _ ok => ok = true
  | _ => True

instance (state : Sections ι) (label : SemLabel ι) : Decidable (SetvalWorks state label) :=
  match label with
  | .createSem _ _ => isTrue trivial
  | .setSemVal _ ok => inferInstanceAs (Decidable (ok = true))
  | .openSem _ => isTrue trivial
  | .semP _ _ => isTrue trivial
  | .semV _ _ => isTrue trivial

/-- Who is in the way of a process that waits: nobody has created the set, its creator
has not set it to 1, nobody is in the way, or the process inside is. -/
inductive Passage (state : Sections ι) : Prop where
  | absent (none_yet : state.set = none) (idle : ∀ process, state.setting process = none)
      (nameless : ∀ process, state.semid process = none)
      (outside : ∀ process, state.inside process = false)
  | created {semid : Int} {creator : ι} (present : state.set = some ⟨semid, 0⟩)
      (setting : state.setting creator = some semid)
      (others : ∀ process, process ≠ creator → state.setting process = none)
      (known : ∀ process id, state.semid process = some id → id = semid)
      (outside : ∀ process, state.inside process = false)
  | free {semid : Int} (present : state.set = some ⟨semid, 1⟩)
      (idle : ∀ process, state.setting process = none)
      (known : ∀ process id, state.semid process = some id → id = semid)
      (outside : ∀ process, state.inside process = false)
  | held {semid : Int} {holder : ι} (present : state.set = some ⟨semid, 0⟩)
      (idle : ∀ process, state.setting process = none)
      (known : ∀ process id, state.semid process = some id → id = semid)
      (named : state.semid holder = some semid) (inside : state.inside holder = true)
      (alone : ∀ process, state.inside process = true → process = holder)

/-- A process that opens the set learns its identifier. -/
theorem known_update {semid : ι → Option Int} {opened : Int} {process : ι}
    (known : ∀ process id, semid process = some id → id = opened) :
    ∀ other id, Function.update semid process (some opened) other = some id → id = opened := by
  intro other id
  by_cases same : other = process
  · rw [same, Function.update_self]
    exact fun learnt => (Option.some.inj learnt).symm
  · rw [Function.update_of_ne same]
    exact known other id

theorem named_update {semid : ι → Option Int} {opened : Int} {process holder : ι}
    (named : semid holder = some opened) :
    Function.update semid process (some opened) holder = some opened := by
  by_cases same : holder = process
  · rw [same, Function.update_self]
  · rw [Function.update_of_ne same, named]

theorem semP_zero (semval : Nat) : semP 0 ≠ some semval := nofun

theorem passage_step {before after : Sections ι} {label : SemLabel ι} (passage : Passage before)
    (allowed : SetvalWorks before label) (step : SectionStep before label after) :
    Passage after := by
  cases passage with
  | absent none_yet idle nameless outside =>
      cases step with
      | unchanged other => exact .absent none_yet idle nameless outside
      | @create process fresh absent =>
          refine .created rfl (Function.update_self process _ _) ?_ ?_ outside
          · intro other different
            simp only [Function.update_of_ne different, idle]
          · refine known_update fun other id learnt => ?_
            rw [nameless other] at learnt
            cases learnt
      | works present setting => cases none_yet.symm.trans present
      | fails present setting => cases allowed
      | opens present => cases none_yet.symm.trans present
      | enter present _ _ lowered => cases none_yet.symm.trans present
      | leave present _ _ inside raised => cases none_yet.symm.trans present
  | created here setting others known outside =>
      cases step with
      | unchanged other => exact .created here setting others known outside
      | create absent => cases absent.symm.trans here
      | works present returns =>
          cases here.symm.trans present
          exact .free rfl (idle_after_return others returns) known outside
      | fails present setting => cases allowed
      | opens present =>
          cases here.symm.trans present
          exact .created here setting others (known_update known) outside
      | @enter _ _ semval present _ _ lowered =>
          cases here.symm.trans present
          exact absurd lowered (semP_zero semval)
      | @leave process _ _ _ _ _ inside raised =>
          rw [outside process] at inside
          cases inside
  | free here idle known outside =>
      cases step with
      | unchanged other => exact .free here idle known outside
      | create absent => cases absent.symm.trans here
      | @works process _ present setting =>
          rw [idle process] at setting
          cases setting
      | fails present setting => cases allowed
      | opens present =>
          cases here.symm.trans present
          exact .free here idle (known_update known) outside
      | @enter process _ _ present _ named lowered =>
          cases here.symm.trans present
          obtain ⟨_, rfl⟩ := (semP_eq_some_iff (Nat.le_refl 1)).mp lowered
          exact .held rfl idle known named (Function.update_self process _ _)
            fun other => entered_alone outside
      | @leave process _ _ _ _ _ inside raised =>
          rw [outside process] at inside
          cases inside
  | held here idle known named inside alone =>
      cases step with
      | unchanged other => exact .held here idle known named inside alone
      | create absent => cases absent.symm.trans here
      | @works process _ present setting =>
          rw [idle process] at setting
          cases setting
      | fails present setting => cases allowed
      | opens present =>
          cases here.symm.trans present
          exact .held here idle (known_update known) (named_update named) inside alone
      | @enter _ _ semval present _ _ lowered =>
          cases here.symm.trans present
          exact absurd lowered (semP_zero semval)
      | @leave process _ _ present _ _ leaves raised =>
          cases here.symm.trans present
          obtain rfl := semV_eq raised
          refine .free rfl idle known (outside_after_leaving ?_ leaves)
          intro first second first_in second_in
          exact (alone first first_in).trans (alone second second_in).symm

theorem reachable_passage {state : Sections ι}
    (reached : (sectionMachine ι).ReachableUnder SetvalWorks state) : Passage state := by
  refine Machine.ReachableUnder.invariant ?_ ?_ reached
  · rintro first rfl
    exact .absent rfl (fun _ => rfl) (fun _ => rfl) fun _ => rfl
  · intro before label after _ passage allowed taken
    exact passage_step passage allowed (sectionStep_of_step? taken)

/-- A process that finds the set at 1 enters. -/
theorem enters_of_free {state : Sections ι} {process : ι} {semid : Int}
    (idle : state.setting process = none) (named : state.semid process = some semid)
    (present : state.set = some ⟨semid, 1⟩) :
    ∃ last, (sectionMachine ι).Path SetvalWorks state [.semP process true] last ∧
      last.inside process = true :=
  ⟨_, .cons trivial (step?_semP idle named present) (.nil _), Function.update_self process _ _⟩

/-- And so it does after a call that sets it to 1. -/
theorem enters_after {state middle : Sections ι} {label : SemLabel ι} {process : ι} {semid : Int}
    (taken : state.step? label = some middle) (allowed : SetvalWorks state label)
    (idle : middle.setting process = none) (named : middle.semid process = some semid)
    (present : middle.set = some ⟨semid, 1⟩) :
    ∃ last, (sectionMachine ι).Path SetvalWorks state ([label] ++ [.semP process true]) last ∧
      last.inside process = true := by
  obtain ⟨last, path, inside⟩ := enters_of_free idle named present
  exact ⟨last, .cons allowed taken path, inside⟩

/-- The second of two processes waits while the first is inside. -/
def oneWaits : List (SemLabel Bool) :=
  [.createSem false 5, .openSem true, .setSemVal false true, .semP false true]

/-- The set is at 0, nobody is about to change that, and nobody is inside. -/
structure Abandoned (state : Sections ι) : Prop where
  zero : state.set.map SemSet.semval = some 0
  idle : ∀ process, state.setting process = none
  outside : ∀ process, state.inside process = false

omit [DecidableEq ι] in
theorem Abandoned.present {state : Sections ι} (abandoned : Abandoned state) :
    ∃ set, state.set = some set ∧ set.semval = 0 :=
  Option.map_eq_some_iff.mp abandoned.zero

theorem Abandoned.step {before after : Sections ι} {label : SemLabel ι}
    (abandoned : Abandoned before) (step : SectionStep before label after) : Abandoned after := by
  obtain ⟨set, here, zero⟩ := abandoned.present
  cases step with
  | unchanged other => exact abandoned
  | create absent => cases absent.symm.trans here
  | @works process _ present setting =>
      rw [abandoned.idle process] at setting
      cases setting
  | @fails process _ _ present setting =>
      rw [abandoned.idle process] at setting
      cases setting
  | opens present => exact ⟨abandoned.zero, abandoned.idle, abandoned.outside⟩
  | @enter _ _ semval present _ _ lowered =>
      cases here.symm.trans present
      rw [zero] at lowered
      exact absurd lowered (semP_zero semval)
  | @leave process _ _ _ _ _ inside raised =>
      rw [abandoned.outside process] at inside
      cases inside

theorem Abandoned.path {first last : Sections ι} {labels : List (SemLabel ι)}
    {Guard : Sections ι → SemLabel ι → Prop} (abandoned : Abandoned first)
    (path : (sectionMachine ι).Path Guard first labels last) : Abandoned last := by
  induction path with
  | nil state => exact abandoned
  | cons allowed taken rest ih => exact ih (abandoned.step (sectionStep_of_step? taken))

/-- `sem_p` waits. -/
theorem Abandoned.waits {state : Sections ι} (abandoned : Abandoned state) (process : ι) :
    state.step? (.semP process true) = none := by
  obtain ⟨set, here, zero⟩ := abandoned.present
  cases called : state.step? (.semP process true) with
  | none => rfl
  | some after =>
      simp only [Sections.step?, here] at called
      split at called
      · next named same =>
          cases same
          rw [zero] at called
          cases called
      · cases called

/-- Only the creator of the set was in `create_sem`. -/
theorem abandoned_of_fails {before after : Sections ι} {creator : ι}
    (reached : (sectionMachine ι).Reachable before)
    (failed : before.step? (.setSemVal creator false) = some after) : Abandoned after := by
  cases sectionStep_of_step? failed with
  | unchanged other => exact absurd rfl (other creator false)
  | fails present setting =>
      cases reachable_semPhase reached with
      | absent none_yet _ _ => cases none_yet.symm.trans present
      | created _ here zero others outside =>
          refine ⟨?_, idle_after_return others setting, outside⟩
          simp only [here, Option.map_some, zero]
      | ready here idle _ _ _ =>
          rw [idle creator] at setting
          cases setting

end LibNet.Base
