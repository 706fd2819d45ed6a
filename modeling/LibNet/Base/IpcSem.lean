import LibNet.Runs.Machine

/-!
# Sections guarded by a System V semaphore

`create_sem`, `open_sem`, `sem_p` and `sem_v` of `ipc_sem.c`, called on one key by
any number of processes.  `create_sem` makes two system calls: `semget` creates the
set, whose semaphore starts at 0, and `SETVAL` then sets it to 1, so that another
process may open the set and wait on it in between.
-/

namespace LibNet.Base

open LibNet.Runs

/-- `SEMERR_BASE`. -/
def semerrBase : Int := 100

/-- `SEMERR_EEXIST`. -/
def semerrEexist : Int := semerrBase + 2

/-- `EEXIST`. -/
def eexist : Int := 17

/-- What `semget` comes back with: an identifier, or -1 and `errno`. -/
inductive Semget where
  | semid (id : Int)
  | failed (errno : Int)

/-- What `create_sem` does after `semget`: return, or write the identifier to
`*semid_ptr` and go on to `set_sem_val(*semid_ptr, 1)`. -/
inductive CreateNext where
  | returns (ret : Int)
  | setSemVal (semid : Int)

/-- `create_sem` after `semget`.  With an error other than `EEXIST` it goes on, the
error in the place of the identifier. -/
def createNext : Semget → CreateNext
  | .semid id => .setSemVal id
  | .failed errno => if errno = eexist then .returns semerrEexist else .setSemVal errno

/-- `open_sem` after `semget`: the return value, and what is written to
`*semid_ptr`. -/
def openSem : Semget → Int × Option Int
  | .semid id => (0, some id)
  | .failed errno => (errno, none)

/-- The largest value of a semaphore. -/
def semvmx : Nat := 32767

/-- `semop` of one operation: the new value; `none` if the operation waits for a
larger value or would exceed the largest one. -/
def semop (semval : Nat) (semOp : Int) : Option Nat :=
  if 0 ≤ semval + semOp ∧ semval + semOp ≤ semvmx then some (semval + semOp).toNat else none

/-- `sem_p`, when it does not fail. -/
def semP (semval : Nat) : Option Nat := semop semval (-1)

/-- `sem_v`, when it does not fail. -/
def semV (semval : Nat) : Option Nat := semop semval 1

theorem semP_eq_some_iff {semval after : Nat} (few : semval ≤ 1) :
    semP semval = some after ↔ semval = 1 ∧ after = 0 := by
  have largest : semvmx = 32767 := rfl
  unfold semP semop
  split
  · simp only [Option.some.injEq]
    omega
  · simp only [reduceCtorEq, false_iff]
    omega

theorem semV_eq {semval after : Nat} (raised : semV semval = some after) :
    after = semval + 1 := by
  unfold semV semop at raised
  split at raised
  · simp only [Option.some.injEq] at raised
    omega
  · cases raised

/-- A semaphore set with its one semaphore. -/
structure SemSet where
  semid : Int
  semval : Nat

/-- The set of the key, once it is created, and for every process: the identifier
`create_sem` is about to initialise, `*semid_ptr`, and whether the process is inside
its section. -/
structure Sections (ι : Type) where
  set : Option SemSet
  setting : ι → Option Int
  semid : ι → Option Int
  inside : ι → Bool

/-- The steps of the processes.  A flag tells whether a system call succeeds. -/
inductive SemLabel (ι : Type) where
  | createSem (process : ι) (fresh : Int)
  | setSemVal (process : ι) (ok : Bool)
  | openSem (process : ι)
  | semP (process : ι) (ok : Bool)
  | semV (process : ι) (ok : Bool)

namespace Sections

variable {ι : Type}

/-- Nobody has created the set. -/
def start : Sections ι := ⟨none, fun _ => none, fun _ => none, fun _ => false⟩

/-- `semget` with `IPC_CREAT | IPC_EXCL`; the set it creates starts at 0. -/
def semgetExcl (state : Sections ι) (fresh : Int) : Semget × Sections ι :=
  match state.set with
  | none => (.semid fresh, { state with set := some ⟨fresh, 0⟩ })
  | some _ => (.failed eexist, state)

/-- `semget` of an existing set; `ENOENT` is 2. -/
def semgetExisting (state : Sections ι) : Semget :=
  match state.set with
  | none => .failed 2
  | some set => .semid set.semid

variable [DecidableEq ι]

def step? (state : Sections ι) : SemLabel ι → Option (Sections ι)
  | .createSem process fresh =>
      match state.setting process with
      | some _ => none
      | none =>
          let got := state.semgetExcl fresh
          match createNext got.1 with
          | .returns _ => some got.2
          | .setSemVal id =>
              some { got.2 with
                setting := Function.update got.2.setting process (some id)
                semid := Function.update got.2.semid process (some id) }
  | .setSemVal process ok =>
      match state.setting process, state.set with
      | some id, some set =>
          let returned := { state with setting := Function.update state.setting process none }
          if ok then
            if id = set.semid then some { returned with set := some ⟨set.semid, 1⟩ } else none
          else some returned
      | _, _ => none
  | .openSem process =>
      match state.setting process with
      | some _ => none
      | none =>
          match openSem state.semgetExisting with
          | (_, none) => some state
          | (_, some id) =>
              some { state with semid := Function.update state.semid process (some id) }
  | .semP process ok =>
      match state.setting process, state.semid process, state.set with
      | none, some id, some set =>
          if ok then
            match semP set.semval with
            | none => none
            | some semval =>
                if id = set.semid then
                  some { state with
                    set := some ⟨set.semid, semval⟩
                    inside := Function.update state.inside process true }
                else none
          else some state
      | _, _, _ => none
  | .semV process ok =>
      match state.setting process, state.semid process, state.set, state.inside process with
      | none, some id, some set, true =>
          if ok then
            match semV set.semval with
            | none => none
            | some semval =>
                if id = set.semid then
                  some { state with
                    set := some ⟨set.semid, semval⟩
                    inside := Function.update state.inside process false }
                else none
          else some state
      | _, _, _, _ => none

end Sections

/-- Runs of the processes, from before the set exists. -/
def sectionMachine (ι : Type) [DecidableEq ι] : Machine (Sections ι) (SemLabel ι) where
  Start := fun state => state = .start
  step? := Sections.step?

variable {ι : Type} [DecidableEq ι]

/-- What a call does and finds.  A call that changes nothing is none of `SETVAL`. -/
inductive SectionStep (state : Sections ι) : SemLabel ι → Sections ι → Prop where
  | unchanged {label : SemLabel ι} (other : ∀ process ok, label ≠ .setSemVal process ok) :
      SectionStep state label state
  | create {process : ι} {fresh : Int} (absent : state.set = none) :
      SectionStep state (.createSem process fresh)
        { state with
          set := some ⟨fresh, 0⟩
          setting := Function.update state.setting process (some fresh)
          semid := Function.update state.semid process (some fresh) }
  | works {process : ι} {set : SemSet} (present : state.set = some set)
      (setting : state.setting process = some set.semid) :
      SectionStep state (.setSemVal process true)
        { state with
          set := some ⟨set.semid, 1⟩
          setting := Function.update state.setting process none }
  | fails {process : ι} {id : Int} {set : SemSet} (present : state.set = some set)
      (setting : state.setting process = some id) :
      SectionStep state (.setSemVal process false)
        { state with setting := Function.update state.setting process none }
  | opens {process : ι} {set : SemSet} (present : state.set = some set) :
      SectionStep state (.openSem process)
        { state with semid := Function.update state.semid process (some set.semid) }
  | enter {process : ι} {set : SemSet} {semval : Nat} (present : state.set = some set)
      (idle : state.setting process = none) (named : state.semid process = some set.semid)
      (lowered : semP set.semval = some semval) :
      SectionStep state (.semP process true)
        { state with
          set := some ⟨set.semid, semval⟩
          inside := Function.update state.inside process true }
  | leave {process : ι} {set : SemSet} {semval : Nat} (present : state.set = some set)
      (idle : state.setting process = none) (named : state.semid process = some set.semid)
      (inside : state.inside process = true) (raised : semV set.semval = some semval) :
      SectionStep state (.semV process true)
        { state with
          set := some ⟨set.semid, semval⟩
          inside := Function.update state.inside process false }

theorem sectionStep_of_step? {before after : Sections ι} {label : SemLabel ι}
    (taken : before.step? label = some after) : SectionStep before label after := by
  cases label with
  | createSem process fresh =>
      simp only [Sections.step?] at taken
      split at taken
      · cases taken
      · cases present : before.set with
        | none =>
            simp only [Sections.semgetExcl, present, createNext, Option.some.injEq] at taken
            subst taken
            exact .create present
        | some set =>
            simp only [Sections.semgetExcl, present, createNext, if_pos, Option.some.injEq] at taken
            subst taken
            exact .unchanged (by simp)
  | setSemVal process ok =>
      simp only [Sections.step?] at taken
      split at taken
      · next id set setting present =>
          cases ok with
          | true =>
              rw [if_pos rfl] at taken
              split at taken
              · next same =>
                  cases taken
                  exact .works present (by rw [setting, same])
              · cases taken
          | false =>
              cases taken
              exact .fails present setting
      · cases taken
  | openSem process =>
      simp only [Sections.step?] at taken
      split at taken
      · cases taken
      · cases present : before.set with
        | none =>
            simp only [Sections.semgetExisting, present, openSem, Option.some.injEq] at taken
            subst taken
            exact .unchanged (by simp)
        | some set =>
            simp only [Sections.semgetExisting, present, openSem, Option.some.injEq] at taken
            subst taken
            rw [← present]
            exact .opens present
  | semP process ok =>
      simp only [Sections.step?] at taken
      split at taken
      · next id set idle named present =>
          cases ok with
          | true =>
              rw [if_pos rfl] at taken
              split at taken
              · cases taken
              · next semval lowered =>
                  split at taken
                  · next same =>
                      cases taken
                      exact .enter present idle (by rw [named, same]) lowered
                  · cases taken
          | false =>
              cases taken
              exact .unchanged (by simp)
      · cases taken
  | semV process ok =>
      simp only [Sections.step?] at taken
      split at taken
      · next id set idle named present inside =>
          cases ok with
          | true =>
              rw [if_pos rfl] at taken
              split at taken
              · cases taken
              · next semval raised =>
                  split at taken
                  · next same =>
                      cases taken
                      exact .leave present idle (by rw [named, same]) inside raised
                  · cases taken
          | false =>
              cases taken
              exact .unchanged (by simp)
      · cases taken

/-! ## The three phases of the set -/

/-- Before the set exists, while its creator is about to set it to 1, and after. -/
inductive SemPhase (state : Sections ι) : Prop where
  | absent (none_yet : state.set = none) (idle : ∀ process, state.setting process = none)
      (outside : ∀ process, state.inside process = false)
  | created {set : SemSet} (creator : ι) (present : state.set = some set) (zero : set.semval = 0)
      (others : ∀ process, process ≠ creator → state.setting process = none)
      (outside : ∀ process, state.inside process = false)
  | ready {set : SemSet} (present : state.set = some set)
      (idle : ∀ process, state.setting process = none) (few : set.semval ≤ 1)
      (free : set.semval = 1 → ∀ process, state.inside process = false)
      (one : ∀ first second, state.inside first = true → state.inside second = true →
        first = second)

/-- The creator was the only process inside `create_sem`. -/
theorem idle_after_return {setting : ι → Option Int} {creator process : ι} {id : Int}
    (others : ∀ other, other ≠ creator → setting other = none)
    (returns : setting process = some id) :
    ∀ other, Function.update setting process none other = none := by
  intro other
  by_cases same : other = process
  · rw [same, Function.update_self]
  · rw [Function.update_of_ne same]
    refine others other fun is_creator => same ?_
    by_contra different
    rw [others process fun process_is => different (is_creator.trans process_is.symm)] at returns
    cases returns

theorem entered_alone {inside : ι → Bool} (outside : ∀ process, inside process = false)
    {process other : ι} (enters : Function.update inside process true other = true) :
    other = process := by
  by_contra different
  rw [Function.update_of_ne different, outside other] at enters
  cases enters

theorem outside_after_leaving {inside : ι → Bool}
    (one : ∀ first second, inside first = true → inside second = true → first = second)
    {process : ι} (leaves : inside process = true) :
    ∀ other, Function.update inside process false other = false := by
  intro other
  by_cases same : other = process
  · rw [same, Function.update_self]
  · rw [Function.update_of_ne same]
    by_contra not_outside
    exact same (one other process (by simpa using not_outside) leaves)

omit [DecidableEq ι] in
theorem one_of_outside {inside : ι → Bool} (outside : ∀ process, inside process = false) :
    ∀ first second, inside first = true → inside second = true → first = second := by
  intro first second enters
  rw [outside first] at enters
  cases enters

/-- Before the set exists only its creation changes anything. -/
theorem semPhase_step_absent {before after : Sections ι} {label : SemLabel ι}
    (none_yet : before.set = none) (idle : ∀ process, before.setting process = none)
    (outside : ∀ process, before.inside process = false)
    (step : SectionStep before label after) : SemPhase after := by
  cases step with
  | unchanged other => exact .absent none_yet idle outside
  | @create process fresh absent =>
      refine .created process rfl rfl ?_ outside
      intro other different
      simp only [Function.update_of_ne different, idle]
  | works present setting => cases none_yet.symm.trans present
  | fails present setting => cases none_yet.symm.trans present
  | opens present => cases none_yet.symm.trans present
  | enter present _ _ lowered => cases none_yet.symm.trans present
  | leave present _ _ inside raised => cases none_yet.symm.trans present

/-- A set that was just created is at 0, so nobody gets past `sem_p`. -/
theorem semPhase_step_created {before after : Sections ι} {label : SemLabel ι} {set : SemSet}
    {creator : ι} (here : before.set = some set) (zero : set.semval = 0)
    (others : ∀ process, process ≠ creator → before.setting process = none)
    (outside : ∀ process, before.inside process = false)
    (step : SectionStep before label after) : SemPhase after := by
  cases step with
  | unchanged other => exact .created creator here zero others outside
  | create absent => cases absent.symm.trans here
  | works present setting =>
      exact .ready rfl (idle_after_return others setting) (Nat.le_refl 1) (fun _ => outside)
        (one_of_outside outside)
  | fails present setting =>
      exact .ready here (idle_after_return others setting) (by omega) (fun _ => outside)
        (one_of_outside outside)
  | opens present => exact .created creator here zero others outside
  | enter present _ _ lowered =>
      cases here.symm.trans present
      rw [zero] at lowered
      cases (semP_eq_some_iff (Nat.zero_le 1)).mp lowered |>.1
  | @leave process _ _ _ _ _ inside raised =>
      rw [outside process] at inside
      cases inside

/-- An initialised set is at 1 only while nobody is inside. -/
theorem semPhase_step_ready {before after : Sections ι} {label : SemLabel ι} {set : SemSet}
    (here : before.set = some set) (idle : ∀ process, before.setting process = none)
    (few : set.semval ≤ 1) (free : set.semval = 1 → ∀ process, before.inside process = false)
    (one : ∀ first second, before.inside first = true → before.inside second = true →
      first = second)
    (step : SectionStep before label after) : SemPhase after := by
  cases step with
  | unchanged other => exact .ready here idle few free one
  | create absent => cases absent.symm.trans here
  | @works process _ present setting =>
      rw [idle process] at setting
      cases setting
  | @fails process _ _ present setting =>
      rw [idle process] at setting
      cases setting
  | opens present => exact .ready here idle few free one
  | @enter process _ _ present _ _ lowered =>
      cases here.symm.trans present
      obtain ⟨full, rfl⟩ := (semP_eq_some_iff few).mp lowered
      refine .ready rfl idle (Nat.zero_le 1) (fun zero => by cases zero) ?_
      intro first second firstInside secondInside
      exact (entered_alone (free full) firstInside).trans
        (entered_alone (free full) secondInside).symm
  | @leave process _ semval present _ _ inside raised =>
      cases here.symm.trans present
      have taken : set.semval ≠ 1 := by
        intro full
        rw [free full process] at inside
        cases inside
      have raised_eq := semV_eq raised
      have outside := outside_after_leaving one inside
      exact .ready rfl idle (show semval ≤ 1 by omega) (fun _ => outside) (one_of_outside outside)

theorem semPhase_step {before after : Sections ι} {label : SemLabel ι} (phase : SemPhase before)
    (step : SectionStep before label after) : SemPhase after := by
  cases phase with
  | absent none_yet idle outside => exact semPhase_step_absent none_yet idle outside step
  | created creator here zero others outside =>
      exact semPhase_step_created here zero others outside step
  | ready here idle few free one => exact semPhase_step_ready here idle few free one step

theorem reachable_semPhase {state : Sections ι} (reached : (sectionMachine ι).Reachable state) :
    SemPhase state := by
  refine Machine.Reachable.invariant ?_ ?_ reached
  · rintro first rfl
    exact .absent rfl (fun _ => rfl) fun _ => rfl
  · intro before label after phase taken
    exact semPhase_step phase (sectionStep_of_step? taken)

/--
However the calls of any processes interleave, at most one process is inside its
section and the semaphore is never above 1.
-/
theorem sections_exclusive {state : Sections ι} (reached : (sectionMachine ι).Reachable state) :
    (∀ first second, state.inside first = true → state.inside second = true →
      first = second) ∧
    ∀ set, state.set = some set → set.semval ≤ 1 := by
  cases reachable_semPhase reached with
  | absent none_yet idle outside =>
      exact ⟨one_of_outside outside, fun set present => by cases none_yet.symm.trans present⟩
  | created creator here zero others outside =>
      refine ⟨one_of_outside outside, ?_⟩
      intro set present
      cases here.symm.trans present
      omega
  | ready here idle few free one =>
      refine ⟨one, ?_⟩
      intro set present
      cases here.symm.trans present
      exact few

/-- The set is opened and waited on before it is initialised; then its creator is
refused while the other process is inside. -/
def openedEarly : List (SemLabel (Fin 2)) :=
  [.createSem 0 5, .openSem 1, .createSem 1 6, .setSemVal 0 true, .semP 1 true]

theorem sections_exclusive_opened_early :
    ∃ state, (sectionMachine (Fin 2)).Reachable state ∧ state.inside 1 = true ∧
      (∀ first, state.inside first = true → first = 1) ∧
      ∀ set, state.set = some set → set.semval ≤ 1 := by
  obtain ⟨state, reached, inside⟩ := Machine.exists_reachableUnder_of_follow
    (sectionMachine (Fin 2)) (fun _ _ => True) openedEarly
    (fun state => state.inside 1) rfl (by decide)
  have exclusive := sections_exclusive reached
  exact ⟨state, reached, inside, fun first firstInside => exclusive.1 first 1 firstInside inside,
    exclusive.2⟩

end LibNet.Base
