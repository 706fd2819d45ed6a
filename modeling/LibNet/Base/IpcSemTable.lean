import LibNet.Base.IpcSem

/-!
# Creating a semaphore set in the kernel's table

`create_sem` of `ipc_sem.c` as a whole, over the table of all semaphore sets of the system,
those of other programs among them.  `semget` may fail for many reasons, and all but one
leave their error code in the variable that holds the identifier otherwise.
-/

namespace LibNet.Base

/-- A set of the kernel's table: its key and the value of its semaphore. -/
structure KernelSet where
  key : Int
  semval : Nat
  deriving DecidableEq

/-- The sets by their identifiers. -/
abbrev SemTable : Type := Int → Option KernelSet

/-- What `semget` with `IPC_CREAT | IPC_EXCL` may do: create a set under an identifier that
is not in use, or fail. -/
inductive SemgetOutcome (table : SemTable) where
  | created (id : Int) (nonnegative : 0 ≤ id) (fresh : table id = none)
  | failed (errno : Int) (positive : 0 < errno)

namespace SemgetOutcome

variable {table : SemTable}

/-- What the program sees of it. -/
def semget : SemgetOutcome table → Semget
  | .created id _ _ => .semid id
  | .failed errno _ => .failed errno

/-- The table after it.  A new set has the value 0. -/
def after (key : Int) : SemgetOutcome table → SemTable
  | .created id _ _ => Function.update table id (some ⟨key, 0⟩)
  | .failed _ _ => table

def Failed : SemgetOutcome table → Prop
  | .created _ _ _ => False
  | .failed _ _ => True

end SemgetOutcome

/-- `semctl` with `SETVAL`: its return value and the table after it.  It fails if there is no
such set, and it may fail on one that there is. -/
def semctlSetval (table : SemTable) (semid : Int) (val : Nat) (permitted : Bool) :
    Int × SemTable :=
  match table semid with
  | none => (-1, table)
  | some set =>
      if permitted then (0, Function.update table semid (some { set with semval := val }))
      else (-1, table)

/-- `SEMERR_PARAM`. -/
def semerrParam : Int := semerrBase + 1

/-- `set_sem_val`. -/
def setSemVal (table : SemTable) (semid : Int) (val : Nat) (permitted : Bool) : Int × SemTable :=
  semctlSetval table semid val permitted

/-- What a call of `create_sem` leaves: its return value, `*semid_ptr` and the table. -/
structure CreateSemReturned where
  ret : Int
  semid : Option Int
  table : SemTable

/-- `create_sem`.  There is no `*semid_ptr` if `semid_ptr` is null. -/
def createSem (table : SemTable) (key : Int) (semid : Option Int) (outcome : SemgetOutcome table)
    (permitted : Bool) : CreateSemReturned :=
  match semid with
  | none => ⟨semerrParam, none, table⟩
  | some before =>
      match createNext outcome.semget with
      | .returns ret => ⟨ret, some before, outcome.after key⟩
      | .setSemVal id =>
          let set := setSemVal (outcome.after key) id 1 permitted
          ⟨set.1, some id, set.2⟩

/-- A call that returns an error because of `semget` has changed nothing, and one that
returns 0 has made a new set for the key with the value 1. -/
structure CreateSemSound (table : SemTable) (key : Int) (semid : Option Int)
    (outcome : SemgetOutcome table) (returned : CreateSemReturned) : Prop where
  unchanged : outcome.Failed → returned.ret ≠ 0 →
    returned.semid = semid ∧
      ∀ id, (returned.table id).map KernelSet.semval = (table id).map KernelSet.semval
  created : returned.ret = 0 →
    ∃ id, returned.semid = some id ∧ table id = none ∧ returned.table id = some ⟨key, 1⟩

/-- `semctl` on this identifier would be refused. -/
def SetvalRefused (table : SemTable) (semid : Int) (permitted : Bool) : Prop :=
  table semid = none ∨ permitted = false

/-- What `semget` does is harmless: it creates the set, or it fails with `EEXIST`, or its
error code names no set that could be changed and is what `*semid_ptr` held already. -/
def Harmless (before : Int) (permitted : Bool) {table : SemTable} : SemgetOutcome table → Prop
  | .created _ _ _ => True
  | .failed errno _ => errno = eexist ∨ errno = before ∧ SetvalRefused table errno permitted

/-! ## The calls -/

theorem semctlSetval_of_refused {table : SemTable} {semid : Int} {permitted : Bool}
    (refused : SetvalRefused table semid permitted) (val : Nat) :
    semctlSetval table semid val permitted = (-1, table) := by
  cases present : table semid with
  | none => simp only [semctlSetval, present]
  | some set =>
      rcases refused with absent | denied
      · cases present.symm.trans absent
      · simp only [semctlSetval, present, denied, Bool.false_eq_true, if_false]

theorem semctlSetval_of_present {table : SemTable} {semid : Int} {set : KernelSet}
    (present : table semid = some set) (val : Nat) :
    semctlSetval table semid val true =
      (0, Function.update table semid (some { set with semval := val })) := by
  simp only [semctlSetval, present, if_true]

/-- The ways `semctl` can go. -/
theorem refused_or_present (table : SemTable) (semid : Int) (permitted : Bool) :
    SetvalRefused table semid permitted ∨
      ∃ set, table semid = some set ∧ permitted = true := by
  cases present : table semid with
  | none => exact .inl (.inl present)
  | some set =>
      cases permitted with
      | false => exact .inl (.inr rfl)
      | true => exact .inr ⟨set, rfl, rfl⟩

/-- An error that leaves everything as it was. -/
theorem sound_of_unchanged {table : SemTable} (key : Int) (semid : Option Int)
    (outcome : SemgetOutcome table) {ret : Int} (nonzero : ret ≠ 0) :
    CreateSemSound table key semid outcome ⟨ret, semid, table⟩ :=
  ⟨fun _ _ => ⟨rfl, fun _ => rfl⟩, fun zero => absurd zero nonzero⟩

/-- `create_sem` goes on with a number, an identifier or an error code. -/
theorem createSem_of_setSemVal {table : SemTable} {outcome : SemgetOutcome table} {id : Int}
    (goesOn : createNext outcome.semget = .setSemVal id) (key before : Int) (permitted : Bool) :
    createSem table key (some before) outcome permitted =
      ⟨(semctlSetval (outcome.after key) id 1 permitted).1, some id,
        (semctlSetval (outcome.after key) id 1 permitted).2⟩ := by
  simp only [createSem, goesOn, setSemVal]

/-- A set that was created is initialised or, if `semctl` fails, the call fails too. -/
theorem createSem_created_sound {table : SemTable} (key before id : Int) (nonnegative : 0 ≤ id)
    (fresh : table id = none) (permitted : Bool) :
    CreateSemSound table key (some before) (.created id nonnegative fresh)
      (createSem table key (some before) (.created id nonnegative fresh) permitted) := by
  rw [createSem_of_setSemVal rfl, SemgetOutcome.after]
  refine ⟨False.elim, ?_⟩
  rcases refused_or_present (Function.update table id (some ⟨key, 0⟩)) id permitted with
    refused | ⟨set, present, rfl⟩
  · rw [semctlSetval_of_refused refused]
    intro zero
    cases zero
  · intro _
    refine ⟨id, rfl, fresh, ?_⟩
    rw [semctlSetval_of_present present]
    rw [Function.update_self] at present
    cases present
    exact Function.update_self id _ _

theorem createSem_failed_sound_iff {table : SemTable} (key before : Int) {errno : Int}
    (positive : 0 < errno) (permitted : Bool) :
    CreateSemSound table key (some before) (.failed errno positive)
        (createSem table key (some before) (.failed errno positive) permitted) ↔
      errno = eexist ∨ errno = before ∧ SetvalRefused table errno permitted := by
  by_cases other : errno = eexist
  · have returns : createSem table key (some before) (.failed errno positive) permitted =
        ⟨semerrEexist, some before, table⟩ := by
      simp only [createSem, SemgetOutcome.semget, createNext, if_pos other, SemgetOutcome.after]
    rw [returns]
    exact iff_of_true (sound_of_unchanged key _ _ (by decide)) (.inl other)
  · have goesOn : createNext (.failed errno positive : SemgetOutcome table).semget =
        .setSemVal errno := if_neg other
    rw [createSem_of_setSemVal goesOn, SemgetOutcome.after, or_iff_right other]
    rcases refused_or_present table errno permitted with refused | ⟨set, present, rfl⟩
    · have minus : (-1 : Int) ≠ 0 := by decide
      rw [semctlSetval_of_refused refused, and_iff_left refused]
      constructor
      · intro sound
        exact Option.some.inj (sound.unchanged trivial minus).1
      · rintro rfl
        exact sound_of_unchanged key _ _ minus
    · -- The error code is the identifier of a set, and `semctl` sets that one to 1.
      rw [semctlSetval_of_present present]
      refine iff_of_false ?_ ?_
      · intro sound
        obtain ⟨id, named, fresh, _⟩ := sound.created rfl
        cases named
        rw [present] at fresh
        cases fresh
      · rintro ⟨_, absent | denied⟩
        · rw [present] at absent
          cases absent
        · cases denied

/--
A call of `create_sem` is sound exactly when there is no `*semid_ptr`, `semget` succeeds or
fails with `EEXIST`, or the error code is what `*semid_ptr` held and `semctl` refuses it.
-/
theorem create_sem_sound_iff (table : SemTable) (key : Int) (semid : Option Int)
    (outcome : SemgetOutcome table) (permitted : Bool) :
    CreateSemSound table key semid outcome (createSem table key semid outcome permitted) ↔
      ∀ before, semid = some before → Harmless before permitted outcome := by
  cases semid with
  | none =>
      refine iff_of_true (sound_of_unchanged key none outcome (by decide)) ?_
      intro before named
      cases named
  | some before =>
      simp only [Option.some.injEq, forall_eq']
      cases outcome with
      | created id nonnegative fresh =>
          exact iff_of_true (createSem_created_sound key before id nonnegative fresh permitted)
            trivial
      | failed errno positive => exact createSem_failed_sound_iff key before positive permitted

/-- The set of another program, whose identifier is the number of `ENOSPC`. -/
def otherProgram : SemTable := fun id => if id = 28 then some ⟨7, 0⟩ else none

/-- `semget` fails with that error. -/
def noSpace : SemgetOutcome otherProgram := .failed 28 (by decide)

/-- With a full table `create_sem` returns 0, and the set of the other program is set to 1. -/
theorem full_table_sets_other_program :
    (createSem otherProgram 5 (some 0) noSpace true).ret = 0 ∧
      (createSem otherProgram 5 (some 0) noSpace true).table 28 = some ⟨7, 1⟩ ∧
      ¬ CreateSemSound otherProgram 5 (some 0) noSpace
        (createSem otherProgram 5 (some 0) noSpace true) := by
  refine ⟨by decide, by decide, ?_⟩
  intro sound
  obtain ⟨id, named, fresh, _⟩ := sound.created (by decide)
  obtain rfl : 28 = id := Option.some.inj named
  cases fresh

end LibNet.Base
