import Mathlib

/-!
# Shared memory segments

`create_shm` and `map_shm` of `ipc_shm.c`, called in any order.  Two static variables keep
the key of the first seed file for all later calls of `create_shm`.
-/

namespace LibNet.Base

/-- The keys of the segments by their identifiers. -/
abbrev ShmTable : Type := Int → Option Int

/-- How `shmget` with `IPC_CREAT` would answer for any key and size at the time of a call: with
the identifier of the segment that has the key, with a new one, or not at all. -/
structure Shmget where
  table : ShmTable
  answer : (key size : Int) → Option Int
  nonnegative : ∀ {key size id}, answer key size = some id → 0 ≤ id
  own : ∀ {key size id}, answer key size = some id → table id = none ∨ table id = some key

/-- The table after a call for this key and size. -/
def Shmget.after (kernel : Shmget) (key size : Int) : ShmTable :=
  match kernel.answer key size with
  | none => kernel.table
  | some id => Function.update kernel.table id (some key)

/-- The static variables `g_shm_flag` and `g_shm_key`. -/
structure ShmStatics where
  gShmFlag : Int
  gShmKey : Int

def ShmStatics.start : ShmStatics := ⟨0, 0⟩

/-- A call of `create_shm`: what `ftok` gives for its seed file, its size, what
`*shm_hdl_ptr` holds before, and the kernel. -/
structure CreateShmCall where
  ftok : Int
  shmSize : Int
  shmHdl : Int
  kernel : Shmget

/-- What it leaves: its return value, `*shm_hdl_ptr`, and the table. -/
structure CreateShmReturned where
  ret : Int
  shmHdl : Int
  table : ShmTable

/-- The call of `shmget` and what follows it.  A failure is printed only. -/
def getSegment (call : CreateShmCall) (key : Int) : CreateShmReturned :=
  ⟨0, (call.kernel.answer key call.shmSize).getD (-1), call.kernel.after key call.shmSize⟩

/-- `create_shm`. -/
def createShm (statics : ShmStatics) (call : CreateShmCall) : CreateShmReturned × ShmStatics :=
  if statics.gShmFlag = 0 then
    if call.ftok = -1 then
      (⟨-1, call.shmHdl, call.kernel.table⟩, { statics with gShmKey := call.ftok })
    else (getSegment call call.ftok, ⟨1, call.ftok⟩)
  else (getSegment call statics.gShmKey, statics)

/-- A call of `map_shm`: its handle, what `*map_addr_ptr` holds before, the address that
`shmat` gives for a handle, and `errno` when it is returned. -/
structure MapShmCall where
  shmHdl : Int
  mapAddr : Int
  shmat : Int → Int
  errno : Int

/-- `map_shm`: its return value and `*map_addr_ptr`.  The address is compared with a null
pointer. -/
def mapShm (call : MapShmCall) : Int × Int :=
  let temp := call.shmat call.shmHdl
  if temp = 0 then (call.errno, call.mapAddr) else (0, temp)

inductive ShmCall where
  | create (call : CreateShmCall)
  | map (call : MapShmCall)

/-- The static variables after a call. -/
def ShmStatics.next (statics : ShmStatics) : ShmCall → ShmStatics
  | .create call => (createShm statics call).2
  | .map _ => statics

/-- The system calls that a call of `create_shm` makes, and the key `shmget` is given. -/
def CreateShmCall.Succeeds (statics : ShmStatics) (call : CreateShmCall) : Prop :=
  if statics.gShmFlag = 0 then
    call.ftok ≠ -1 ∧ (call.kernel.answer call.ftok call.shmSize).isSome
  else (call.kernel.answer statics.gShmKey call.shmSize).isSome

/-- The call returns 0 exactly when its system calls succeed.  The handle is then that of the
segment whose key `ftok` gives for the seed file, or the address is the one attached. -/
def ShmCall.Right (statics : ShmStatics) : ShmCall → Prop
  | .create call =>
      ((createShm statics call).1.ret = 0 ↔ call.Succeeds statics) ∧
        ((createShm statics call).1.ret = 0 →
          (createShm statics call).1.table (createShm statics call).1.shmHdl = some call.ftok)
  | .map call =>
      ((mapShm call).1 = 0 ↔ call.shmat call.shmHdl ≠ -1) ∧
        ((mapShm call).1 = 0 → (mapShm call).2 = call.shmat call.shmHdl)

/-- Every call of a sequence is right. -/
def AllRight : ShmStatics → List ShmCall → Prop
  | _, [] => True
  | statics, call :: rest => call.Right statics ∧ AllRight (statics.next call) rest

/-- If there is a key for the seed file, `shmget` succeeds for it.  `shmat` succeeds, with an
address that is not null. -/
def ShmCall.Smooth : ShmCall → Prop
  | .create call =>
      call.ftok ≠ -1 → (call.kernel.answer call.ftok call.shmSize).isSome
  | .map call =>
      call.shmat call.shmHdl ≠ -1 ∧
        (call.shmat call.shmHdl = 0 → call.errno = 0 ∧ call.mapAddr = 0)

/-- If the seed file of the first call has a key, that of the other has the same. -/
def SameKey : ShmCall → ShmCall → Prop
  | .create first, .create later => first.ftok ≠ -1 → later.ftok = first.ftok
  | _, _ => True

/-- With one key for `shmget` and another one from `ftok`. -/
theorem getSegment_right_iff (call : CreateShmCall) (key : Int) :
    (((getSegment call key).ret = 0 ↔ (call.kernel.answer key call.shmSize).isSome) ∧
        ((getSegment call key).ret = 0 →
          (getSegment call key).table (getSegment call key).shmHdl = some call.ftok)) ↔
      (call.kernel.answer key call.shmSize).isSome ∧ call.ftok = key := by
  have returns : (getSegment call key).ret = 0 := rfl
  rw [iff_true_left returns, forall_prop_of_true returns]
  refine and_congr_right fun succeeds => ?_
  obtain ⟨id, answered⟩ := Option.isSome_iff_exists.mp succeeds
  have segment : (getSegment call key).table (getSegment call key).shmHdl = some key := by
    simp only [getSegment, Shmget.after, answered, Option.getD_some, Function.update_self]
  rw [segment, Option.some.injEq, eq_comm]

section Create

variable {statics : ShmStatics} (call : CreateShmCall)

theorem createShm_of_set (isSet : statics.gShmFlag ≠ 0) :
    createShm statics call = (getSegment call statics.gShmKey, statics) := if_neg isSet

theorem createShm_of_key (unset : statics.gShmFlag = 0) (valid : call.ftok ≠ -1) :
    createShm statics call = (getSegment call call.ftok, ⟨1, call.ftok⟩) := by
  rw [createShm, if_pos unset, if_neg valid]

theorem createShm_of_failure (unset : statics.gShmFlag = 0) (failed : call.ftok = -1) :
    createShm statics call =
      (⟨-1, call.shmHdl, call.kernel.table⟩, { statics with gShmKey := call.ftok }) := by
  rw [createShm, if_pos unset, if_pos failed]

/-- Before there is a key. -/
theorem create_right_iff_of_unset (unset : statics.gShmFlag = 0) :
    ShmCall.Right statics (.create call) ↔ ShmCall.Smooth (.create call) := by
  simp only [ShmCall.Right, ShmCall.Smooth, CreateShmCall.Succeeds, if_pos unset]
  by_cases failed : call.ftok = -1
  · have minus : ¬ (-1 : Int) = 0 := by decide
    rw [createShm_of_failure call unset failed]
    refine iff_of_true ⟨iff_of_false minus ?_, fun zero => absurd zero minus⟩ ?_
    · exact fun succeeds => succeeds.1 failed
    · exact fun valid => absurd failed valid
  · rw [createShm_of_key call unset failed, and_iff_right failed, forall_prop_of_true failed,
      getSegment_right_iff, and_iff_left rfl]

/-- Afterwards the key of the seed file has to be that key. -/
theorem create_right_iff_of_set (isSet : statics.gShmFlag ≠ 0) :
    ShmCall.Right statics (.create call) ↔
      (call.kernel.answer statics.gShmKey call.shmSize).isSome ∧
        call.ftok = statics.gShmKey := by
  simp only [ShmCall.Right, createShm_of_set call isSet, CreateShmCall.Succeeds, if_neg isSet]
  exact getSegment_right_iff call statics.gShmKey

end Create

theorem map_right_iff (statics : ShmStatics) (call : MapShmCall) :
    ShmCall.Right statics (.map call) ↔ ShmCall.Smooth (.map call) := by
  simp only [ShmCall.Right, ShmCall.Smooth, mapShm]
  by_cases null : call.shmat call.shmHdl = 0
  · have plus : ¬ (0 : Int) = -1 := by decide
    simp only [null, if_true, ne_eq, plus, not_false_eq_true, iff_true, true_and, forall_const]
    exact and_congr_right fun zero => forall_prop_of_true zero
  · simp only [null, if_false, true_iff, ne_eq, forall_const, and_true, false_implies]

/-! ## Sequences of calls -/

/-- The seed file has this key. -/
def ShmCall.Keeps (key : Int) : ShmCall → Prop
  | .create call => call.ftok = key
  | .map _ => True

theorem right_iff_of_set {key : Int} (valid : key ≠ -1) (call : ShmCall) :
    call.Right ⟨1, key⟩ ↔ call.Smooth ∧ call.Keeps key := by
  cases call with
  | create call =>
      rw [create_right_iff_of_set call Int.one_ne_zero]
      simp only [ShmCall.Smooth, ShmCall.Keeps]
      refine and_congr_left fun same => ?_
      rw [same, forall_prop_of_true valid]
  | map call => rw [map_right_iff, ShmCall.Keeps, and_true]

/-- Once there is a key, it stays. -/
theorem allRight_iff_of_set {key : Int} (valid : key ≠ -1) (calls : List ShmCall) :
    AllRight ⟨1, key⟩ calls ↔
      (∀ call ∈ calls, call.Smooth) ∧ ∀ call ∈ calls, call.Keeps key := by
  induction calls with
  | nil => simp [AllRight]
  | cons call rest ih =>
      have stays : (ShmStatics.mk 1 key).next call = ⟨1, key⟩ := by
        cases call with
        | create call => rfl
        | map call => rfl
      rw [AllRight, stays, ih, right_iff_of_set valid, List.forall_mem_cons, List.forall_mem_cons]
      exact and_and_and_comm

theorem sameKey_iff {call : CreateShmCall} (valid : call.ftok ≠ -1) (other : ShmCall) :
    SameKey (.create call) other ↔ other.Keeps call.ftok := by
  cases other with
  | create other => simp only [SameKey, ShmCall.Keeps, forall_prop_of_true valid]
  | map other => rfl

theorem sameKey_of_keeps {key : Int} {first later : ShmCall} (keeps : first.Keeps key)
    (keeps' : later.Keeps key) : SameKey first later := by
  cases first with
  | create first =>
      cases later with
      | create later => exact fun _ => keeps'.trans keeps.symm
      | map later => trivial
  | map first => trivial

/-- As long as there is no key, the calls are looked at one by one; the first key decides
about all calls after it. -/
theorem allRight_iff_of_unset (key : Int) (calls : List ShmCall) :
    AllRight ⟨0, key⟩ calls ↔ (∀ call ∈ calls, call.Smooth) ∧ calls.Pairwise SameKey := by
  induction calls generalizing key with
  | nil => simp [AllRight]
  | cons call rest ih =>
      rw [AllRight, List.forall_mem_cons, List.pairwise_cons]
      cases call with
      | map call =>
          rw [map_right_iff, ShmStatics.next, ih, and_assoc]
          refine and_congr_right fun _ => and_congr_right fun _ => ?_
          exact (and_iff_right fun later _ => trivial).symm
      | create call =>
          rw [create_right_iff_of_unset call rfl]
          by_cases valid : call.ftok = -1
          · have next : (ShmStatics.mk 0 key).next (.create call) = ⟨0, call.ftok⟩ := by
              rw [ShmStatics.next, createShm_of_failure call rfl valid]
            rw [next, ih, and_assoc]
            refine and_congr_right fun _ => and_congr_right fun _ => ?_
            refine (and_iff_right fun later _ => ?_).symm
            cases later with
            | create later => exact fun some_key => absurd valid some_key
            | map later => trivial
          · have next : (ShmStatics.mk 0 key).next (.create call) = ⟨1, call.ftok⟩ := by
              rw [ShmStatics.next, createShm_of_key call rfl valid]
            rw [next, allRight_iff_of_set valid, and_assoc]
            refine and_congr_right fun _ => and_congr_right fun _ => ?_
            simp only [sameKey_iff valid]
            refine (and_iff_left_of_imp fun keeps => ?_).symm
            exact List.pairwise_of_forall_mem_list fun first member later member' =>
              sameKey_of_keeps (keeps first member) (keeps later member')

/--
In a sequence of calls, from the start of the program, every call is right exactly when
`shmget` succeeds for every key that `ftok` gives, `shmat` never fails, and after the first
seed file with a key all others have the same one.
-/
theorem shm_calls_right_iff (calls : List ShmCall) :
    AllRight .start calls ↔ (∀ call ∈ calls, call.Smooth) ∧ calls.Pairwise SameKey :=
  allRight_iff_of_unset 0 calls

/-- A kernel in which the identifier of a segment is its key, and one without room. -/
def roomyKernel : Shmget where
  table := fun _ => none
  answer := fun key _ => if 0 ≤ key then some key else none
  nonnegative := by
    intro key size id answered
    split at answered
    · next positive => exact Option.some.inj answered ▸ positive
    · cases answered
  own := fun _ => .inl rfl

def fullKernel : Shmget where
  table := fun _ => none
  answer := fun _ _ => none
  nonnegative := fun answered => by cases answered
  own := fun answered => by cases answered

/-- The second seed file is not looked at, a failure of `shmget` is not returned, and a failure
of `shmat` is taken for an address. -/
theorem shm_failures_unseen :
    (createShm ⟨1, 1⟩ ⟨2, 64, 0, roomyKernel⟩).1.shmHdl = 1 ∧
      ¬ AllRight .start [.create ⟨1, 64, 0, roomyKernel⟩, .create ⟨2, 64, 0, roomyKernel⟩] ∧
      ¬ AllRight .start [.create ⟨1, 64, 0, fullKernel⟩] ∧
      ¬ AllRight .start [.map ⟨1, 0, fun _ => -1, 22⟩] := by
  refine ⟨by decide, ?_, ?_, ?_⟩
  · rintro ⟨_, second, _⟩
    have other := (create_right_iff_of_set ⟨2, 64, 0, roomyKernel⟩ (by decide)).mp second
    exact absurd other.2 (by decide)
  · rintro ⟨first, _⟩
    exact absurd ((create_right_iff_of_unset _ rfl).mp first (by decide)) (by decide)
  · rintro ⟨first, _⟩
    exact ((map_right_iff _ _).mp first).1 rfl

end LibNet.Base
