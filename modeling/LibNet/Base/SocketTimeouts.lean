import LibNet.Runs.Loop

/-!
# Calls with a time limit

`read_timeout`, `write_timeout`, `accept_timeout` and `connect_timeout` of
`socket_util.cpp`.  Each waits in `select` for one descriptor, again and again while a
signal interrupts it, and each has its own copy of the loop.  `connect_timeout` also
switches the descriptor to non-blocking mode and back.
-/

namespace LibNet.Base

open LibNet.Runs

/-- `EINTR`. -/
def eintr : Int := 4

/-- `ETIMEDOUT`. -/
def etimedout : Int := 110

/-- `EINPROGRESS`. -/
def einprogress : Int := 115

/-- `O_NONBLOCK`. -/
def oNonblock : BitVec 32 := 0o4000

/-- What a call returns, and `errno` after it. -/
structure Returned where
  ret : Int
  errno : Int
  deriving DecidableEq

/-- Interrupted by a signal. -/
def Returned.Interrupted (returned : Returned) : Prop :=
  returned.ret < 0 ∧ returned.errno = eintr

instance (returned : Returned) : Decidable returned.Interrupted :=
  inferInstanceAs (Decidable (_ ∧ _))

/-- `do ret = select(...) while (ret < 0 && errno == EINTR)`. -/
def selectLoop : Loop Unit Returned Returned where
  test := fun _ => none
  turn := fun _ returned => if returned.Interrupted then .again () else .done returned

/-- What `read_timeout` and `write_timeout` do, over what `select` comes back with. -/
def waitTimeout (errno : Int) (waitSeconds : UInt32) (selects : List Returned) :
    Option Returned :=
  if 0 < waitSeconds then
    match selectLoop.run () selects with
    | none => none
    | some selected =>
        if selected.ret = 0 then some ⟨-1, etimedout⟩
        else if selected.ret = 1 then some ⟨0, selected.errno⟩
        else some selected
  else some ⟨0, errno⟩

/-- `read_timeout`: the descriptor is in the set of those to read from. -/
def readTimeout (errno : Int) (waitSeconds : UInt32) (selects : List Returned) :
    Option Returned :=
  waitTimeout errno waitSeconds selects

/-- `write_timeout`: the descriptor is in the set of those to write to. -/
def writeTimeout (errno : Int) (waitSeconds : UInt32) (selects : List Returned) :
    Option Returned :=
  waitTimeout errno waitSeconds selects

/-- `accept_timeout`.  `accept` is given room for an address or not; what `ERR_EXIT`
prints after a failed one may change `errno`. -/
def acceptTimeout (addr : Bool) (waitSeconds : UInt32) (selects : List Returned)
    (accept : Bool → Returned) : Option Returned :=
  if 0 < waitSeconds then
    match selectLoop.run () selects with
    | none => none
    | some selected =>
        if selected.ret = -1 then some ⟨-1, selected.errno⟩
        else if selected.ret = 0 then some ⟨-1, etimedout⟩
        else some (accept addr)
  else some (accept addr)

/-- `set_nonblocking`, when `fcntl` succeeds: the old flags and the new ones. -/
def setNonblocking (flags : BitVec 32) : BitVec 32 × BitVec 32 := (flags, flags ||| oNonblock)

/-- `set_blocking`, when `fcntl` succeeds. -/
def setBlocking (flags : BitVec 32) : BitVec 32 × BitVec 32 := (flags, flags &&& ~~~oNonblock)

/-- What `connect_timeout` returns, `errno`, and the flags of the descriptor. -/
structure ConnectReturned extends Returned where
  flags : BitVec 32

/-- The end of `connect_timeout`. -/
def connectEnd (flags : BitVec 32) (waitSeconds : UInt32) (returned : Returned) :
    ConnectReturned :=
  { returned with flags := if 0 < waitSeconds then (setBlocking flags).2 else flags }

/-- `connect_timeout` after `connect`, with the connection in progress.  Two of its exits
are returns of their own. -/
def connectWait (flags : BitVec 32) (waitSeconds : UInt32) (selects : List Returned)
    (getsockopt : Returned) (err : Int) : Option ConnectReturned :=
  match selectLoop.run () selects with
  | none => none
  | some selected =>
      if selected.ret = 0 then some (connectEnd flags waitSeconds ⟨-1, etimedout⟩)
      else if selected.ret < 0 then some ⟨⟨-1, selected.errno⟩, flags⟩
      else if selected.ret = 1 then
        if getsockopt.ret = -1 then some ⟨⟨-1, getsockopt.errno⟩, flags⟩
        else if err = 0 then some (connectEnd flags waitSeconds ⟨0, getsockopt.errno⟩)
        else some (connectEnd flags waitSeconds ⟨-1, err⟩)
      else some (connectEnd flags waitSeconds selected)

/-- `connect_timeout`, over what its calls come back with; `err` is what `getsockopt`
stores. -/
def connectTimeout (flags : BitVec 32) (waitSeconds : UInt32) (connect : Returned)
    (selects : List Returned) (getsockopt : Returned) (err : Int) : Option ConnectReturned :=
  let switched := if 0 < waitSeconds then (setNonblocking flags).2 else flags
  if connect.ret < 0 ∧ connect.errno = einprogress then
    connectWait switched waitSeconds selects getsockopt err
  else some (connectEnd switched waitSeconds connect)

/-- The calls of `select` in a loop: some are interrupted, and then one is not. -/
structure Selects where
  interruptions : Nat
  last : Returned
  calm : ¬ last.Interrupted

/-- What `select` comes back with, call by call. -/
def Selects.results (selects : Selects) : List Returned :=
  List.replicate selects.interruptions ⟨-1, eintr⟩ ++ [selects.last]

/-- However often it is interrupted, the loop ends with the first call that is not. -/
theorem run_selectLoop (selects : Selects) :
    selectLoop.run () selects.results = some selects.last := by
  have interrupted : Returned.Interrupted ⟨-1, eintr⟩ := ⟨by decide, rfl⟩
  have stays : selectLoop.turn () ⟨-1, eintr⟩ = .again () := by
    simp only [selectLoop, if_pos interrupted]
  rw [Selects.results, Loop.run_replicate rfl stays]
  simp only [Loop.run, selectLoop, if_neg selects.calm]

/-! ## The mode of the descriptor -/

/-- The descriptor is in non-blocking mode. -/
def Nonblocking (flags : BitVec 32) : Prop := flags &&& oNonblock ≠ 0

theorem nonblocking_iff (flags : BitVec 32) : Nonblocking flags ↔ flags.getLsbD 11 = true := by
  have bit : oNonblock = BitVec.twoPow 32 11 := rfl
  rw [Nonblocking, bit, BitVec.and_twoPow]
  cases flags.getLsbD 11 with
  | false => exact iff_of_false (fun differs => differs rfl) Bool.false_ne_true
  | true => exact iff_of_true (by decide) rfl

theorem getLsbD_oNonblock (i : Nat) : oNonblock.getLsbD i = decide (i = 11) := by
  have bit : oNonblock = BitVec.twoPow 32 11 := rfl
  rw [bit, BitVec.getLsbD_twoPow]
  by_cases same : i = 11
  · simp [same]
  · simp [same, Ne.symm same]

/-- Switching to non-blocking mode changes nothing in a descriptor that is in it. -/
theorem setNonblocking_eq_iff (flags : BitVec 32) :
    (setNonblocking flags).2 = flags ↔ Nonblocking flags := by
  rw [nonblocking_iff]
  constructor
  · intro same
    rw [← same, setNonblocking, BitVec.getLsbD_or, getLsbD_oNonblock]
    simp
  · intro set
    apply BitVec.eq_of_getLsbD_eq
    intro i _
    rw [setNonblocking, BitVec.getLsbD_or, getLsbD_oNonblock]
    by_cases same : i = 11
    · rw [same, set, Bool.true_or]
    · rw [decide_eq_false same, Bool.or_false]

/-- Switching to and fro leaves the descriptor in blocking mode. -/
theorem setBlocking_setNonblocking_eq_iff (flags : BitVec 32) :
    (setBlocking (setNonblocking flags).2).2 = flags ↔ ¬ Nonblocking flags := by
  rw [nonblocking_iff, Bool.not_eq_true]
  constructor
  · intro same
    rw [← same, setBlocking, BitVec.getLsbD_and, BitVec.getLsbD_not, getLsbD_oNonblock]
    simp
  · intro clear
    apply BitVec.eq_of_getLsbD_eq
    intro i below
    rw [setBlocking, setNonblocking, BitVec.getLsbD_and, BitVec.getLsbD_or, BitVec.getLsbD_not,
      getLsbD_oNonblock]
    by_cases same : i = 11
    · rw [same, clear]
      rfl
    · rw [decide_eq_false same, decide_eq_true below]
      simp

/-- `connect` has begun a connection that takes its time. -/
def InProgress (connect : Returned) : Prop := connect.ret < 0 ∧ connect.errno = einprogress

/-- `select` fails, or `getsockopt` does after it. -/
def WaitFails (selects : Selects) (getsockopt : Returned) : Prop :=
  selects.last.ret < 0 ∨ selects.last.ret = 1 ∧ getsockopt.ret = -1

/-- A wait that fails leaves the flags alone, and any other comes to the end of the
function. -/
theorem connectWait_flags (flags : BitVec 32) (waitSeconds : UInt32) (selects : Selects)
    (getsockopt : Returned) (err : Int) :
    ∃ returned, connectWait flags waitSeconds selects.results getsockopt err = some returned ∧
      (WaitFails selects getsockopt → returned.flags = flags) ∧
      (¬ WaitFails selects getsockopt →
        ∃ other, returned = connectEnd flags waitSeconds other) := by
  unfold connectWait
  simp only [run_selectLoop]
  split
  · next timeout =>
      refine ⟨_, rfl, fun fails => ?_, fun _ => ⟨_, rfl⟩⟩
      rcases fails with failed | ⟨ready, _⟩
      · omega
      · omega
  · split
    · next failed => exact ⟨_, rfl, fun _ => rfl, fun succeeds => absurd (.inl failed) succeeds⟩
    · next notFailed =>
        split
        · next ready =>
            split
            · next lost =>
                exact ⟨_, rfl, fun _ => rfl, fun succeeds => absurd (.inr ⟨ready, lost⟩) succeeds⟩
            · next kept =>
                have succeeds : ¬ WaitFails selects getsockopt :=
                  fun fails => fails.elim notFailed fun lost => kept lost.2
                split
                · exact ⟨_, rfl, fun fails => absurd fails succeeds, fun _ => ⟨_, rfl⟩⟩
                · exact ⟨_, rfl, fun fails => absurd fails succeeds, fun _ => ⟨_, rfl⟩⟩
        · next notReady =>
            have succeeds : ¬ WaitFails selects getsockopt :=
              fun fails => fails.elim notFailed fun ready => notReady ready.1
            exact ⟨_, rfl, fun fails => absurd fails succeeds, fun _ => ⟨_, rfl⟩⟩

/--
For all flags, limits and outcomes of the calls, `connect_timeout` returns, and the flags
are what they were if and only if there was no limit, or the descriptor was in
non-blocking mode exactly if the connection was in progress and `select` or `getsockopt`
failed.
-/
theorem connect_timeout_flags_iff (flags : BitVec 32) (waitSeconds : UInt32)
    (connect : Returned) (selects : Selects) (getsockopt : Returned) (err : Int) :
    ∃ returned,
      connectTimeout flags waitSeconds connect selects.results getsockopt err = some returned ∧
      (returned.flags = flags ↔ waitSeconds = 0 ∨
        (Nonblocking flags ↔ InProgress connect ∧ WaitFails selects getsockopt)) := by
  by_cases limited : 0 < waitSeconds
  · have positive : waitSeconds ≠ 0 := fun none => by simp [none] at limited
    simp only [connectTimeout, if_pos limited, positive, false_or]
    by_cases progress : connect.ret < 0 ∧ connect.errno = einprogress
    · rw [if_pos progress]
      obtain ⟨returned, ends, early, late⟩ := connectWait_flags (setNonblocking flags).2
        waitSeconds selects getsockopt err
      refine ⟨returned, ends, ?_⟩
      by_cases fails : WaitFails selects getsockopt
      · rw [early fails, setNonblocking_eq_iff]
        exact (iff_true_right ⟨progress, fails⟩).symm
      · obtain ⟨other, rfl⟩ := late fails
        rw [connectEnd, if_pos limited, setBlocking_setNonblocking_eq_iff]
        exact (iff_false_right fun early => fails early.2).symm
    · rw [if_neg progress]
      refine ⟨_, rfl, ?_⟩
      rw [connectEnd, if_pos limited, setBlocking_setNonblocking_eq_iff]
      exact (iff_false_right fun early => progress early.1).symm
  · have none : waitSeconds = 0 := by simpa using limited
    simp only [connectTimeout, none, true_or, iff_true]
    split
    · obtain ⟨returned, ends, early, late⟩ := connectWait_flags flags 0 selects getsockopt err
      refine ⟨returned, ends, ?_⟩
      by_cases fails : WaitFails selects getsockopt
      · exact early fails
      · obtain ⟨other, rfl⟩ := late fails
        rfl
    · exact ⟨_, rfl, rfl⟩

/-- A socket in blocking mode (2 is `O_RDWR`) is left in the other mode when `select` runs
out of memory, and one in non-blocking mode when `connect` succeeds at once. -/
theorem left_in_other_mode :
    (∃ returned, connectTimeout 2 5 ⟨-1, einprogress⟩ [⟨-1, 12⟩] ⟨0, 0⟩ 0 = some returned ∧
        returned.ret = -1 ∧ ¬ Nonblocking 2 ∧ Nonblocking returned.flags) ∧
      ∃ returned, connectTimeout (2 ||| oNonblock) 5 ⟨0, 0⟩ [] ⟨0, 0⟩ 0 = some returned ∧
        returned.ret = 0 ∧ Nonblocking (2 ||| oNonblock) ∧ ¬ Nonblocking returned.flags := by
  refine ⟨⟨_, rfl, rfl, ?_, ?_⟩, ⟨_, rfl, rfl, ?_, ?_⟩⟩
  · exact fun differs => differs rfl
  · exact (by decide : (2 ||| oNonblock) &&& oNonblock ≠ 0)
  · exact (by decide : (2 ||| oNonblock) &&& oNonblock ≠ 0)
  · exact fun differs => differs rfl

/-! ## One contract -/

/-- What all four functions promise: by the first call of `select` that is not interrupted,
-1 with `ETIMEDOUT`, -1, or what `Ready` says of the returned value. -/
structure MeetsLimit (selects : Selects) (Ready : Int → Prop) (returned : Returned) : Prop where
  timeout : selects.last.ret = 0 → returned.ret = -1 ∧ returned.errno = etimedout
  error : selects.last.ret = -1 → returned.ret = -1
  ready : selects.last.ret = 1 → Ready returned.ret

namespace MeetsLimit

variable {selects : Selects} {Ready : Int → Prop} {returned : Returned}

/-- The last call of `select` says which of the three promises is due. -/
theorem of_ready (ready : selects.last.ret = 1) (holds : Ready returned.ret) :
    MeetsLimit selects Ready returned :=
  ⟨fun other => by omega, fun other => by omega, fun _ => holds⟩

theorem of_timeout (timeout : selects.last.ret = 0)
    (holds : returned.ret = -1 ∧ returned.errno = etimedout) : MeetsLimit selects Ready returned :=
  ⟨fun _ => holds, fun other => by omega, fun other => by omega⟩

theorem of_error (error : selects.last.ret = -1) (holds : returned.ret = -1) :
    MeetsLimit selects Ready returned :=
  ⟨fun other => by omega, fun _ => holds, fun other => by omega⟩

end MeetsLimit

section Limits

variable {waitSeconds : UInt32} (limited : 0 < waitSeconds) (selects : Selects)
  (three : selects.last.ret = 1 ∨ selects.last.ret = 0 ∨ selects.last.ret = -1)

include limited three

theorem waitTimeout_meetsLimit (errno : Int) :
    ∃ returned, waitTimeout errno waitSeconds selects.results = some returned ∧
      MeetsLimit selects (· = 0) returned := by
  simp only [waitTimeout, if_pos limited, run_selectLoop]
  rcases three with ready | timeout | error
  · rw [if_neg (by omega), if_pos ready]
    exact ⟨_, rfl, .of_ready ready rfl⟩
  · rw [if_pos timeout]
    exact ⟨_, rfl, .of_timeout timeout ⟨rfl, rfl⟩⟩
  · rw [if_neg (by omega), if_neg (by omega)]
    exact ⟨_, rfl, .of_error error error⟩

theorem acceptTimeout_meetsLimit (addr : Bool) (accept : Bool → Returned) :
    ∃ returned, acceptTimeout addr waitSeconds selects.results accept = some returned ∧
      MeetsLimit selects (· = (accept addr).ret) returned := by
  simp only [acceptTimeout, if_pos limited, run_selectLoop]
  rcases three with ready | timeout | error
  · rw [if_neg (by omega), if_neg (by omega)]
    exact ⟨_, rfl, .of_ready ready rfl⟩
  · rw [if_neg (by omega), if_pos timeout]
    exact ⟨_, rfl, .of_timeout timeout ⟨rfl, rfl⟩⟩
  · rw [if_pos error]
    exact ⟨_, rfl, .of_error error rfl⟩

omit limited in
theorem connectTimeout_meetsLimit (flags : BitVec 32) {connect : Returned}
    (progress : InProgress connect) (getsockopt : Returned) (err : Int) :
    ∃ returned,
      connectTimeout flags waitSeconds connect selects.results getsockopt err = some returned ∧
      MeetsLimit selects
        (fun ret => (ret = 0 ↔ getsockopt.ret ≠ -1 ∧ err = 0) ∧ (ret = 0 ∨ ret = -1))
        returned.toReturned := by
  have begun : connect.ret < 0 ∧ connect.errno = einprogress := progress
  have minus : ¬ (-1 : Int) = 0 := by decide
  simp only [connectTimeout, if_pos begun, connectWait, run_selectLoop]
  rcases three with ready | timeout | error
  · rw [if_neg (by omega), if_neg (by omega), if_pos ready]
    split
    · next lost =>
        refine ⟨_, rfl, .of_ready ready ⟨iff_of_false minus ?_, .inr rfl⟩⟩
        exact fun kept => kept.1 lost
    · next kept =>
        split
        · next clear => exact ⟨_, rfl, .of_ready ready ⟨iff_of_true rfl ⟨kept, clear⟩, .inl rfl⟩⟩
        · next refused =>
            refine ⟨_, rfl, .of_ready ready ⟨iff_of_false minus ?_, .inr rfl⟩⟩
            exact fun clear => refused clear.2
  · rw [if_pos timeout]
    exact ⟨_, rfl, .of_timeout timeout ⟨rfl, rfl⟩⟩
  · rw [if_neg (by omega), if_pos (by omega)]
    exact ⟨_, rfl, .of_error error rfl⟩

end Limits

/--
With a limit, and however often `select` is interrupted before it returns 1, 0 or -1, all
four functions return by the same contract.  They differ in what they do with a descriptor
that is ready: `accept_timeout` returns what `accept` does, and `connect_timeout` asks
`getsockopt` for the error of the socket.
-/
theorem timeouts_agree {waitSeconds : UInt32} (limited : 0 < waitSeconds) (selects : Selects)
    (three : selects.last.ret = 1 ∨ selects.last.ret = 0 ∨ selects.last.ret = -1)
    (errno : Int) (addr : Bool) (accept : Bool → Returned) (flags : BitVec 32)
    {connect : Returned} (progress : InProgress connect) (getsockopt : Returned) (err : Int) :
    (∃ returned, readTimeout errno waitSeconds selects.results = some returned ∧
      MeetsLimit selects (· = 0) returned) ∧
    (∃ returned, writeTimeout errno waitSeconds selects.results = some returned ∧
      MeetsLimit selects (· = 0) returned) ∧
    (∃ returned, acceptTimeout addr waitSeconds selects.results accept = some returned ∧
      MeetsLimit selects (· = (accept addr).ret) returned) ∧
    ∃ returned,
      connectTimeout flags waitSeconds connect selects.results getsockopt err = some returned ∧
      MeetsLimit selects
        (fun ret => (ret = 0 ↔ getsockopt.ret ≠ -1 ∧ err = 0) ∧ (ret = 0 ∨ ret = -1))
        returned.toReturned :=
  ⟨waitTimeout_meetsLimit limited selects three errno,
    waitTimeout_meetsLimit limited selects three errno,
    acceptTimeout_meetsLimit limited selects three addr accept,
    connectTimeout_meetsLimit selects three flags progress getsockopt err⟩

/-- Two interruptions, and then the time is up. -/
theorem timeouts_agree_interrupted :
    ∃ returned,
      connectTimeout 2 5 ⟨-1, einprogress⟩ [⟨-1, eintr⟩, ⟨-1, eintr⟩, ⟨0, 0⟩] ⟨0, 0⟩ 0 =
        some returned ∧
      returned.ret = -1 ∧ returned.errno = etimedout := by
  have calm : ¬ Returned.Interrupted ⟨0, 0⟩ := by decide
  have progress : InProgress ⟨-1, einprogress⟩ := ⟨by decide, rfl⟩
  obtain ⟨_, _, _, returned, ends, meets⟩ := timeouts_agree (show (0 : UInt32) < 5 by decide)
    ⟨2, ⟨0, 0⟩, calm⟩ (.inr (.inl rfl)) 0 true (fun _ => ⟨7, 0⟩) 2 progress ⟨0, 0⟩ 0
  exact ⟨returned, ends, meets.timeout rfl⟩

end LibNet.Base
