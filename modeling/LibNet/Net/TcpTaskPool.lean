import LibNet.Net.TcpSocket

/-!
# The task pool

`TcpTaskPool` of `tcp_task_pool.h` and `tcp_task_pool.cpp`: the array of tasks,
the table from descriptors to task ids, the stack of free ids and the list of
messages for the application.  Both arrays have `MAX_TASK` entries, and the
array inside a message has 128; an access outside of one of them is undefined and
comes back as `none`.  Handlers that other threads can observe half way are given
in the pieces they can be observed in.
-/

namespace LibNet.Net

open LibNet.Runs
open LibNet.Base

/-- `MAX_TASK`. -/
def maxTask : Nat := 100

/-- An index into one of the two arrays of `MAX_TASK` entries. -/
def InRange (index : Int) : Prop := 0 ≤ index ∧ index < maxTask

instance (index : Int) : Decidable (InRange index) := inferInstanceAs (Decidable (_ ∧ _))

/-- The size of the array `recv_msg` of a message. -/
def recvMsgSize : Nat := 128

/-- The send buffer the two addresses of a message lead to: that of a task, or
that of the socket which `close_connect` makes and deletes. -/
inductive ReplyBuffer where
  | task (taskId : Int)
  | temporary
  deriving DecidableEq

/-- `Message`; `recv_msg_length` is the length of `recvMsg`.  The cause is
history: which event of which connection the message was made for. -/
structure Message (β γ : Type) where
  taskId : Int
  recvMsg : List β
  sendMsg : ReplyBuffer
  cause : γ
  deriving DecidableEq

structure TcpTaskPool (β γ : Type) where
  mTcpTasks : Int → TcpSocket β
  mReadyList : Int → Int
  mFreeTasks : List Int
  mUndoTasks : List (Message β γ)
  mRecvTasks : List Int
  mListenFd : Int
  mEpollFd : Int

namespace TcpTaskPool

variable {β γ : Type}

/-- The ids of all tasks, in the order in which `init` pushes them. -/
def taskIds : List Int := (List.range maxTask).map Int.ofNat

/-- The part of `init` after the system calls. -/
def init [Byte β] (mListenFd mEpollFd : Int) (block : Nat → β) : TcpTaskPool β γ where
  mTcpTasks := fun _ => .new block block
  mReadyList := fun _ => -1
  mFreeTasks := taskIds.reverse
  mUndoTasks := []
  mRecvTasks := []
  mListenFd := mListenFd
  mEpollFd := mEpollFd

def setTask (pool : TcpTaskPool β γ) (taskId : Int) (socket : TcpSocket β) :
    TcpTaskPool β γ :=
  { pool with mTcpTasks := Function.update pool.mTcpTasks taskId socket }

def pushFreeTask (pool : TcpTaskPool β γ) (taskId : Int) : TcpTaskPool β γ :=
  { pool with mFreeTasks := taskId :: pool.mFreeTasks }

def isFreeTasksEmpty (pool : TcpTaskPool β γ) : Bool := pool.mFreeTasks.isEmpty

/-- `get_free_task`, -1 when the stack is empty. -/
def getFreeTask (pool : TcpTaskPool β γ) : Int × TcpTaskPool β γ :=
  match pool.mFreeTasks with
  | [] => (-1, pool)
  | taskId :: rest => (taskId, { pool with mFreeTasks := rest })

/-- `add_undo_task`: the message is a copy of what the socket has received, and
making it raises the reference count of the socket. -/
def addUndoTask? (pool : TcpTaskPool β γ) (taskId : Int) (undoTask : TcpSocket β)
    (sendMsg : ReplyBuffer) (cause : γ) : Option (TcpSocket β × TcpTaskPool β γ) :=
  if undoTask.getMsg.length ≤ recvMsgSize then
    some (undoTask.getSendBufLenAddr,
      { pool with
        mUndoTasks := pool.mUndoTasks ++ [⟨taskId, undoTask.getMsg, sendMsg, cause⟩] })
  else none

/-- `get_undo_task`. -/
def getUndoTask (pool : TcpTaskPool β γ) : Option (Message β γ) × TcpTaskPool β γ :=
  match pool.mUndoTasks with
  | [] => (none, pool)
  | message :: rest => (some message, { pool with mUndoTasks := rest })

/-- `get_recv_task` takes the id at the front of the list. -/
def getRecvTask (pool : TcpTaskPool β γ) : Option Int × TcpTaskPool β γ :=
  match pool.mRecvTasks with
  | [] => (none, pool)
  | taskId :: rest => (some taskId, { pool with mRecvTasks := rest })

/-- `add_recv_task`: the message gets the id of the argument and the bytes of
the task whose id comes off the front of the list. -/
def addRecvTask? (pool : TcpTaskPool β γ) (taskId : Int) (cause : γ) :
    Option (TcpTaskPool β γ) :=
  let pushed : TcpTaskPool β γ := { pool with mRecvTasks := pool.mRecvTasks ++ [taskId] }
  match pushed.getRecvTask with
  | (none, _) => none
  | (some front, rest) =>
      if InRange front then
        match rest.addUndoTask? taskId (rest.mTcpTasks front) (.task front) cause with
        | none => none
        | some (socket, after) => some (after.setTask front socket)
      else none

/-- `add_connect` after `accept` and `epoll_ctl`.  The result says whether the
connection was given a task. -/
def assignTask? (pool : TcpTaskPool β γ) (connFd : Int) : Option (Bool × TcpTaskPool β γ) :=
  if pool.isFreeTasksEmpty then some (false, pool)
  else
    let got := pool.getFreeTask
    if InRange connFd then
      let listed : TcpTaskPool β γ := { got.2 with
        mReadyList := Function.update got.2.mReadyList connFd got.1 }
      if listed.mReadyList connFd = -1 then some (false, listed)
      else if InRange got.1 then
        some (true, listed.setTask got.1 ((listed.mTcpTasks got.1).setFd connFd))
      else none
    else none

/-- `add_connect`; a failed `accept` is `none`. -/
def addConnect? (pool : TcpTaskPool β γ) : Option Int → Option (Bool × TcpTaskPool β γ)
  | none => some (false, pool)
  | some connFd => pool.assignTask? connFd

/-- The lookup that starts `close_connect` and `recv_msg`. -/
def readyTask? (pool : TcpTaskPool β γ) (fd : Int) : Option Int :=
  if InRange fd ∧ InRange (pool.mReadyList fd) then some (pool.mReadyList fd) else none

/-- `close_connect` up to the point where the task has forgotten its socket. -/
def forgetSocket (pool : TcpTaskPool β γ) (taskId : Int) : TcpTaskPool β γ :=
  pool.setTask taskId (pool.mTcpTasks taskId).resetSocket

/-- The rest of `reset` in `close_connect`. -/
def cleanBuffers [Byte β] (pool : TcpTaskPool β γ) (taskId : Int) : TcpTaskPool β γ :=
  pool.setTask taskId (pool.mTcpTasks taskId).resetBuffers

/-- The close event: a message made of a new socket, which is then deleted. -/
def addCloseTask? [Byte β] (pool : TcpTaskPool β γ) (taskId : Int) (block : Nat → β)
    (cause : γ) : Option (TcpTaskPool β γ) :=
  match pool.addUndoTask? taskId (.new block block) .temporary cause with
  | none => none
  | some (_, after) => some after

/-- `close_connect`, but for the system calls. -/
def closeConnect? [Byte β] (pool : TcpTaskPool β γ) (connFd : Int) (block : Nat → β)
    (cause : γ) : Option (TcpTaskPool β γ) :=
  match pool.readyTask? connFd with
  | none => none
  | some delSubscript =>
      let cleaned := (pool.forgetSocket delSubscript).cleanBuffers delSubscript
      match cleaned.addCloseTask? delSubscript block cause with
      | none => none
      | some after => some (after.pushFreeTask delSubscript)

/-- `recv_msg` up to `append`: the id of the task to append, and the pool with
the message made. -/
def recvMsg? (pool : TcpTaskPool β γ) (fd : Int) (cause : γ) :
    Option (Int × TcpTaskPool β γ) :=
  match pool.readyTask? fd with
  | none => none
  | some readySubscript =>
      let flagged := pool.setTask readySubscript
        ((pool.mTcpTasks readySubscript).setWrFlag readOp)
      match flagged.addRecvTask? readySubscript cause with
      | none => none
      | some after => some (readySubscript, after)

/-! ## What the pieces do -/

section Specs

variable (pool : TcpTaskPool β γ)

theorem mem_taskIds (taskId : Int) : taskId ∈ taskIds ↔ InRange taskId := by
  constructor
  · intro member
    obtain ⟨index, below, rfl⟩ := List.mem_map.mp member
    exact ⟨Int.natCast_nonneg index, Int.ofNat_lt.mpr (List.mem_range.mp below)⟩
  · rintro ⟨nonnegative, below⟩
    refine List.mem_map.mpr ⟨taskId.toNat, List.mem_range.mpr (by omega), ?_⟩
    exact Int.toNat_of_nonneg nonnegative

theorem nodup_taskIds : taskIds.Nodup :=
  List.Nodup.map (fun _ _ same => Int.ofNat.inj same) List.nodup_range

theorem readyTask?_eq {fd taskId : Int} (found : pool.readyTask? fd = some taskId) :
    InRange fd ∧ InRange taskId ∧ pool.mReadyList fd = taskId := by
  unfold readyTask? at found
  split at found
  · next ranges =>
      cases found
      exact ⟨ranges.1, ranges.2, rfl⟩
  · cases found

theorem readyTask?_of_inRange {fd : Int} (inside : InRange fd)
    (listed : InRange (pool.mReadyList fd)) :
    pool.readyTask? fd = some (pool.mReadyList fd) :=
  if_pos ⟨inside, listed⟩

/-- With a free task and a descriptor in range, the connection gets the task. -/
theorem assignTask?_of_free {connFd taskId : Int} {rest : List Int}
    (free : pool.mFreeTasks = taskId :: rest) (inside : InRange connFd)
    (known : InRange taskId) :
    pool.assignTask? connFd = some (true,
      { pool with
        mFreeTasks := rest
        mReadyList := Function.update pool.mReadyList connFd taskId
        mTcpTasks := Function.update pool.mTcpTasks taskId
          ((pool.mTcpTasks taskId).setFd connFd) }) := by
  have nonempty : pool.isFreeTasksEmpty = false := by simp [isFreeTasksEmpty, free]
  have valid : taskId ≠ -1 := by
    intro negative
    rw [negative] at known
    exact absurd known (by decide)
  simp [assignTask?, nonempty, getFreeTask, free, inside, known, valid, setTask]

/-- With a free task and a descriptor out of range, `m_ready_list` is overrun. -/
theorem assignTask?_of_outside {connFd taskId : Int} {rest : List Int}
    (free : pool.mFreeTasks = taskId :: rest) (outside : ¬ InRange connFd) :
    pool.assignTask? connFd = none := by
  have nonempty : pool.isFreeTasksEmpty = false := by simp [isFreeTasksEmpty, free]
  simp [assignTask?, nonempty, outside]

/-- The close event always fits: a new socket has one byte to read. -/
theorem addCloseTask?_eq [Byte β] (taskId : Int) (block : Nat → β) (cause : γ) :
    pool.addCloseTask? taskId block cause = some { pool with
      mUndoTasks := pool.mUndoTasks ++ [⟨taskId, [Byte.digitOne], .temporary, cause⟩] } :=
  rfl

/-- A successful `add_undo_task`. -/
theorem addUndoTask?_eq {taskId : Int} {undoTask socket : TcpSocket β} {sendMsg : ReplyBuffer}
    {cause : γ} {after : TcpTaskPool β γ}
    (made : pool.addUndoTask? taskId undoTask sendMsg cause = some (socket, after)) :
    undoTask.getMsg.length ≤ recvMsgSize ∧ socket = undoTask.getSendBufLenAddr ∧
      after = { pool with
        mUndoTasks := pool.mUndoTasks ++ [⟨taskId, undoTask.getMsg, sendMsg, cause⟩] } := by
  unfold addUndoTask? at made
  split at made
  · next fits =>
      cases made
      exact ⟨fits, rfl, rfl⟩
  · cases made

/-- When no other id waits in the list, a message pairs an id with its task. -/
theorem addRecvTask?_eq {taskId : Int} {cause : γ} {after : TcpTaskPool β γ}
    (none_waiting : pool.mRecvTasks = [])
    (made : pool.addRecvTask? taskId cause = some after) :
    (pool.mTcpTasks taskId).getMsg.length ≤ recvMsgSize ∧ after = { pool with
      mUndoTasks := pool.mUndoTasks ++
        [⟨taskId, (pool.mTcpTasks taskId).getMsg, .task taskId, cause⟩]
      mTcpTasks := Function.update pool.mTcpTasks taskId
        (pool.mTcpTasks taskId).getSendBufLenAddr } := by
  simp only [addRecvTask?, getRecvTask, none_waiting, List.nil_append] at made
  split at made
  · split at made
    · cases made
    · next socket after added =>
        cases made
        obtain ⟨fits, rfl, rfl⟩ := addUndoTask?_eq _ added
        refine ⟨fits, ?_⟩
        simp [setTask, none_waiting]
  · cases made

/-- A successful `recv_msg` up to `append`. -/
theorem recvMsg?_eq {fd taskId : Int} {cause : γ} {after : TcpTaskPool β γ}
    (none_waiting : pool.mRecvTasks = [])
    (made : pool.recvMsg? fd cause = some (taskId, after)) :
    pool.readyTask? fd = some taskId ∧ after = { pool with
      mUndoTasks := pool.mUndoTasks ++
        [⟨taskId, (pool.mTcpTasks taskId).getMsg, .task taskId, cause⟩]
      mTcpTasks := Function.update pool.mTcpTasks taskId
        ((pool.mTcpTasks taskId).setWrFlag readOp).getSendBufLenAddr } := by
  simp only [recvMsg?] at made
  split at made
  · cases made
  · next ready found =>
      split at made
      · cases made
      · next added =>
          cases made
          obtain ⟨_, rfl⟩ := addRecvTask?_eq (pool.setTask taskId _) none_waiting added
          refine ⟨found, ?_⟩
          simp [setTask, TcpSocket.setWrFlag, TcpSocket.getMsg]

end Specs

end TcpTaskPool

end LibNet.Net
