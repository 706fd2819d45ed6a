import LibNet.Net.TcpTaskPool
import LibNet.Runs.Machine
import LibNet.Runs.Objects

/-!
# Where the addresses of a message lead

`add_undo_task` puts the addresses of the send buffer of a socket into a message.
For a read event the socket is that of the task; for a close event it is one that
`close_connect` makes for the purpose and deletes at its end, while the message
stays in `m_undo_tasks`.  Here buffers are objects with a lifetime, and the pool
carries, beside its messages, the buffers they lead to.
-/

namespace LibNet.Net

open LibNet.Runs
open LibNet.Base

/-- The pool with the buffer objects: the send buffer of every task and, message
by message, the buffer that `send_msg` and `send_msg_length` lead to.  Inside
`close_connect`, between the close event and the end, `closing` has the id and
the send buffer of the socket made for it. -/
structure Mail where
  pool : TcpTaskPool UInt8 Unit
  buffers : Objects
  mSendBuf : Int → Nat
  sendMsgs : List Nat
  closing : Option (Int × Nat)

/-- Accepts and the other two handlers of the event loop, the second one in two
pieces, and the application's `pull_msg`. -/
inductive MailLabel where
  | addConnect (connFd : Int)
  | recvMsg (fd : Int)
  | closeEvent (connFd : Int)
  | closeEnd
  | pullMsg

namespace Mail

/-- `init`: each task has two buffers, made one after the other. -/
def init (mListenFd mEpollFd : Int) (block : Nat → UInt8) : Mail where
  pool := .init mListenFd mEpollFd block
  buffers := ⟨2 * maxTask, []⟩
  mSendBuf := fun taskId => 2 * taskId.toNat
  sendMsgs := []
  closing := none

/-- `recv_msg`: the message leads to the buffer of the task at the front of
`m_recv_tasks`. -/
def recvMsg? (mail : Mail) (fd : Int) : Option Mail :=
  match mail.closing, mail.pool.recvMsg? fd () with
  | none, some (_, pool) =>
      let front := (mail.pool.mRecvTasks ++ [mail.pool.mReadyList fd]).headD 0
      some { mail with pool := pool, sendMsgs := mail.sendMsgs ++ [mail.mSendBuf front] }
  | _, _ => none

/-- `close_connect` up to the close event: a new socket has a send buffer and a
receive buffer. -/
def closeEvent? (mail : Mail) (connFd : Int) : Option Mail :=
  match mail.closing, mail.pool.readyTask? connFd with
  | none, some delSubscript =>
      let cleaned := (mail.pool.forgetSocket delSubscript).cleanBuffers delSubscript
      match cleaned.addCloseTask? delSubscript (fun _ => 0) () with
      | none => none
      | some pool =>
          some { mail with
            pool := pool
            buffers := mail.buffers.alloc.alloc
            sendMsgs := mail.sendMsgs ++ [mail.buffers.fresh]
            closing := some (delSubscript, mail.buffers.fresh) }
  | _, _ => none

/-- The end of `close_connect`: the id is freed and the socket deleted, and its
two buffers with it. -/
def closeEnd? (mail : Mail) : Option Mail :=
  match mail.closing with
  | some (delSubscript, sendBuf) =>
      some { mail with
        pool := mail.pool.pushFreeTask delSubscript
        buffers := (mail.buffers.delete sendBuf).delete (sendBuf + 1)
        closing := none }
  | none => none

def step? (mail : Mail) : MailLabel → Option Mail
  | .addConnect connFd =>
      match mail.closing, mail.pool.addConnect? (some connFd) with
      | none, some (_, pool) => some { mail with pool := pool }
      | _, _ => none
  | .recvMsg fd => mail.recvMsg? fd
  | .closeEvent connFd => mail.closeEvent? connFd
  | .closeEnd => mail.closeEnd?
  | .pullMsg =>
      match mail.pool.getUndoTask with
      | (none, _) => none
      | (some _, pool) => some { mail with pool := pool, sendMsgs := mail.sendMsgs.tail }

/-- The application writes a reply to a buffer; a task sees it if the buffer is
its send buffer. -/
def writeReply (mail : Mail) (buffer : Nat) (reply : List UInt8) : Mail :=
  { mail with
    pool := { mail.pool with
      mTcpTasks := fun taskId =>
        if mail.mSendBuf taskId = buffer then (mail.pool.mTcpTasks taskId).writeReply reply
        else mail.pool.mTcpTasks taskId } }

/-- The bytes that `push_msg` of an id sends. -/
def replyOf (mail : Mail) (taskId : Int) : List UInt8 :=
  (mail.pool.mTcpTasks taskId).mSendBuf.getBuf

/-- The addresses of a message lead to the send buffer of its task, which exists,
and a reply written through them is the one that `push_msg` sends. -/
def Refers (mail : Mail) (message : Message UInt8 Unit) (buffer : Nat) : Prop :=
  buffer = mail.mSendBuf message.taskId ∧ mail.buffers.Alive buffer ∧
    ∀ reply, (mail.writeReply buffer reply).replyOf message.taskId = reply

end Mail

/-- Runs of the pool from `init` on. -/
def mailMachine : Machine Mail MailLabel where
  Start := fun first => ∃ mListenFd mEpollFd block, first = .init mListenFd mEpollFd block
  step? := Mail.step?

variable {mail after : Mail} {label : MailLabel}

/-- Steps of the pool while `m_recv_tasks` is empty, as far as messages and
buffers are concerned. -/
inductive MailStep (mail : Mail) : MailLabel → Mail → Prop where
  | addConnect (connFd : Int) (pool : TcpTaskPool UInt8 Unit)
      (undoTasks : pool.mUndoTasks = mail.pool.mUndoTasks)
      (recvTasks : pool.mRecvTasks = mail.pool.mRecvTasks) :
      MailStep mail (.addConnect connFd) { mail with pool := pool }
  | recvMsg (fd taskId : Int) (bytes : List UInt8) (pool : TcpTaskPool UInt8 Unit)
      (inside : InRange taskId)
      (undoTasks : pool.mUndoTasks =
        mail.pool.mUndoTasks ++ [⟨taskId, bytes, .task taskId, ()⟩])
      (recvTasks : pool.mRecvTasks = mail.pool.mRecvTasks) :
      MailStep mail (.recvMsg fd) { mail with
        pool := pool
        sendMsgs := mail.sendMsgs ++ [mail.mSendBuf taskId] }
  | closeEvent (connFd delSubscript : Int) (bytes : List UInt8) (pool : TcpTaskPool UInt8 Unit)
      (inside : InRange delSubscript)
      (undoTasks : pool.mUndoTasks =
        mail.pool.mUndoTasks ++ [⟨delSubscript, bytes, .temporary, ()⟩])
      (recvTasks : pool.mRecvTasks = mail.pool.mRecvTasks) :
      MailStep mail (.closeEvent connFd) { mail with
        pool := pool
        buffers := mail.buffers.alloc.alloc
        sendMsgs := mail.sendMsgs ++ [mail.buffers.fresh]
        closing := some (delSubscript, mail.buffers.fresh) }
  | closeEnd (delSubscript : Int) (sendBuf : Nat)
      (closing : mail.closing = some (delSubscript, sendBuf)) :
      MailStep mail .closeEnd { mail with
        pool := mail.pool.pushFreeTask delSubscript
        buffers := (mail.buffers.delete sendBuf).delete (sendBuf + 1)
        closing := none }
  | pullMsg (message : Message UInt8 Unit) (rest : List (Message UInt8 Unit))
      (front : mail.pool.mUndoTasks = message :: rest) :
      MailStep mail .pullMsg { mail with
        pool := { mail.pool with mUndoTasks := rest }
        sendMsgs := mail.sendMsgs.tail }

/-- `add_connect` leaves both lists alone. -/
theorem assignTask?_lists {β γ : Type} {pool assigned : TcpTaskPool β γ} {connFd : Int}
    {given : Bool} (made : pool.assignTask? connFd = some (given, assigned)) :
    assigned.mUndoTasks = pool.mUndoTasks ∧ assigned.mRecvTasks = pool.mRecvTasks := by
  have got : pool.getFreeTask.2.mUndoTasks = pool.mUndoTasks ∧
      pool.getFreeTask.2.mRecvTasks = pool.mRecvTasks := by
    unfold TcpTaskPool.getFreeTask
    split <;> exact ⟨rfl, rfl⟩
  simp only [TcpTaskPool.assignTask?] at made
  split at made
  · cases made
    exact ⟨rfl, rfl⟩
  · split at made
    · split at made
      · cases made
        exact got
      · split at made
        · cases made
          exact got
        · cases made
    · cases made

theorem mailStep_of_addConnect {connFd : Int}
    (taken : mail.step? (.addConnect connFd) = some after) :
    MailStep mail (.addConnect connFd) after := by
  simp only [Mail.step?, TcpTaskPool.addConnect?] at taken
  split at taken
  · next given pool _ assigned =>
      cases taken
      obtain ⟨undoTasks, recvTasks⟩ := assignTask?_lists assigned
      exact .addConnect connFd pool undoTasks recvTasks
  · cases taken

theorem mailStep_of_recvMsg? {fd : Int} (none_waiting : mail.pool.mRecvTasks = [])
    (taken : mail.recvMsg? fd = some after) : MailStep mail (.recvMsg fd) after := by
  simp only [Mail.recvMsg?] at taken
  split at taken
  · next taskId pool _ made =>
      cases taken
      obtain ⟨found, rfl⟩ := mail.pool.recvMsg?_eq none_waiting made
      obtain ⟨_, inside, rfl⟩ := mail.pool.readyTask?_eq found
      have front : (mail.pool.mRecvTasks ++ [mail.pool.mReadyList fd]).headD 0 =
          mail.pool.mReadyList fd := by
        rw [none_waiting]
        rfl
      rw [front]
      exact .recvMsg fd _ _ _ inside rfl rfl
  · cases taken

theorem mailStep_of_closeEvent? {connFd : Int} (taken : mail.closeEvent? connFd = some after) :
    MailStep mail (.closeEvent connFd) after := by
  simp only [Mail.closeEvent?, TcpTaskPool.addCloseTask?_eq] at taken
  split at taken
  · next delSubscript _ found =>
      cases taken
      obtain ⟨_, inside, _⟩ := mail.pool.readyTask?_eq found
      exact .closeEvent connFd delSubscript _ _ inside rfl rfl
  · cases taken

theorem mailStep_of_step? (none_waiting : mail.pool.mRecvTasks = [])
    (taken : mail.step? label = some after) : MailStep mail label after := by
  cases label with
  | addConnect connFd => exact mailStep_of_addConnect taken
  | recvMsg fd => exact mailStep_of_recvMsg? none_waiting taken
  | closeEvent connFd => exact mailStep_of_closeEvent? taken
  | closeEnd =>
      simp only [Mail.step?, Mail.closeEnd?] at taken
      split at taken
      · next delSubscript sendBuf closing =>
          cases taken
          exact .closeEnd delSubscript sendBuf closing
      · cases taken
  | pullMsg =>
      simp only [Mail.step?, TcpTaskPool.getUndoTask] at taken
      cases front : mail.pool.mUndoTasks with
      | nil =>
          rw [front] at taken
          cases taken
      | cons message rest =>
          rw [front] at taken
          cases taken
          exact .pullMsg message rest front

/-! ## The invariant -/

/-- Where the addresses of a message lead, by the way it was made. -/
inductive Leads (mSendBuf : Int → Nat) (message : Message UInt8 Unit) (buffer : Nat) : Prop where
  | task (inside : InRange message.taskId) (made : message.sendMsg = .task message.taskId)
      (same : buffer = mSendBuf message.taskId)
  | temporary (inside : InRange message.taskId) (made : message.sendMsg = .temporary)
      (other : ∀ taskId, InRange taskId → mSendBuf taskId ≠ buffer)

structure Posted (mail : Mail) : Prop where
  noRecvTasks : mail.pool.mRecvTasks = []
  alive : ∀ taskId, InRange taskId → mail.buffers.Alive (mail.mSendBuf taskId)
  apart : ∀ delSubscript sendBuf, mail.closing = some (delSubscript, sendBuf) →
    ∀ taskId, InRange taskId →
      mail.mSendBuf taskId ≠ sendBuf ∧ mail.mSendBuf taskId ≠ sendBuf + 1
  leads : List.Forall₂ (Leads mail.mSendBuf) mail.pool.mUndoTasks mail.sendMsgs

theorem posted_init (mListenFd mEpollFd : Int) (block : Nat → UInt8) :
    Posted (.init mListenFd mEpollFd block) where
  noRecvTasks := rfl
  alive := by
    rintro taskId ⟨nonnegative, below⟩
    refine ⟨?_, List.not_mem_nil⟩
    simp only [Mail.init]
    omega
  apart := fun _ _ none => by cases none
  leads := .nil

theorem MailStep.posted (step : MailStep mail label after) (posted : Posted mail) :
    Posted after := by
  cases step with
  | addConnect connFd pool undoTasks recvTasks =>
      exact ⟨recvTasks.trans posted.noRecvTasks, posted.alive, posted.apart,
        undoTasks ▸ posted.leads⟩
  | recvMsg fd taskId bytes pool inside undoTasks recvTasks =>
      refine ⟨recvTasks.trans posted.noRecvTasks, posted.alive, posted.apart, ?_⟩
      simp only [undoTasks]
      exact List.rel_append posted.leads (.cons (.task inside rfl rfl) .nil)
  | closeEvent connFd delSubscript bytes pool inside undoTasks recvTasks =>
      have other : ∀ taskId, InRange taskId → mail.mSendBuf taskId ≠ mail.buffers.fresh :=
        fun taskId known => (posted.alive taskId known).ne_fresh
      refine ⟨recvTasks.trans posted.noRecvTasks, fun taskId known =>
        (posted.alive taskId known).alloc.alloc, ?_, ?_⟩
      · intro _ _ closes taskId known
        cases closes
        exact ⟨other taskId known, (posted.alive taskId known).alloc.ne_fresh⟩
      · simp only [undoTasks]
        exact List.rel_append posted.leads (.cons (.temporary inside rfl other) .nil)
  | closeEnd delSubscript sendBuf closing =>
      refine ⟨posted.noRecvTasks, ?_, fun _ _ none => (by cases none), posted.leads⟩
      intro taskId known
      obtain ⟨notSend, notRecv⟩ := posted.apart delSubscript sendBuf closing taskId known
      exact ((posted.alive taskId known).delete notSend).delete notRecv
  | pullMsg message rest front =>
      refine ⟨posted.noRecvTasks, posted.alive, posted.apart, ?_⟩
      have later := List.forall₂_drop 1 posted.leads
      rwa [front, List.drop_one, List.drop_one] at later

theorem reachable_posted (reached : mailMachine.Reachable mail) : Posted mail := by
  refine Machine.Reachable.invariant ?_ ?_ reached
  · rintro first ⟨mListenFd, mEpollFd, block, rfl⟩
    exact posted_init mListenFd mEpollFd block
  · intro before label after posted taken
    exact (mailStep_of_step? posted.noRecvTasks taken).posted posted

/-! ## Messages of read events and of close events -/

/-- A reply written to the send buffer of a task is what its `push_msg` sends. -/
theorem replyOf_writeReply (mail : Mail) (taskId : Int) (reply : List UInt8) :
    (mail.writeReply (mail.mSendBuf taskId) reply).replyOf taskId = reply := by
  simp only [Mail.replyOf, Mail.writeReply, if_true, TcpSocket.writeReply,
    Buffer.getBuf_eq_window]
  rw [window_layout reply _ (Nat.le_refl _), List.take_length]

/-- The addresses of a message are good unless it is a close event. -/
theorem Posted.refers_iff (posted : Posted mail) {message : Message UInt8 Unit} {buffer : Nat}
    (leads : Leads mail.mSendBuf message buffer) :
    mail.Refers message buffer ↔ message.sendMsg ≠ .temporary := by
  cases leads with
  | task inside made same =>
      refine ⟨fun _ => by rw [made]; exact ReplyBuffer.noConfusion, fun _ => ?_⟩
      subst same
      exact ⟨rfl, posted.alive _ inside, replyOf_writeReply mail message.taskId⟩
  | temporary inside made other =>
      constructor
      · intro refers
        exact absurd refers.1.symm (other _ inside)
      · intro notTemporary
        exact absurd made notTemporary

/-- The step is not the close event of `close_connect`. -/
def NoCloseEvent (_ : Mail) : MailLabel → Prop
  | .closeEvent _ => False
  | _ => True

instance (mail : Mail) : DecidablePred (NoCloseEvent mail)
  | .addConnect _ => instDecidableTrue
  | .recvMsg _ => instDecidableTrue
  | .closeEvent _ => instDecidableFalse
  | .closeEnd => instDecidableTrue
  | .pullMsg => instDecidableTrue

/-- No message in the list is a close event. -/
def OnlyReadEvents (mail : Mail) : Prop :=
  ∀ message ∈ mail.pool.mUndoTasks, message.sendMsg ≠ .temporary

theorem MailStep.onlyReadEvents (step : MailStep mail label after)
    (allowed : NoCloseEvent mail label) (real : OnlyReadEvents mail) : OnlyReadEvents after := by
  cases step with
  | addConnect connFd pool undoTasks recvTasks =>
      unfold OnlyReadEvents
      simp only [undoTasks]
      exact real
  | recvMsg fd taskId bytes pool inside undoTasks recvTasks =>
      intro message member
      simp only [undoTasks] at member
      rcases List.mem_append.mp member with earlier | new
      · exact real message earlier
      · rw [List.mem_singleton.mp new]
        exact ReplyBuffer.noConfusion
  | closeEvent connFd delSubscript bytes pool inside undoTasks recvTasks => cases allowed
  | closeEnd delSubscript sendBuf closing => exact real
  | pullMsg message rest front =>
      intro other member
      exact real other (front ▸ List.mem_cons_of_mem _ member)

/--
In runs in which `close_connect` queues no close event, the addresses of every
message in `m_undo_tasks` lead to the send buffer of its task, which exists, and a
reply written through them is the one that `push_msg` of the message's id sends.
-/
theorem messages_refer_to_tasks (reached : mailMachine.ReachableUnder NoCloseEvent mail) :
    List.Forall₂ mail.Refers mail.pool.mUndoTasks mail.sendMsgs := by
  have posted := reachable_posted reached.reachable
  have real : OnlyReadEvents mail := by
    refine Machine.ReachableUnder.invariant ?_ ?_ reached
    · rintro first ⟨mListenFd, mEpollFd, block, rfl⟩ message member
      cases member
    · intro before label after earlier real allowed taken
      exact (mailStep_of_step? (reachable_posted earlier.reachable).noRecvTasks
        taken).onlyReadEvents allowed real
  refine List.forall₂_iff_zip.mpr ⟨posted.leads.length_eq, ?_⟩
  intro message buffer member
  exact (posted.refers_iff (List.forall₂_zip posted.leads member)).mpr
    (real message (List.of_mem_zip member).1)

/-- Two clients with a read event each. -/
def readTwice : List MailLabel :=
  [.addConnect 5, .addConnect 6, .recvMsg 5, .recvMsg 6]

theorem messages_refer_to_tasks_read_twice :
    ∃ last, mailMachine.ReachableUnder NoCloseEvent last ∧
      last.pool.mUndoTasks.map Message.taskId = [99, 98] ∧
      List.Forall₂ last.Refers last.pool.mUndoTasks last.sendMsgs := by
  obtain ⟨last, reached, ended⟩ := Machine.exists_reachableUnder_of_follow mailMachine
    NoCloseEvent readTwice
    (fun last => decide (last.pool.mUndoTasks.map Message.taskId = [99, 98]))
    ⟨3, 4, fun _ => 0, rfl⟩ (by decide)
  exact ⟨last, reached, of_decide_eq_true ended, messages_refer_to_tasks reached⟩

/-- A client connects and hangs up. -/
def closedOnce : List MailLabel := [.addConnect 5, .closeEvent 5, .closeEnd]

/-- The close event leads to a deleted buffer, and what is written there is not
what `push_msg` sends. -/
theorem close_event_dangles :
    ∃ last, mailMachine.Reachable last ∧
      ∃ message buffer, last.pool.mUndoTasks = [message] ∧ last.sendMsgs = [buffer] ∧
        ¬ last.buffers.Alive buffer ∧ buffer ≠ last.mSendBuf message.taskId ∧
        (last.writeReply buffer [104, 105]).replyOf message.taskId = [] := by
  obtain ⟨last, reached, ended⟩ := Machine.exists_reachableUnder_of_follow mailMachine
    (fun _ _ => True) closedOnce
    (fun last => decide (∃ message ∈ last.pool.mUndoTasks.head?, ∃ buffer ∈ last.sendMsgs.head?,
      last.pool.mUndoTasks = [message] ∧ last.sendMsgs = [buffer] ∧
        ¬ last.buffers.Alive buffer ∧ buffer ≠ last.mSendBuf message.taskId ∧
        (last.writeReply buffer [104, 105]).replyOf message.taskId = []))
    ⟨3, 4, fun _ => 0, rfl⟩ (by decide)
  obtain ⟨message, _, buffer, _, facts⟩ := of_decide_eq_true ended
  exact ⟨last, reached, message, buffer, facts⟩

end LibNet.Net
