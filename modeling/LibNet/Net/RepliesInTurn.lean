import LibNet.Net.Descriptors
import LibNet.Net.Turns

/-!
# Clients that take turns get their answers whole

When clients take turns, `m_send_pos` is 0 at every `push_msg` and the task still has its
connection, so the flaws of `send_buf` stay out of sight: what a connection is sent is the
replies pushed for its messages, one behind the other, each from its first byte to its last.
-/

namespace LibNet.Net

open LibNet.Runs
open LibNet.Base

variable {server after : Server} {action : Action}

theorem requested_iff {taskId : Int} :
    server.requested taskId = true ↔
      (∃ fd events, server.loop = .append taskId fd events) ∨ taskId ∈ server.mWorkqueue ∨
        ∃ worker, server.workers worker = .popped taskId := by
  have appends : (server.loop.appending = true ∧
      server.loop.handling.map Prod.fst = some taskId) ↔
      ∃ fd events, server.loop = .append taskId fd events := by
    cases server.loop <;> simp [Loop.appending, Loop.handling]
  simp only [Server.requested, Bool.or_eq_true, Bool.and_eq_true, decide_eq_true_eq, appends,
    or_assoc]

/-- The message of a slot that is not being sent. -/
def Slot.held : Slot → Option (Message Octet Cause)
  | .holding message => some message
  | .sending _ _ => none

/-- The messages whose answers are not pushed yet. -/
def Server.unpushed (server : Server) : List (Message Octet Cause) :=
  server.pool.mUndoTasks ++ server.slots.filterMap Slot.held

/-- The counters of `send_buf` are ready for every answer to come: there is a reference to
use up, and `m_send_pos` is 0 or about to be. -/
structure Counted (server : Server) : Prop where
  positive : ∀ taskId, 1 ≤ (server.task taskId).mReferenceCount
  ready : ∀ message ∈ server.unpushed, ∀ conn, message.cause = .read conn →
    2 ≤ (server.task message.taskId).mReferenceCount ∧
      (server.requested message.taskId = true ∨ (server.task message.taskId).mSendPos = 0)
  short : ∀ taskId, (server.task taskId).mSendBuf.mLength ≤ bufferSize

/-- A step that makes no message and leaves the counters as good as they were. -/
theorem Counted.transport (counted : Counted server)
    (fewer : ∀ message ∈ after.unpushed, message ∈ server.unpushed)
    (references : ∀ taskId,
      (server.task taskId).mReferenceCount ≤ (after.task taskId).mReferenceCount)
    (position : ∀ taskId, (server.task taskId).mSendPos = 0 → (after.task taskId).mSendPos = 0)
    (request : ∀ taskId, server.requested taskId = true →
      after.requested taskId = true ∨ (after.task taskId).mSendPos = 0)
    (short : ∀ taskId, (after.task taskId).mSendBuf.mLength ≤ bufferSize) : Counted after where
  positive := fun taskId => (counted.positive taskId).trans (references taskId)
  ready := by
    intro message member conn asked
    obtain ⟨two, begun⟩ := counted.ready message (fewer message member) conn asked
    refine ⟨two.trans (references _), ?_⟩
    rcases begun with requested | zero
    · exact request _ requested
    · exact .inr (position _ zero)
  short := short

theorem PeerStep.counted (step : PeerStep server action after) (counted : Counted server) :
    Counted after := by
  cases step <;>
    exact counted.transport (fun _ => id) (fun _ => Int.le_refl _) (fun _ => id)
      (fun _ => .inl) counted.short

/-- A worker hands a request on, up to the point where `recv_buf` zeroes the counter. -/
theorem WorkerStep.requested (step : WorkerStep server action after) {taskId : Int}
    (requested : server.requested taskId = true) :
    after.requested taskId = true ∨ (after.task taskId).mSendPos = 0 := by
  have others : ∀ worker reader, (∀ taskId, server.workers worker ≠ .popped taskId) →
      ∀ other, server.workers other = .popped taskId →
        Function.update server.workers worker reader other = .popped taskId := by
    intro worker reader unpopped other popped
    have different : other ≠ worker := fun same => unpopped taskId (same ▸ popped)
    rw [Function.update_of_ne different]
    exact popped
  have stays : ∀ worker reader, (∀ taskId, server.workers worker ≠ .popped taskId) →
      after.loop = server.loop → after.mWorkqueue = server.mWorkqueue →
      after.workers = Function.update server.workers worker reader →
      after.requested taskId = true := by
    intro worker reader unpopped loop queue workers
    rw [requested_iff, loop, queue, workers]
    rcases requested_iff.mp requested with appends | queued | ⟨other, popped⟩
    · exact .inl appends
    · exact .inr (.inl queued)
    · exact .inr (.inr ⟨other, others worker reader unpopped other popped⟩)
  cases step with
  | take worker front rest idle queued =>
      refine .inl (requested_iff.mpr ?_)
      rcases requested_iff.mp requested with appends | member | ⟨other, popped⟩
      · exact .inl appends
      · rw [queued] at member
        rcases List.mem_cons.mp member with rfl | later
        · exact .inr (.inr ⟨worker, Function.update_self ..⟩)
        · exact .inr (.inl later)
      · exact .inr (.inr ⟨other, others worker _ (by rw [idle]; exact fun _ h => by cases h)
          other popped⟩)
  | enter worker entered popped =>
      by_cases same : taskId = entered
      · subst same
        refine .inr ?_
        simp [Server.task, Server.setWorker, Server.setTask, TcpTaskPool.setTask,
          TcpSocket.recvStart]
      · refine .inl (requested_iff.mpr ?_)
        rcases requested_iff.mp requested with appends | member | ⟨other, waits⟩
        · exact .inl appends
        · exact .inr (.inl member)
        · refine .inr (.inr ⟨other, ?_⟩)
          have different : other ≠ worker := by
            rintro rfl
            rw [popped] at waits
            cases waits
            exact same rfl
          exact (Function.update_of_ne different ..).trans waits
  | data worker count task length fd conn reads socket member opened positive available fits
      representable =>
      exact .inl (stays worker _ (by rw [reads]; exact fun _ h => by cases h) rfl rfl rfl)
  | foreign worker bytes task length reads fits closed representable =>
      exact .inl (stays worker _ (by rw [reads]; exact fun _ h => by cases h) rfl rfl rfl)
  | eof worker task length fd conn reads socket member opened empty =>
      exact .inl (stays worker _ (by rw [reads]; exact fun _ h => by cases h) rfl rfl rfl)
  | foreignEof worker task length reads closed =>
      exact .inl (stays worker _ (by rw [reads]; exact fun _ h => by cases h) rfl rfl rfl)
  | eagain worker task length reads empty representable =>
      exact .inl (stays worker _ (by rw [reads]; exact fun _ h => by cases h) rfl rfl rfl)
  | error worker task length reads representable =>
      exact .inl (stays worker _ (by rw [reads]; exact fun _ h => by cases h) rfl rfl rfl)
  | store worker task length bytes holds fits =>
      exact .inl (stays worker _ (by rw [holds]; exact fun _ h => by cases h) rfl rfl rfl)

theorem WorkerStep.counted (step : WorkerStep server action after) (counted : Counted server) :
    Counted after := by
  have unpushed : after.unpushed = server.unpushed := by cases step <;> rfl
  have references : ∀ taskId,
      (after.task taskId).mReferenceCount = (server.task taskId).mReferenceCount := by
    cases step with
    | enter worker taskId popped => exact update_field TcpSocket.mReferenceCount rfl
    | store worker taskId length bytes holds fits =>
        exact update_field TcpSocket.mReferenceCount rfl
    | _ => exact fun _ => rfl
  have position : ∀ taskId, (server.task taskId).mSendPos = 0 →
      (after.task taskId).mSendPos = 0 := by
    cases step with
    | enter worker entered popped =>
        intro taskId zero
        by_cases same : taskId = entered
        · subst same
          simp [Server.task, Server.setWorker, Server.setTask, TcpTaskPool.setTask,
            TcpSocket.recvStart]
        · simpa [Server.task, Server.setWorker, Server.setTask, TcpTaskPool.setTask,
            Function.update_of_ne same] using zero
    | store worker taskId length bytes holds fits =>
        intro other zero
        refine Eq.trans ?_ zero
        exact update_field TcpSocket.mSendPos (by rfl) other
    | _ => exact fun _ => id
  refine counted.transport (unpushed ▸ fun _ => id) (fun taskId => (references taskId).ge)
    position (fun _ => step.requested) ?_
  intro taskId
  rw [step.mSendBuf]
  exact counted.short taskId

/-- The event loop hands every request on to the queue, as long as there is room. -/
theorem LoopStep.requested (step : LoopStep server action after) (allowed : InTurn server action)
    {taskId : Int} (requested : server.requested taskId = true) :
    after.requested taskId = true := by
  have stays : (∀ fd events, server.loop ≠ .append taskId fd events) →
      after.mWorkqueue = server.mWorkqueue → after.workers = server.workers →
      after.requested taskId = true := by
    intro elsewhere queue workers
    rw [requested_iff, queue, workers]
    rcases requested_iff.mp requested with ⟨fd, events, appends⟩ | waiting
    · exact absurd appends (elsewhere fd events)
    · exact .inr waiting
  cases step with
  | append other fd events reached =>
      have room : server.mWorkqueue.length ≤ maxRequests := allowed (by rw [reached]; rfl)
      have queue : enqueue maxRequests server.mWorkqueue other = server.mWorkqueue ++ [other] :=
        if_neg (Nat.not_lt.mpr room)
      refine requested_iff.mpr (.inr ?_)
      simp only [queue]
      rcases requested_iff.mp requested with ⟨fd, events, appends⟩ | member | popped
      · rw [reached] at appends
        cases appends
        exact .inl (List.mem_append_right _ (List.mem_singleton_self _))
      · exact .inl (List.mem_append_left _ member)
      · exact .inr popped
  | epollWait fds waits distinct pending =>
      exact stays (by rw [waits]; exact fun _ _ h => by cases h) rfl rfl
  | acceptFailed event events reached noHup listens =>
      exact stays (by rw [reached]; exact fun _ _ h => by cases h) rfl rfl
  | accept event events connFd assigned rest reached noHup listens inside fresh unreserved waits
      free => exact stays (by rw [reached]; exact fun _ _ h => by cases h) rfl rfl
  | close event events reached hup member =>
      exact stays (by rw [reached]; exact fun _ _ h => by cases h) rfl rfl
  | recv event events reached noHup member =>
      exact stays (by rw [reached]; exact fun _ _ h => by cases h) rfl rfl
  | clean delSubscript connFd events reached =>
      exact stays (by rw [reached]; exact fun _ _ h => by cases h) rfl rfl
  | finish delSubscript connFd events reached =>
      exact stays (by rw [reached]; exact fun _ _ h => by cases h) rfl rfl

/-- Only `recv_msg` raises a reference count in the event loop, and nothing there touches
`m_send_pos`. -/
theorem LoopStep.counters (step : LoopStep server action after) (taskId : Int) :
    (server.task taskId).mReferenceCount ≤ (after.task taskId).mReferenceCount ∧
      (after.task taskId).mSendPos = (server.task taskId).mSendPos := by
  cases step with
  | accept event events connFd assigned rest reached noHup listens inside fresh unreserved waits
      free =>
      exact ⟨Int.le_of_eq (Eq.symm (update_field TcpSocket.mReferenceCount (by rfl) taskId)),
        update_field TcpSocket.mSendPos (by rfl) taskId⟩
  | close event events reached hup member =>
      exact ⟨Int.le_of_eq (Eq.symm (update_field TcpSocket.mReferenceCount (by rfl) taskId)),
        update_field TcpSocket.mSendPos (by rfl) taskId⟩
  | recv event events reached noHup member =>
      refine ⟨?_, update_field TcpSocket.mSendPos (by rfl) taskId⟩
      by_cases same : taskId = server.pool.mReadyList event.fd
      · subst same
        simp only [Server.task, Function.update_self, TcpSocket.getSendBufLenAddr,
          TcpSocket.setWrFlag]
        omega
      · simp only [Server.task, Function.update_of_ne same, Int.le_refl]
  | clean delSubscript connFd events reached =>
      exact ⟨Int.le_of_eq (Eq.symm (update_field TcpSocket.mReferenceCount (by rfl) taskId)),
        update_field TcpSocket.mSendPos (by rfl) taskId⟩
  | _ => exact ⟨Int.le_refl _, rfl⟩

theorem LoopStep.counted (step : LoopStep server action after) (counted : Counted server)
    (allowed : InTurn server action) : Counted after := by
  have short : ∀ taskId, (after.task taskId).mSendBuf.mLength ≤ bufferSize := by
    intro taskId
    rcases step.mSendBuf taskId with same | cleaned
    · rw [same]
      exact counted.short taskId
    · rw [cleaned]
      exact Nat.zero_le _
  have keeps : ∀ message ∈ server.unpushed, ∀ conn, message.cause = .read conn →
      2 ≤ (after.task message.taskId).mReferenceCount ∧
        (after.requested message.taskId = true ∨ (after.task message.taskId).mSendPos = 0) := by
    intro message member conn asked
    obtain ⟨two, begun⟩ := counted.ready message member conn asked
    obtain ⟨references, position⟩ := step.counters message.taskId
    refine ⟨two.trans references, begun.imp (step.requested allowed) ?_⟩
    rw [position]
    exact id
  refine ⟨fun taskId => (counted.positive taskId).trans (step.counters taskId).1, ?_, short⟩
  cases step with
  | recv event events reached noHup live =>
      intro message member conn asked
      rcases List.mem_append.mp member with queued | held
      · rcases List.mem_append.mp queued with earlier | new
        · exact keeps message (List.mem_append_left _ earlier) conn asked
        · rw [List.mem_singleton.mp new]
          refine ⟨?_, .inl (requested_iff.mpr (.inl ⟨_, _, rfl⟩))⟩
          have one := counted.positive (server.pool.mReadyList event.fd)
          simp only [Server.task, Function.update_self, TcpSocket.getSendBufLenAddr,
            TcpSocket.setWrFlag]
          simp only [Server.task] at one
          omega
      · exact keeps message (List.mem_append_right _ held) conn asked
  | finish delSubscript connFd events reached =>
      intro message member conn asked
      rcases List.mem_append.mp member with queued | held
      · rcases List.mem_append.mp queued with earlier | new
        · exact keeps message (List.mem_append_left _ earlier) conn asked
        · rw [List.mem_singleton.mp new] at asked
          cases asked
      · exact keeps message (List.mem_append_right _ held) conn asked
  | _ => exact keeps

/-! ## One `push_msg` -/

/-- What `push_msg` finds and leaves. -/
inductive PushStep (server : Server) (slot : Nat) (heap : Nat → Octet) : Server → Prop where
  | nothing (message : Message Octet Cause)
      (held : server.slots[slot]? = some (.holding message))
      (empty : (server.task message.taskId).mSendBuf.mLength = 0 ∨
        (server.task message.taskId).sendCount.mSendPos = 0) :
      PushStep server slot heap
        { server.setTask message.taskId (server.task message.taskId).sendCount with
          slots := server.slots.eraseIdx slot }
  | started (message : Message Octet Cause)
      (held : server.slots[slot]? = some (.holding message))
      (reply : (server.task message.taskId).mSendBuf.mLength ≠ 0) :
      PushStep server slot heap
        { server.setTask message.taskId (server.task message.taskId).sendCount with
          slots := server.slots.set slot (.sending message
            ⟨(server.task message.taskId).sendCopy heap,
              (server.task message.taskId).sendCount.mSendPos, 0⟩) }

theorem pushStep_of_push? {slot : Nat} {heap : Nat → Octet}
    (taken : server.push? slot heap = some after) : PushStep server slot heap after := by
  simp only [Server.push?] at taken
  cases found : server.slots[slot]? with
  | none => simp [found] at taken
  | some held =>
      cases held with
      | sending message frame => simp [found] at taken
      | holding message =>
          simp only [found, TcpSocket.sendStart] at taken
          by_cases empty : (server.task message.taskId).mSendBuf.mLength = 0 ∨
              (server.task message.taskId).sendCount.mSendPos = 0
          · simp only [if_pos empty, Option.some.injEq] at taken
            subst taken
            exact .nothing message found empty
          · simp only [if_neg empty, Option.some.injEq] at taken
            subst taken
            exact .started message found fun none => empty (.inl none)

/-- The messages that are not pushed, but for that of one slot. -/
def Server.unpushedBut (server : Server) (slot : Nat) : List (Message Octet Cause) :=
  server.pool.mUndoTasks ++ (server.slots.eraseIdx slot).filterMap Slot.held

theorem owing_of_held {slot : Slot} {message : Message Octet Cause}
    (held : slot.held = some message) : slot.owing = some message := by
  cases slot with
  | holding other => exact held
  | sending other frame => cases held

theorem mem_awaitingBut {slot : Nat} {message : Message Octet Cause}
    (member : message ∈ server.unpushedBut slot) : message ∈ server.awaitingBut slot := by
  rcases List.mem_append.mp member with queued | listed
  · exact List.mem_append_left _ queued
  · obtain ⟨other, stays, held⟩ := List.mem_filterMap.mp listed
    exact List.mem_append_right _ (List.mem_filterMap.mpr ⟨other, stays, owing_of_held held⟩)

/-- A slot that begins or goes on to send has no message that is not pushed. -/
theorem mem_unpushedBut_of_set {slot : Nat} {held : Slot} {message sent : Message Octet Cause}
    {frame : SendFrame Octet} (found : server.slots[slot]? = some held)
    (member : message ∈ server.pool.mUndoTasks ++
      (server.slots.set slot (.sending sent frame)).filterMap Slot.held) :
    message ∈ server.unpushedBut slot :=
  ((((slots_set_perm found (.sending sent frame)).filterMap Slot.held).append_left _).mem_iff).mp
    member

theorem mem_unpushed_of_but {slot : Nat} {message : Message Octet Cause}
    (member : message ∈ server.unpushedBut slot) : message ∈ server.unpushed :=
  (((List.eraseIdx_sublist _ _).filterMap _).append_left _).subset member

/-- No other message that awaits an answer has the connection or the task of this one. -/
theorem TakesTurns.apart (turns : TakesTurns server) (tables : Tables server) {slot : Nat}
    {held : Slot} {message other : Message Octet Cause} {conn conn' : Nat}
    (found : server.slots[slot]? = some held) (owes : held.owing = some message)
    (asked : message.cause = .read conn) (member : other ∈ server.awaitingBut slot)
    (asked' : other.cause = .read conn') :
    conn' ≠ conn ∧ other.taskId ≠ message.taskId := by
  have perm := awaiting_perm found
  rw [owes] at perm
  have different : conn' ≠ conn := by
    rintro rfl
    have once := turns.once conn'
    rw [perm.countP_eq, Option.toList_some, List.singleton_append, List.countP_cons_of_pos
      (by simp [Message.asksFor, asked])] at once
    have another : 0 < (server.awaitingBut slot).countP (Message.asksFor conn') :=
      List.countP_pos_iff.mpr ⟨other, member, by simp [Message.asksFor, asked']⟩
    omega
  refine ⟨different, fun same => different ?_⟩
  obtain ⟨fd, mine⟩ := turns.owner message
    (perm.mem_iff.mpr (List.mem_append_left _ (Option.mem_toList.mpr rfl))) conn asked
  obtain ⟨fd', its⟩ := turns.owner other
    (perm.mem_iff.mpr (List.mem_append_right _ member)) conn' asked'
  have descriptor : fd' = fd :=
    tables.books.injective its.live mine.live (its.ready.trans (same.trans mine.ready.symm))
  rw [← its.opened, descriptor, mine.opened]

/-- What the application may count on when it pushes an answer in turn. -/
theorem pushed_in_turn (counted : Counted server) {slot : Nat} {heap : Nat → Octet}
    {message : Message Octet Cause} (held : server.slots[slot]? = some (.holding message))
    (allowed : InTurn server (.push slot heap)) :
    (∃ conn, message.cause = .read conn) ∧
      2 ≤ (server.task message.taskId).mReferenceCount ∧
      (server.task message.taskId).mSendPos = 0 := by
  have may : server.mayPush slot = true := allowed
  simp only [Server.mayPush, held, Bool.and_eq_true, Bool.not_eq_true'] at may
  have asked : ∃ conn, message.cause = .read conn := by
    cases cause : message.cause with
    | read conn => exact ⟨conn, rfl⟩
    | close conn =>
        rw [cause] at may
        cases may.1
  obtain ⟨conn, cause⟩ := asked
  have member : message ∈ server.unpushed :=
    List.mem_append_right _ (List.mem_filterMap.mpr ⟨_, List.mem_of_getElem? held, rfl⟩)
  obtain ⟨two, begun⟩ := counted.ready message member conn cause
  refine ⟨⟨conn, cause⟩, two, begun.resolve_left ?_⟩
  rw [may.2]
  exact Bool.false_ne_true

/-- In turn, `send_buf` counts exactly the reply. -/
theorem sendCount_in_turn {β : Type} {socket : TcpSocket β} (two : 2 ≤ socket.mReferenceCount)
    (zero : socket.mSendPos = 0) (short : socket.mSendBuf.mLength ≤ bufferSize) :
    socket.sendCount.mSendPos = socket.mSendBuf.mLength ∧
      1 ≤ socket.sendCount.mReferenceCount := by
  have positive : socket.mReferenceCount > 0 := by omega
  simp only [TcpSocket.sendCount, if_pos positive, zero, Buffer.getSize_eq short, Int.zero_add,
    true_and]
  omega

theorem PushStep.counted {slot : Nat} {heap : Nat → Octet}
    (step : PushStep server slot heap after) (tables : Tables server)
    (turns : TakesTurns server) (counted : Counted server)
    (allowed : InTurn server (.push slot heap)) : Counted after := by
  have general : ∀ (message : Message Octet Cause) (slots : List Slot),
      server.slots[slot]? = some (.holding message) →
      (∀ other ∈ server.pool.mUndoTasks ++ slots.filterMap Slot.held,
        other ∈ server.unpushedBut slot) →
      Counted { server.setTask message.taskId (server.task message.taskId).sendCount with
        slots := slots } := by
    intro message slots held fewer
    obtain ⟨⟨conn, asked⟩, two, zero⟩ := pushed_in_turn counted held allowed
    have mine := sendCount_in_turn two zero (counted.short message.taskId)
    refine ⟨?_, ?_, ?_⟩
    · intro taskId
      by_cases same : taskId = message.taskId
      · subst same
        simpa only [Server.task, Server.setTask, TcpTaskPool.setTask, Function.update_self]
          using mine.2
      · simpa only [Server.task, Server.setTask, TcpTaskPool.setTask,
          Function.update_of_ne same] using counted.positive taskId
    · intro other member conn' asked'
      have rest := fewer other member
      have different := (turns.apart tables held rfl asked (mem_awaitingBut rest) asked').2
      have same : Function.update server.pool.mTcpTasks message.taskId
          (server.task message.taskId).sendCount other.taskId = server.task other.taskId :=
        Function.update_of_ne different ..
      have ready := counted.ready other (mem_unpushed_of_but rest) conn' asked'
      rw [← same] at ready
      exact ready
    · intro taskId
      have same : (Function.update server.pool.mTcpTasks message.taskId
          (server.task message.taskId).sendCount taskId).mSendBuf =
            (server.task taskId).mSendBuf :=
        update_field TcpSocket.mSendBuf (TcpSocket.sendCount_mSendBuf _) taskId
      exact (congrArg Buffer.mLength same).le.trans (counted.short taskId)
  cases step with
  | nothing message held empty => exact general message _ held fun _ => id
  | started message held reply =>
      exact general message _ held fun _ => mem_unpushedBut_of_set held

theorem sendEnd_of_whole {β : Type} (socket : TcpSocket β) {left : Int} (last : WriteResult)
    (whole : left = 0) : (socket.sendEnd left last).2 = socket := by
  simp [TcpSocket.sendEnd, whole]

theorem setTask_self (taskId : Int) : server.setTask taskId (server.task taskId) = server := by
  simp [Server.setTask, TcpTaskPool.setTask, Server.task, Function.update_eq_self]

/-- A `write` that is refused in turn ends the call with nothing left. -/
theorem left_of_refused {slot : Nat} {last : WriteResult} {message : Message Octet Cause}
    {frame : SendFrame Octet} (sends : server.slots[slot]? = some (.sending message frame))
    (refused : last.accepts = false) (allowed : InTurn server (.write slot last)) :
    frame.left = 0 := by
  have may : server.mayWrite slot last = true := allowed
  simpa [Server.mayWrite, sends, refused] using may

theorem WriteStep.counted {slot : Nat} {result : WriteResult}
    (step : WriteStep server slot result after) (counted : Counted server)
    (allowed : InTurn server (.write slot result)) : Counted after := by
  cases step with
  | accepted message frame count sends fits =>
      refine counted.transport ?_ (fun _ => Int.le_refl _) (fun _ => id) (fun _ => .inl)
        counted.short
      exact fun other member => mem_unpushed_of_but (mem_unpushedBut_of_set sends member)
  | ended message frame last sends refused =>
      rw [sendEnd_of_whole _ _ (left_of_refused sends refused allowed), setTask_self]
      refine counted.transport ?_ (fun _ => Int.le_refl _) (fun _ => id) (fun _ => .inl)
        counted.short
      intro other member
      exact mem_unpushed_of_but (show other ∈ server.unpushedBut slot from member)

/-- A reply is no longer than the block it is written to. -/
theorem short_of_reply? {slot : Nat} {bytes : List UInt8}
    (taken : server.reply? slot bytes = some after) (counted : Counted server) (taskId : Int) :
    (after.task taskId).mSendBuf.mLength ≤ bufferSize := by
  simp only [Server.reply?] at taken
  cases found : server.slots[slot]? with
  | none => simp [found] at taken
  | some held =>
      cases held with
      | sending message frame => simp [found] at taken
      | holding message =>
          cases through : message.sendMsg with
          | temporary =>
              simp only [found, through, Option.some.injEq] at taken
              subst taken
              exact counted.short taskId
          | task written =>
              simp only [found, through, Option.ite_none_right_eq_some, Option.some.injEq] at taken
              obtain ⟨fits, rfl⟩ := taken
              by_cases same : taskId = written
              · subst same
                simpa [Server.task, Server.setTask, TcpTaskPool.setTask,
                  TcpSocket.writeReply] using fits
              · simpa only [Server.task, Server.setTask, TcpTaskPool.setTask,
                  Function.update_of_ne same] using counted.short taskId

theorem counted_of_app (taken : server.step? action = some after)
    (step : AppStep server action after) (tables : Tables server) (turns : TakesTurns server)
    (counted : Counted server) (allowed : InTurn server action) : Counted after := by
  cases step with
  | pull message rest front =>
      refine counted.transport ?_ (fun _ => Int.le_refl _) (fun _ => id) (fun _ => .inl)
        counted.short
      intro other member
      simp only [Server.unpushed, front, List.filterMap_append, List.mem_append, List.mem_cons,
        List.filterMap_cons, Slot.held, List.filterMap_nil, List.not_mem_nil,
        or_false] at member ⊢
      tauto
  | reply slot bytes message taskId held through =>
      change server.reply? slot bytes = _ at taken
      refine counted.transport (fun _ => id) (fun other => ?_) (fun other zero => ?_)
        (fun _ => .inl) (short_of_reply? taken counted)
      · exact Int.le_of_eq (Eq.symm (update_field TcpSocket.mReferenceCount (by rfl) other))
      · refine Eq.trans ?_ zero
        exact update_field TcpSocket.mSendPos (by rfl) other
  | replyClosed slot bytes => exact counted
  | discard slot message held =>
      refine counted.transport ?_ (fun _ => Int.le_refl _) (fun _ => id) (fun _ => .inl)
        counted.short
      intro other member
      exact mem_unpushed_of_but (show other ∈ server.unpushedBut slot from member)
  | pushNothing slot heap message held =>
      change server.push? slot heap = _ at taken
      exact (pushStep_of_push? taken).counted tables turns counted allowed
  | push slot heap message frame held reply =>
      change server.push? slot heap = _ at taken
      exact (pushStep_of_push? taken).counted tables turns counted allowed
  | write slot count message frame sends =>
      change server.write? slot (.wrote (count + 1)) = _ at taken
      exact (writeStep_of_write? taken).counted counted allowed
  | writeEnd slot last message frame sends =>
      change server.write? slot last = _ at taken
      exact (writeStep_of_write? taken).counted counted allowed

/-! ## What has been sent -/

/-- What the application pushes: the bytes in the send buffer of the task, for the connection
of the message. -/
def Server.pushes (server : Server) : Action → List (Nat × List Octet)
  | .push slot _ =>
      match server.slots[slot]? with
      | some (.holding message) =>
          [(message.cause.conn, (server.task message.taskId).mSendBuf.getBuf)]
      | _ => []
  | _ => []

/-- The replies pushed for a connection, one behind the other. -/
def repliesTo (conn : Nat) (replies : List (Nat × List Octet)) : List Octet :=
  ((replies.filter fun reply => reply.1 = conn).map Prod.snd).flatten

/-- The bytes `write` has accepted for a connection. -/
def Conn.sent (conn : Conn) : List Octet := (conn.wire.map Prod.snd).flatten

theorem repliesTo_append (conn : Nat) (replies more : List (Nat × List Octet)) :
    repliesTo conn (replies ++ more) = repliesTo conn replies ++ repliesTo conn more := by
  simp [repliesTo]

theorem repliesTo_self (conn : Nat) (bytes : List Octet) :
    repliesTo conn [(conn, bytes)] = bytes := by
  simp [repliesTo]

theorem repliesTo_other {conn other : Nat} (different : other ≠ conn) (bytes : List Octet) :
    repliesTo conn [(other, bytes)] = [] := by
  simp [repliesTo, different]

/-- A slot has bytes left to send to the connection. -/
def Sending (server : Server) (conn : Nat) : Prop :=
  ∃ message frame, .sending message frame ∈ server.slots ∧ frame.left ≠ 0 ∧
    message.cause = .read conn

/-- What was pushed is sent, but for the rest of the replies that are being sent. -/
structure Delivered (server : Server) (replies : List (Nat × List Octet)) : Prop where
  begun : ∀ message frame, .sending message frame ∈ server.slots → frame.left ≠ 0 →
    0 ≤ frame.left ∧ ∃ conn, message.cause = .read conn ∧
      repliesTo conn replies =
        (server.conns conn).sent ++ window frame.buf frame.sendPos frame.left.toNat
  whole : ∀ conn, ¬ Sending server conn → repliesTo conn replies = (server.conns conn).sent

/-- Nothing was sent, and nothing was pushed but an empty reply. -/
theorem Delivered.transport {replies more : List (Nat × List Octet)}
    (delivered : Delivered server replies)
    (pushed : ∀ conn, repliesTo conn more = repliesTo conn replies)
    (sent : ∀ conn, (after.conns conn).sent = (server.conns conn).sent)
    (slots : ∀ message frame, frame.left ≠ 0 →
      (.sending message frame ∈ after.slots ↔ .sending message frame ∈ server.slots)) :
    Delivered after more where
  begun := by
    intro message frame member some_left
    obtain ⟨low, conn, asked, replied⟩ :=
      delivered.begun message frame ((slots message frame some_left).mp member) some_left
    exact ⟨low, conn, asked, by rw [pushed, replied, sent]⟩
  whole := by
    intro conn idle
    rw [pushed, sent]
    refine delivered.whole conn ?_
    rintro ⟨message, frame, member, some_left, asked⟩
    exact idle ⟨message, frame, (slots message frame some_left).mpr member, some_left, asked⟩

/-- What was sent is a beginning of what was pushed. -/
theorem Delivered.beginning {replies : List (Nat × List Octet)}
    (delivered : Delivered server replies) (conn : Nat) :
    (server.conns conn).sent <+: repliesTo conn replies := by
  by_cases sending : Sending server conn
  · obtain ⟨message, frame, member, some_left, asked⟩ := sending
    obtain ⟨_, conn', asked', replied⟩ := delivered.begun message frame member some_left
    rw [asked] at asked'
    cases asked'
    rw [replied]
    exact List.prefix_append _ _
  · rw [delivered.whole conn sending]

/-- A slot that is being sent, seen from the slots without it. -/
theorem mem_slots_iff {slot : Nat} {held other : Slot}
    (found : server.slots[slot]? = some held) :
    other ∈ server.slots ↔ other = held ∨ other ∈ server.slots.eraseIdx slot := by
  rw [(slots_perm found).mem_iff, List.mem_cons]

theorem mem_set_iff {slot : Nat} {held next other : Slot}
    (found : server.slots[slot]? = some held) :
    other ∈ server.slots.set slot next ↔ other = next ∨ other ∈ server.slots.eraseIdx slot := by
  rw [(slots_set_perm found next).mem_iff, List.mem_cons]

/-- A slot that owes no bytes may go. -/
theorem erase_sending {slot : Nat} {held : Slot} (found : server.slots[slot]? = some held)
    (done : ∀ message frame, held = .sending message frame → frame.left = 0)
    (message : Message Octet Cause) (frame : SendFrame Octet) (some_left : frame.left ≠ 0) :
    .sending message frame ∈ server.slots.eraseIdx slot ↔
      .sending message frame ∈ server.slots := by
  rw [mem_slots_iff found]
  constructor
  · exact .inr
  · rintro (same | member)
    · exact absurd (done message frame same.symm) some_left
    · exact member

/-- Another slot that is being sent answers another connection. -/
theorem TakesTurns.sending_apart (turns : TakesTurns server) (tables : Tables server)
    {slot : Nat} {held : Slot} {message other : Message Octet Cause} {frame : SendFrame Octet}
    {conn conn' : Nat} (found : server.slots[slot]? = some held)
    (owes : held.owing = some message) (asked : message.cause = .read conn)
    (member : .sending other frame ∈ server.slots.eraseIdx slot) (some_left : frame.left ≠ 0)
    (asked' : other.cause = .read conn') : conn' ≠ conn :=
  (turns.apart tables found owes asked (List.mem_append_right _ (List.mem_filterMap.mpr
    ⟨_, member, owing_sending.mpr ⟨some_left, rfl⟩⟩)) asked').1

/-- A message with the application is not being sent. -/
theorem not_sending_of_holding (turns : TakesTurns server) (tables : Tables server) {slot : Nat}
    {message : Message Octet Cause} {conn : Nat}
    (held : server.slots[slot]? = some (.holding message)) (asked : message.cause = .read conn) :
    ¬ Sending server conn := by
  rintro ⟨other, frame, member, some_left, asked'⟩
  rcases (mem_slots_iff held).mp member with same | rest
  · cases same
  · exact turns.sending_apart tables held rfl asked rest some_left asked' rfl

theorem pushes_of_holding {slot : Nat} {message : Message Octet Cause} {conn : Nat}
    (held : server.slots[slot]? = some (.holding message)) (asked : message.cause = .read conn)
    (heap : Nat → Octet) :
    server.pushes (.push slot heap) =
      [(conn, (server.task message.taskId).mSendBuf.getBuf)] := by
  simp [Server.pushes, held, asked, Cause.conn]

theorem PushStep.delivered {slot : Nat} {heap : Nat → Octet}
    {replies : List (Nat × List Octet)} (step : PushStep server slot heap after)
    (tables : Tables server) (turns : TakesTurns server) (counted : Counted server)
    (allowed : InTurn server (.push slot heap)) (delivered : Delivered server replies) :
    Delivered after (replies ++ server.pushes (.push slot heap)) := by
  cases step with
  | nothing message held empty =>
      obtain ⟨⟨conn, asked⟩, two, zero⟩ := pushed_in_turn counted held allowed
      have position := (sendCount_in_turn two zero (counted.short message.taskId)).1
      have none : (server.task message.taskId).mSendBuf.mLength = 0 := by
        rcases empty with none | zero'
        · exact none
        · rw [position] at zero'
          exact Int.ofNat_eq_zero.mp zero'
      have nothing : (server.task message.taskId).mSendBuf.getBuf = [] := by
        simp [Buffer.getBuf, none]
      rw [pushes_of_holding held asked, nothing]
      refine delivered.transport (fun other => ?_) (fun _ => rfl) ?_
      · simp [repliesTo]
      · exact erase_sending held fun _ _ same => by cases same
  | started message held reply =>
      obtain ⟨⟨conn, asked⟩, two, zero⟩ := pushed_in_turn counted held allowed
      have position := (sendCount_in_turn two zero (counted.short message.taskId)).1
      have idle := not_sending_of_holding turns tables held asked
      rw [pushes_of_holding held asked]
      constructor
      case begun =>
        intro other frame member some_left
        rcases (mem_set_iff held).mp member with new | rest
        · cases new
          refine ⟨by rw [position]; exact Int.natCast_nonneg _, conn, asked, ?_⟩
          rw [repliesTo_append, repliesTo_self, delivered.whole conn idle, position,
            Int.toNat_natCast, TcpSocket.sendCopy, window_memcpy, Buffer.getBuf_eq_window]
          rfl
        · obtain ⟨low, conn', asked', replied⟩ :=
            delivered.begun other frame (List.mem_of_mem_eraseIdx rest) some_left
          have different := turns.sending_apart tables held rfl asked rest some_left asked'
          refine ⟨low, conn', asked', ?_⟩
          rw [repliesTo_append, repliesTo_other different.symm, List.append_nil]
          exact replied
      case whole =>
        intro conn' quiet
        have different : conn ≠ conn' := by
          rintro rfl
          refine quiet ⟨message, _, (mem_set_iff held).mpr (.inl rfl), ?_, asked⟩
          rw [position]
          exact fun none => reply (Int.ofNat_eq_zero.mp none)
        rw [repliesTo_append, repliesTo_other different, List.append_nil]
        refine delivered.whole conn' ?_
        rintro ⟨other, frame, member, some_left, asked'⟩
        rcases (mem_slots_iff held).mp member with same | rest
        · cases same
        · exact quiet ⟨other, frame, (mem_set_iff held).mpr (.inr rest), some_left, asked'⟩

/-- In turn, a `write` goes to the connection whose message it answers. -/
theorem kernelWrite_in_turn (tables : Tables server) {message : Message Octet Cause}
    {conn : Nat} {fd : Int} (awaitsReply : AwaitsReply server message.taskId conn fd)
    (asked : message.cause = .read conn) (bytes : List Octet) :
    (server.kernelWrite (server.task message.taskId).mSocket message.cause.conn bytes).conns =
      Function.update server.conns conn { server.conns conn with
        wire := (server.conns conn).wire ++ [(conn, bytes)] } := by
  have socket : (server.task message.taskId).mSocket = fd := by
    rw [← awaitsReply.ready]
    exact tables.assigned fd awaitsReply.live awaitsReply.unclosed
  simp only [Server.kernelWrite, socket, awaitsReply.live, if_true, awaitsReply.opened, asked,
    Cause.conn]

theorem sent_append (conn : Conn) (answers : Nat) (bytes : List Octet) :
    ({ conn with wire := conn.wire ++ [(answers, bytes)] } : Conn).sent = conn.sent ++ bytes := by
  simp [Conn.sent]

theorem WriteStep.delivered {slot : Nat} {result : WriteResult}
    {replies : List (Nat × List Octet)} (step : WriteStep server slot result after)
    (tables : Tables server) (turns : TakesTurns server)
    (allowed : InTurn server (.write slot result)) (delivered : Delivered server replies) :
    Delivered after replies := by
  cases step with
  | ended message frame last sends refused =>
      have left := left_of_refused sends refused allowed
      refine delivered.transport (fun _ => rfl) (fun _ => rfl) (erase_sending sends ?_)
      intro other started same
      cases same
      exact left
  | accepted message frame count sends fits =>
      have positive : frame.left ≠ 0 := by omega
      have owes : (Slot.sending message frame).owing = some message :=
        owing_sending.mpr ⟨positive, rfl⟩
      obtain ⟨low, conn, asked, replied⟩ :=
        delivered.begun message frame (List.mem_of_getElem? sends) positive
      obtain ⟨fd, awaitsReply⟩ := turns.owner message (List.mem_append_right _
        (List.mem_filterMap.mpr ⟨_, List.mem_of_getElem? sends, owes⟩)) conn asked
      have conns := kernelWrite_in_turn tables awaitsReply asked (frame.chunk (count + 1))
      have mine : (Function.update server.conns conn { server.conns conn with
          wire := (server.conns conn).wire ++ [(conn, frame.chunk (count + 1))] } conn).sent =
          (server.conns conn).sent ++ frame.chunk (count + 1) := by
        rw [Function.update_self, sent_append]
      have split : window frame.buf frame.sendPos frame.left.toNat =
          frame.chunk (count + 1) ++ window frame.buf (frame.sendPos + (count + 1))
            (frame.left - (count + 1 : Nat)).toNat := by
        rw [SendFrame.chunk, ← window_add]
        congr 1
        omega
      constructor
      case begun =>
        intro other started member some_left
        dsimp only
        rw [conns]
        rcases (mem_set_iff sends).mp member with new | rest
        · cases new
          refine ⟨Int.sub_nonneg_of_le fits, conn, asked, ?_⟩
          rw [mine, replied, split, List.append_assoc]
          rfl
        · obtain ⟨nonnegative, conn', asked', replied'⟩ :=
            delivered.begun other started (List.mem_of_mem_eraseIdx rest) some_left
          have different := turns.sending_apart tables sends owes asked rest some_left asked'
          exact ⟨nonnegative, conn', asked', by rw [Function.update_of_ne different, replied']⟩
      case whole =>
        intro conn' quiet
        dsimp only
        rw [conns]
        by_cases same : conn' = conn
        · subst same
          have finished : (frame.advance (count + 1)).left = 0 := by
            by_contra some_left
            exact quiet ⟨message, _, (mem_set_iff sends).mpr (.inl rfl), some_left, asked⟩
          simp only [SendFrame.advance] at finished
          rw [mine, replied, split, finished]
          simp [window]
        · rw [Function.update_of_ne same]
          refine delivered.whole conn' ?_
          rintro ⟨other, started, member, some_left, asked'⟩
          rcases (mem_slots_iff sends).mp member with here | rest
          · cases here
            rw [asked] at asked'
            cases asked'
            exact same rfl
          · exact quiet ⟨other, started, (mem_set_iff sends).mpr (.inr rest), some_left, asked'⟩

theorem delivered_of_app {replies : List (Nat × List Octet)}
    (taken : server.step? action = some after) (step : AppStep server action after)
    (tables : Tables server) (turns : TakesTurns server) (counted : Counted server)
    (allowed : InTurn server action) (delivered : Delivered server replies) :
    Delivered after (replies ++ server.pushes action) := by
  have nothing : ∀ conn, repliesTo conn (replies ++ []) = repliesTo conn replies :=
    fun conn => by rw [List.append_nil]
  cases step with
  | pull message rest front =>
      refine delivered.transport nothing (fun _ => rfl) fun other frame _ => ?_
      simp
  | reply slot bytes message taskId held through =>
      exact delivered.transport nothing (fun _ => rfl) fun _ _ _ => Iff.rfl
  | replyClosed slot bytes =>
      exact delivered.transport nothing (fun _ => rfl) fun _ _ _ => Iff.rfl
  | discard slot message held =>
      exact delivered.transport nothing (fun _ => rfl)
        (erase_sending held fun _ _ same => by cases same)
  | pushNothing slot heap message held =>
      change server.push? slot heap = _ at taken
      exact (pushStep_of_push? taken).delivered tables turns counted allowed delivered
  | push slot heap message frame held reply =>
      change server.push? slot heap = _ at taken
      exact (pushStep_of_push? taken).delivered tables turns counted allowed delivered
  | write slot count message frame sends =>
      change server.write? slot (.wrote (count + 1)) = _ at taken
      exact ((writeStep_of_write? taken).delivered tables turns allowed delivered).transport
        nothing (fun _ => rfl) fun _ _ _ => Iff.rfl
  | writeEnd slot last message frame sends =>
      change server.write? slot last = _ at taken
      exact ((writeStep_of_write? taken).delivered tables turns allowed delivered).transport
        nothing (fun _ => rfl) fun _ _ _ => Iff.rfl

/-! ## Every run -/

/-- The counters are ready and what was pushed is delivered. -/
structure Answers (server : Server) (replies : List (Nat × List Octet)) : Prop where
  counted : Counted server
  delivered : Delivered server replies

/-- Runs of the server with the replies that were pushed. -/
def answeringServer : Machine (Server × List (Nat × List Octet)) Action :=
  Net.server.recording Server.pushes

theorem counted_init (mListenFd mEpollFd : Int) (reserved : List Int) (block : Nat → Octet) :
    Counted (.init mListenFd mEpollFd reserved block) where
  positive := fun _ => Int.le_refl 1
  ready := fun _ member => by cases member
  short := fun _ => show 1 ≤ bufferSize by decide

theorem ServerStep.answers {replies : List (Nat × List Octet)}
    (step : ServerStep server action after) (taken : server.step? action = some after)
    (tables : Tables server) (turns : TakesTurns server) (allowed : InTurn server action)
    (answers : Answers server replies) : Answers after (replies ++ server.pushes action) := by
  obtain ⟨counted, delivered⟩ := answers
  cases step with
  | peer step =>
      refine ⟨step.counted counted, ?_⟩
      have nothing : server.pushes action = [] := by cases step <;> rfl
      have slots : after.slots = server.slots := by cases step <;> rfl
      rw [nothing, List.append_nil]
      refine delivered.transport (fun _ => rfl) (fun conn => ?_) (fun _ _ _ => by rw [slots])
      obtain ⟨_, _, _, _, changed⟩ := step.conns conn
      rw [changed, Conn.sent, Conn.sent]
  | loop step =>
      refine ⟨step.counted counted allowed, ?_⟩
      have nothing : server.pushes action = [] := by cases step <;> rfl
      have slots : after.slots = server.slots := by cases step <;> rfl
      rw [nothing, List.append_nil]
      refine delivered.transport (fun _ => rfl) (fun conn => ?_) (fun _ _ _ => by rw [slots])
      obtain ⟨_, changed⟩ := step.conns conn
      rw [changed, Conn.sent, Conn.sent]
  | worker step =>
      refine ⟨step.counted counted, ?_⟩
      have nothing : server.pushes action = [] := by cases step <;> rfl
      have slots : after.slots = server.slots := by cases step <;> rfl
      rw [nothing, List.append_nil]
      refine delivered.transport (fun _ => rfl) (fun conn => ?_) (fun _ _ _ => by rw [slots])
      obtain ⟨_, _, _, changed⟩ := step.conns conn
      rw [changed, Conn.sent, Conn.sent]
  | app step =>
      exact ⟨counted_of_app taken step tables turns counted allowed,
        delivered_of_app taken step tables turns counted allowed delivered⟩

theorem reachable_answers {replies : List (Nat × List Octet)}
    (reached : answeringServer.ReachableUnder (fun recorded => InTurn recorded.1)
      (server, replies)) : Answers server replies := by
  refine Machine.ReachableUnder.record_invariant InTurn ?_ ?_ reached
  · rintro first ⟨mListenFd, mEpollFd, reserved, block, _, _, _, rfl⟩
    exact ⟨counted_init mListenFd mEpollFd reserved block,
      fun _ _ member => (by cases member), fun _ _ => rfl⟩
  · intro before action after replies earlier answers allowed taken
    have tables := reachable_tables earlier.reachable
    exact (serverStep_of_step? tables taken).answers taken tables (reachable_takesTurns earlier)
      allowed answers

/--
When clients take turns, whatever their number and however the threads interleave, the bytes
written to a connection are at every moment a beginning of the replies pushed for its messages,
one behind the other, and they are all of them whenever no reply to it is being sent.
-/
theorem replies_in_turn {replies : List (Nat × List Octet)}
    (reached : answeringServer.ReachableUnder (fun recorded => InTurn recorded.1)
      (server, replies)) (conn : Nat) :
    (server.conns conn).sent <+: repliesTo conn replies ∧
    (¬ Sending server conn → (server.conns conn).sent = repliesTo conn replies) := by
  have delivered := (reachable_answers reached).delivered
  exact ⟨delivered.beginning conn, fun idle => (delivered.whole conn idle).symm⟩

/-- Two clients ask at once; the first has its answer and the second the first byte of it. -/
def answeredInTurn : List Action :=
  letIn 5 ++ letIn 6 ++ ask 0 5 [65] ++ ask 1 6 [66] ++ serve 0 1 ++ serve 1 1 ++
    [.pull, .pull] ++ answer [67] 1 ++
    [.reply 0 [68, 69], .push 0 fun _ => Byte.zero, .write 0 (.wrote 1)]

theorem replies_in_turn_two :
    ∃ server, answeringServer.ReachableUnder (fun recorded => InTurn recorded.1)
        (server, [(0, [⟨67, .program⟩]), (1, [⟨68, .program⟩, ⟨69, .program⟩])]) ∧
      (server.conns 1).sent = [⟨68, .program⟩] ∧
      (server.conns 1).sent <+:
        repliesTo 1 [(0, [⟨67, .program⟩]), (1, [⟨68, .program⟩, ⟨69, .program⟩])] := by
  obtain ⟨⟨last, replies⟩, reached, ended⟩ := Machine.exists_reachableUnder_of_follow
    answeringServer (fun recorded => InTurn recorded.1) answeredInTurn
    (fun recorded => decide (
      recorded.2 = [(0, [⟨67, .program⟩]), (1, [⟨68, .program⟩, ⟨69, .program⟩])] ∧
        (recorded.1.conns 1).sent = [⟨68, .program⟩]))
    (show answeringServer.Start (.started, []) from ⟨start_started, rfl⟩) (by decide)
  obtain ⟨same, sent⟩ := of_decide_eq_true ended
  cases same
  exact ⟨last, reached, sent, (replies_in_turn reached 1).1⟩

end LibNet.Net
