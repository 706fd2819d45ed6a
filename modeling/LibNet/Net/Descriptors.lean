import LibNet.Net.ServerMessages

/-!
# Which descriptors `read` and `write` are given

`reset` sets the socket of a task to 0, a descriptor that is open, and nothing
takes back the requests and messages that name the task.  A worker that pops
such a request reads descriptor 0, and `push_msg` writes to it.  Every call is on
an open connection that has the task when a connection is closed only while its
task has no request and no message left.
-/

namespace LibNet.Net

open LibNet.Runs
open LibNet.Base

variable {server after : Server} {action : Action}

/-- A thread is about to call `read` or `write` for the task, and the task has
the descriptor. -/
inductive Calls (server : Server) : Int → Int → Prop where
  | read (worker : Fin threadNumber) (taskId length : Int)
      (reads : server.workers worker = .reading taskId length) :
      Calls server taskId (server.task taskId).mSocket
  | write (message : Message Octet Cause) (frame : SendFrame Octet)
      (sends : .sending message frame ∈ server.slots) :
      Calls server message.taskId (server.task message.taskId).mSocket

/-- Nothing names the task: no queued request, no worker that is going to read
for it, and no message. -/
def Unnamed (server : Server) (taskId : Int) : Prop :=
  taskId ∉ server.mWorkqueue ∧ (∀ worker, (server.workers worker).wants ≠ some taskId) ∧
    ∀ message ∈ server.outstanding, message.taskId ≠ taskId

instance (server : Server) (taskId : Int) : Decidable (Unnamed server taskId) :=
  inferInstanceAs (Decidable (_ ∧ _ ∧ _))

/-- A hang-up is handled only when nothing names the task. -/
def ClosedWhenUnnamed (server : Server) (action : Action) : Prop :=
  action.isLoop = true → ∀ event ∈ server.loop.nextEvent, event.hup = true →
    Unnamed server (server.pool.mReadyList event.fd)

instance (server : Server) (action : Action) : Decidable (ClosedWhenUnnamed server action) :=
  inferInstanceAs (Decidable (_ → _))

/-! ## Tasks that are assigned to no connection -/

/-- No connection has the task, but for one that is being closed. -/
def Vacant (server : Server) (taskId : Int) : Prop :=
  ∀ fd ∈ server.live, server.pool.mReadyList fd = taskId → server.loop.closing = some fd

theorem vacant_of_handled (tables : Tables server) {taskId fd : Int}
    (handles : server.loop.handling = some (taskId, fd)) (closing : server.loop.closing = some fd) :
    Vacant server taskId := by
  obtain ⟨live, listed, _⟩ := tables.agenda.handled taskId fd handles
  intro other member ready
  rw [tables.books.injective member live (ready.trans listed.symm)]
  exact closing

theorem Vacant.congr {taskId : Int} (vacant : Vacant after taskId)
    (same : SameTables server after) (loop : after.loop = server.loop) :
    Vacant server taskId := by
  intro fd live listed
  rw [← loop]
  exact vacant fd (same.live ▸ live) (same.ready ▸ listed)

/-- A vacant task is not used: only close events name it, and it has no reply. -/
structure Disused (server : Server) (taskId : Int) : Prop where
  queue : taskId ∉ server.mWorkqueue
  workers : ∀ worker, (server.workers worker).wants ≠ some taskId
  sending : ∀ message frame, .sending message frame ∈ server.slots → message.taskId ≠ taskId
  messages : ∀ message ∈ server.outstanding, message.taskId = taskId →
    message.sendMsg = .temporary ∧ (server.task taskId).mSendBuf.mLength = 0

structure VacantDisused (server : Server) : Prop where
  disused : ∀ taskId, Vacant server taskId → Disused server taskId
  cleaned : ∀ taskId, server.loop.finishing = some taskId →
    (server.task taskId).mSendBuf.mLength = 0
  addressed : ∀ message ∈ server.outstanding, ∀ taskId, message.sendMsg = .task taskId →
    taskId = message.taskId

theorem Disused.of_unnamed {taskId : Int} (unnamed : Unnamed server taskId) :
    Disused server taskId where
  queue := unnamed.1
  workers := unnamed.2.1
  sending := fun message _ sends =>
    unnamed.2.2 message (List.mem_append_right _ (List.mem_map.mpr ⟨_, sends, rfl⟩))
  messages := fun message member named => (unnamed.2.2 message member named).elim

theorem WorkerStep.mSendBuf (step : WorkerStep server action after) :
    ∀ taskId, (after.task taskId).mSendBuf = (server.task taskId).mSendBuf := by
  cases step with
  | enter worker taskId popped => exact update_field TcpSocket.mSendBuf rfl
  | store worker taskId length bytes holds fits => exact update_field TcpSocket.mSendBuf rfl
  | _ => exact fun _ => rfl

theorem WorkerStep.vacantDisused (step : WorkerStep server action after)
    (holds : VacantDisused server) : VacantDisused after := by
  have slots : after.slots = server.slots := by cases step <;> rfl
  have outstanding := step.outstanding
  obtain ⟨same, loop⟩ := step.sameTables
  refine ⟨fun taskId vacant => ?_, ?_, ?_⟩
  · have disused := holds.disused taskId (vacant.congr same loop)
    refine ⟨fun queued => disused.queue (step.mem_mWorkqueue queued), ?_, ?_, ?_⟩
    · intro worker wanted
      rcases step.wants wanted with old | queued
      · exact disused.workers worker old
      · exact disused.queue queued
    · rw [slots]
      exact disused.sending
    · rw [outstanding, step.mSendBuf]
      exact disused.messages
  · intro taskId finishing
    rw [loop] at finishing
    rw [step.mSendBuf]
    exact holds.cleaned taskId finishing
  · rw [outstanding]
    exact holds.addressed

/-- A reply is written to the task the message names, which then is assigned. -/
theorem AppStep.mSendBuf (step : AppStep server action after) (holds : VacantDisused server)
    {taskId : Int} (vacant : Vacant server taskId) :
    (after.task taskId).mSendBuf = (server.task taskId).mSendBuf := by
  cases step with
  | reply slot bytes message other held through =>
      have out : message ∈ server.outstanding :=
        List.mem_append_right _ (List.mem_map.mpr ⟨_, List.mem_of_getElem? held, rfl⟩)
      have named := holds.addressed message out other through
      have different : taskId ≠ other := by
        rintro rfl
        have closes := ((holds.disused taskId vacant).messages message out named.symm).1
        rw [through] at closes
        cases closes
      simp only [Server.task, Server.setTask, TcpTaskPool.setTask,
        Function.update_of_ne different]
  | pushNothing slot heap message held =>
      exact update_field TcpSocket.mSendBuf (TcpSocket.sendCount_mSendBuf _) taskId
  | push slot heap message frame held reply =>
      exact update_field TcpSocket.mSendBuf (TcpSocket.sendCount_mSendBuf _) taskId
  | writeEnd slot last message frame sends =>
      exact update_field TcpSocket.mSendBuf (TcpSocket.sendEnd_mSendBuf _ _ _) taskId
  | _ => rfl

/-- `push_msg` gets to its loop only with a reply. -/
theorem AppStep.sending (step : AppStep server action after) {message : Message Octet Cause}
    {frame : SendFrame Octet} (sends : .sending message frame ∈ after.slots) :
    (∃ frame, .sending message frame ∈ server.slots) ∨
      message ∈ server.outstanding ∧ (server.task message.taskId).mSendBuf.mLength ≠ 0 := by
  cases step with
  | pull front rest queue =>
      rcases List.mem_append.mp sends with old | new
      · exact .inl ⟨frame, old⟩
      · cases List.mem_singleton.mp new
  | discard slot other held => exact .inl ⟨frame, List.mem_of_mem_eraseIdx sends⟩
  | pushNothing slot heap other held => exact .inl ⟨frame, List.mem_of_mem_eraseIdx sends⟩
  | push slot heap other started held reply =>
      rcases List.mem_or_eq_of_mem_set sends with old | new
      · exact .inl ⟨frame, old⟩
      · cases new
        exact .inr ⟨List.mem_append_right _ (List.mem_map.mpr
          ⟨_, List.mem_of_getElem? held, rfl⟩), reply⟩
  | write slot count other started active =>
      rcases List.mem_or_eq_of_mem_set sends with old | new
      · exact .inl ⟨frame, old⟩
      · cases new
        exact .inl ⟨started, List.mem_of_getElem? active⟩
  | writeEnd slot last other started active =>
      exact .inl ⟨frame, List.mem_of_mem_eraseIdx sends⟩
  | _ => exact .inl ⟨frame, sends⟩

theorem AppStep.vacantDisused (step : AppStep server action after) (tables : Tables server)
    (holds : VacantDisused server) : VacantDisused after := by
  have queue : after.mWorkqueue = server.mWorkqueue := by cases step <;> rfl
  have workers : after.workers = server.workers := by cases step <;> rfl
  obtain ⟨same, loop⟩ := step.sameTables
  refine ⟨fun taskId later => ?_, ?_, ?_⟩
  · have vacant := later.congr same loop
    have disused := holds.disused taskId vacant
    refine ⟨queue ▸ disused.queue, workers ▸ disused.workers, ?_, ?_⟩
    · intro message frame sends named
      rcases step.sending sends with ⟨old, sent⟩ | ⟨out, reply⟩
      · exact disused.sending message old sent named
      · subst named
        exact reply (disused.messages message out rfl).2
    · intro message member named
      rw [step.mSendBuf holds vacant]
      exact disused.messages message (step.mem_outstanding member) named
  · intro taskId finishing
    rw [loop] at finishing
    obtain ⟨fd, handles, closing⟩ := Loop.closing_of_finishing finishing
    rw [step.mSendBuf holds (vacant_of_handled tables handles closing)]
    exact holds.cleaned taskId finishing
  · exact fun message member => holds.addressed message (step.mem_outstanding member)

/-- Either a task was vacant before, or its connection starts to be closed. -/
theorem LoopStep.vacant (step : LoopStep server action after) {taskId : Int}
    (later : Vacant after taskId) :
    Vacant server taskId ∨ action.isLoop = true ∧
      ∃ event ∈ server.loop.nextEvent, event.hup = true ∧
        taskId = server.pool.mReadyList event.fd := by
  cases step with
  | epollWait fds waits distinct pending =>
      exact .inl fun fd live listed => by cases later fd live listed
  | acceptFailed event events reached noHup listens =>
      exact .inl fun fd live listed => by cases later fd live listed
  | accept event events connFd given rest reached noHup listens inside fresh unreserved waits
      free =>
      refine .inl fun fd live listed => ?_
      have different : fd ≠ connFd := fun same => fresh (same ▸ live)
      cases later fd (List.mem_cons_of_mem _ live)
        (by simpa only [Function.update_of_ne different] using listed)
  | close event events reached hup live =>
      by_cases closed : taskId = server.pool.mReadyList event.fd
      · exact .inr ⟨rfl, event, by rw [reached]; rfl, hup, closed⟩
      · refine .inl fun fd member listed => ?_
        have closes : some event.fd = some fd := later fd member listed
        cases closes
        exact (closed listed.symm).elim
  | recv event events reached noHup live =>
      exact .inl fun fd live listed => by cases later fd live listed
  | append other fd events reached =>
      exact .inl fun fd live listed => by cases later fd live listed
  | clean delSubscript connFd events reached =>
      refine .inl fun fd live listed => ?_
      rw [reached]
      exact later fd live listed
  | finish delSubscript connFd events reached =>
      refine .inl fun fd live listed => ?_
      by_cases closed : fd = connFd
      · rw [reached, closed]
        rfl
      · cases later fd ((List.mem_erase_of_ne closed).mpr live) listed

/-- `append` is for the task of an open connection. -/
theorem LoopStep.mem_mWorkqueue (step : LoopStep server action after) (tables : Tables server)
    {taskId : Int} (queued : taskId ∈ after.mWorkqueue) :
    taskId ∈ server.mWorkqueue ∨ ¬ Vacant after taskId := by
  cases step with
  | append other fd events reached =>
      obtain ⟨live, listed, _⟩ := tables.agenda.handled other fd (by rw [reached]; rfl)
      simp only [enqueue] at queued
      split at queued
      · exact .inl queued
      · rcases List.mem_append.mp queued with old | new
        · exact .inl old
        · rw [List.mem_singleton.mp new]
          exact .inr fun vacant => by cases vacant fd live listed
  | _ => exact .inl queued

/-- A read event makes a message for the task of an open connection, a close
event one for the task that is freed. -/
theorem LoopStep.mem_outstanding (step : LoopStep server action after)
    {message : Message Octet Cause} (member : message ∈ after.outstanding) :
    message ∈ server.outstanding ∨
      message.sendMsg = .task message.taskId ∧ ¬ Vacant after message.taskId ∨
      message.sendMsg = .temporary ∧ server.loop.finishing = some message.taskId := by
  have added : ∀ new : Message Octet Cause,
      message ∈ (server.pool.mUndoTasks ++ [new]) ++ server.slots.map Slot.message →
      message ∈ server.outstanding ∨ message = new := by
    intro new listed
    simp only [List.mem_append, List.mem_singleton] at listed
    rcases listed with (old | new) | held
    · exact .inl (List.mem_append_left _ old)
    · exact .inr new
    · exact .inl (List.mem_append_right _ held)
  cases step with
  | recv event events reached noHup live =>
      rcases added _ member with old | new
      · exact .inl old
      · rw [new]
        exact .inr (.inl ⟨rfl, fun vacant => by cases vacant event.fd live rfl⟩)
  | finish delSubscript connFd events reached =>
      rcases added _ member with old | new
      · exact .inl old
      · rw [new, reached]
        exact .inr (.inr ⟨rfl, rfl⟩)
  | _ => exact .inl member

/-- The loop does not write replies, but it cleans them. -/
theorem LoopStep.mSendBuf (step : LoopStep server action after) :
    ∀ taskId, (after.task taskId).mSendBuf = (server.task taskId).mSendBuf ∨
      (after.task taskId).mSendBuf.mLength = 0 := by
  cases step with
  | accept event events connFd given rest reached noHup listens inside fresh unreserved waits
      free => exact fun taskId => .inl (update_field TcpSocket.mSendBuf (by rfl) taskId)
  | close event events reached hup live =>
      exact fun taskId => .inl (update_field TcpSocket.mSendBuf (by rfl) taskId)
  | recv event events reached noHup live =>
      exact fun taskId => .inl (update_field TcpSocket.mSendBuf (by rfl) taskId)
  | clean delSubscript connFd events reached =>
      intro taskId
      by_cases same : taskId = delSubscript
      · rw [same]
        right
        simp [Server.task, TcpTaskPool.cleanBuffers, TcpTaskPool.setTask,
          TcpSocket.resetBuffers, Buffer.clean]
      · left
        simp only [Server.task, TcpTaskPool.cleanBuffers, TcpTaskPool.setTask,
          Function.update_of_ne same]
  | _ => exact fun _ => .inl rfl

/-- A task that is about to be freed has just been cleaned. -/
theorem LoopStep.cleaned (step : LoopStep server action after) {taskId : Int}
    (finishing : after.loop.finishing = some taskId) :
    (after.task taskId).mSendBuf.mLength = 0 := by
  cases step with
  | clean delSubscript connFd events reached =>
      cases finishing
      simp [Server.task, TcpTaskPool.cleanBuffers, TcpTaskPool.setTask, TcpSocket.resetBuffers,
        Buffer.clean]
  | _ => cases finishing

theorem LoopStep.vacantDisused (step : LoopStep server action after) (tables : Tables server)
    (holds : VacantDisused server) (allowed : ClosedWhenUnnamed server action) :
    VacantDisused after := by
  have workers : after.workers = server.workers := by cases step <;> rfl
  have slots : after.slots = server.slots := by cases step <;> rfl
  refine ⟨fun taskId vacant => ?_, fun taskId => step.cleaned, ?_⟩
  · have disused : Disused server taskId := by
      rcases step.vacant vacant with earlier | ⟨isLoop, event, next, hup, rfl⟩
      · exact holds.disused taskId earlier
      · exact .of_unnamed (allowed isLoop event next hup)
    refine ⟨?_, workers ▸ disused.workers, slots ▸ disused.sending, ?_⟩
    · intro queued
      rcases step.mem_mWorkqueue tables queued with old | assigned
      · exact disused.queue old
      · exact assigned vacant
    · rintro message member rfl
      have silent : message.sendMsg = .temporary ∧
          (server.task message.taskId).mSendBuf.mLength = 0 := by
        rcases step.mem_outstanding member with old | ⟨_, assigned⟩ | ⟨temporary, finishing⟩
        · exact disused.messages message old rfl
        · exact (assigned vacant).elim
        · exact ⟨temporary, holds.cleaned _ finishing⟩
      refine ⟨silent.1, ?_⟩
      rcases step.mSendBuf message.taskId with same | empty
      · rw [same]
        exact silent.2
      · exact empty
  · intro message member taskId through
    rcases step.mem_outstanding member with old | ⟨own, _⟩ | ⟨temporary, _⟩
    · exact holds.addressed message old taskId through
    · rw [own] at through
      cases through
      rfl
    · rw [temporary] at through
      cases through

/-! ## Runs -/

theorem ServerStep.vacantDisused (step : ServerStep server action after) (tables : Tables server)
    (holds : VacantDisused server) (allowed : ClosedWhenUnnamed server action) :
    VacantDisused after := by
  cases step with
  | peer step =>
      cases step <;> exact ⟨fun taskId vacant =>
        have disused := holds.disused taskId vacant
        ⟨disused.queue, disused.workers, disused.sending, disused.messages⟩,
        holds.cleaned, holds.addressed⟩
  | loop step => exact step.vacantDisused tables holds allowed
  | worker step => exact step.vacantDisused holds
  | app step => exact step.vacantDisused tables holds

theorem reachable_vacantDisused
    (reached : Net.server.ReachableUnder ClosedWhenUnnamed server) : VacantDisused server := by
  refine server_invariant ?_ ?_ reached
  · intro mListenFd mEpollFd reserved block
    exact ⟨fun taskId _ => ⟨fun queued => (by cases queued), fun _ none => (by cases none),
      fun _ _ sends => (by cases sends), fun _ member => (by cases member)⟩,
      fun _ none => (by cases none), fun _ member => by cases member⟩
  · intro before action after earlier holds allowed step
    exact step.vacantDisused (reachable_tables earlier) holds allowed

/-- A task that is not vacant holds the descriptor of its open connection. -/
theorem Tables.socket_of_not_vacant (tables : Tables server) {taskId : Int}
    (assigned : ¬ Vacant server taskId) :
    (server.task taskId).mSocket ∈ server.live ∧
      server.pool.mReadyList (server.task taskId).mSocket = taskId := by
  by_contra elsewhere
  apply assigned
  intro fd live listed
  by_contra open_
  have socket := tables.assigned fd live open_
  rw [listed] at socket
  apply elsewhere
  rw [socket]
  exact ⟨live, listed⟩

/--
In runs that handle a hang-up only when no request and no message names the task,
every descriptor given to `read` or `write` is that of an open connection, and
the task it is used for is the one assigned to that connection.
-/
theorem calls_on_assigned_connections
    (reached : Net.server.ReachableUnder ClosedWhenUnnamed server) (taskId fd : Int)
    (calls : Calls server taskId fd) :
    fd ∈ server.live ∧ fd ∉ server.reserved ∧ server.pool.mReadyList fd = taskId := by
  have tables := reachable_tables reached.reachable
  have holds := reachable_vacantDisused reached
  have assigned : ¬ Vacant server taskId := by
    intro vacant
    have disused := holds.disused taskId vacant
    cases calls with
    | read worker taskId length reads => exact disused.workers worker (by rw [reads]; rfl)
    | write message frame sends => exact disused.sending message frame sends rfl
  obtain ⟨live, listed⟩ := tables.socket_of_not_vacant assigned
  cases calls with
  | read worker taskId length reads => exact ⟨live, tables.apart _ live, listed⟩
  | write message frame sends => exact ⟨live, tables.apart _ live, listed⟩

/-- A client is served, answered and closed; the next one has its task and a
worker is about to read from it. -/
def closedUnnamed : List Action :=
  letIn 5 ++ ask 0 5 [65] ++ serve 0 1 ++ [.pull] ++ answer [66] 1 ++ hangUp 0 5 ++
    letIn 6 ++ ask 1 6 [67] ++ [.take 0, .enter 0]

theorem calls_on_assigned_connections_again :
    ∃ last, Net.server.ReachableUnder ClosedWhenUnnamed last ∧
      Calls last 99 (last.task 99).mSocket ∧ (last.task 99).mSocket ∈ last.live := by
  obtain ⟨last, reached, ended⟩ := Machine.exists_reachableUnder_of_follow Net.server
    ClosedWhenUnnamed closedUnnamed
    (fun last => decide (last.workers 0 = .reading 99 0)) start_started (by decide)
  have calls : Calls last 99 (last.task 99).mSocket := .read 0 99 0 (of_decide_eq_true ended)
  exact ⟨last, reached, calls, (calls_on_assigned_connections reached 99 _ calls).1⟩

/-- A connection hangs up while a read request for its task is in the queue. -/
def closedQueued : List Action :=
  letIn 5 ++ ask 0 5 [65] ++ hangUp 0 5 ++ [.take 0, .enter 0]

/-- The worker that pops the request reads descriptor 0. -/
theorem queued_read_of_zero :
    ∃ last, Net.server.Reachable last ∧ last.live = [] ∧ 0 ∈ last.reserved ∧
      Calls last 99 0 := by
  obtain ⟨last, reached, ended⟩ := Machine.exists_reachableUnder_of_follow Net.server
    (fun _ _ => True) closedQueued
    (fun last => decide (last.live = [] ∧ 0 ∈ last.reserved ∧
      last.workers 0 = .reading 99 0 ∧ (last.task 99).mSocket = 0))
    start_started (by decide)
  obtain ⟨closed, reserved, reads, zero⟩ := of_decide_eq_true ended
  have calls : Calls last 99 (last.task 99).mSocket := .read 0 99 0 reads
  rw [zero] at calls
  exact ⟨last, reached, closed, reserved, calls⟩

end LibNet.Net
