import LibNet.Net.ReceivedBytes
import LibNet.Net.RecvBuf
import LibNet.Net.Turns

/-!
# From the stream of a connection to its messages

`recv_msg` makes a message of the receive buffer before a worker reads, so a message shows what
the read before it has found.  When the event loop handles an event of a connection only after
the worker is done with the one before, and no read comes back empty, that is all that goes
wrong: the messages of a connection are its stream, in order and without a gap, behind by one
read, and what they lack is in the receive buffer.
-/

namespace LibNet.Net

open LibNet.Runs
open LibNet.Base

variable {server after : Server} {action : Action}

def Reader.worksOn (taskId : Int) (reader : Reader) : Nat :=
  if reader.serves = some taskId then 1 else 0

/-- The event loop is about to append the task. -/
def Loop.adds (taskId : Int) : Loop → Nat
  | .append adding _ _ => if adding = taskId then 1 else 0
  | _ => 0

/-- The read requests of a task between `recv_msg` and the end of `recv_buf`. -/
def Server.underway (server : Server) (taskId : Int) : Nat :=
  server.loop.adds taskId + server.mWorkqueue.count taskId +
    total (Reader.worksOn taskId) server.workers

def ReadCall.fails : ReadCall → Bool
  | .eagain => true
  | .error => true
  | _ => false

/-- The workers keep up: no event of a connection is handled before the last one has been served,
the work queue takes every request, and every read finds something. -/
def Prompt (server : Server) : Action → Prop
  | .loop =>
      (∀ event ∈ server.loop.nextEvent,
        server.underway (server.pool.mReadyList event.fd) = 0) ∧
      (server.loop.appending = true → server.mWorkqueue.length ≤ maxRequests)
  | .read _ call => call.fails = false
  | _ => True

instance (server : Server) : (action : Action) → Decidable (Prompt server action)
  | .loop => inferInstanceAs (Decidable (_ ∧ _))
  | .read _ _ => inferInstanceAs (Decidable (_ = _))
  | .arrive _ _ => .isTrue trivial
  | .peerClose _ => .isTrue trivial
  | .peerReset _ => .isTrue trivial
  | .push _ _ => .isTrue trivial
  | .write _ _ => .isTrue trivial
  | .connect => .isTrue trivial
  | .epollWait _ => .isTrue trivial
  | .accept _ => .isTrue trivial
  | .take _ => .isTrue trivial
  | .enter _ => .isTrue trivial
  | .store _ => .isTrue trivial
  | .pull => .isTrue trivial
  | .reply _ _ => .isTrue trivial
  | .discard _ => .isTrue trivial

theorem worksOn_of_serves {reader : Reader} {taskId : Int} (works : reader.serves = some taskId) :
    reader.worksOn taskId = 1 := if_pos works

theorem worker_le_underway {worker : Fin threadNumber} {taskId : Int}
    (works : (server.workers worker).serves = some taskId) : 1 ≤ server.underway taskId := by
  have one := Finset.single_le_sum (fun w _ => Nat.zero_le
    ((server.workers w).worksOn taskId)) (Finset.mem_univ worker)
  rw [worksOn_of_serves works] at one
  exact one.trans (Nat.le_add_left ..)

/-- Two workers on one task are two requests. -/
theorem workers_le_underway {worker other : Fin threadNumber} {taskId : Int}
    (different : worker ≠ other) (works : (server.workers worker).serves = some taskId)
    (works' : (server.workers other).serves = some taskId) : 2 ≤ server.underway taskId := by
  have two := Finset.add_le_sum (fun w _ => Nat.zero_le ((server.workers w).worksOn taskId))
    (Finset.mem_univ worker) (Finset.mem_univ other) different
  rw [worksOn_of_serves works, worksOn_of_serves works'] at two
  exact two.trans (Nat.le_add_left ..)

/-- A worker turns to something else. -/
theorem underway_setWorker (server : Server) (worker : Fin threadNumber) (reader : Reader)
    (taskId : Int) :
    (server.setWorker worker reader).underway taskId + (server.workers worker).worksOn taskId =
      server.underway taskId + reader.worksOn taskId := by
  have moved := total_update (Reader.worksOn taskId) server.workers worker reader
  simp only [Server.underway, Server.setWorker]
  omega

theorem underway_congr {taskId : Int} (adds : after.loop.adds taskId = server.loop.adds taskId)
    (queue : after.mWorkqueue = server.mWorkqueue) (workers : after.workers = server.workers) :
    after.underway taskId = server.underway taskId := by
  rw [Server.underway, adds, queue, workers, Server.underway]

/-! ## One request at a time -/

/-- No failed read is behind the worker, and it holds what it has read. -/
def Reader.Whole : Reader → Prop
  | .reading _ length => length = 0
  | .holding _ length bytes =>
      length = bytes.length ∧ bytes ≠ [] ∧ bytes.length ≤ bufferSize - 1
  | _ => True

/-- Every task has one request under way at most, and only when its connection is open; and no
worker has a failed read behind it. -/
structure OneByOne (server : Server) : Prop where
  single : ∀ taskId, server.underway taskId ≤ 1
  owned : ∀ taskId, server.underway taskId ≠ 0 → ∃ fd ∈ server.live,
    server.pool.mReadyList fd = taskId ∧ server.loop.closing ≠ some fd
  whole : ∀ worker, (server.workers worker).Whole

/-- No two workers serve one task. -/
theorem OneByOne.alone (single : OneByOne server) {worker other : Fin threadNumber} {taskId : Int}
    (works : (server.workers worker).serves = some taskId)
    (works' : (server.workers other).serves = some taskId) : worker = other := by
  by_contra different
  have two := workers_le_underway different works works'
  have one := single.single taskId
  omega

/-- A worker's task has its connection. -/
theorem OneByOne.socket_live (single : OneByOne server) (tables : Tables server)
    {worker : Fin threadNumber} {taskId : Int}
    (works : (server.workers worker).serves = some taskId) :
    (server.task taskId).mSocket ∈ server.live := by
  have busy := worker_le_underway works
  obtain ⟨fd, live, rfl, unclosed⟩ := single.owned taskId (by omega)
  rw [tables.assigned fd live unclosed]
  exact live

/-- Fewer requests for the same tables. -/
theorem OneByOne.transport (single : OneByOne server) (same : SameTables server after)
    (loop : after.loop = server.loop)
    (fewer : ∀ taskId, after.underway taskId ≤ server.underway taskId)
    (whole : ∀ worker, (after.workers worker).Whole) : OneByOne after where
  single := fun taskId => (fewer taskId).trans (single.single taskId)
  owned := by
    intro taskId busy
    rw [same.live, same.ready, loop]
    have less := fewer taskId
    exact single.owned taskId (by omega)
  whole := whole

/-- A worker that goes on without a failed read. -/
theorem OneByOne.whole_setWorker (single : OneByOne server) (worker : Fin threadNumber)
    {reader : Reader} (start : reader.Whole) (other : Fin threadNumber) :
    (Function.update server.workers worker reader other).Whole :=
  (Function.forall_update_iff server.workers (p := fun _ => Reader.Whole)).mpr
    ⟨start, fun other _ => single.whole other⟩ other

/-- A worker that goes on with its task leaves as many requests. -/
theorem underway_goOn {middle : Server} {worker : Fin threadNumber} {reader : Reader}
    (same : ∀ taskId, middle.underway taskId = server.underway taskId)
    (task : reader.serves = (middle.workers worker).serves) (taskId : Int) :
    (middle.setWorker worker reader).underway taskId = server.underway taskId := by
  have moved := underway_setWorker middle worker reader taskId
  have works : reader.worksOn taskId = (middle.workers worker).worksOn taskId := by
    simp only [Reader.worksOn, task]
  have less := same taskId
  omega

/-- A worker that is done leaves one request less of its task. -/
theorem underway_idle {middle : Server} (worker : Fin threadNumber)
    (same : ∀ taskId, middle.underway taskId = server.underway taskId) (taskId : Int) :
    (middle.setWorker worker .idle).underway taskId +
      (middle.workers worker).worksOn taskId = server.underway taskId := by
  have moved := underway_setWorker middle worker .idle taskId
  have nothing : Reader.idle.worksOn taskId = 0 := rfl
  have less := same taskId
  omega

theorem underway_idle_of_ne {middle : Server} {worker : Fin threadNumber} {taskId other : Int}
    (same : ∀ taskId, middle.underway taskId = server.underway taskId)
    (works : (middle.workers worker).serves = some taskId) (different : other ≠ taskId) :
    (middle.setWorker worker .idle).underway other = server.underway other := by
  have done := underway_idle worker same other
  have none : (middle.workers worker).worksOn other = 0 := by
    refine if_neg ?_
    rw [works]
    exact fun here => different (Option.some.inj here).symm
  omega

theorem underway_idle_self {middle : Server} {worker : Fin threadNumber} {taskId : Int}
    (same : ∀ taskId, middle.underway taskId = server.underway taskId)
    (works : (middle.workers worker).serves = some taskId) (single : server.underway taskId ≤ 1) :
    (middle.setWorker worker .idle).underway taskId = 0 := by
  have done := underway_idle worker same taskId
  rw [worksOn_of_serves works] at done
  omega

theorem underway_take {worker : Fin threadNumber} {taking : Int} {rest : List Int}
    (idle : server.workers worker = .idle) (queued : server.mWorkqueue = taking :: rest)
    (taskId : Int) :
    ({ server with mWorkqueue := rest }.setWorker worker (.popped taking)).underway taskId =
      server.underway taskId := by
  have moved := underway_setWorker { server with mWorkqueue := rest } worker (.popped taking)
    taskId
  have nothing : (server.workers worker).worksOn taskId = 0 := by rw [idle]; rfl
  have counted : server.underway taskId =
      { server with mWorkqueue := rest }.underway taskId +
        (Reader.popped taking).worksOn taskId := by
    simp only [Server.underway, queued, List.count_cons, Reader.worksOn, Reader.serves,
      Option.some.injEq, beq_iff_eq]
    omega
  dsimp only at moved
  omega

/-- No worker makes a request. -/
theorem WorkerStep.underway_le (step : WorkerStep server action after) (taskId : Int) :
    after.underway taskId ≤ server.underway taskId := by
  have goesOn : ∀ (middle : Server) (worker : Fin threadNumber) (reader : Reader),
      (∀ taskId, middle.underway taskId = server.underway taskId) →
      reader.serves = (middle.workers worker).serves →
      (middle.setWorker worker reader).underway taskId ≤ server.underway taskId :=
    fun _ _ _ same task => (underway_goOn same task taskId).le
  have ends : ∀ (middle : Server) (worker : Fin threadNumber),
      (∀ taskId, middle.underway taskId = server.underway taskId) →
      (middle.setWorker worker .idle).underway taskId ≤ server.underway taskId :=
    fun _ worker same => Nat.le.intro (underway_idle worker same taskId)
  cases step with
  | take worker other rest idle queued => exact (underway_take idle queued taskId).le
  | enter worker other popped =>
      exact goesOn _ worker _ (fun _ => rfl) (congrArg Reader.serves popped).symm
  | data worker count other length fd conn reads socket member opened positive available fits
      representable => exact goesOn _ worker _ (fun _ => rfl) (congrArg Reader.serves reads).symm
  | foreign worker bytes other length reads fits closed representable =>
      exact goesOn _ worker _ (fun _ => rfl) (congrArg Reader.serves reads).symm
  | eof worker other length fd conn reads socket member opened empty =>
      exact ends _ worker fun _ => rfl
  | foreignEof worker other length reads closed => exact ends _ worker fun _ => rfl
  | eagain worker other length reads empty representable =>
      exact goesOn _ worker _ (fun _ => rfl) (congrArg Reader.serves reads).symm
  | error worker other length reads representable =>
      exact goesOn _ worker _ (fun _ => rfl) (congrArg Reader.serves reads).symm
  | store worker other length bytes holds fits => exact ends _ worker fun _ => rfl

/-- What a step of a worker that keeps up does to the requests. -/
theorem WorkerStep.oneByOne (step : WorkerStep server action after) (tables : Tables server)
    (allowed : Prompt server action) (single : OneByOne server) : OneByOne after := by
  obtain ⟨same, loop⟩ := step.sameTables
  refine single.transport same loop step.underway_le ?_
  cases step with
  | take worker taskId rest idle queued => exact single.whole_setWorker worker trivial
  | enter worker taskId popped => exact single.whole_setWorker worker rfl
  | data worker count taskId length fd conn reads socket member opened positive available fits
      representable =>
      have start := single.whole worker
      rw [reads] at start
      have read := List.length_take_of_le available
      refine single.whole_setWorker worker ⟨?_, ?_, ?_⟩
      · rw [length_octets, read, show length = 0 from start, Int.zero_add]
      · rw [← List.length_pos_iff, length_octets, read]
        exact positive
      · rw [length_octets, read]
        exact fits
  | foreign worker bytes taskId length reads fits closed representable =>
      exact absurd (single.socket_live tables (by rw [reads]; rfl)) closed
  | eof worker taskId length fd conn reads socket member opened empty =>
      exact single.whole_setWorker worker trivial
  | foreignEof worker taskId length reads closed =>
      exact absurd (single.socket_live tables (by rw [reads]; rfl)) closed
  | eagain worker taskId length reads empty representable => cases allowed
  | error worker taskId length reads representable => cases allowed
  | store worker taskId length bytes holds fits => exact single.whole_setWorker worker trivial

theorem underway_append {adding fd : Int} {events : List Event}
    (reached : server.loop = .append adding fd events)
    (room : server.mWorkqueue.length ≤ maxRequests) (taskId : Int) :
    { server with
      mWorkqueue := enqueue maxRequests server.mWorkqueue adding
      loop := .handle events }.underway taskId = server.underway taskId := by
  simp only [Server.underway, reached, Loop.adds, enqueue, if_neg (Nat.not_lt.mpr room),
    List.count_append, List.count_singleton, beq_iff_eq]
  omega

/-- Handling an event puts one request of its task under way. -/
theorem underway_recv {event : Event} {events : List Event} {pool : TcpTaskPool Octet Cause}
    (reached : server.loop = .handle (event :: events)) (taskId : Int) :
    { server with
      pool := pool
      loop := .append (server.pool.mReadyList event.fd) event.fd events }.underway taskId =
      server.underway taskId + if server.pool.mReadyList event.fd = taskId then 1 else 0 := by
  simp only [Server.underway, reached, Loop.adds]
  omega

/-- What a step of the event loop does to the requests: nothing, or it makes one for an event. -/
theorem LoopStep.underway (step : LoopStep server action after)
    (allowed : Prompt server action) (taskId : Int) :
    after.underway taskId = server.underway taskId ∨
      server.underway taskId = 0 ∧ after.underway taskId = 1 ∧
        after.loop.handling.map Prod.fst = some taskId ∧ after.loop.appending = true := by
  have proceeds : ∀ before : Loop, server.loop = before → before.adds taskId = 0 →
      after.loop.adds taskId = 0 → after.mWorkqueue = server.mWorkqueue →
      after.workers = server.workers → after.underway taskId = server.underway taskId :=
    fun before reached none none' => underway_congr (by rw [reached, none, none'])
  cases step with
  | epollWait fds waits distinct pending => exact .inl (proceeds _ waits rfl rfl rfl rfl)
  | acceptFailed event events reached noHup listens =>
      exact .inl (proceeds _ reached rfl rfl rfl rfl)
  | accept event events connFd assigned rest reached noHup listens inside fresh unreserved waits
      unused => exact .inl (proceeds _ reached rfl rfl rfl rfl)
  | close event events reached hup member => exact .inl (proceeds _ reached rfl rfl rfl rfl)
  | recv event events reached noHup member =>
      have idle := allowed.1 event (by rw [reached]; rfl)
      rw [underway_recv reached]
      split
      · next same =>
          rw [same] at idle
          exact .inr ⟨idle, by rw [idle], congrArg some same, rfl⟩
      · exact .inl rfl
  | append adding fd events reached =>
      exact .inl (underway_append reached (allowed.2 (by rw [reached]; rfl)) taskId)
  | clean delSubscript connFd events reached => exact .inl (proceeds _ reached rfl rfl rfl rfl)
  | finish delSubscript connFd events reached => exact .inl (proceeds _ reached rfl rfl rfl rfl)

theorem closing_of_appending {loop : Loop} (appends : loop.appending = true) :
    loop.closing = none := by
  cases loop with
  | append taskId fd events => rfl
  | handle events => rfl
  | clean delSubscript connFd events => cases appends
  | finish delSubscript connFd events => cases appends

/-- A connection with a request under way stays open and where it is. -/
theorem LoopStep.stays (step : LoopStep server action after) (allowed : Prompt server action)
    {fd : Int} (live : fd ∈ server.live) (unclosed : server.loop.closing ≠ some fd)
    (busy : server.underway (server.pool.mReadyList fd) ≠ 0) :
    fd ∈ after.live ∧ after.pool.mReadyList fd = server.pool.mReadyList fd ∧
      after.loop.closing ≠ some fd := by
  have free : ∀ events, Loop.closing (.handle events) ≠ some fd := fun _ none => by cases none
  cases step with
  | epollWait fds waits distinct pending => exact ⟨live, rfl, free _⟩
  | acceptFailed event events reached noHup listens => exact ⟨live, rfl, free _⟩
  | accept event events connFd assigned rest reached noHup listens inside fresh unreserved waits
      unused =>
      have different : fd ≠ connFd := fun same => fresh (same ▸ live)
      exact ⟨List.mem_cons_of_mem _ live, Function.update_of_ne different .., free _⟩
  | close event events reached hup member =>
      refine ⟨live, rfl, ?_⟩
      rintro ⟨⟩
      exact busy (allowed.1 event (by rw [reached]; rfl))
  | recv event events reached noHup member => exact ⟨live, rfl, fun none => by cases none⟩
  | append adding appended events reached => exact ⟨live, rfl, free _⟩
  | clean delSubscript connFd events reached =>
      rw [reached] at unclosed
      exact ⟨live, rfl, unclosed⟩
  | finish delSubscript connFd events reached =>
      have different : fd ≠ connFd := by
        rintro rfl
        exact unclosed (by rw [reached]; rfl)
      exact ⟨(List.mem_erase_of_ne different).mpr live, rfl, free _⟩

theorem LoopStep.oneByOne (step : LoopStep server action after) (tables' : Tables after)
    (allowed : Prompt server action) (single : OneByOne server) : OneByOne after where
  single := by
    intro taskId
    have before := single.single taskId
    rcases step.underway allowed taskId with same | ⟨_, one, _⟩ <;> omega
  owned := by
    intro taskId busy
    rcases step.underway allowed taskId with same | ⟨_, _, handled, appends⟩
    · rw [same] at busy
      obtain ⟨fd, live, ready, unclosed⟩ := single.owned taskId busy
      obtain ⟨live', ready', unclosed'⟩ := step.stays allowed live unclosed (ready ▸ busy)
      exact ⟨fd, live', ready'.trans ready, unclosed'⟩
    · obtain ⟨⟨other, fd⟩, handling, rfl⟩ := Option.map_eq_some_iff.mp handled
      obtain ⟨live, ready, _⟩ := tables'.agenda.handled other fd handling
      refine ⟨fd, live, ready, ?_⟩
      rw [closing_of_appending appends]
      exact fun none => by cases none
  whole := by
    have workers : after.workers = server.workers := by cases step <;> rfl
    rw [workers]
    exact single.whole

/-! ## The stream of a connection -/

theorem octets_append (conn start : Nat) (bytes more : List UInt8) :
    octets conn start (bytes ++ more) =
      octets conn start bytes ++ octets conn (start + bytes.length) more := by
  simp [octets, List.mapIdx_append, Nat.add_comm, Nat.add_left_comm]

/-- What all messages of a connection show. -/
def Server.messageBytes (server : Server) (conn : Nat) : List Octet :=
  payload server.queued conn

/-- What the workers have read from a connection. -/
def Server.got (server : Server) (conn : Nat) : List Octet :=
  octets conn 0 (server.conns conn).bytesRead

/-- What a receive buffer contains before anything is read: the digit of its constructor, or
nothing after `reset`. -/
def Greeting (bytes : List Octet) : Prop := bytes = [Byte.digitOne] ∨ bytes = []

/-- Bytes read for a task that no message shows yet. -/
inductive Unsaid (server : Server) (taskId : Int) : List Octet → Prop where
  | stored (served : server.underway taskId = 0) : Unsaid server taskId (server.task taskId).getMsg
  | asked (busy : server.underway taskId ≠ 0)
      (unread : ∀ worker length bytes, server.workers worker ≠ .holding taskId length bytes) :
      Unsaid server taskId []
  | holding (worker : Fin threadNumber) (length : Int) (bytes : List Octet)
      (holds : server.workers worker = .holding taskId length bytes) :
      Unsaid server taskId bytes

/-- What the messages show and what they do not show yet is the stream behind a greeting. -/
def FlowsTo (server : Server) (conn : Nat) (taskId : Int) (first : List Octet) : Prop :=
  ∀ bytes, Unsaid server taskId bytes → server.messageBytes conn ++ bytes = first ++ server.got conn

structure Streams (server : Server) : Prop where
  clean : ∀ taskId, (∀ fd ∈ server.live, server.pool.mReadyList fd ≠ taskId) ∨
    server.loop.finishing = some taskId → Greeting (server.task taskId).getMsg
  unborn : ∀ conn, server.accepted ≤ conn →
    server.messageBytes conn = [] ∧ (server.conns conn).bytesRead = []
  opened : ∀ fd ∈ server.live, server.loop.closing ≠ some fd →
    (server.conns (server.connAt fd)).sawEof = false →
    ∃ first, Greeting first ∧
      FlowsTo server (server.connAt fd) (server.pool.mReadyList fd) first
  begun : ∀ conn, (server.conns conn).sawEof = false →
    ∃ first, Greeting first ∧ server.messageBytes conn <+: first ++ server.got conn

theorem Unsaid.of_same {taskId : Int} {bytes : List Octet} (unsaid : Unsaid after taskId bytes)
    (underway : after.underway taskId = server.underway taskId)
    (holding : ∀ worker length bytes, after.workers worker = .holding taskId length bytes ↔
      server.workers worker = .holding taskId length bytes)
    (buffer : (after.task taskId).mRecvBuf = (server.task taskId).mRecvBuf) :
    Unsaid server taskId bytes := by
  cases unsaid with
  | stored served =>
      have same : (after.task taskId).getMsg = (server.task taskId).getMsg :=
        congrArg Buffer.getBuf buffer
      rw [same]
      exact .stored (underway ▸ served)
  | asked busy unread =>
      exact .asked (underway ▸ busy) fun worker length bytes holds =>
        unread worker length bytes ((holding worker length bytes).mpr holds)
  | holding worker length bytes holds =>
      exact .holding worker length bytes ((holding worker length bytes).mp holds)

theorem messageBytes_congr (queued : after.queued = server.queued) (conn : Nat) :
    after.messageBytes conn = server.messageBytes conn := by
  rw [Server.messageBytes, queued, Server.messageBytes]

theorem got_congr {conn : Nat}
    (read : (after.conns conn).bytesRead = (server.conns conn).bytesRead) :
    after.got conn = server.got conn := by
  rw [Server.got, read, Server.got]

theorem FlowsTo.of_same {conn : Nat} {taskId : Int} {first : List Octet}
    (flow : FlowsTo server conn taskId first)
    (unsaid : ∀ bytes, Unsaid after taskId bytes → Unsaid server taskId bytes)
    (shown : after.messageBytes conn = server.messageBytes conn)
    (got : after.got conn = server.got conn) : FlowsTo after conn taskId first := by
  intro bytes later
  rw [shown, got]
  exact flow bytes (unsaid bytes later)

/-- A task that has no open connection has no request under way. -/
theorem OneByOne.served (single : OneByOne server) (tables : Tables server) {taskId : Int}
    (unused : (∀ fd ∈ server.live, server.pool.mReadyList fd ≠ taskId) ∨
      server.loop.finishing = some taskId) : server.underway taskId = 0 := by
  by_contra busy
  obtain ⟨fd, live, ready, unclosed⟩ := single.owned taskId busy
  rcases unused with nobody | finishing
  · exact nobody fd live ready
  · obtain ⟨other, handling, closing⟩ := Loop.closing_of_finishing finishing
    obtain ⟨live', ready', _⟩ := tables.agenda.handled taskId other handling
    have same := tables.books.injective live' live (ready'.trans ready.symm)
    exact unclosed (same ▸ closing)

/-- Steps that are not the event loop's: the messages stay, and every open connection flows on. -/
theorem Streams.transport (streams : Streams server) (same : SameTables server after)
    (loop : after.loop = server.loop) (queued : after.queued = server.queued)
    (buffers : ∀ taskId, server.underway taskId = 0 →
      (after.task taskId).mRecvBuf = (server.task taskId).mRecvBuf)
    (served : ∀ taskId, (∀ fd ∈ server.live, server.pool.mReadyList fd ≠ taskId) ∨
      server.loop.finishing = some taskId → server.underway taskId = 0)
    (grown : ∀ conn, ∃ bytes,
      (after.conns conn).bytesRead = (server.conns conn).bytesRead ++ bytes)
    (unread : ∀ conn, server.accepted ≤ conn →
      (after.conns conn).bytesRead = (server.conns conn).bytesRead)
    (sawEof : ∀ conn, (after.conns conn).sawEof = false → (server.conns conn).sawEof = false)
    (flows : ∀ fd ∈ server.live, server.loop.closing ≠ some fd → ∀ first,
      (after.conns (server.connAt fd)).sawEof = false →
      FlowsTo server (server.connAt fd) (server.pool.mReadyList fd) first →
      FlowsTo after (server.connAt fd) (server.pool.mReadyList fd) first) :
    Streams after := by
  have shown := messageBytes_congr queued
  refine ⟨?_, ?_, ?_, ?_⟩
  · intro taskId unused
    rw [same.live, same.ready, loop] at unused
    have kept : (after.task taskId).getMsg = (server.task taskId).getMsg :=
      congrArg Buffer.getBuf (buffers taskId (served taskId unused))
    rw [kept]
    exact streams.clean taskId unused
  · intro conn later
    rw [same.accepted] at later
    rw [shown, unread conn later]
    exact streams.unborn conn later
  · rw [same.live, same.ready, same.connAt, loop]
    intro fd live unclosed unseen
    obtain ⟨first, greeting, flow⟩ := streams.opened fd live unclosed (sawEof _ unseen)
    exact ⟨first, greeting, flows fd live unclosed first unseen flow⟩
  · intro conn unseen
    obtain ⟨first, greeting, beginning⟩ := streams.begun conn (sawEof conn unseen)
    obtain ⟨bytes, more⟩ := grown conn
    refine ⟨first, greeting, ?_⟩
    rw [shown, Server.got, more, octets_append, ← List.append_assoc]
    exact beginning.trans (List.prefix_append _ _)

/-- Peers and the application touch nothing a stream is made of. -/
theorem Streams.aside (streams : Streams server) (single : OneByOne server)
    (tables : Tables server) (same : SameTables server after) (loop : after.loop = server.loop)
    (queued : after.queued = server.queued) (queue : after.mWorkqueue = server.mWorkqueue)
    (workers : after.workers = server.workers)
    (buffers : ∀ taskId, (after.task taskId).mRecvBuf = (server.task taskId).mRecvBuf)
    (read : ∀ conn, (after.conns conn).bytesRead = (server.conns conn).bytesRead)
    (sawEof : ∀ conn, (after.conns conn).sawEof = (server.conns conn).sawEof) :
    Streams after := by
  refine streams.transport same loop queued (fun taskId _ => buffers taskId)
    (fun taskId => single.served tables) (fun conn => ⟨[], by rw [read, List.append_nil]⟩)
    (fun conn _ => read conn) (fun conn unseen => sawEof conn ▸ unseen) ?_
  intro fd live unclosed first unseen flow
  refine flow.of_same (fun bytes later => ?_) (messageBytes_congr queued _) (got_congr (read _))
  exact later.of_same (underway_congr (by rw [loop]) queue workers) (by simp [workers])
    (buffers _)

theorem PeerStep.streams (step : PeerStep server action after) (single : OneByOne server)
    (tables : Tables server) (streams : Streams server) : Streams after := by
  obtain ⟨same, loop⟩ := step.sameTables
  refine streams.aside single tables same loop step.queued (by cases step <;> rfl)
    (by cases step <;> rfl) (fun taskId => by cases step <;> rfl) (fun conn => ?_) fun conn => ?_
  · obtain ⟨_, _, _, _, changed⟩ := step.conns conn
    rw [changed]
  · obtain ⟨_, _, _, _, changed⟩ := step.conns conn
    rw [changed]

theorem AppStep.streams (step : AppStep server action after) (single : OneByOne server)
    (tables : Tables server) (streams : Streams server) : Streams after := by
  obtain ⟨same, loop⟩ := step.sameTables
  refine streams.aside single tables same loop step.queued (by cases step <;> rfl)
    (by cases step <;> rfl) step.mRecvBuf (fun conn => ?_) fun conn => ?_
  · obtain ⟨_, changed⟩ := step.conns conn
    rw [changed]
  · obtain ⟨_, changed⟩ := step.conns conn
    rw [changed]

/-- What a worker's task holds is for that task only. -/
theorem holding_iff_of_ne {worker : Fin threadNumber} {reader : Reader} {taskId : Int}
    (old : ∀ length bytes, server.workers worker ≠ .holding taskId length bytes)
    (new : ∀ length bytes, reader ≠ .holding taskId length bytes) (other : Fin threadNumber)
    (length : Int) (bytes : List Octet) :
    Function.update server.workers worker reader other = .holding taskId length bytes ↔
      server.workers other = .holding taskId length bytes := by
  by_cases same : other = worker
  · subst same
    rw [Function.update_self]
    exact ⟨fun holds => absurd holds (new length bytes),
      fun holds => absurd holds (old length bytes)⟩
  · rw [Function.update_of_ne same]

/-- A worker steps, and the task of this connection is not its own. -/
theorem FlowsTo.past_worker {conn : Nat} {taskId : Int} {first : List Octet}
    (flow : FlowsTo server conn taskId first) {worker : Fin threadNumber} {reader : Reader}
    (queued : after.queued = server.queued)
    (workers : after.workers = Function.update server.workers worker reader)
    (read : (after.conns conn).bytesRead = (server.conns conn).bytesRead)
    (buffer : (after.task taskId).mRecvBuf = (server.task taskId).mRecvBuf)
    (underway : after.underway taskId = server.underway taskId)
    (old : ∀ length bytes, server.workers worker ≠ .holding taskId length bytes)
    (new : ∀ length bytes, reader ≠ .holding taskId length bytes) :
    FlowsTo after conn taskId first := by
  refine flow.of_same (fun bytes later => later.of_same underway ?_ buffer)
    (messageBytes_congr queued _) (got_congr read)
  rw [workers]
  exact holding_iff_of_ne old new

/-- A worker that reads nothing and stores nothing. -/
theorem Streams.proceed (streams : Streams server) (single : OneByOne server)
    (tables : Tables server) {worker : Fin threadNumber} {reader : Reader}
    (same : SameTables server after) (loop : after.loop = server.loop)
    (queued : after.queued = server.queued)
    (workers : after.workers = Function.update server.workers worker reader)
    (conns : after.conns = server.conns)
    (buffers : ∀ taskId, (after.task taskId).mRecvBuf = (server.task taskId).mRecvBuf)
    (underway : ∀ taskId, after.underway taskId = server.underway taskId)
    (old : ∀ taskId length bytes, server.workers worker ≠ .holding taskId length bytes)
    (new : ∀ taskId length bytes, reader ≠ .holding taskId length bytes) : Streams after := by
  refine streams.transport same loop queued (fun taskId _ => buffers taskId)
    (fun taskId => single.served tables) (fun conn => ⟨[], by rw [conns, List.append_nil]⟩)
    (fun conn _ => by rw [conns]) (fun conn => by rw [conns]; exact id) ?_
  intro fd live unclosed first unseen flow
  exact flow.past_worker queued workers (by rw [conns]) (buffers _) (underway _) (old _) (new _)

/-- What a worker has just read is not in a message yet. -/
theorem FlowsTo.data {conn : Nat} {taskId : Int} {first : List Octet}
    (flow : FlowsTo server conn taskId first) (single : OneByOne server)
    {worker : Fin threadNumber} {length total : Int} {values : List UInt8}
    (reads : server.workers worker = .reading taskId length)
    (queued : after.queued = server.queued)
    (workers : after.workers = Function.update server.workers worker
      (.holding taskId total (octets conn (server.conns conn).bytesRead.length values)))
    (grown : (after.conns conn).bytesRead = (server.conns conn).bytesRead ++ values) :
    FlowsTo after conn taskId first := by
  have works : (server.workers worker).serves = some taskId := by rw [reads]; rfl
  have alone : ∀ other length bytes, server.workers other ≠ .holding taskId length bytes := by
    intro other length' bytes holds
    have same := single.alone works (by rw [holds]; rfl)
    rw [← same, reads] at holds
    cases holds
  have shown : server.messageBytes conn = first ++ server.got conn := by
    have busy := worker_le_underway works
    have asked := flow [] (.asked (by omega) alone)
    rwa [List.append_nil] at asked
  have here : after.workers worker =
      .holding taskId total (octets conn (server.conns conn).bytesRead.length values) := by
    rw [workers, Function.update_self]
  intro bytes later
  cases later with
  | stored served =>
      have works' : (after.workers worker).serves = some taskId := by rw [here]; rfl
      have busy := worker_le_underway works'
      omega
  | asked busy unread => exact absurd here (unread worker _ _)
  | holding other length' bytes holds =>
      by_cases same : other = worker
      · subst same
        rw [here] at holds
        cases holds
        rw [messageBytes_congr queued, shown, Server.got, Server.got, grown, octets_append,
          Nat.zero_add, List.append_assoc]
      · rw [workers, Function.update_of_ne same] at holds
        exact absurd holds (alone other length' bytes)

/-- What a worker has stored is in the receive buffer. -/
theorem FlowsTo.store {conn : Nat} {taskId : Int} {first : List Octet}
    (flow : FlowsTo server conn taskId first) {worker : Fin threadNumber} {length : Int}
    {bytes : List Octet} (holds : server.workers worker = .holding taskId length bytes)
    (queued : after.queued = server.queued)
    (read : (after.conns conn).bytesRead = (server.conns conn).bytesRead)
    (served : after.underway taskId = 0) (stored : (after.task taskId).getMsg = bytes) :
    FlowsTo after conn taskId first := by
  intro bytes' later
  cases later with
  | stored _ =>
      rw [messageBytes_congr queued, got_congr read, stored]
      exact flow bytes (.holding worker length bytes holds)
  | asked busy unread => exact absurd served busy
  | holding other length' bytes' holds' =>
      have works : (after.workers other).serves = some taskId := by rw [holds']; rfl
      have busy := worker_le_underway works
      omega

/-- A worker reads for its task or stores what it has read: other tasks and other connections
are as they were. -/
theorem Streams.at_task (streams : Streams server) (single : OneByOne server)
    (tables : Tables server) (same : SameTables server after) (loop : after.loop = server.loop)
    (queued : after.queued = server.queued) {worker : Fin threadNumber} {reader : Reader}
    {taskId fd : Int} (works : (server.workers worker).serves = some taskId)
    (live : fd ∈ server.live) (ready : server.pool.mReadyList fd = taskId)
    (workers : after.workers = Function.update server.workers worker reader)
    (goesOn : ∀ other, reader.serves = some other → other = taskId)
    (tasks : ∀ other, other ≠ taskId →
      (after.task other).mRecvBuf = (server.task other).mRecvBuf)
    (underway : ∀ other, other ≠ taskId → after.underway other = server.underway other)
    (conns : ∀ conn, conn ≠ server.connAt fd → after.conns conn = server.conns conn)
    (grown : ∃ bytes, (after.conns (server.connAt fd)).bytesRead =
      (server.conns (server.connAt fd)).bytesRead ++ bytes)
    (sawEof : (after.conns (server.connAt fd)).sawEof = false →
      (server.conns (server.connAt fd)).sawEof = false)
    (mine : ∀ first, (after.conns (server.connAt fd)).sawEof = false →
      FlowsTo server (server.connAt fd) taskId first →
      FlowsTo after (server.connAt fd) taskId first) : Streams after := by
  refine streams.transport same loop queued ?_ (fun _ => single.served tables) ?_ ?_ ?_ ?_
  · intro other served
    refine tasks other ?_
    rintro rfl
    have busy := worker_le_underway works
    omega
  · intro conn
    by_cases here : conn = server.connAt fd
    · exact here ▸ grown
    · exact ⟨[], by rw [conns conn here, List.append_nil]⟩
  · intro conn later
    rw [conns conn]
    rintro rfl
    exact absurd (tables.known fd live) (Nat.not_lt.mpr later)
  · intro conn unseen
    by_cases here : conn = server.connAt fd
    · subst here
      exact sawEof unseen
    · rwa [conns conn here] at unseen
  · intro other live' unclosed first unseen flow
    by_cases here : other = fd
    · subst here
      rw [ready] at flow ⊢
      exact mine first unseen flow
    · have different : server.pool.mReadyList other ≠ taskId := fun listed =>
        here (tables.books.injective live' live (listed.trans ready.symm))
      have apart : server.connAt other ≠ server.connAt fd := fun conn =>
        here (tables.connInjective other live' fd live conn)
      refine flow.past_worker queued workers (by rw [conns _ apart]) (tasks _ different)
        (underway _ different) ?_ ?_
      · intro length bytes holds
        rw [holds] at works
        exact different (Option.some.inj works)
      · intro length bytes holds
        exact different (goesOn _ (by rw [holds]; rfl))

theorem WorkerStep.streams (step : WorkerStep server action after) (single : OneByOne server)
    (tables : Tables server) (allowed : Prompt server action) (streams : Streams server) :
    Streams after := by
  obtain ⟨same, loop⟩ := step.sameTables
  have queued := step.queued
  cases step with
  | take worker taskId rest idle taken =>
      refine streams.proceed single tables same rfl rfl rfl rfl (fun _ => rfl)
        (underway_take idle taken) ?_ (by nofun)
      intro _ _ _ holds
      rw [idle] at holds
      cases holds
  | enter worker taskId popped =>
      refine streams.proceed single tables same rfl rfl rfl rfl
        (update_field TcpSocket.mRecvBuf rfl)
        (underway_goOn (fun _ => rfl) (congrArg Reader.serves popped).symm) ?_ (by nofun)
      intro _ _ _ holds
      rw [popped] at holds
      cases holds
  | data worker count taskId length fd conn reads socket member opened positive available fits
      representable =>
      subst socket opened
      have works : (server.workers worker).serves = some taskId := by rw [reads]; rfl
      refine streams.at_task single tables same loop queued works member
        (tables.owner member).1 rfl (fun _ next => (Option.some.inj next).symm) (fun _ _ => rfl)
        (fun other _ => underway_goOn (fun _ => rfl) ?_ other)
        (fun conn other => Function.update_of_ne other ..)
        ⟨(server.conns (server.connAt (server.task taskId).mSocket)).rcvq.take count, ?_⟩ ?_ ?_
      · exact works.symm
      · simp [Server.setConn, Server.setWorker]
      · intro unseen
        simpa [Server.setConn, Server.setWorker] using unseen
      · intro first _ flow
        exact flow.data single reads queued rfl (by simp [Server.setConn, Server.setWorker])
  | eof worker taskId length fd conn reads socket member opened empty =>
      subst socket opened
      have works : (server.workers worker).serves = some taskId := by rw [reads]; rfl
      refine streams.at_task single tables same loop queued works member
        (tables.owner member).1 rfl (fun _ next => by cases next) (fun _ _ => rfl) ?_
        (fun conn other => Function.update_of_ne other ..) ⟨[], ?_⟩ ?_ ?_
      · exact fun other => underway_idle_of_ne (fun _ => rfl) works
      · rw [List.append_nil]
        exact update_field Conn.bytesRead (by rfl) _
      · intro unseen
        exact absurd unseen (by simp [Server.setConn, Server.setWorker])
      · intro _ unseen
        exact absurd unseen (by simp [Server.setConn, Server.setWorker])
  | store worker taskId length bytes holds fits =>
      have works : (server.workers worker).serves = some taskId := by rw [holds]; rfl
      obtain ⟨total, some_bytes, few⟩ : (Reader.holding taskId length bytes).Whole :=
        holds ▸ single.whole worker
      have busy := worker_le_underway works
      obtain ⟨fd, live, ready, unclosed⟩ := single.owned taskId (by omega)
      refine streams.at_task single tables same loop queued works live ready rfl
        (fun _ next => by cases next) (fun other different => ?_) ?_ (fun _ _ => rfl)
        ⟨[], (List.append_nil _).symm⟩ id ?_
      · exact congrArg TcpSocket.mRecvBuf (Function.update_of_ne different ..)
      · exact fun other => underway_idle_of_ne (fun _ => rfl) works
      · intro first _ flow
        refine flow.store holds queued rfl ?_ ?_
        · exact underway_idle_self (fun _ => rfl) works (single.single taskId)
        · have stored := (TcpSocket.getBuf_recvStore (server.task taskId)
            (List.length_pos_iff.mpr some_bytes) (by omega)).2
          rw [← total] at stored
          have here : (server.setTask taskId
              ((server.task taskId).recvStore length bytes).socket).task taskId =
              ((server.task taskId).recvStore length bytes).socket := Function.update_self ..
          exact (congrArg TcpSocket.getMsg here).trans stored
  | foreign worker bytes taskId length reads fits closed representable =>
      exact absurd (single.socket_live tables (by rw [reads]; rfl)) closed
  | foreignEof worker taskId length reads closed =>
      exact absurd (single.socket_live tables (by rw [reads]; rfl)) closed
  | eagain worker taskId length reads empty representable => cases allowed
  | error worker taskId length reads representable => cases allowed

/-! ## The event loop -/

/-- An open connection that the step leaves where it is, with its requests and its buffer. -/
structure Remains (before after : Server) (fd : Int) : Prop where
  live : fd ∈ before.live
  unclosed : before.loop.closing ≠ some fd
  connAt : after.connAt fd = before.connAt fd
  ready : after.pool.mReadyList fd = before.pool.mReadyList fd
  underway : after.underway (before.pool.mReadyList fd) =
    before.underway (before.pool.mReadyList fd)
  buffer : (after.task (before.pool.mReadyList fd)).mRecvBuf =
    (before.task (before.pool.mReadyList fd)).mRecvBuf

/-- Steps of the event loop that make no message of a read event. -/
theorem Streams.onward (streams : Streams server) (workers : after.workers = server.workers)
    (shown : ∀ conn, after.messageBytes conn = server.messageBytes conn)
    (conns : ∀ conn, ∃ edge, after.conns conn = { server.conns conn with edge := edge })
    (accepted : server.accepted ≤ after.accepted)
    (clean : ∀ taskId, (∀ fd ∈ after.live, after.pool.mReadyList fd ≠ taskId) ∨
      after.loop.finishing = some taskId → Greeting (after.task taskId).getMsg)
    (opened : ∀ fd ∈ after.live, after.loop.closing ≠ some fd → Remains server after fd ∨
      ∃ first, Greeting first ∧
        FlowsTo after (after.connAt fd) (after.pool.mReadyList fd) first) :
    Streams after := by
  have read : ∀ conn, (after.conns conn).bytesRead = (server.conns conn).bytesRead := by
    intro conn
    obtain ⟨_, changed⟩ := conns conn
    rw [changed]
  have sawEof : ∀ conn, (after.conns conn).sawEof = (server.conns conn).sawEof := by
    intro conn
    obtain ⟨_, changed⟩ := conns conn
    rw [changed]
  refine ⟨clean, ?_, ?_, ?_⟩
  · intro conn later
    rw [shown, read]
    exact streams.unborn conn (accepted.trans later)
  · intro fd live unclosed unseen
    rcases opened fd live unclosed with remains | flows
    · rw [remains.connAt, sawEof] at unseen
      obtain ⟨first, greeting, flow⟩ := streams.opened fd remains.live remains.unclosed unseen
      refine ⟨first, greeting, ?_⟩
      rw [remains.connAt, remains.ready]
      refine flow.of_same (fun bytes later => ?_) (shown _) (got_congr (read _))
      exact later.of_same remains.underway (by simp [workers]) remains.buffer
    · exact flows
  · intro conn unseen
    rw [sawEof] at unseen
    rw [shown, got_congr (read conn)]
    exact streams.begun conn unseen

theorem messageBytes_append {message : Message Octet Cause} (pulled : after.pulled = server.pulled)
    (undo : after.pool.mUndoTasks = server.pool.mUndoTasks ++ [message]) (conn : Nat) :
    after.messageBytes conn = server.messageBytes conn ++ payload [message] conn := by
  rw [Server.messageBytes, Server.messageBytes, ← payload_append, Server.queued, pulled, undo,
    Server.queued, List.append_assoc]

theorem messageBytes_close {message : Message Octet Cause} {closed : Nat}
    (pulled : after.pulled = server.pulled)
    (undo : after.pool.mUndoTasks = server.pool.mUndoTasks ++ [message])
    (cause : message.cause = .close closed) (conn : Nat) :
    after.messageBytes conn = server.messageBytes conn := by
  rw [messageBytes_append pulled undo, payload_close cause, List.append_nil]

/-- A connection that nothing has been read from, at a task that is not in use. -/
theorem FlowsTo.fresh {conn : Nat} {taskId : Int}
    (nothing : server.messageBytes conn = [] ∧ (server.conns conn).bytesRead = [])
    (served : server.underway taskId = 0) :
    FlowsTo server conn taskId (server.task taskId).getMsg := by
  have unread : server.got conn = [] := by
    rw [Server.got, nothing.2]
    rfl
  intro bytes unsaid
  rw [nothing.1, unread, List.append_nil, List.nil_append]
  cases unsaid with
  | stored _ => rfl
  | asked busy _ => exact absurd served busy
  | holding worker length bytes holds =>
      have works : (server.workers worker).serves = some taskId := by rw [holds]; rfl
      have busy := worker_le_underway works
      omega

/-- A read event: what the buffer contains goes into the message, and a request is made. -/
theorem Streams.recv (streams : Streams server) (tables : Tables server) {fd taskId : Int}
    {message : Message Octet Cause}
    (live : fd ∈ server.live) (ready : server.pool.mReadyList fd = taskId)
    (unclosed : server.loop.closing ≠ some fd) (idle : server.underway taskId = 0)
    (same : SameTables server after) (finishing : after.loop.finishing = none)
    (closing : ∀ other, after.loop.closing ≠ some other → server.loop.closing ≠ some other)
    (pulled : after.pulled = server.pulled)
    (undo : after.pool.mUndoTasks = server.pool.mUndoTasks ++ [message])
    (cause : message.cause = .read (server.connAt fd))
    (contents : message.recvMsg = (server.task taskId).getMsg)
    (workers : after.workers = server.workers) (conns : after.conns = server.conns)
    (buffers : ∀ taskId, (after.task taskId).mRecvBuf = (server.task taskId).mRecvBuf)
    (underway : ∀ other, after.underway other =
      server.underway other + if taskId = other then 1 else 0) : Streams after := by
  have shown : ∀ conn, after.messageBytes conn = server.messageBytes conn ++
      if server.connAt fd = conn then message.recvMsg else [] := by
    intro conn
    rw [messageBytes_append pulled undo, payload_read cause]
  have got : ∀ conn, after.got conn = server.got conn := fun conn => got_congr (by rw [conns])
  have elsewhere : ∀ conn, server.connAt fd ≠ conn →
      after.messageBytes conn = server.messageBytes conn := by
    intro conn other
    rw [shown, if_neg other, List.append_nil]
  have whole : ∀ first, FlowsTo server (server.connAt fd) taskId first →
      after.messageBytes (server.connAt fd) = first ++ server.got (server.connAt fd) := by
    intro first flow
    rw [shown, if_pos rfl, contents]
    exact flow _ (.stored idle)
  refine ⟨?_, ?_, ?_, ?_⟩
  · intro other unused
    rw [same.live, same.ready, finishing] at unused
    have kept : (after.task other).getMsg = (server.task other).getMsg :=
      congrArg Buffer.getBuf (buffers other)
    rw [kept]
    exact streams.clean other (unused.imp_right fun none => by cases none)
  · intro conn later
    rw [same.accepted] at later
    have other : server.connAt fd ≠ conn := by
      rintro rfl
      exact absurd (tables.known fd live) (Nat.not_lt.mpr later)
    rw [elsewhere conn other, conns]
    exact streams.unborn conn later
  · rw [same.live, same.connAt, same.ready, conns]
    intro other live' open_ unseen
    obtain ⟨first, greeting, flow⟩ := streams.opened other live' (closing other open_) unseen
    refine ⟨first, greeting, ?_⟩
    by_cases here : other = fd
    · subst here
      rw [ready] at flow ⊢
      intro bytes later
      rw [whole first flow, got]
      cases later with
      | stored served =>
          have one := underway taskId
          rw [if_pos rfl] at one
          omega
      | asked busy unread => rw [List.append_nil]
      | holding worker length bytes holds =>
          rw [workers] at holds
          have works : (server.workers worker).serves = some taskId := by rw [holds]; rfl
          have busy := worker_le_underway works
          omega
    · have different : taskId ≠ server.pool.mReadyList other := fun listed =>
        here (tables.books.injective live' live (listed.symm.trans ready.symm))
      have apart : server.connAt fd ≠ server.connAt other := fun conn =>
        here (tables.connInjective other live' fd live conn.symm)
      refine flow.of_same (fun bytes later => ?_) (elsewhere _ apart) (got _)
      refine later.of_same ?_ (by simp [workers]) (buffers _)
      rw [underway, if_neg different]
      rfl
  · rw [conns]
    intro conn unseen
    rw [got]
    by_cases here : server.connAt fd = conn
    · subst here
      obtain ⟨first, greeting, flow⟩ := streams.opened fd live unclosed unseen
      rw [ready] at flow
      exact ⟨first, greeting, by rw [whole first flow]⟩
    · rw [elsewhere conn here]
      exact streams.begun conn unseen

theorem LoopStep.streams (step : LoopStep server action after) (single : OneByOne server)
    (tables : Tables server) (allowed : Prompt server action) (streams : Streams server) :
    Streams after := by
  have conns := step.conns
  have sameTask : ∀ taskId, (∀ fd ∈ server.live, server.pool.mReadyList fd ≠ taskId) →
      (after.task taskId).mRecvBuf = (server.task taskId).mRecvBuf →
      Greeting (after.task taskId).getMsg := by
    intro taskId unused buffer
    have kept : (after.task taskId).getMsg = (server.task taskId).getMsg :=
      congrArg Buffer.getBuf buffer
    rw [kept]
    exact streams.clean taskId (.inl unused)
  have free : ∀ before fd, server.loop = .handle before → server.loop.closing ≠ some fd := by
    intro before fd reached
    rw [reached]
    exact fun none => by cases none
  cases step with
  | epollWait fds waits distinct pending =>
      refine streams.onward rfl (fun _ => rfl) conns le_rfl ?_ ?_
      · rintro taskId (unused | none)
        · exact sameTask taskId unused rfl
        · cases none
      · exact fun fd live _ => .inl ⟨live, free _ _ waits, rfl, rfl,
          underway_congr (by rw [waits]; rfl) rfl rfl, rfl⟩
  | acceptFailed event events reached noHup listens =>
      refine streams.onward rfl (fun _ => rfl) conns le_rfl ?_ ?_
      · rintro taskId (unused | none)
        · exact sameTask taskId unused rfl
        · cases none
      · exact fun fd live _ => .inl ⟨live, free _ _ reached, rfl, rfl,
          underway_congr (by rw [reached]; rfl) rfl rfl, rfl⟩
  | accept event events connFd assigned rest reached noHup listens inside fresh unreserved waits
      unused =>
      have nobody : ∀ fd ∈ server.live, server.pool.mReadyList fd ≠ assigned := by
        rintro fd live rfl
        exact tables.books.not_free live (by rw [unused]; exact List.mem_cons_self ..)
      have other : ∀ fd ∈ server.live, fd ≠ connFd := fun fd live same => fresh (same ▸ live)
      have buffers : ∀ taskId, (Function.update server.pool.mTcpTasks assigned
          ((server.task assigned).setFd connFd) taskId).mRecvBuf =
          (server.task taskId).mRecvBuf := update_field TcpSocket.mRecvBuf (by rfl)
      refine streams.onward rfl (fun _ => rfl) conns (Nat.le_succ _) ?_ ?_
      · rintro taskId (unlisted | none)
        · refine sameTask taskId (fun fd live => ?_) (buffers taskId)
          have listed := unlisted fd (List.mem_cons_of_mem _ live)
          exact fun same => listed ((Function.update_of_ne (other fd live) ..).trans same)
        · cases none
      · intro fd live _
        rcases List.mem_cons.mp live with rfl | old
        · have flow : FlowsTo server server.accepted assigned (server.task assigned).getMsg :=
            .fresh (streams.unborn _ le_rfl) (single.served tables (.inl nobody))
          refine .inr ⟨_, streams.clean assigned (.inl nobody), ?_⟩
          change FlowsTo _ (Function.update server.connAt fd server.accepted fd)
            (Function.update server.pool.mReadyList fd assigned fd) _
          rw [Function.update_self, Function.update_self]
          refine flow.of_same (fun bytes later => later.of_same
            (underway_congr (by rw [reached]; rfl) rfl rfl) (fun _ _ _ => Iff.rfl) (buffers _))
            rfl (got_congr ?_)
          obtain ⟨_, changed⟩ := conns server.accepted
          rw [changed]
        · exact .inl ⟨old, free _ _ reached, Function.update_of_ne (other fd old) ..,
            Function.update_of_ne (other fd old) .., underway_congr (by rw [reached]; rfl) rfl rfl,
            buffers _⟩
  | close event events reached hup member =>
      refine streams.onward rfl (fun _ => rfl) conns le_rfl ?_ ?_
      · rintro taskId (unused | none)
        · exact sameTask taskId unused (update_field TcpSocket.mRecvBuf (by rfl) taskId)
        · cases none
      · exact fun fd live _ => .inl ⟨live, free _ _ reached, rfl, rfl,
          underway_congr (by rw [reached]; rfl) rfl rfl,
          update_field TcpSocket.mRecvBuf (by rfl) _⟩
  | recv event events reached noHup member =>
      exact streams.recv tables member rfl (free _ _ reached)
        (allowed.1 event (by rw [reached]; rfl))
        ⟨rfl, update_field TcpSocket.mSocket (by rfl), update_field TcpSocket.mFlag
          (tables.flag _).symm⟩ rfl
        (fun other _ => free _ other reached) rfl rfl rfl rfl rfl rfl
        (update_field TcpSocket.mRecvBuf (by rfl)) (underway_recv reached)
  | append adding appended events reached =>
      refine streams.onward rfl (fun _ => rfl) conns le_rfl ?_ ?_
      · rintro taskId (unused | none)
        · exact sameTask taskId unused rfl
        · cases none
      · exact fun fd live _ => .inl ⟨live, by rw [reached]; exact fun none => (by cases none),
          rfl, rfl, underway_append reached (allowed.2 (by rw [reached]; rfl)) _, rfl⟩
  | clean delSubscript connFd events reached =>
      obtain ⟨closes, listed, _⟩ := tables.agenda.handled delSubscript connFd (by rw [reached]; rfl)
      have kept : ∀ taskId, taskId ≠ delSubscript →
          ((server.pool.cleanBuffers delSubscript).mTcpTasks taskId).mRecvBuf =
            (server.task taskId).mRecvBuf :=
        fun taskId different => congrArg TcpSocket.mRecvBuf (Function.update_of_ne different ..)
      refine streams.onward rfl (fun _ => rfl) conns le_rfl ?_ ?_
      · rintro taskId (unused | finishes)
        · refine sameTask taskId unused (kept taskId ?_)
          rintro rfl
          exact unused connFd closes listed
        · cases finishes
          refine .inr ?_
          change (Function.update server.pool.mTcpTasks delSubscript
            (server.task delSubscript).resetBuffers delSubscript).getMsg = []
          rw [Function.update_self]
          rfl
      · intro fd live unclosed
        have different : fd ≠ connFd := by
          rintro rfl
          exact unclosed rfl
        refine .inl ⟨live, by rw [reached]; exact unclosed, rfl, rfl,
          underway_congr (by rw [reached]; rfl) rfl rfl, kept _ fun same => different ?_⟩
        exact tables.books.injective live closes (same.trans listed.symm)
  | finish delSubscript connFd events reached =>
      obtain ⟨closes, listed, _⟩ := tables.agenda.handled delSubscript connFd (by rw [reached]; rfl)
      refine streams.onward rfl (messageBytes_close rfl rfl rfl) conns le_rfl ?_ ?_
      · rintro taskId (unused | none)
        · by_cases freed : taskId = delSubscript
          · subst freed
            exact streams.clean taskId (.inr (by rw [reached]; rfl))
          · refine sameTask taskId (fun fd live => ?_) rfl
            by_cases gone : fd = connFd
            · rw [gone, listed]
              exact Ne.symm freed
            · exact unused fd ((List.mem_erase_of_ne gone).mpr live)
        · cases none
      · intro fd live _
        have different : fd ≠ connFd := by
          rintro rfl
          exact tables.books.distinct.not_mem_erase live
        refine .inl ⟨List.mem_of_mem_erase live, ?_, rfl, rfl,
          underway_congr (by rw [reached]; rfl) rfl rfl, rfl⟩
        rw [reached]
        exact fun same => different (Option.some.inj same).symm

/-! ## Every run -/

theorem reachable_oneByOne (reached : Net.server.ReachableUnder Prompt server) :
    OneByOne server := by
  refine Machine.ReachableUnder.invariant ?_ ?_ reached
  · rintro first ⟨mListenFd, mEpollFd, reserved, block, _, _, _, rfl⟩
    have nothing (taskId : Int) :
        (Server.init mListenFd mEpollFd reserved block).underway taskId = 0 := by
      have idle : total (Reader.worksOn taskId) (fun _ : Fin threadNumber => Reader.idle) = 0 :=
        total_eq_zero fun _ => rfl
      simpa [Server.underway, Server.init, Loop.adds] using idle
    exact ⟨fun taskId => (nothing taskId).le.trans (Nat.zero_le 1),
      fun taskId busy => absurd (nothing taskId) busy, fun _ => trivial⟩
  · intro before action after earlier single allowed taken
    have tables := reachable_tables earlier.reachable
    have aside : SameTables before after → after.loop = before.loop →
        after.mWorkqueue = before.mWorkqueue → after.workers = before.workers →
        OneByOne after := by
      intro same loop queue workers
      refine single.transport same loop (fun taskId => ?_) (workers ▸ single.whole)
      exact (underway_congr (by rw [loop]) queue workers).le
    cases serverStep_of_step? tables taken with
    | peer step =>
        exact aside step.sameTables.1 step.sameTables.2 (by cases step <;> rfl)
          (by cases step <;> rfl)
    | loop step =>
        exact step.oneByOne (reachable_tables (earlier.step allowed taken).reachable) allowed
          single
    | worker step => exact step.oneByOne tables allowed single
    | app step =>
        exact aside step.sameTables.1 step.sameTables.2 (by cases step <;> rfl)
          (by cases step <;> rfl)

theorem reachable_streams (reached : Net.server.ReachableUnder Prompt server) :
    Streams server := by
  refine Machine.ReachableUnder.invariant ?_ ?_ reached
  · rintro first ⟨mListenFd, mEpollFd, reserved, block, _, _, _, rfl⟩
    exact ⟨fun _ _ => .inl rfl, fun _ _ => ⟨rfl, rfl⟩, fun _ member => (by cases member),
      fun _ _ => ⟨[], .inr rfl, List.prefix_rfl⟩⟩
  · intro before action after earlier streams allowed taken
    have tables := reachable_tables earlier.reachable
    have single := reachable_oneByOne earlier
    cases serverStep_of_step? tables taken with
    | peer step => exact step.streams single tables streams
    | loop step => exact step.streams single tables allowed streams
    | worker step => exact step.streams single tables allowed streams
    | app step => exact step.streams single tables streams

theorem exists_unsaid (server : Server) (taskId : Int) :
    ∃ bytes, Unsaid server taskId bytes := by
  by_cases served : server.underway taskId = 0
  · exact ⟨_, .stored served⟩
  · by_cases read : ∃ worker length bytes, server.workers worker = .holding taskId length bytes
    · obtain ⟨worker, length, bytes, holds⟩ := read
      exact ⟨bytes, .holding worker length bytes holds⟩
    · exact ⟨[], .asked served fun worker length bytes holds =>
        read ⟨worker, length, bytes, holds⟩⟩

/-- The messages of a connection lag behind its stream by the receive buffer at most. -/
theorem Streams.lag (streams : Streams server) (tables : Tables server) {conn : Nat}
    (unended : (server.conns conn).sawEof = false) :
    ∃ first, Greeting first ∧ server.messageBytes conn <+: first ++ server.got conn ∧
      ∀ fd ∈ server.live, server.connAt fd = conn → server.loop.closing ≠ some fd →
        server.underway (server.pool.mReadyList fd) = 0 →
        server.messageBytes conn ++ (server.task (server.pool.mReadyList fd)).getMsg =
          first ++ server.got conn := by
  by_cases opened : ∃ fd ∈ server.live, server.connAt fd = conn ∧ server.loop.closing ≠ some fd
  · obtain ⟨fd, live, rfl, unclosed⟩ := opened
    obtain ⟨first, greeting, flow⟩ := streams.opened fd live unclosed unended
    obtain ⟨bytes, unsaid⟩ := exists_unsaid server (server.pool.mReadyList fd)
    refine ⟨first, greeting, ⟨bytes, flow bytes unsaid⟩, ?_⟩
    intro other live' same _ served
    cases tables.connInjective other live' fd live same
    exact flow _ (.stored served)
  · obtain ⟨first, greeting, beginning⟩ := streams.begun conn unended
    exact ⟨first, greeting, beginning, fun fd live same unclosed =>
      absurd ⟨fd, live, same, unclosed⟩ opened⟩

/--
When the workers keep up, the messages of a connection show its stream from the beginning, behind
what its receive buffer contained at first: in order, without a gap and with nothing of another
connection.  Between two requests what they do not show yet is exactly the receive buffer.
-/
theorem messages_lag_one_read (reached : Net.server.ReachableUnder Prompt server) {conn : Nat}
    (unended : (server.conns conn).sawEof = false) :
    ∃ first, Greeting first ∧ server.messageBytes conn <+: first ++ server.got conn ∧
      ∀ fd ∈ server.live, server.connAt fd = conn → server.loop.closing ≠ some fd →
        server.underway (server.pool.mReadyList fd) = 0 →
        server.messageBytes conn ++ (server.task (server.pool.mReadyList fd)).getMsg =
          first ++ server.got conn :=
  (reachable_streams reached).lag (reachable_tables reached.reachable) unended

/-- A client sends a byte, which a worker reads, and then another one. -/
def askedTwice : List Action := letIn 5 ++ ask 0 5 [65] ++ serve 0 1 ++ ask 0 5 [66]

theorem messages_lag_one_read_twice :
    ∃ server, Net.server.ReachableUnder Prompt server ∧
      server.messageBytes 0 = [Byte.digitOne] ++ octets 0 0 [65] ∧
      ∃ first, Greeting first ∧ server.messageBytes 0 <+: first ++ server.got 0 := by
  obtain ⟨last, reached, ended⟩ := Machine.exists_reachableUnder_of_follow
    Net.server Prompt askedTwice
    (fun server => decide (server.messageBytes 0 = [Byte.digitOne] ++ octets 0 0 [65] ∧
      (server.conns 0).sawEof = false))
    start_started (by decide)
  obtain ⟨shown, unended⟩ := of_decide_eq_true ended
  obtain ⟨first, greeting, beginning, _⟩ := messages_lag_one_read reached unended
  exact ⟨last, reached, shown, first, greeting, beginning⟩

end LibNet.Net
