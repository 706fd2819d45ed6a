import LibNet.Net.EdgeTriggered
import LibNet.Net.MessageSize
import LibNet.Net.Patience
import LibNet.Net.ServerRest

/-!
# Everything a client sends is read

When clients take turns and send no more than a message has room for, the application waits for
the workers and every `read` takes all there is, then the threads of the server, left to
themselves, come to rest unless `m_ready_list` has no place for the next client, and at rest all
that any client has sent is in its messages and its receive buffer.
-/

namespace LibNet.Net

open LibNet.Runs
open LibNet.Base

variable {server after : Server} {action : Action}

/-- A client never has more than a message in the receive queue. -/
def Server.short (server : Server) : Action → Bool
  | .arrive conn bytes => decide ((server.conns conn).rcvq.length + bytes.length ≤ recvMsgSize)
  | _ => true

/-- The runs in which clients, application and kernel behave; nothing is asked of the event
loop, the workers and the order of their steps. -/
def WellBehaved (server : Server) (action : Action) : Prop :=
  Patient server action ∧ (action.isLoop = false → WholeReads server action) ∧
    server.short action = true

instance (server : Server) (action : Action) : Decidable (WellBehaved server action) :=
  inferInstanceAs (Decidable (_ ∧ _ ∧ _))

/-- What a step of a client adds to the stream of a connection. -/
def Action.sentTo (conn : Nat) : Action → List UInt8
  | .arrive other bytes => if other = conn then bytes else []
  | _ => []

/-- All that has arrived at a connection. -/
def Conn.stream (conn : Conn) : List UInt8 := conn.bytesRead ++ conn.rcvq

theorem PeerStep.rcvq (step : PeerStep server action after) (conn : Nat) :
    (after.conns conn).rcvq = (server.conns conn).rcvq ++ action.sentTo conn := by
  cases step with
  | connect => exact (List.append_nil _).symm
  | arrive other bytes known someBytes =>
      by_cases same : conn = other
      · subst same
        simp [Action.sentTo, Server.setConn]
      · simp [Action.sentTo, Server.setConn, same, Ne.symm same]
  | peerClose other known =>
      rw [show Action.sentTo conn (.peerClose other) = [] from rfl, List.append_nil]
      exact update_field Conn.rcvq (by rfl) conn
  | peerReset other known =>
      rw [show Action.sentTo conn (.peerReset other) = [] from rfl, List.append_nil]
      exact update_field Conn.rcvq (by rfl) conn

/-- A worker moves bytes from the receive queue to what has been read. -/
theorem WorkerStep.stream (step : WorkerStep server action after) (conn : Nat) :
    (after.conns conn).stream = (server.conns conn).stream := by
  cases step with
  | data worker count taskId length fd other reads socket member opened positive available fits
      representable =>
      by_cases same : conn = other
      · subst same
        simp [Conn.stream, Server.setConn, Server.setWorker]
      · simp [Server.setConn, Server.setWorker, Function.update_of_ne same]
  | eof worker taskId length fd other reads socket member opened empty =>
      exact update_field Conn.stream (by rfl) conn
  | _ => rfl

theorem ServerStep.stream (step : ServerStep server action after) (conn : Nat) :
    (after.conns conn).stream = (server.conns conn).stream ++ action.sentTo conn := by
  cases step with
  | peer step =>
      obtain ⟨_, _, _, _, changed⟩ := step.conns conn
      have read : (after.conns conn).bytesRead = (server.conns conn).bytesRead := by rw [changed]
      rw [Conn.stream, Conn.stream, step.rcvq, read, List.append_assoc]
  | loop step =>
      obtain ⟨_, changed⟩ := step.conns conn
      have nothing : action.sentTo conn = [] := by cases step <;> rfl
      rw [changed, nothing, List.append_nil]
      rfl
  | worker step =>
      have nothing : action.sentTo conn = [] := by cases step <;> rfl
      rw [step.stream, nothing, List.append_nil]
  | app step =>
      obtain ⟨_, changed⟩ := step.conns conn
      have nothing : action.sentTo conn = [] := by cases step <;> rfl
      rw [changed, nothing, List.append_nil]
      rfl

theorem ServerStep.short (step : ServerStep server action after)
    (allowed : server.short action = true)
    (short : ∀ conn, (server.conns conn).rcvq.length ≤ recvMsgSize) (conn : Nat) :
    (after.conns conn).rcvq.length ≤ recvMsgSize := by
  cases step with
  | peer step =>
      have grown := step.rcvq conn
      rw [grown, List.length_append]
      by_cases sends : action.sentTo conn = []
      · rw [sends]
        exact short conn
      · cases step with
        | arrive other bytes known someBytes =>
            by_cases same : other = conn
            · subst same
              simpa [Server.short, Action.sentTo] using allowed
            · exact absurd (if_neg same) sends
        | _ => exact absurd rfl sends
  | loop step =>
      obtain ⟨_, changed⟩ := step.conns conn
      rw [changed]
      exact short conn
  | worker step => exact (step.rcvq conn).length_le.trans (short conn)
  | app step =>
      obtain ⟨_, changed⟩ := step.conns conn
      rw [changed]
      exact short conn

theorem WellBehaved.wholeReads (allowed : WellBehaved server action)
    (room : server.mWorkqueue.length ≤ maxRequests) : WholeReads server action := by
  cases loop : action.isLoop with
  | false => exact allowed.2.1 loop
  | true =>
      refine ⟨fun read reads => ?_, fun _ _ => room⟩
      cases action with
      | loop => cases reads
      | _ => cases loop

theorem WellBehaved.smallReads (allowed : WellBehaved server action) (tables : Tables server)
    (single : OneByOne server) (short : ∀ conn, (server.conns conn).rcvq.length ≤ recvMsgSize)
    (taken : server.step? action = some after) : SmallReads server action := by
  cases action with
  | read worker call =>
      obtain ⟨taskId, length, reads, ⟨result, next⟩, answered⟩ := reading_of_read? taken
      have live : (server.task taskId).mSocket ∈ server.live :=
        single.socket_live tables (by rw [reads]; rfl)
      cases call with
      | data count =>
          have start : length = 0 := by
            have whole := single.whole worker
            rwa [reads] at whole
          have all := (allowed.2.1 rfl).1 (worker, count) rfl taskId (by rw [reads]; rfl)
          have few := short (server.connAt (server.task taskId).mSocket)
          change (server.workers worker).Small count
          rw [reads]
          change length + count ≤ recvMsgSize
          omega
      | foreign bytes => simp [Server.kernelRead?, live] at answered
      | eof => trivial
      | eagain => trivial
      | error => trivial
  | _ => trivial

/-- All that is known of a state of a well-behaved run. -/
structure Behaved (server : Server) : Prop where
  inTime : Net.server.ReachableUnder
    (fun before action => InTurn before action ∧ Prompt before action) server
  whole : Net.server.ReachableUnder WholeReads server
  small : Net.server.ReachableUnder SmallReads server
  attended : Attended server
  short : ∀ conn, (server.conns conn).rcvq.length ≤ recvMsgSize

theorem Behaved.tables (behaved : Behaved server) : Tables server :=
  reachable_tables behaved.whole.reachable

theorem Behaved.single (behaved : Behaved server) : OneByOne server :=
  reachable_oneByOne (behaved.inTime.mono fun _ _ => And.right)

theorem reachable_behaved (reached : Net.server.ReachableUnder WellBehaved server) :
    Behaved server := by
  obtain ⟨inTime, attended⟩ := reachable_attended (fun _ _ => And.left) reached
  suffices shown : Net.server.ReachableUnder WholeReads server ∧
      Net.server.ReachableUnder SmallReads server ∧
      ∀ conn, (server.conns conn).rcvq.length ≤ recvMsgSize from
    ⟨inTime.mono fun _ _ both => ⟨both.1, both.2.1⟩, shown.1, shown.2.1, attended, shown.2.2⟩
  clear inTime attended
  induction reached with
  | start started =>
      refine ⟨.start started, .start started, ?_⟩
      obtain ⟨mListenFd, mEpollFd, reserved, block, _, _, _, rfl⟩ := started
      exact fun _ => Nat.zero_le _
  | step earlier allowed taken ih =>
      obtain ⟨whole, small, short⟩ := ih
      have tables := reachable_tables earlier.reachable
      have single := reachable_oneByOne
        ((reachable_attended (fun _ _ => And.left) earlier).1.mono fun _ _ both => both.2.1)
      exact ⟨whole.step (allowed.wholeReads (single.room tables)) taken,
        small.step (allowed.smallReads tables single short taken) taken,
        (serverStep_of_step? tables taken).short allowed.2.2 short⟩

/-! ## At rest -/

/-- The only step without a meaning that the threads come to is that of a client too many. -/
theorem Behaved.fine (behaved : Behaved server) (room : ¬ NoRoom server) : ¬ Overrun server := by
  rintro (⟨event, events, reached, live, long⟩ | ⟨worker, taskId, length, bytes, holds, long⟩ |
    ⟨worker, taskId, length, reads, low⟩ | full)
  · have fits := (reachable_buffersFit behaved.small).tasks (server.pool.mReadyList event.fd)
    rw [TcpSocket.getMsg, Buffer.length_getBuf] at long
    omega
  · have whole := behaved.single.whole worker
    rw [holds] at whole
    obtain ⟨rfl, nonempty, bounded⟩ := whole
    have stored := TcpSocket.getBuf_recvStore (server.task taskId)
      (List.length_pos_iff.mpr nonempty) (by omega)
    rw [TcpSocket.copied_recvStore, stored.1] at long
    omega
  · have whole := behaved.single.whole worker
    rw [reads] at whole
    rw [show length = 0 from whole] at low
    exact absurd low (by decide)
  · exact room full

/-- No thread has a step to take without help. -/
def Finished (server : Server) : Prop :=
  ∀ action : Action, WellBehaved server action → Unaided server action → action.handed = 0 →
    Net.server.step? server action = none

theorem wellBehaved_of_thread (inTurn : action.isLoop = false → InTurn server action)
    (unhurried : server.unhurried action = true) (noData : action.dataRead = none)
    (short : server.short action = true) : WellBehaved server action := by
  refine ⟨⟨inTurn, unhurried⟩, fun notLoop => ⟨fun read reads => ?_, fun loop => ?_⟩, short⟩
  · rw [noData] at reads
    cases reads
  · rw [notLoop] at loop
    cases loop

/-- A worker that reads finds bytes, all of which it may take, or the end of the stream. -/
theorem Behaved.read (behaved : Behaved server) {worker : Fin threadNumber} {taskId length : Int}
    (reads : server.workers worker = .reading taskId length) :
    ∃ call result next, WellBehaved server (.read worker call) ∧ call.isError = false ∧
      server.kernelRead? (server.task taskId).mSocket call = some (result, next) ∧
      result ≠ .error := by
  have wanted : (server.workers worker).wants = some taskId := by rw [reads]; rfl
  have live : (server.task taskId).mSocket ∈ server.live :=
    behaved.single.socket_live behaved.tables (by rw [reads]; rfl)
  have ready := behaved.attended.unread _ live
    (.inr (.inr ⟨worker, by rw [wanted, (behaved.tables.owner live).1]⟩))
  have few := behaved.short (server.connAt (server.task taskId).mSocket)
  by_cases empty : (server.conns (server.connAt (server.task taskId).mSocket)).rcvq = []
  · have ended := (Conn.ready_iff.mp ready).resolve_left (not_not_intro empty)
    exact ⟨.eof, .eof, _, wellBehaved_of_thread (fun _ => trivial) rfl rfl rfl, rfl,
      (if_pos live).trans (if_pos ⟨empty, ended⟩), by simp⟩
  · have room : (server.conns (server.connAt (server.task taskId).mSocket)).rcvq.length ≤
        bufferSize - 1 := few.trans (by decide)
    refine ⟨.data (server.conns (server.connAt (server.task taskId).mSocket)).rcvq.length, _, _,
      ⟨⟨fun _ => trivial, rfl⟩, fun _ => ⟨?_, fun loop => by cases loop⟩, rfl⟩, rfl,
      if_pos ⟨live, List.length_pos_iff.mpr empty, le_rfl, room⟩, by simp⟩
    rintro read ⟨⟩ other wants
    rw [wanted] at wants
    cases wants
    rfl

theorem Behaved.stuck (behaved : Behaved server) (finished : Finished server) : Stuck server where
  epollWait := fun fd => finished (.epollWait [fd])
    (wellBehaved_of_thread (fun _ => trivial) rfl rfl rfl) trivial rfl
  accept := fun fd => finished (.accept (some fd))
    (wellBehaved_of_thread (fun _ => trivial) rfl rfl rfl) rfl rfl
  loop := finished .loop (wellBehaved_of_thread (fun none => by cases none) rfl rfl rfl) trivial
    rfl
  take := fun worker => finished (.take worker)
    (wellBehaved_of_thread (fun _ => trivial) rfl rfl rfl) trivial rfl
  enter := fun worker => finished (.enter worker)
    (wellBehaved_of_thread (fun _ => trivial) rfl rfl rfl) trivial rfl
  read := by
    intro worker taskId length reads connection
    obtain ⟨call, result, next, allowed, good, came, fine⟩ := behaved.read reads
    refine ⟨call, result, next, came, fine, finished (.read worker call) allowed
      (unaided_of_reading reads connection call) ?_⟩
    cases call with
    | error => cases good
    | _ => rfl
  store := fun worker => finished (.store worker)
    (wellBehaved_of_thread (fun _ => trivial) rfl rfl rfl) trivial rfl

/-- Every task that is read has its connection. -/
theorem Behaved.not_atStdin (behaved : Behaved server) (worker : Fin threadNumber) :
    ¬ server.AtStdin worker := by
  rintro ⟨taskId, length, reads, stdin⟩
  have live : (server.task taskId).mSocket ∈ server.live :=
    behaved.single.socket_live behaved.tables (by rw [reads]; rfl)
  rw [stdin] at live
  exact behaved.tables.zero_not_live live

theorem Behaved.rests (behaved : Behaved server) (finished : Finished server) :
    AtRest server ∨ NoRoom server := by
  by_cases full : NoRoom server
  · exact .inr full
  · have settled := (behaved.stuck finished).settled behaved.tables
      (reachable_listensFor behaved.whole.reachable) (behaved.fine full)
    exact .inl (settled.atRest behaved.not_atStdin)

/-- Under any condition that leaves the threads free to work as here, they can finish. -/
theorem exists_finished {Guard : Server → Action → Prop}
    (eases : ∀ state step, WellBehaved state step → step.handed = 0 → Guard state step)
    (reached : Net.server.ReachableUnder Guard server) :
    ∃ actions last,
      Net.server.Path (fun state step => Guard state step ∧ Unaided state step) server actions
        last ∧ (actions.map Action.handed).sum = 0 ∧ Finished last := by
  refine (settling_under (fun _ _ => And.left) ?_).exists_settled reached
  intro state _ stuck action allowed unaided work
  exact stuck action ⟨eases state action allowed work, unaided⟩ work

theorem underway_of_atRest (rest : AtRest server) (taskId : Int) :
    server.underway taskId = 0 := by
  obtain ⟨_, handling, _, queue, idle⟩ := rest
  have adds : server.loop.adds taskId = 0 := by
    cases place : server.loop with
    | append adding fd events =>
        rw [place] at handling
        cases handling
    | _ => rfl
  have nobody : total (Reader.worksOn taskId) server.workers = 0 :=
    total_eq_zero fun worker => by rw [idle worker]; rfl
  rw [Server.underway, adds, queue, nobody]
  rfl

/-- At rest a connection is left alone. -/
theorem leftAlone_of_atRest (rest : AtRest server) {fd : Int} (live : fd ∈ server.live) :
    LeftAlone server fd := by
  obtain ⟨events, handling, quiet, queue, idle⟩ := rest
  refine ⟨quiet fd (List.mem_cons_of_mem _ live), ?_, ?_, ?_, ?_⟩
  · rw [events]
    exact List.not_mem_nil
  · intro handled handles
    rw [handling] at handles
    cases handles
  · rw [queue]
    exact List.not_mem_nil
  · intro worker
    rw [idle worker]
    exact fun none => by cases none

/-- At rest all that a client has sent is in the messages of its connection and its receive
buffer. -/
theorem Behaved.read_out (behaved : Behaved server) {Guard : Server → Action → Prop}
    {first : Server} {actions : List Action} (starts : Net.server.Start first)
    (path : Net.server.Path Guard first actions server) (rest : AtRest server) {fd : Int}
    (live : fd ∈ server.live) (unended : (server.conns (server.connAt fd)).sawEof = false) :
    ∃ contents, Greeting contents ∧
      server.messageBytes (server.connAt fd) ++
          (server.task (server.pool.mReadyList fd)).getMsg =
        contents ++ octets (server.connAt fd) 0
          (actions.flatMap (Action.sentTo (server.connAt fd))) := by
  have empty := left_alone_empty behaved.whole fd live (leftAlone_of_atRest rest live)
  have sent : (server.conns (server.connAt fd)).bytesRead =
      actions.flatMap (Action.sentTo (server.connAt fd)) := by
    have gathered := path.gathers (fun state => (state.conns (server.connAt fd)).stream)
      (Action.sentTo (server.connAt fd)) (fun before action after reached _ taken =>
        (serverStep_of_step? (reachable_tables reached.reachable) taken).stream _) (.start starts)
    obtain ⟨mListenFd, mEpollFd, reserved, block, _, _, _, rfl⟩ := starts
    simpa [Conn.stream, empty, Server.init, Conn.new] using gathered
  have streams := reachable_streams (behaved.inTime.mono fun _ _ => And.right)
  obtain ⟨contents, greeting, _, whole⟩ := streams.lag behaved.tables unended
  refine ⟨contents, greeting, ?_⟩
  rw [whole fd live rfl ?_ (underway_of_atRest rest _), Server.got, sent]
  intro closes
  obtain ⟨_, handling, _⟩ := rest
  obtain ⟨taskId, handles⟩ := Loop.handling_of_closing closes
  rw [handling] at handles
  cases handles

/--
When clients take turns and send no more than a message has room for, the application waits for
the workers and reads are whole, the event loop and the workers can always finish without help
what there is to do, and when they have, in whatever order they took their steps, they are at rest
or `add_connect` has no room for the next client.  At rest all that a client has sent since the
start is in the messages of its connection and its receive buffer, in order and once, behind what
the buffer contained at first.
-/
theorem streams_read_out {first : Server} {actions : List Action} (starts : Net.server.Start first)
    (path : Net.server.Path WellBehaved first actions server) :
    (∃ more last,
      Net.server.Path (fun state step => WellBehaved state step ∧ Unaided state step) server
        more last ∧ (more.map Action.handed).sum = 0 ∧ Finished last) ∧
    (Finished server → AtRest server ∨ NoRoom server) ∧
    (AtRest server → ∀ fd ∈ server.live, (server.conns (server.connAt fd)).sawEof = false →
      ∃ contents, Greeting contents ∧
        server.messageBytes (server.connAt fd) ++
            (server.task (server.pool.mReadyList fd)).getMsg =
          contents ++ octets (server.connAt fd) 0
            (actions.flatMap (Action.sentTo (server.connAt fd)))) := by
  have reached := path.reachableUnder (.start starts)
  have behaved := reachable_behaved reached
  refine ⟨exists_finished (fun _ _ allowed _ => allowed) reached, behaved.rests, ?_⟩
  exact fun rest _ => behaved.read_out starts path rest

/-- A client asks twice, and both requests are served. -/
def servedTwice : List Action :=
  letIn 5 ++ ask 0 5 [65] ++ serve 0 1 ++ [.pull] ++ answer [49] 1 ++ ask 0 5 [66] ++ serve 0 1

theorem streams_read_out_twice :
    ∃ server, Net.server.Path WellBehaved .started servedTwice server ∧ AtRest server ∧
      5 ∈ server.live ∧ ∃ contents, Greeting contents ∧
        server.messageBytes 0 ++ (server.task (server.pool.mReadyList 5)).getMsg =
          contents ++ octets 0 0 [65, 66] := by
  obtain ⟨last, run, ended⟩ := (Option.any_eq_true _ _).mp
    (show (Net.server.follow WellBehaved .started servedTwice).any (fun server =>
      decide (AtRest server ∧ 5 ∈ server.live ∧ server.connAt 5 = 0 ∧
        (server.conns 0).sawEof = false)) = true by decide)
  obtain ⟨rest, live, conn, unended⟩ := of_decide_eq_true ended
  have path := Machine.Path.of_follow run
  obtain ⟨contents, greeting, shown⟩ :=
    (streams_read_out start_started path).2.2 rest 5 live (by rw [conn]; exact unended)
  rw [conn] at shown
  exact ⟨last, path, rest, live, contents, greeting, shown⟩

end LibNet.Net
