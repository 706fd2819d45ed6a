import LibNet.Net.RepliesInTurn
import LibNet.Net.Streams

/-!
# An application that sends back what it is sent

The program of `net/main.cpp` answers every message with its own bytes.  When its clients take
turns and the workers keep up, a client is sent back what it has sent: behind the digit that the
receive buffer starts with, in order, and always one request late.
-/

namespace LibNet.Net

open LibNet.Runs
open LibNet.Base

variable {server after : Server} {action : Action}

def values (bytes : List Octet) : List UInt8 := bytes.map Octet.value

@[simp] theorem values_append (bytes more : List Octet) :
    values (bytes ++ more) = values bytes ++ values more :=
  List.map_append

theorem values_octets (conn start : Nat) (bytes : List UInt8) :
    values (octets conn start bytes) = bytes :=
  map_value_octets conn start bytes

/-- An answer is pushed when it has been written, and every message of a read event gets one. -/
def Server.echoes (server : Server) : Action → Bool
  | .push slot _ =>
      match server.slots[slot]? with
      | some (.holding message) =>
          values (server.task message.taskId).mSendBuf.getBuf = values message.recvMsg
      | _ => true
  | .discard slot =>
      match server.slots[slot]? with
      | some (.holding message) => message.cause.isClose
      | _ => true
  | _ => true

/-- The runs of an application that sends back what it is sent. -/
def Echoing (server : Server) (action : Action) : Prop :=
  InTurn server action ∧ Prompt server action ∧ server.echoes action = true

instance (server : Server) (action : Action) : Decidable (Echoing server action) :=
  inferInstanceAs (Decidable (_ ∧ _))

theorem payload_eq_nil {conn : Nat} {messages : List (Message Octet Cause)}
    (none : messages.countP (Message.asksFor conn) = 0) : payload messages conn = [] := by
  have empty : messages.filter (Message.asksFor conn) = [] := by
    rw [← List.length_eq_zero_iff, ← List.countP_eq_length_filter]
    exact none
  rw [payload, empty]
  rfl

/-- One message at most has no order. -/
theorem payload_perm {conn : Nat} {messages others : List (Message Octet Cause)}
    (perm : messages.Perm others) (one : messages.countP (Message.asksFor conn) ≤ 1) :
    payload messages conn = payload others conn := by
  have same := perm.filter (Message.asksFor conn)
  rw [List.countP_eq_length_filter] at one
  have equal : messages.filter (Message.asksFor conn) = others.filter (Message.asksFor conn) := by
    cases found : messages.filter (Message.asksFor conn) with
    | nil =>
        rw [found] at same
        exact (List.nil_perm.mp same).symm
    | cons message rest =>
        rw [found] at same one
        have last : rest = [] := List.length_eq_zero_iff.mp (by
          rw [List.length_cons] at one
          omega)
        subst last
        exact List.singleton_perm.mp same
  rw [payload, equal, payload]

theorem held_sublist_owing (slots : List Slot) :
    (slots.filterMap Slot.held).Sublist (slots.filterMap Slot.owing) := by
  induction slots with
  | nil => exact .slnil
  | cons slot rest ih =>
      cases slot with
      | holding message => exact ih.cons_cons message
      | sending message frame =>
          rw [List.filterMap_cons_none rfl]
          exact ih.trans (List.Sublist.filterMap _ (List.sublist_cons_self ..))

/-- Of the messages of a connection one at most has no answer yet. -/
theorem TakesTurns.unpushed_once (turns : TakesTurns server) (conn : Nat) :
    server.unpushed.countP (Message.asksFor conn) ≤ 1 :=
  (((held_sublist_owing server.slots).append_left _).countP_le).trans (turns.once conn)

theorem unpushed_perm {slot : Nat} {held : Slot} (found : server.slots[slot]? = some held) :
    server.unpushed.Perm (held.held.toList ++ server.unpushedBut slot) := by
  have moved := (slots_perm found).filterMap Slot.held
  rw [List.filterMap_cons] at moved
  unfold Server.unpushed Server.unpushedBut
  cases own : held.held with
  | none =>
      rw [own] at moved
      exact moved.append_left _
  | some message =>
      rw [own] at moved
      exact (moved.append_left _).trans List.perm_middle

/-- A slot that is being sent holds no message back. -/
theorem unpushed_set_perm {slot : Nat} {held : Slot} {message : Message Octet Cause}
    {frame : SendFrame Octet} (found : server.slots[slot]? = some held)
    (undo : after.pool.mUndoTasks = server.pool.mUndoTasks)
    (slots : after.slots = server.slots.set slot (.sending message frame)) :
    after.unpushed.Perm (server.unpushedBut slot) := by
  have moved := (slots_set_perm found (.sending message frame)).filterMap Slot.held
  unfold Server.unpushed Server.unpushedBut
  rw [undo, slots]
  exact moved.append_left _

/-! ## What has been answered -/

/-- The answers pushed and the messages without one are the messages, as far as bytes go. -/
def Echoed (server : Server) (replies : List (Nat × List Octet)) : Prop :=
  ∀ conn, values (repliesTo conn replies) ++ values (payload server.unpushed conn) =
    values (server.messageBytes conn)

variable {replies : List (Nat × List Octet)}

theorem Echoed.of_same (echoed : Echoed server replies) (pushes : server.pushes action = [])
    (queued : after.queued = server.queued)
    (unpushed : ∀ conn, payload after.unpushed conn = payload server.unpushed conn) :
    Echoed after (replies ++ server.pushes action) := by
  intro conn
  rw [pushes, List.append_nil, unpushed, messageBytes_congr queued]
  exact echoed conn

/-- A new message has no answer yet. -/
theorem Echoed.message (echoed : Echoed server replies) (turns : TakesTurns after)
    (pushes : server.pushes action = []) {message : Message Octet Cause}
    (pulled : after.pulled = server.pulled) (slots : after.slots = server.slots)
    (undo : after.pool.mUndoTasks = server.pool.mUndoTasks ++ [message]) :
    Echoed after (replies ++ server.pushes action) := by
  intro conn
  have last : after.unpushed.Perm (server.unpushed ++ [message]) := by
    unfold Server.unpushed
    rw [undo, slots, List.append_assoc, List.append_assoc]
    exact List.perm_append_comm.append_left _
  rw [pushes, List.append_nil, payload_perm last (turns.unpushed_once conn), payload_append,
    messageBytes_append pulled undo, values_append, values_append, ← List.append_assoc,
    echoed conn]

theorem LoopStep.echoed (step : LoopStep server action after) (turns : TakesTurns after)
    (echoed : Echoed server replies) : Echoed after (replies ++ server.pushes action) := by
  cases step with
  | recv event events reached noHup member => exact echoed.message turns rfl rfl rfl rfl
  | finish delSubscript connFd events reached => exact echoed.message turns rfl rfl rfl rfl
  | epollWait fds waits distinct pending => exact echoed.of_same rfl rfl fun _ => rfl
  | acceptFailed event events reached noHup listens => exact echoed.of_same rfl rfl fun _ => rfl
  | accept event events connFd assigned rest reached noHup listens inside fresh unreserved waits
      unused => exact echoed.of_same rfl rfl fun _ => rfl
  | close event events reached hup member => exact echoed.of_same rfl rfl fun _ => rfl
  | append adding appended events reached => exact echoed.of_same rfl rfl fun _ => rfl
  | clean delSubscript connFd events reached => exact echoed.of_same rfl rfl fun _ => rfl

/-- An answer with the bytes of its message. -/
theorem Echoed.push (echoed : Echoed server replies) (turns : TakesTurns server) {slot : Nat}
    {heap : Nat → Octet} {message : Message Octet Cause}
    (held : server.slots[slot]? = some (.holding message))
    (allowed : Echoing server (.push slot heap)) (queued : after.queued = server.queued)
    (rest : after.unpushed.Perm (server.unpushedBut slot)) :
    Echoed after (replies ++ server.pushes (.push slot heap)) := by
  obtain ⟨turn, _, echoes⟩ := allowed
  obtain ⟨asking, asked⟩ : ∃ asking, message.cause = .read asking := by
    cases cause : message.cause with
    | read asking => exact ⟨asking, rfl⟩
    | close closed => simp [InTurn, Server.mayPush, held, cause, Cause.isClose] at turn
  have same : values (server.task message.taskId).mSendBuf.getBuf = values message.recvMsg := by
    simpa [Server.echoes, held] using echoes
  intro conn
  have front : payload server.unpushed conn =
      payload [message] conn ++ payload (server.unpushedBut slot) conn := by
    rw [payload_perm (unpushed_perm held) (turns.unpushed_once conn), ← payload_append]
    rfl
  have once : after.unpushed.countP (Message.asksFor conn) ≤ 1 := by
    rw [rest.countP_eq]
    refine le_trans ?_ (turns.unpushed_once conn)
    rw [(unpushed_perm held).countP_eq]
    exact (List.sublist_append_right _ _).countP_le
  have before := echoed conn
  rw [front, values_append, ← List.append_assoc, payload_read asked] at before
  rw [pushes_of_holding held asked, repliesTo_append, values_append,
    payload_perm rest once, messageBytes_congr queued, ← before]
  by_cases own : asking = conn
  · subst own
    rw [repliesTo_self, if_pos rfl, same]
  · rw [repliesTo_other own, if_neg own]

theorem AppStep.echoed (step : AppStep server action after) (turns : TakesTurns server)
    (allowed : Echoing server action) (echoed : Echoed server replies) :
    Echoed after (replies ++ server.pushes action) := by
  have queued := step.queued
  cases step with
  | pull message rest front =>
      refine echoed.of_same rfl queued fun conn =>
        (payload_perm ?_ (turns.unpushed_once conn)).symm
      simp only [Server.unpushed, front, List.filterMap_append]
      exact (List.append_assoc rest _ _).symm ▸ (List.perm_append_singleton _ _).symm
  | reply slot bytes message taskId held through => exact echoed.of_same rfl queued fun _ => rfl
  | replyClosed slot bytes => exact echoed.of_same rfl queued fun _ => rfl
  | discard slot message held =>
      refine echoed.of_same rfl queued fun conn => ?_
      rw [payload_perm (unpushed_perm held) (turns.unpushed_once conn), payload_append]
      obtain ⟨closed, cause⟩ : ∃ closed, message.cause = .close closed := by
        have dropped : message.cause.isClose = true := by
          simpa [Server.echoes, held] using allowed.2.2
        cases cause : message.cause with
        | read asking =>
            rw [cause] at dropped
            cases dropped
        | close closed => exact ⟨closed, rfl⟩
      rw [show (Slot.holding message).held.toList = [message] from rfl, payload_close cause]
      rfl
  | pushNothing slot heap message held => exact echoed.push turns held allowed queued (.refl _)
  | push slot heap message frame held reply =>
      exact echoed.push turns held allowed queued (unpushed_set_perm held rfl rfl)
  | write slot count message frame sends =>
      refine echoed.of_same rfl queued fun conn =>
        (payload_perm ?_ (turns.unpushed_once conn)).symm
      refine (unpushed_perm sends).trans (List.Perm.symm ?_)
      exact unpushed_set_perm sends rfl rfl
  | writeEnd slot last message frame sends =>
      exact echoed.of_same rfl queued fun conn =>
        (payload_perm (unpushed_perm sends) (turns.unpushed_once conn)).symm

theorem reachable_echoed
    (reached : answeringServer.ReachableUnder (fun recorded => Echoing recorded.1)
      (server, replies)) : Echoed server replies := by
  refine Machine.ReachableUnder.record_invariant Echoing ?_ ?_ reached
  · rintro first ⟨mListenFd, mEpollFd, reserved, block, _, _, _, rfl⟩ conn
    rfl
  · intro before action after replies earlier echoed allowed taken
    have inTurn : Net.server.ReachableUnder InTurn before :=
      earlier.mono fun _ _ echoing => echoing.1
    have turns := reachable_takesTurns inTurn
    have turns' := reachable_takesTurns (inTurn.step allowed.1 taken)
    cases serverStep_of_step? (reachable_tables earlier.reachable) taken with
    | peer step =>
        exact echoed.of_same (by cases step <;> rfl) step.queued fun _ => by cases step <;> rfl
    | loop step => exact step.echoed turns' echoed
    | worker step =>
        exact echoed.of_same (by cases step <;> rfl) step.queued fun _ => by cases step <;> rfl
    | app step => exact step.echoed turns allowed echoed

/-- When it is the client's turn, all its messages are answered and sent. -/
theorem settled_of_clientsTurn {conn : Nat} (turn : server.clientsTurn conn = true) :
    payload server.unpushed conn = [] ∧ ¬ Sending server conn := by
  have nobody : ∀ message ∈ server.awaiting, message.cause ≠ .read conn :=
    fun message => not_awaiting_of_clientsTurn turn
  constructor
  · refine payload_eq_nil (List.countP_eq_zero.mpr fun message member asks => ?_)
    have waits := ((held_sublist_owing server.slots).append_left _).subset member
    exact nobody message waits (of_decide_eq_true asks)
  · rintro ⟨message, frame, member, some_left, asked⟩
    refine nobody message (List.mem_append_right _ (List.mem_filterMap.mpr ⟨_, member, ?_⟩)) asked
    exact owing_sending.mpr ⟨some_left, rfl⟩

/-- What a client has been sent when it is its turn. -/
theorem sent_of_clientsTurn (reached : Net.server.ReachableUnder Echoing server) {conn : Nat}
    (turn : server.clientsTurn conn = true) :
    values (server.conns conn).sent = values (server.messageBytes conn) := by
  obtain ⟨replies, recorded⟩ := reached.exists_record Echoing Server.pushes
  have delivered := (reachable_answers (recorded.mono fun _ _ echoing => echoing.1)).delivered
  obtain ⟨answered, idle⟩ := settled_of_clientsTurn turn
  rw [← reachable_echoed recorded conn, answered, ← delivered.whole conn idle]
  exact (List.append_nil _).symm

/--
When clients take turns, the workers keep up and the application sends back what it is sent, a
client gets its own stream back: at every moment what it has been sent is a beginning of its
stream behind the first contents of a receive buffer, and whenever it has its answer and its
request is served, only the last thing read is missing.
-/
theorem echoes_lag_one_read (reached : Net.server.ReachableUnder Echoing server) {conn : Nat}
    (unended : (server.conns conn).sawEof = false) :
    ∃ first, Greeting first ∧
      values (server.conns conn).sent <+: values first ++ (server.conns conn).bytesRead ∧
      ∀ fd ∈ server.live, server.connAt fd = conn → server.loop.closing ≠ some fd →
        server.underway (server.pool.mReadyList fd) = 0 → server.clientsTurn conn = true →
        values (server.conns conn).sent ++
            values (server.task (server.pool.mReadyList fd)).getMsg =
          values first ++ (server.conns conn).bytesRead := by
  obtain ⟨replies, recorded⟩ := reached.exists_record Echoing Server.pushes
  have echoed := reachable_echoed recorded conn
  have delivered := (reachable_answers (recorded.mono fun _ _ echoing => echoing.1)).delivered
  have streams := reachable_streams (reached.mono fun _ _ echoing => echoing.2.1)
  obtain ⟨first, greeting, beginning, whole⟩ :=
    streams.lag (reachable_tables reached.reachable) unended
  have read : values (first ++ server.got conn) =
      values first ++ (server.conns conn).bytesRead := by
    rw [values_append, Server.got, values_octets]
  refine ⟨first, greeting, ?_, ?_⟩
  · rw [← read]
    refine ((delivered.beginning conn).map Octet.value).trans ?_
    refine List.IsPrefix.trans ⟨_, echoed⟩ (beginning.map Octet.value)
  · intro fd live same unclosed served turn
    rw [sent_of_clientsTurn reached turn, ← values_append, whole fd live same unclosed served, read]

/-- A client asks twice and is answered twice. -/
def echoedTwice : List Action :=
  letIn 5 ++ ask 0 5 [65] ++ serve 0 1 ++ [.pull] ++ answer [49] 1 ++
    ask 0 5 [66] ++ serve 0 1 ++ [.pull] ++ answer [65] 1

theorem echoes_lag_one_read_twice :
    ∃ server, Net.server.ReachableUnder Echoing server ∧
      values (server.conns 0).sent = [49, 65] ∧ (server.conns 0).bytesRead = [65, 66] ∧
      ∃ first, Greeting first ∧ values (server.conns 0).sent <+:
        values first ++ (server.conns 0).bytesRead := by
  obtain ⟨last, reached, ended⟩ := Machine.exists_reachableUnder_of_follow
    Net.server Echoing echoedTwice
    (fun server => decide (values (server.conns 0).sent = [49, 65] ∧
      (server.conns 0).bytesRead = [65, 66] ∧ (server.conns 0).sawEof = false))
    start_started (by decide)
  obtain ⟨sent, read, unended⟩ := of_decide_eq_true ended
  obtain ⟨first, greeting, beginning, _⟩ := echoes_lag_one_read reached unended
  exact ⟨last, reached, sent, read, first, greeting, beginning⟩

end LibNet.Net
