import LibNet.Net.Echo
import LibNet.Net.ReadOut

/-!
# Everybody is answered

An application that sends every message back, as `net/main.cpp` does, but only when the workers
are done with its request; clients that take turns and send short messages.  Then the threads and
the application can at any time finish what there is to do, unless `m_ready_list` has no place for
the next client, and when they have, every client has back all it has sent but what the last
`read` brought, which is in the receive buffer.
-/

namespace LibNet.Net

open LibNet.Runs
open LibNet.Base

variable {server after : Server} {action : Action}

/-- The well-behaved runs of an application that sends back what it is sent. -/
def WellEchoed (server : Server) (action : Action) : Prop :=
  WellBehaved server action ∧ server.echoes action = true

instance (server : Server) (action : Action) : Decidable (WellEchoed server action) :=
  inferInstanceAs (Decidable (_ ∧ _))

theorem reachable_echoing (reached : Net.server.ReachableUnder WellEchoed server) :
    Net.server.ReachableUnder Echoing server :=
  (reachable_attended (fun _ _ both => both.1.1) reached).1.mono
    fun _ _ both => ⟨both.1, both.2.1, both.2.2.2⟩

/-- The messages that are out were queued, and one of a read event has the address of the send
buffer of its task. -/
structure Addressed (server : Server) : Prop where
  made : ∀ message ∈ server.outstanding, message ∈ server.queued
  address : ∀ message ∈ server.queued, message.asks → message.sendMsg = .task message.taskId

theorem Addressed.transport (addressed : Addressed server) (queued : after.queued = server.queued)
    (fewer : ∀ message ∈ after.outstanding, message ∈ server.outstanding) : Addressed after where
  made := by
    intro message member
    rw [queued]
    exact addressed.made message (fewer message member)
  address := by
    rw [queued]
    exact addressed.address

/-- One more message is queued. -/
theorem Addressed.queue (addressed : Addressed server) (new : Message Octet Cause)
    (sound : new.asks → new.sendMsg = .task new.taskId)
    (undo : after.pool.mUndoTasks = server.pool.mUndoTasks ++ [new])
    (pulled : after.pulled = server.pulled) (slots : after.slots = server.slots) :
    Addressed after := by
  have queued : after.queued = server.queued ++ [new] := by
    rw [Server.queued, undo, pulled, ← List.append_assoc]
    rfl
  constructor
  · intro message member
    rw [queued]
    rw [Server.outstanding, undo, slots] at member
    rcases List.mem_append.mp member with undone | held
    · rcases List.mem_append.mp undone with earlier | here
      · exact List.mem_append_left _ (addressed.made message (List.mem_append_left _ earlier))
      · exact List.mem_append_right _ here
    · exact List.mem_append_left _ (addressed.made message (List.mem_append_right _ held))
  · intro message member
    rw [queued] at member
    rcases List.mem_append.mp member with earlier | here
    · exact addressed.address message earlier
    · rw [List.mem_singleton.mp here]
      exact sound

theorem LoopStep.addressed (step : LoopStep server action after) (addressed : Addressed server) :
    Addressed after := by
  cases step with
  | recv event events reached noHup live =>
      exact addressed.queue _ (fun _ => rfl) rfl rfl rfl
  | finish delSubscript connFd events reached =>
      refine addressed.queue _ ?_ rfl rfl rfl
      rintro ⟨conn, asked⟩
      cases asked
  | _ => exact ⟨addressed.made, addressed.address⟩

theorem reachable_addressed (reached : Net.server.Reachable server) : Addressed server := by
  refine server_invariant ?_ ?_ reached
  · intro mListenFd mEpollFd reserved block
    exact ⟨fun _ none => (by cases none), fun _ none => by cases none⟩
  · intro before action after earlier addressed _ step
    cases step with
    | peer step =>
        exact addressed.transport step.queued fun _ member => step.outstanding ▸ member
    | loop step => exact step.addressed addressed
    | worker step =>
        exact addressed.transport step.queued fun _ member => step.outstanding ▸ member
    | app step => exact addressed.transport step.queued fun _ => step.mem_outstanding

/-! ## At rest the application goes on -/

theorem AppStep.atRest (step : AppStep server action after) (rest : AtRest server) :
    AtRest after := by
  obtain ⟨same, loop⟩ := step.sameTables
  have other : after.mWorkqueue = server.mWorkqueue ∧ after.workers = server.workers ∧
      after.connected = server.connected ∧ after.listenEdge = server.listenEdge := by
    cases step <;> exact ⟨rfl, rfl, rfl, rfl⟩
  obtain ⟨queue, workers, connected, listenEdge⟩ := other
  have pending : ∀ fd, after.pending fd = server.pending fd := by
    intro fd
    obtain ⟨wire, changed⟩ := step.conns (server.connAt fd)
    simp only [Server.pending, same.listenFd, same.live, same.connAt, same.accepted, connected,
      listenEdge, changed]
    rfl
  obtain ⟨events, handling, quiet, empty, idle⟩ := rest
  refine ⟨loop ▸ events, loop ▸ handling, ?_, queue ▸ empty, workers ▸ idle⟩
  intro fd member
  rw [pending]
  rw [same.listenFd, same.live] at member
  exact quiet fd member

theorem not_requested_of_atRest (rest : AtRest server) (taskId : Int) :
    server.requested taskId = false := by
  refine Bool.eq_false_iff.mpr fun requested => ?_
  have unread : server.underway taskId ≠ 0 := by
    rcases requested_iff.mp requested with ⟨fd, events, appends⟩ | queued | ⟨worker, popped⟩
    · exact underway_of_unread (.inl (by simp [appends, Loop.adds]))
    · exact underway_of_unread (.inr (.inl queued))
    · exact underway_of_unread (.inr (.inr ⟨worker, by rw [popped]; rfl⟩))
  exact unread (underway_of_atRest rest taskId)

/-- The steps the application may take for a message it has, but for writing the answer. -/
def Slot.left : Slot → Nat
  | .holding _ => 4
  | .sending _ frame => if frame.left = 0 then 1 else 2

/-- The steps the application may take for the messages that are out. -/
def Server.owed (server : Server) : Nat :=
  5 * server.pool.mUndoTasks.length + (server.slots.map Slot.left).sum

theorem Slot.left_pos (slot : Slot) : 0 < slot.left := by
  cases slot with
  | holding message => exact Nat.succ_pos 3
  | sending message frame => by_cases done : frame.left = 0 <;> simp [Slot.left, done]

theorem Slot.left_sending_le (message : Message Octet Cause) (frame : SendFrame Octet) :
    (Slot.sending message frame).left ≤ 2 := by
  by_cases done : frame.left = 0 <;> simp [Slot.left, done]

theorem owed_of_erase {slot : Slot} {slots : List Slot} (front : server.slots = slot :: slots)
    (undo : after.pool.mUndoTasks = server.pool.mUndoTasks)
    (changed : after.slots = server.slots.eraseIdx 0) : after.owed < server.owed := by
  have positive := slot.left_pos
  rw [front, List.eraseIdx_cons_zero] at changed
  simp only [Server.owed, front, undo, changed, List.map_cons, List.sum_cons]
  omega

theorem owed_of_set {slot next : Slot} {slots : List Slot} (front : server.slots = slot :: slots)
    (undo : after.pool.mUndoTasks = server.pool.mUndoTasks)
    (changed : after.slots = server.slots.set 0 next) (less : next.left < slot.left) :
    after.owed < server.owed := by
  rw [front, List.set_cons_zero] at changed
  simp only [Server.owed, front, undo, changed, List.map_cons, List.sum_cons]
  omega

/-- The step is one of a client. -/
def Action.ofPeer : Action → Bool
  | .connect => true
  | .arrive _ _ => true
  | .peerClose _ => true
  | .peerReset _ => true
  | _ => false

/-- A step of these runs that needs no failing `accept` and no input for descriptor 0. -/
def Unprompted (server : Server) (action : Action) : Prop :=
  WellEchoed server action ∧ Unaided server action

/-- A few steps of the server and the application that leave less to answer. -/
def Answerable (server : Server) : Prop :=
  ∃ actions last, Net.server.Path Unprompted server actions last ∧
    (∀ action ∈ actions, action.ofPeer = false) ∧ AtRest last ∧ last.owed < server.owed

theorem AppStep.ofPeer (step : AppStep server action after) : action.ofPeer = false := by
  cases step <;> rfl

theorem unprompted_of_app (step : AppStep server action after) (inTurn : InTurn server action)
    (unhurried : server.unhurried action = true) (echoes : server.echoes action = true) :
    Unprompted server action :=
  ⟨⟨wellBehaved_of_thread (fun _ => inTurn) unhurried (by cases step <;> rfl)
    (by cases step <;> rfl), echoes⟩, by cases step <;> trivial⟩

/-- One step of the application. -/
theorem answerable_of_step (rest : AtRest server) (step : AppStep server action after)
    (allowed : Unprompted server action) (taken : server.step? action = some after)
    (less : after.owed < server.owed) : Answerable server := by
  refine ⟨[action], after, .cons allowed taken (.nil after), ?_, step.atRest rest, less⟩
  intro other member
  rw [List.mem_singleton.mp member]
  exact step.ofPeer

theorem answerable_of_undo (rest : AtRest server) {message : Message Octet Cause}
    {others : List (Message Octet Cause)} (front : server.pool.mUndoTasks = message :: others) :
    Answerable server := by
  have step := AppStep.pull message others front
  refine answerable_of_step rest step (unprompted_of_app step trivial rfl rfl) ?_ ?_
  · simp [Server.step?, Server.pull?, TcpTaskPool.getUndoTask, front]
  · simp only [Server.owed, front, List.length_cons, List.map_append, List.map_cons, List.map_nil,
      List.sum_append, List.sum_singleton, Slot.left]
    omega

theorem answerable_of_close (rest : AtRest server) {message : Message Octet Cause}
    {slots : List Slot} (front : server.slots = .holding message :: slots)
    (closes : message.cause.isClose = true) : Answerable server := by
  have held : server.slots[0]? = some (.holding message) := by rw [front]; rfl
  have step := AppStep.discard 0 message held
  refine answerable_of_step rest step (unprompted_of_app step trivial ?_ ?_) ?_ ?_
  · simp [Server.unhurried, Server.servedAt, held, closes]
  · simp [Server.echoes, held, closes]
  · simp [Server.step?, Server.discard?, held]
  · exact owed_of_erase front rfl rfl

theorem exists_push {message : Message Octet Cause} {slot : Nat}
    (held : server.slots[slot]? = some (.holding message)) (heap : Nat → Octet) :
    ∃ after, server.push? slot heap = some after := by
  simp only [Server.push?, held]
  cases start : (server.task message.taskId).sendStart heap with
  | mk counted frame =>
      cases frame with
      | none => exact ⟨_, rfl⟩
      | some frame => exact ⟨_, rfl⟩

/-- The answer is in the send buffer. -/
theorem answerable_of_answer (rest : AtRest server) {message : Message Octet Cause}
    {slots : List Slot} (front : server.slots = .holding message :: slots) (asks : message.asks)
    (answer : values (server.task message.taskId).mSendBuf.getBuf = values message.recvMsg) :
    Answerable server := by
  have held : server.slots[0]? = some (.holding message) := by rw [front]; rfl
  obtain ⟨conn, asked⟩ := asks
  have inTurn : InTurn server (.push 0 fun _ => Byte.zero) := by
    change server.mayPush 0 = true
    simp [Server.mayPush, held, asked, Cause.isClose, not_requested_of_atRest rest]
  have unhurried : server.unhurried (.push 0 fun _ => Byte.zero) = true := by
    simp [Server.unhurried, Server.servedAt, held, underway_of_atRest rest]
  have echoes : server.echoes (.push 0 fun _ => Byte.zero) = true := by
    simp [Server.echoes, held, answer]
  obtain ⟨pushed, taken⟩ := exists_push held fun _ => Byte.zero
  cases pushStep_of_push? taken with
  | nothing other held' empty =>
      have step := AppStep.pushNothing 0 (fun _ => Byte.zero) other held'
      refine answerable_of_step rest step (unprompted_of_app step inTurn unhurried echoes) taken ?_
      exact owed_of_erase front rfl rfl
  | started other held' reply =>
      have step := AppStep.push 0 (fun _ => Byte.zero) other
        ⟨(server.task other.taskId).sendCopy fun _ => Byte.zero,
          (server.task other.taskId).sendCount.mSendPos, 0⟩ held' reply
      refine answerable_of_step rest step (unprompted_of_app step inTurn unhurried echoes) taken ?_
      exact owed_of_set front rfl rfl ((Slot.left_sending_le _ _).trans_lt (show 2 < 4 by decide))

/-- The application writes the bytes of the message into the send buffer of the task. -/
def Server.answered (server : Server) (message : Message Octet Cause) : Server :=
  server.setTask message.taskId ((server.task message.taskId).writeReply
    ((values message.recvMsg).map fun value => ⟨value, .program⟩))

theorem values_answered (message : Message Octet Cause) :
    values ((server.answered message).task message.taskId).mSendBuf.getBuf =
      values message.recvMsg := by
  have task : (server.answered message).task message.taskId =
      (server.task message.taskId).writeReply
        ((values message.recvMsg).map fun value => ⟨value, .program⟩) :=
    Function.update_self ..
  rw [task, TcpSocket.writeReply, Buffer.getBuf_eq_window, window_layout _ _ le_rfl,
    List.take_length, values, List.map_map]
  exact List.map_id _

theorem answerable_of_read (reached : Net.server.ReachableUnder WellEchoed server)
    (rest : AtRest server) {message : Message Octet Cause} {slots : List Slot}
    (front : server.slots = .holding message :: slots) (asks : message.asks) :
    Answerable server := by
  have held : server.slots[0]? = some (.holding message) := by rw [front]; rfl
  have addressed := reachable_addressed reached.reachable
  have queued : message ∈ server.queued := by
    refine addressed.made message (List.mem_append_right _ ?_)
    rw [front]
    exact List.mem_cons_self
  have through := addressed.address message queued asks
  have short := (reachable_buffersFit
    (reachable_behaved (reached.mono fun _ _ => And.left)).small).messages message queued
  have step := AppStep.reply 0 (values message.recvMsg) message message.taskId held through
  have taken : server.step? (.reply 0 (values message.recvMsg)) =
      some (server.answered message) := by
    have fits : (values message.recvMsg).length ≤ bufferSize := by
      rw [values, List.length_map]
      exact short.trans (by decide)
    simp [Server.step?, Server.reply?, held, through, fits, Server.answered]
  have still : AtRest (server.answered message) := step.atRest rest
  obtain ⟨actions, last, path, own, ends, less⟩ :=
    answerable_of_answer still front asks (values_answered message)
  refine ⟨_, last, .cons (unprompted_of_app step trivial rfl rfl) taken path, ?_, ends, less⟩
  exact List.forall_mem_cons.mpr ⟨rfl, own⟩

theorem exists_left_of_sending (reached : Net.server.ReachableUnder WellEchoed server)
    {message : Message Octet Cause} {frame : SendFrame Octet}
    (member : .sending message frame ∈ server.slots) (some_left : frame.left ≠ 0) :
    ∃ count : Nat, frame.left = (count + 1 : Nat) := by
  have inTurn := (reachable_echoing reached).mono fun _ _ echoing => echoing.1
  obtain ⟨replies, recorded⟩ := inTurn.exists_record InTurn Server.pushes
  have low := ((reachable_answers recorded).delivered.begun message frame member some_left).1
  exact ⟨frame.left.toNat - 1, by omega⟩

/-- The connection of an answer that is being sent is still open. -/
theorem socket_live_of_sending (reached : Net.server.ReachableUnder WellEchoed server)
    {message : Message Octet Cause} {frame : SendFrame Octet}
    (member : .sending message frame ∈ server.slots) (some_left : frame.left ≠ 0) :
    (server.task message.taskId).mSocket ∈ server.live := by
  have inTurn := (reachable_echoing reached).mono fun _ _ echoing => echoing.1
  have attended := (reachable_attended (fun _ _ both => both.1.1) reached).2
  obtain ⟨conn, asked⟩ := (attended.sending message frame member some_left).1
  have awaits : message ∈ server.awaiting := List.mem_append_right _
    (List.mem_filterMap.mpr ⟨_, member, owing_sending.mpr ⟨some_left, rfl⟩⟩)
  obtain ⟨fd, awaitsReply⟩ := (reachable_takesTurns inTurn).owner message awaits conn asked
  have socket := (reachable_tables reached.reachable).assigned fd awaitsReply.live
    awaitsReply.unclosed
  rw [awaitsReply.ready] at socket
  rw [socket]
  exact awaitsReply.live

theorem answerable_of_sending (reached : Net.server.ReachableUnder WellEchoed server)
    (rest : AtRest server) {message : Message Octet Cause} {frame : SendFrame Octet}
    {slots : List Slot} (front : server.slots = .sending message frame :: slots) :
    Answerable server := by
  have sends : server.slots[0]? = some (.sending message frame) := by rw [front]; rfl
  by_cases done : frame.left = 0
  · have step := AppStep.writeEnd 0 (.wrote 0) message frame sends
    refine answerable_of_step rest step (unprompted_of_app step ?_ rfl rfl) ?_ ?_
    · change server.mayWrite 0 (.wrote 0) = true
      simp [Server.mayWrite, sends, done]
    · simp [Server.step?, Server.write?, sends]
    · exact owed_of_erase front rfl rfl
  · have member : .sending message frame ∈ server.slots := by
      rw [front]
      exact List.mem_cons_self
    have reaches := socket_live_of_sending reached member done
    -- `write` may take all that is left at once.
    obtain ⟨count, all⟩ := exists_left_of_sending reached member done
    have step := AppStep.write 0 count message frame sends
    refine answerable_of_step rest step (unprompted_of_app step ?_ rfl rfl) ?_ ?_
    · change server.mayWrite 0 (.wrote (count + 1)) = true
      simp [Server.mayWrite, sends, WriteResult.accepts]
    · simp [Server.step?, Server.write?, sends, reaches, all]
    · refine owed_of_set front rfl rfl ?_
      have none : (frame.advance (count + 1)).left = 0 := by
        simp [SendFrame.advance, all]
      simp [Slot.left, none, done]

/-! ## Every run -/

/-- The threads are at rest, and the application has dealt with every message. -/
def AllAnswered (server : Server) : Prop :=
  AtRest server ∧ server.pool.mUndoTasks = [] ∧ server.slots = []

instance (server : Server) : Decidable (AllAnswered server) :=
  inferInstanceAs (Decidable (_ ∧ _ ∧ _))

theorem answerable_of_atRest (reached : Net.server.ReachableUnder WellEchoed server)
    (rest : AtRest server) : AllAnswered server ∨ Answerable server := by
  cases undo : server.pool.mUndoTasks with
  | cons message others => exact .inr (answerable_of_undo rest undo)
  | nil =>
      cases slots : server.slots with
      | nil => exact .inl ⟨rest, undo, slots⟩
      | cons slot others =>
          refine .inr ?_
          cases slot with
          | sending message frame => exact answerable_of_sending reached rest slots
          | holding message =>
              cases cause : message.cause with
              | read conn => exact answerable_of_read reached rest slots ⟨conn, cause⟩
              | close conn => exact answerable_of_close rest slots (by rw [cause]; rfl)

/-- At rest the application can deal with what it has, and the threads stay at rest. -/
theorem exists_answered_of_atRest (reached : Net.server.ReachableUnder WellEchoed server)
    (rest : AtRest server) :
    ∃ actions last, Net.server.Path Unprompted server actions last ∧
      (∀ action ∈ actions, action.ofPeer = false) ∧ AllAnswered last := by
  induction bound : server.owed using Nat.strong_induction_on generalizing server with
  | _ amount ih =>
      -- What is owed gets less with every round of the application.
      rcases answerable_of_atRest reached rest with answered | answerable
      · exact ⟨[], server, .nil server, List.forall_mem_nil _, answered⟩
      · obtain ⟨actions, middle, path, own, still, less⟩ := answerable
        obtain ⟨more, last, others, own', answered⟩ :=
          ih middle.owed (bound ▸ less) ((path.mono fun _ _ => And.left).reachableUnder reached)
            still rfl
        exact ⟨actions ++ more, last, path.append others,
          List.forall_mem_append.mpr ⟨own, own'⟩, answered⟩

theorem echoes_of_handed (work : action.handed = 0) : server.echoes action = true := by
  cases action with
  | push slot heap => cases work
  | discard slot => cases work
  | _ => rfl

theorem ofPeer_of_handed (work : action.handed = 0) : action.ofPeer = false := by
  cases action with
  | connect => cases work
  | arrive conn bytes => cases work
  | peerClose conn => cases work
  | peerReset conn => cases work
  | _ => rfl

/-- The threads finish, then the application. -/
theorem exists_answered (reached : Net.server.ReachableUnder WellEchoed server) :
    ∃ actions last, Net.server.Path Unprompted server actions last ∧
      (∀ action ∈ actions, action.ofPeer = false) ∧ (AllAnswered last ∨ NoRoom last) := by
  obtain ⟨actions, middle, path, work, finished⟩ :=
    exists_finished (fun _ _ allowed work => ⟨allowed, echoes_of_handed work⟩) reached
  have own : ∀ action ∈ actions, action.ofPeer = false := fun action member =>
    ofPeer_of_handed (List.sum_eq_zero_iff.mp work _ (List.mem_map_of_mem member))
  have reached' := (path.mono fun _ _ => And.left).reachableUnder reached
  rcases (reachable_behaved (reached'.mono fun _ _ => And.left)).rests finished with rest | full
  · obtain ⟨more, last, others, own', answered⟩ := exists_answered_of_atRest reached' rest
    exact ⟨actions ++ more, last, path.append others, List.forall_mem_append.mpr ⟨own, own'⟩,
      .inl answered⟩
  · exact ⟨actions, middle, path, own, .inr full⟩

theorem AllAnswered.clientsTurn (answered : AllAnswered server) (conn : Nat) :
    server.clientsTurn conn = true := by
  obtain ⟨⟨events, _⟩, undo, slots⟩ := answered
  simp [Server.clientsTurn, Server.awaiting, undo, slots, events]

/--
When clients take turns and send no more than a message has room for, reads are whole and the
application sends every message back when its request has been served, then at any time the
threads and the application can deal with all there is, without a step of any client or other
help, unless `add_connect` has no room for the next client.  When they have, what a client has
been sent and the receive buffer of its connection make up all it has sent since the start,
behind what the buffer contained at first.
-/
theorem everybody_echoed {first : Server} {actions : List Action}
    (starts : Net.server.Start first) (path : Net.server.Path WellEchoed first actions server) :
    (∃ more last, Net.server.Path Unprompted server more last ∧
      (∀ action ∈ more, action.ofPeer = false) ∧ (AllAnswered last ∨ NoRoom last)) ∧
    (AllAnswered server → ∀ fd ∈ server.live, (server.conns (server.connAt fd)).sawEof = false →
      ∃ contents, Greeting contents ∧
        values (server.conns (server.connAt fd)).sent ++
            values (server.task (server.pool.mReadyList fd)).getMsg =
          values contents ++ actions.flatMap (Action.sentTo (server.connAt fd))) := by
  have reached := path.reachableUnder (.start starts)
  have behaved := reachable_behaved (reached.mono fun _ _ => And.left)
  refine ⟨exists_answered reached, fun answered fd live unended => ?_⟩
  obtain ⟨contents, greeting, whole⟩ := behaved.read_out starts path answered.1 live unended
  refine ⟨contents, greeting, ?_⟩
  rw [sent_of_clientsTurn (reachable_echoing reached) (answered.clientsTurn _), ← values_append,
    whole, values_append, values_octets]

theorem everybody_echoed_twice :
    ∃ server, Net.server.Path WellEchoed .started echoedTwice server ∧ AllAnswered server ∧
      5 ∈ server.live ∧ ∃ contents, Greeting contents ∧
        values (server.conns 0).sent ++ values (server.task (server.pool.mReadyList 5)).getMsg =
          values contents ++ [65, 66] := by
  obtain ⟨last, run, ended⟩ := (Option.any_eq_true _ _).mp
    (show (Net.server.follow WellEchoed .started echoedTwice).any (fun server =>
      decide (AllAnswered server ∧ 5 ∈ server.live ∧ server.connAt 5 = 0 ∧
        (server.conns 0).sawEof = false)) = true by decide)
  obtain ⟨answered, live, conn, unended⟩ := of_decide_eq_true ended
  have path := Machine.Path.of_follow run
  obtain ⟨contents, greeting, shown⟩ :=
    (everybody_echoed start_started path).2 answered 5 live (by rw [conn]; exact unended)
  rw [conn] at shown
  exact ⟨last, path, answered, live, contents, greeting, shown⟩

end LibNet.Net
