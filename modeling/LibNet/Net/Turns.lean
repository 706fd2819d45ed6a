import LibNet.Net.EdgeTriggered
import LibNet.Net.Lifecycle

/-!
# Clients that take turns

The protocol the server is made for: a client sends, waits for the answer, and sends again;
the application pushes its answer to a message when the read request of that message has
begun; and the kernel takes the bytes it is offered.  Any number of clients do so at once, and
they come and go.  What each step of such a run finds is the same: at most one message of a
connection awaits its answer, and until then nothing else happens to the connection.
-/

namespace LibNet.Net

open LibNet.Runs
open LibNet.Base

variable {server after : Server} {action : Action}

/-- The message the application still owes an answer, or the rest of one. -/
def Slot.owing : Slot → Option (Message Octet Cause)
  | .holding message => some message
  | .sending message frame => if frame.left ≠ 0 then some message else none

theorem owing_sending {message other : Message Octet Cause} {frame : SendFrame Octet} :
    (Slot.sending message frame).owing = some other ↔ frame.left ≠ 0 ∧ message = other := by
  simp only [Slot.owing, Option.ite_none_right_eq_some, Option.some.injEq]

/-- The messages without a whole answer: queued or with the application. -/
def Server.awaiting (server : Server) : List (Message Octet Cause) :=
  server.pool.mUndoTasks ++ server.slots.filterMap Slot.owing

/-- A read request for the task is on its way to `recv_buf`. -/
def Server.requested (server : Server) (taskId : Int) : Bool :=
  (server.loop.appending && decide (server.loop.handling.map Prod.fst = some taskId)) ||
    decide (taskId ∈ server.mWorkqueue) ||
    decide (∃ worker, server.workers worker = .popped taskId)

/-- The client has its answers and none of its events is in hand. -/
def Server.clientsTurn (server : Server) (conn : Nat) : Bool :=
  !server.awaiting.any (Message.asksFor conn) &&
    !server.loop.events.any fun event => decide (event.fd ∈ server.live) &&
      decide (server.connAt event.fd = conn)

/-- The answer is to a read event, and the request made for it has begun. -/
def Server.mayPush (server : Server) (slot : Nat) : Bool :=
  match server.slots[slot]? with
  | some (.holding message) => !message.cause.isClose && !server.requested message.taskId
  | _ => true

def WriteResult.accepts : WriteResult → Bool
  | .wrote count => decide (0 < count)
  | _ => false

/-- `write` fails or takes nothing only when nothing is left. -/
def Server.mayWrite (server : Server) (slot : Nat) (result : WriteResult) : Bool :=
  match server.slots[slot]? with
  | some (.sending _ frame) => result.accepts || decide (frame.left = 0)
  | _ => true

/-- The runs of clients that take turns. -/
def InTurn (server : Server) : Action → Prop
  | .arrive conn _ => server.clientsTurn conn = true
  | .peerClose conn => server.clientsTurn conn = true
  | .peerReset conn => server.clientsTurn conn = true
  | .loop => server.loop.appending = true → server.mWorkqueue.length ≤ maxRequests
  | .push slot _ => server.mayPush slot = true
  | .write slot result => server.mayWrite slot result = true
  | _ => True

instance (server : Server) : (action : Action) → Decidable (InTurn server action)
  | .arrive _ _ => inferInstanceAs (Decidable (_ = _))
  | .peerClose _ => inferInstanceAs (Decidable (_ = _))
  | .peerReset _ => inferInstanceAs (Decidable (_ = _))
  | .loop => inferInstanceAs (Decidable (_ → _))
  | .push _ _ => inferInstanceAs (Decidable (_ = _))
  | .write _ _ => inferInstanceAs (Decidable (_ = _))
  | .connect => .isTrue trivial
  | .epollWait _ => .isTrue trivial
  | .accept _ => .isTrue trivial
  | .take _ => .isTrue trivial
  | .enter _ => .isTrue trivial
  | .read _ _ => .isTrue trivial
  | .store _ => .isTrue trivial
  | .pull => .isTrue trivial
  | .reply _ _ => .isTrue trivial
  | .discard _ => .isTrue trivial

theorem not_awaiting_of_clientsTurn {conn : Nat} (turn : server.clientsTurn conn = true)
    {message : Message Octet Cause} (member : message ∈ server.awaiting) :
    message.cause ≠ .read conn := by
  intro same
  simp only [Server.clientsTurn, Bool.and_eq_true, Bool.not_eq_true'] at turn
  have absent := List.any_eq_false.mp turn.1 message member
  exact absent (by simp [Message.asksFor, same])

theorem not_event_of_clientsTurn {conn : Nat} (turn : server.clientsTurn conn = true)
    {event : Event} (member : event ∈ server.loop.events) (live : event.fd ∈ server.live) :
    server.connAt event.fd ≠ conn := by
  intro same
  simp only [Server.clientsTurn, Bool.and_eq_true, Bool.not_eq_true'] at turn
  have absent := List.any_eq_false.mp turn.2 event member
  exact absent (by simp [live, same])

/-- The slots in any order, with one of them in front. -/
theorem slots_perm {slots : List Slot} {slot : Nat} {held : Slot}
    (found : slots[slot]? = some held) : slots.Perm (held :: slots.eraseIdx slot) := by
  obtain ⟨below, rfl⟩ := List.getElem?_eq_some_iff.mp found
  exact (List.getElem_cons_eraseIdx_perm below).symm

theorem slots_set_perm {slots : List Slot} {slot : Nat} {held : Slot}
    (found : slots[slot]? = some held) (next : Slot) :
    (slots.set slot next).Perm (next :: slots.eraseIdx slot) :=
  List.set_perm_cons_eraseIdx (List.getElem?_eq_some_iff.mp found).1 next

/-- The messages that await an answer, but for that of one slot. -/
def Server.awaitingBut (server : Server) (slot : Nat) : List (Message Octet Cause) :=
  server.pool.mUndoTasks ++ (server.slots.eraseIdx slot).filterMap Slot.owing

theorem awaiting_perm {slot : Nat} {held : Slot} (found : server.slots[slot]? = some held) :
    server.awaiting.Perm (held.owing.toList ++ server.awaitingBut slot) := by
  have moved := (slots_perm found).filterMap Slot.owing
  rw [List.filterMap_cons] at moved
  unfold Server.awaiting Server.awaitingBut
  cases owing : held.owing with
  | none =>
      rw [owing] at moved
      exact moved.append_left _
  | some message =>
      rw [owing] at moved
      exact (moved.append_left _).trans List.perm_middle

/-- A slot that goes on owes its own message or nothing. -/
theorem awaiting_set_subperm {slot : Nat} {held next : Slot}
    (found : server.slots[slot]? = some held)
    (less : ∀ message, next.owing = some message → held.owing = some message)
    (undo : after.pool.mUndoTasks = server.pool.mUndoTasks)
    (slots : after.slots = server.slots.set slot next) :
    after.awaiting.Subperm server.awaiting := by
  have now := awaiting_perm found
  have moved := (slots_set_perm found next).filterMap Slot.owing
  refine List.Subperm.trans ?_ now.symm.subperm
  unfold Server.awaiting
  rw [undo, slots]
  refine (moved.append_left _).subperm.trans ?_
  rw [List.filterMap_cons]
  cases owing : next.owing with
  | none => exact (List.sublist_append_right _ _).subperm
  | some message =>
      rw [less message owing]
      exact List.perm_middle.subperm

theorem awaiting_erase_subperm {slot : Nat}
    (undo : after.pool.mUndoTasks = server.pool.mUndoTasks)
    (slots : after.slots = server.slots.eraseIdx slot) :
    after.awaiting.Subperm server.awaiting := by
  unfold Server.awaiting
  rw [undo, slots]
  exact (((List.eraseIdx_sublist _ _).filterMap _).append_left _).subperm

/-- What a `write` of the application finds and leaves. -/
inductive WriteStep (server : Server) (slot : Nat) : WriteResult → Server → Prop where
  | accepted (message : Message Octet Cause) (frame : SendFrame Octet) (count : Nat)
      (sends : server.slots[slot]? = some (.sending message frame))
      (fits : ((count + 1 : Nat) : Int) ≤ frame.left) :
      WriteStep server slot (.wrote (count + 1))
        { server.kernelWrite (server.task message.taskId).mSocket message.cause.conn
            (frame.chunk (count + 1)) with
          slots := server.slots.set slot (.sending message (frame.advance (count + 1))) }
  | ended (message : Message Octet Cause) (frame : SendFrame Octet) (last : WriteResult)
      (sends : server.slots[slot]? = some (.sending message frame))
      (refused : last.accepts = false) :
      WriteStep server slot last
        { server.setTask message.taskId
            ((server.task message.taskId).sendEnd frame.left last).2 with
          slots := server.slots.eraseIdx slot }

theorem writeStep_of_write? {slot : Nat} {result : WriteResult}
    (taken : server.write? slot result = some after) : WriteStep server slot result after := by
  simp only [Server.write?] at taken
  cases found : server.slots[slot]? with
  | none => simp [found] at taken
  | some held =>
      cases held with
      | holding message => simp [found] at taken
      | sending message frame =>
          simp only [found] at taken
          cases result with
          | eagain =>
              cases taken
              exact .ended message frame .eagain found rfl
          | error =>
              cases taken
              exact .ended message frame .error found rfl
          | wrote count =>
              cases count with
              | zero =>
                  cases taken
                  exact .ended message frame (.wrote 0) found rfl
              | succ count =>
                  simp only at taken
                  split at taken
                  · next allowed =>
                      cases taken
                      exact .accepted message frame count found allowed.1
                  · cases taken

theorem WriteStep.awaiting {slot : Nat} {result : WriteResult}
    (step : WriteStep server slot result after) : after.awaiting.Subperm server.awaiting := by
  cases step with
  | accepted message frame count sends fits =>
      refine awaiting_set_subperm sends ?_ rfl rfl
      intro other owing
      exact owing_sending.mpr ⟨by omega, (owing_sending.mp owing).2⟩
  | ended message frame last sends refused => exact awaiting_erase_subperm rfl rfl

/-- The application answers messages and drops them, and makes none. -/
theorem awaiting_of_app (taken : server.step? action = some after)
    (step : AppStep server action after) : after.awaiting.Subperm server.awaiting := by
  cases step with
  | pull message rest front =>
      refine List.Perm.subperm ?_
      simp only [Server.awaiting, front, List.filterMap_append]
      exact (List.append_assoc rest _ _).symm ▸ List.perm_append_singleton _ _
  | reply slot bytes message taskId held through => exact List.Subperm.refl _
  | replyClosed slot bytes => exact List.Subperm.refl _
  | discard slot message held => exact awaiting_erase_subperm rfl rfl
  | pushNothing slot heap message held => exact awaiting_erase_subperm rfl rfl
  | push slot heap message frame held reply =>
      refine awaiting_set_subperm held ?_ rfl rfl
      intro other owing
      exact congrArg some (owing_sending.mp owing).2
  | write slot count message frame sends =>
      change server.write? slot (.wrote (count + 1)) = _ at taken
      exact (writeStep_of_write? taken).awaiting
  | writeEnd slot last message frame sends =>
      change server.write? slot last = _ at taken
      exact (writeStep_of_write? taken).awaiting

/-! ## Nothing happens to a connection that waits for its answer -/

/-- The connection is open and assigned to the task, and nothing of it is to be reported or
in hand. -/
structure AwaitsReply (server : Server) (taskId : Int) (conn : Nat) (fd : Int) : Prop where
  live : fd ∈ server.live
  opened : server.connAt fd = conn
  ready : server.pool.mReadyList fd = taskId
  unclosed : server.loop.closing ≠ some fd
  edge : (server.conns conn).edge = false
  unreported : fd ∉ server.loop.events.map Event.fd

/-- At most one message of a connection awaits an answer, and the connection is left alone
while it does; what is in hand was reported. -/
structure TakesTurns (server : Server) : Prop where
  owner : ∀ message ∈ server.awaiting, ∀ conn, message.cause = .read conn →
    ∃ fd, AwaitsReply server message.taskId conn fd
  once : ∀ conn, server.awaiting.countP (Message.asksFor conn) ≤ 1
  taken : ∀ event ∈ server.loop.events, event.fd ∈ server.live →
    (server.conns (server.connAt event.fd)).edge = false

/-- The tables and the loop stay, no edge is set that matters, and no message is new. -/
theorem TakesTurns.transport (turns : TakesTurns server) (same : SameTables server after)
    (loop : after.loop = server.loop) (fewer : after.awaiting.Subperm server.awaiting)
    (edge : ∀ conn, server.clientsTurn conn = false →
      (after.conns conn).edge = (server.conns conn).edge) : TakesTurns after where
  owner := by
    intro message member conn asked
    have earlier := fewer.subset member
    obtain ⟨fd, awaitsReply⟩ := turns.owner message earlier conn asked
    have waits : server.clientsTurn conn = false :=
      Bool.eq_false_iff.mpr fun turn => not_awaiting_of_clientsTurn turn earlier asked
    exact ⟨fd, same.live ▸ awaitsReply.live, same.connAt ▸ awaitsReply.opened,
      same.ready ▸ awaitsReply.ready, loop ▸ awaitsReply.unclosed,
      (edge conn waits).trans awaitsReply.edge, loop ▸ awaitsReply.unreported⟩
  once := fun conn => (fewer.countP_le _).trans (turns.once conn)
  taken := by
    intro event member live
    rw [loop] at member
    rw [same.live] at live
    have busy : server.clientsTurn (server.connAt event.fd) = false :=
      Bool.eq_false_iff.mpr fun turn => not_event_of_clientsTurn turn member live rfl
    rw [same.connAt, edge _ busy]
    exact turns.taken event member live

theorem PeerStep.conns_of_not_turn (step : PeerStep server action after)
    (allowed : InTurn server action) {conn : Nat} (busy : server.clientsTurn conn = false) :
    after.conns conn = server.conns conn := by
  have other : ∀ acting, server.clientsTurn acting = true → conn ≠ acting := by
    rintro acting turn rfl
    rw [busy] at turn
    cases turn
  cases step with
  | connect => rfl
  | arrive acting bytes known someBytes => exact Function.update_of_ne (other acting allowed) ..
  | peerClose acting known => exact Function.update_of_ne (other acting allowed) ..
  | peerReset acting known => exact Function.update_of_ne (other acting allowed) ..

/-- The loop goes on; the connection stays where it is and what it is. -/
theorem AwaitsReply.keep {taskId fd : Int} {conn : Nat}
    (awaitsReply : AwaitsReply server taskId conn fd) (live : fd ∈ after.live)
    (connAt : after.connAt fd = server.connAt fd)
    (ready : after.pool.mReadyList fd = server.pool.mReadyList fd)
    (unclosed : after.loop.closing ≠ some fd)
    (edge : (after.conns conn).edge = (server.conns conn).edge)
    (events : after.loop.events <:+ server.loop.events) :
    AwaitsReply after taskId conn fd where
  live := live
  opened := connAt.trans awaitsReply.opened
  ready := ready.trans awaitsReply.ready
  unclosed := unclosed
  edge := edge.trans awaitsReply.edge
  unreported := fun member =>
    awaitsReply.unreported ((events.sublist.map Event.fd).subset member)

/-- What `epoll_wait` reports is not a connection that waits for its answer. -/
theorem AwaitsReply.epollWait (tables : Tables server) {taskId fd : Int} {conn : Nat}
    (awaitsReply : AwaitsReply server taskId conn fd) {fds : List Int}
    (pending : ∀ fd ∈ fds, server.pending fd = true)
    (loop : after.loop = .handle (fds.map server.event))
    (live : after.live = server.live) (connAt : after.connAt = server.connAt)
    (ready : after.pool.mReadyList = server.pool.mReadyList)
    (edge : (server.conns conn).edge = false → (after.conns conn).edge = false) :
    AwaitsReply after taskId conn fd where
  live := live ▸ awaitsReply.live
  opened := connAt ▸ awaitsReply.opened
  ready := ready ▸ awaitsReply.ready
  unclosed := by rw [loop]; exact fun none => by cases none
  edge := edge awaitsReply.edge
  unreported := by
    rw [loop, show (Loop.handle (fds.map server.event)).events.map Event.fd = fds from
      List.map_map.trans (List.map_id fds)]
    intro member
    have connection : fd ≠ server.pool.mListenFd :=
      fun same => tables.listen_not_live (same ▸ awaitsReply.live)
    have shown := pending fd member
    rw [Server.pending, if_neg connection, awaitsReply.opened, awaitsReply.edge] at shown
    simp at shown

theorem LoopStep.awaitsReply (step : LoopStep server action after) (tables : Tables server)
    {taskId fd : Int} {conn : Nat} (awaitsReply : AwaitsReply server taskId conn fd) :
    AwaitsReply after taskId conn fd := by
  have free : ∀ events, Loop.closing (.handle events) ≠ some fd := fun _ none => by cases none
  cases step with
  | epollWait fds waits distinct pending =>
      refine awaitsReply.epollWait tables pending rfl rfl rfl rfl fun unset => ?_
      dsimp only
      split
      · rfl
      · exact unset
  | acceptFailed event events reached noHup listens =>
      exact awaitsReply.keep awaitsReply.live rfl rfl (free _) rfl
        (by rw [reached]; exact List.suffix_cons ..)
  | accept event events connFd assigned rest reached noHup listens inside fresh unreserved waits
      unused =>
      have other : fd ≠ connFd := fun same => fresh (same ▸ awaitsReply.live)
      have known : conn ≠ server.accepted :=
        Nat.ne_of_lt (awaitsReply.opened ▸ tables.known fd awaitsReply.live)
      refine awaitsReply.keep (List.mem_cons_of_mem _ awaitsReply.live)
        (Function.update_of_ne other ..) (Function.update_of_ne other ..) (free _) ?_
        (by rw [reached]; exact List.suffix_cons ..)
      dsimp only
      rw [Function.update_of_ne known]
  | close event events reached hup member =>
      refine awaitsReply.keep awaitsReply.live rfl rfl ?_ rfl
        (by rw [reached]; exact List.suffix_cons ..)
      rintro ⟨⟩
      refine awaitsReply.unreported ?_
      rw [reached]
      exact List.mem_cons_self ..
  | recv event events reached noHup member =>
      exact awaitsReply.keep awaitsReply.live rfl rfl (fun none => by cases none) rfl
        (by rw [reached]; exact List.suffix_cons ..)
  | append task other events reached =>
      exact awaitsReply.keep awaitsReply.live rfl rfl (free _) rfl
        (by rw [reached]; exact List.suffix_refl ..)
  | clean delSubscript connFd events reached =>
      refine awaitsReply.keep awaitsReply.live rfl rfl ?_ rfl
        (by rw [reached]; exact List.suffix_refl ..)
      have unclosed := awaitsReply.unclosed
      rw [reached] at unclosed
      exact unclosed
  | finish delSubscript connFd events reached =>
      have other : fd ≠ connFd := by
        rintro rfl
        exact awaitsReply.unclosed (by rw [reached]; rfl)
      exact awaitsReply.keep ((List.mem_erase_of_ne other).mpr awaitsReply.live) rfl rfl (free _)
        rfl (by rw [reached]; exact List.suffix_refl ..)

/-- An event in hand leaves its connection no message that awaits an answer. -/
theorem TakesTurns.none_awaiting (turns : TakesTurns server) (tables : Tables server) {fd : Int}
    (live : fd ∈ server.live) (reported : fd ∈ server.loop.events.map Event.fd) :
    server.awaiting.countP (Message.asksFor (server.connAt fd)) = 0 := by
  refine List.countP_eq_zero.mpr fun message member asks => ?_
  obtain ⟨other, awaitsReply⟩ :=
    turns.owner message member _ (of_decide_eq_true asks)
  have same := tables.connInjective other awaitsReply.live fd live awaitsReply.opened
  exact awaitsReply.unreported (same ▸ reported)

theorem LoopStep.takesTurns (step : LoopStep server action after) (tables : Tables server)
    (turns : TakesTurns server) : TakesTurns after := by
  have keeps : ∀ message ∈ server.awaiting, ∀ conn, message.cause = .read conn →
      ∃ fd, AwaitsReply after message.taskId conn fd := by
    intro message member conn asked
    obtain ⟨fd, awaitsReply⟩ := turns.owner message member conn asked
    exact ⟨fd, step.awaitsReply tables awaitsReply⟩
  have old : ∀ event events, server.loop = .handle (event :: events) → ∀ later ∈ events,
      later ∈ server.loop.events := by
    intro event events reached later member
    rw [reached]
    exact List.mem_cons_of_mem _ member
  cases step with
  | epollWait fds waits distinct pending =>
      refine ⟨keeps, turns.once, ?_⟩
      intro event member live
      obtain ⟨fd, listed, rfl⟩ := List.mem_map.mp member
      have connection : fd ≠ server.pool.mListenFd :=
        fun same => tables.listen_not_live (same ▸ live)
      dsimp only [Server.event]
      rw [if_pos (List.mem_map_of_mem (List.mem_filter.mpr
        ⟨listed, decide_eq_true connection⟩))]
  | acceptFailed event events reached noHup listens =>
      exact ⟨keeps, turns.once, fun later member => turns.taken later
        (old event events reached later member)⟩
  | accept event events connFd assigned rest reached noHup listens inside fresh unreserved waits
      unused =>
      refine ⟨keeps, turns.once, ?_⟩
      intro later member live
      have open_ : later.fd ∈ server.live := by
        rcases tables.agenda.reported later (old event events reached later member) with
          earlier | ⟨listening, _⟩
        · exact earlier
        · rcases List.mem_cons.mp live with same | earlier
          · exact absurd (same ▸ listening ▸ tables.listenReserved) unreserved
          · exact earlier
      have other : later.fd ≠ connFd := fun same => fresh (same ▸ open_)
      have known : server.connAt later.fd ≠ server.accepted :=
        Nat.ne_of_lt (tables.known later.fd open_)
      dsimp only
      rw [Function.update_of_ne other, Function.update_of_ne known]
      exact turns.taken later (old event events reached later member) open_
  | close event events reached hup member =>
      exact ⟨keeps, turns.once, fun later member => turns.taken later
        (old event events reached later member)⟩
  | recv event events reached noHup live =>
      have reported : event ∈ server.loop.events := by
        rw [reached]
        exact List.mem_cons_self ..
      have nobody := turns.none_awaiting tables live (List.mem_map_of_mem reported)
      refine ⟨?_, ?_, fun later member => turns.taken later (old event events reached later member)⟩
      · intro message member conn asked
        rcases List.mem_append.mp member with queued | held
        · rcases List.mem_append.mp queued with earlier | new
          · exact keeps message (List.mem_append_left _ earlier) conn asked
          · rw [List.mem_singleton.mp new] at asked ⊢
            cases asked
            have distinct := tables.agenda.distinct
            rw [reached] at distinct
            exact ⟨event.fd, live, rfl, rfl, fun none => (by cases none),
              turns.taken event reported live, (List.nodup_cons.mp distinct).1⟩
        · exact keeps message (List.mem_append_right _ held) conn asked
      · intro conn
        have before := turns.once conn
        simp only [Server.awaiting, List.countP_append, List.countP_singleton] at before nobody ⊢
        split
        · next asks =>
            cases of_decide_eq_true asks
            omega
        · omega
  | append task other events reached =>
      refine ⟨keeps, turns.once, fun later member => turns.taken later ?_⟩
      rw [reached]
      exact member
  | clean delSubscript connFd events reached =>
      refine ⟨keeps, turns.once, fun later member => turns.taken later ?_⟩
      rw [reached]
      exact member
  | finish delSubscript connFd events reached =>
      refine ⟨?_, ?_, ?_⟩
      · intro message member conn asked
        rcases List.mem_append.mp member with queued | held
        · rcases List.mem_append.mp queued with earlier | new
          · exact keeps message (List.mem_append_left _ earlier) conn asked
          · rw [List.mem_singleton.mp new] at asked
            cases asked
        · exact keeps message (List.mem_append_right _ held) conn asked
      · intro conn
        have before := turns.once conn
        simp only [Server.awaiting, List.countP_append, List.countP_singleton,
          Message.asksFor, reduceCtorEq, decide_false, Bool.false_eq_true, if_false,
          Nat.add_zero] at before ⊢
        exact before
      · intro later member live
        refine turns.taken later ?_ (List.mem_of_mem_erase live)
        rw [reached]
        exact member

/-- One step of a run in turn. -/
theorem ServerStep.takesTurns (step : ServerStep server action after) (tables : Tables server)
    (taken : server.step? action = some after) (turns : TakesTurns server)
    (allowed : InTurn server action) : TakesTurns after := by
  cases step with
  | peer step =>
      have same : after.awaiting = server.awaiting := by cases step <;> rfl
      exact turns.transport step.sameTables.1 step.sameTables.2 (same ▸ List.Subperm.refl _)
        fun conn busy => by rw [step.conns_of_not_turn allowed busy]
  | loop step => exact step.takesTurns tables turns
  | worker step =>
      have same : after.awaiting = server.awaiting := by cases step <;> rfl
      refine turns.transport step.sameTables.1 step.sameTables.2 (same ▸ List.Subperm.refl _) ?_
      intro conn _
      obtain ⟨_, _, _, changed⟩ := step.conns conn
      rw [changed]
  | app step =>
      refine turns.transport step.sameTables.1 step.sameTables.2 (awaiting_of_app taken step) ?_
      intro conn _
      obtain ⟨_, changed⟩ := step.conns conn
      rw [changed]

theorem reachable_takesTurns (reached : Net.server.ReachableUnder InTurn server) :
    TakesTurns server := by
  refine Machine.ReachableUnder.invariant ?_ ?_ reached
  · rintro first ⟨mListenFd, mEpollFd, reserved, block, _, _, _, rfl⟩
    exact ⟨fun _ member => (by cases member), fun _ => Nat.zero_le _,
      fun _ member => by cases member⟩
  · intro before action after earlier turns allowed taken
    have tables := reachable_tables earlier.reachable
    exact (serverStep_of_step? tables taken).takesTurns tables taken turns allowed

end LibNet.Net
