import LibNet.Net.ServerSteps

/-!
# Runs of the server

The tables are in order in every state a run reaches, so every invariant of the
server may be proved over the steps of `ServerStep`.
-/

namespace LibNet.Net

open LibNet.Runs
open LibNet.Base

variable {server after : Server} {action : Action}

theorem PeerStep.sameTables (step : PeerStep server action after) :
    SameTables server after ∧ after.loop = server.loop := by
  cases step <;>
    exact ⟨⟨rfl, fun _ => rfl, fun _ => rfl⟩, rfl⟩

theorem WorkerStep.sameTables (step : WorkerStep server action after) :
    SameTables server after ∧ after.loop = server.loop := by
  cases step with
  | enter worker taskId popped =>
      exact ⟨⟨rfl, update_field TcpSocket.mSocket rfl,
        update_field TcpSocket.mFlag rfl⟩, rfl⟩
  | store worker taskId length bytes holds fits =>
      exact ⟨⟨rfl, update_field TcpSocket.mSocket rfl,
        update_field TcpSocket.mFlag rfl⟩, rfl⟩
  | _ => exact ⟨⟨rfl, fun _ => rfl, fun _ => rfl⟩, rfl⟩

theorem AppStep.sameTables (step : AppStep server action after) :
    SameTables server after ∧ after.loop = server.loop := by
  cases step with
  | reply slot bytes message taskId held through =>
      exact ⟨⟨rfl, update_field TcpSocket.mSocket rfl,
        update_field TcpSocket.mFlag rfl⟩, rfl⟩
  | pushNothing slot heap message held =>
      exact ⟨⟨rfl, update_field TcpSocket.mSocket (TcpSocket.sendCount_mSocket _),
        update_field TcpSocket.mFlag (TcpSocket.sendCount_mFlag _)⟩, rfl⟩
  | push slot heap message frame held reply =>
      exact ⟨⟨rfl, update_field TcpSocket.mSocket (TcpSocket.sendCount_mSocket _),
        update_field TcpSocket.mFlag (TcpSocket.sendCount_mFlag _)⟩, rfl⟩
  | writeEnd slot last message frame sends =>
      exact ⟨⟨rfl, update_field TcpSocket.mSocket (TcpSocket.sendEnd_mSocket _ _ _),
        update_field TcpSocket.mFlag (TcpSocket.sendEnd_mFlag _ _ _)⟩, rfl⟩
  | _ => exact ⟨⟨rfl, fun _ => rfl, fun _ => rfl⟩, rfl⟩

/-- Nothing in the history of a connection is the peer's doing. -/
theorem PeerStep.conns (step : PeerStep server action after) (conn : Nat) :
    ∃ rcvq fin hup edge, after.conns conn =
      { server.conns conn with rcvq := rcvq, fin := fin, hup := hup, edge := edge } := by
  have changed : ∀ (other : Nat) (rcvq : List UInt8) (fin hup edge : Bool),
      ∃ rcvq' fin' hup' edge',
        Function.update server.conns other
            ⟨rcvq, fin, hup, edge, (server.conns other).bytesRead, (server.conns other).sawEof,
              (server.conns other).wire⟩ conn =
          { server.conns conn with rcvq := rcvq', fin := fin', hup := hup', edge := edge' } := by
    intro other rcvq fin hup edge
    by_cases same : conn = other
    · subst same
      exact ⟨rcvq, fin, hup, edge, Function.update_self ..⟩
    · exact ⟨_, _, _, _, Function.update_of_ne same ..⟩
  cases step with
  | connect => exact ⟨_, _, _, _, rfl⟩
  | arrive other bytes known someBytes => exact changed other _ _ _ _
  | peerClose other known => exact changed other _ _ _ _
  | peerReset other known => exact changed other _ _ _ _

/-- Whatever a peer does to a connection sets its edge, and no hang-up is taken
back. -/
theorem PeerStep.edge (step : PeerStep server action after) (conn : Nat) :
    after.conns conn = server.conns conn ∨ (after.conns conn).edge = true ∧
      ((server.conns conn).hup = true → (after.conns conn).hup = true) := by
  have changed : ∀ (other : Nat) (value : Conn), value.edge = true →
      ((server.conns other).hup = true → value.hup = true) →
      Function.update server.conns other value conn = server.conns conn ∨
        (Function.update server.conns other value conn).edge = true ∧
          ((server.conns conn).hup = true →
            (Function.update server.conns other value conn).hup = true) := by
    intro other value edge hup
    by_cases same : conn = other
    · subst same
      rw [Function.update_self]
      exact .inr ⟨edge, hup⟩
    · exact .inl (Function.update_of_ne same ..)
  cases step with
  | connect => exact .inl rfl
  | arrive other bytes known someBytes => exact changed other _ rfl id
  | peerClose other known => exact changed other _ rfl id
  | peerReset other known => exact changed other _ rfl fun _ => rfl

/-- The event loop takes edges and sets one for a new connection. -/
theorem LoopStep.conns (step : LoopStep server action after) (conn : Nat) :
    ∃ edge, after.conns conn = { server.conns conn with edge := edge } := by
  cases step with
  | epollWait fds waits distinct pending =>
      dsimp only
      split
      · exact ⟨false, rfl⟩
      · exact ⟨_, rfl⟩
  | accept event events connFd taskId rest reached noHup listens inside fresh unreserved waits
      free =>
      by_cases same : conn = server.accepted
      · subst same
        exact ⟨true, Function.update_self ..⟩
      · exact ⟨_, Function.update_of_ne same ..⟩
  | _ => exact ⟨_, rfl⟩

/-- Workers take bytes off the queue of a connection and may see its end. -/
theorem WorkerStep.conns (step : WorkerStep server action after) (conn : Nat) :
    ∃ rcvq bytes sawEof, after.conns conn = { server.conns conn with
      rcvq := rcvq
      bytesRead := (server.conns conn).bytesRead ++ bytes
      sawEof := sawEof } := by
  have same : ∃ rcvq bytes sawEof, server.conns conn = { server.conns conn with
      rcvq := rcvq
      bytesRead := (server.conns conn).bytesRead ++ bytes
      sawEof := sawEof } :=
    ⟨_, [], _, by rw [List.append_nil]⟩
  cases step with
  | data worker count taskId length fd other reads socket member opened positive available fits
      representable =>
      by_cases read : conn = other
      · subst read
        exact ⟨_, _, _, Function.update_self ..⟩
      · simpa only [Server.setConn, Server.setWorker, Function.update_of_ne read] using same
  | eof worker taskId length fd other reads socket member opened empty =>
      by_cases ended : conn = other
      · subst ended
        refine ⟨(server.conns conn).rcvq, [], true, ?_⟩
        simp [Server.setConn, Server.setWorker]
      · simpa only [Server.setConn, Server.setWorker, Function.update_of_ne ended] using same
  | _ => exact same

/-- The application adds to the wire. -/
theorem AppStep.conns (step : AppStep server action after) (conn : Nat) :
    ∃ wire, after.conns conn = { server.conns conn with wire := wire } := by
  cases step with
  | write slot count message frame sends =>
      simp only [Server.kernelWrite]
      split
      · by_cases same : conn = server.connAt (server.task message.taskId).mSocket
        · subst same
          exact ⟨_, Function.update_self ..⟩
        · exact ⟨_, Function.update_of_ne same ..⟩
      · exact ⟨_, rfl⟩
  | _ => exact ⟨_, rfl⟩

/-- The task a worker is going to read for. -/
def Reader.wants : Reader → Option Int
  | .popped taskId => some taskId
  | .reading taskId _ => some taskId
  | _ => none

/-- The task a worker is at work for. -/
def Reader.serves : Reader → Option Int
  | .idle => none
  | .popped taskId => some taskId
  | .reading taskId _ => some taskId
  | .holding taskId _ _ => some taskId

theorem Reader.serves_of_wants {reader : Reader} {taskId : Int}
    (wanted : reader.wants = some taskId) : reader.serves = some taskId := by
  cases reader with
  | popped other => exact wanted
  | reading other length => exact wanted
  | idle => cases wanted
  | holding other length bytes => cases wanted

theorem WorkerStep.mem_mWorkqueue (step : WorkerStep server action after) {taskId : Int}
    (queued : taskId ∈ after.mWorkqueue) : taskId ∈ server.mWorkqueue := by
  cases step with
  | take worker first rest idle queue =>
      rw [queue]
      exact List.mem_cons_of_mem _ queued
  | _ => exact queued

/-- A step moves one worker, which gets its requests from the queue. -/
theorem WorkerStep.workers (step : WorkerStep server action after) :
    ∃ worker reader, after.workers = Function.update server.workers worker reader ∧
      ∀ taskId, reader.wants = some taskId →
        (server.workers worker).wants = some taskId ∨ taskId ∈ server.mWorkqueue := by
  cases step with
  | take worker taskId rest idle queued =>
      refine ⟨worker, _, rfl, fun other wanted => .inr ?_⟩
      cases wanted
      rw [queued]
      exact List.mem_cons_self ..
  | enter worker taskId popped =>
      refine ⟨worker, _, rfl, fun other wanted => .inl ?_⟩
      rw [popped]
      exact wanted
  | data worker count taskId length fd conn reads socket member opened positive available fits
      representable => exact ⟨worker, _, rfl, fun _ none => by cases none⟩
  | foreign worker bytes taskId length reads fits closed representable =>
      exact ⟨worker, _, rfl, fun _ none => by cases none⟩
  | eof worker taskId length fd conn reads socket member opened empty =>
      exact ⟨worker, _, rfl, fun _ none => by cases none⟩
  | foreignEof worker taskId length reads closed =>
      exact ⟨worker, _, rfl, fun _ none => by cases none⟩
  | eagain worker taskId length reads empty representable =>
      exact ⟨worker, _, rfl, fun _ none => by cases none⟩
  | error worker taskId length reads representable =>
      refine ⟨worker, _, rfl, fun other wanted => .inl ?_⟩
      rw [reads]
      exact wanted
  | store worker taskId length bytes holds fits =>
      exact ⟨worker, _, rfl, fun _ none => by cases none⟩

theorem WorkerStep.wants (step : WorkerStep server action after) {worker : Fin threadNumber}
    {taskId : Int} (wanted : (after.workers worker).wants = some taskId) :
    (server.workers worker).wants = some taskId ∨ taskId ∈ server.mWorkqueue := by
  obtain ⟨changed, reader, workers, source⟩ := step.workers
  rw [workers] at wanted
  by_cases same : worker = changed
  · subst same
    rw [Function.update_self] at wanted
    exact source taskId wanted
  · rw [Function.update_of_ne same] at wanted
    exact .inl wanted

/-! ## The event loop keeps the tables in order -/

/-- The events `epoll_wait` reports are of what it watches. -/
theorem agenda_epollWait {fds : List Int}
    (distinct : fds.Nodup) (pending : ∀ fd ∈ fds, server.pending fd = true) :
    Agenda server.pool.mListenFd server.pool.mReadyList server.live
      (.handle (fds.map server.event)) where
  reported := by
    intro event member
    obtain ⟨fd, listed, rfl⟩ := List.mem_map.mp member
    have shown := pending fd listed
    unfold Server.pending at shown
    split at shown
    · next listens => exact .inr ⟨listens, by simp [Server.event, listens]⟩
    · exact .inl (of_decide_eq_true (Bool.and_eq_true_iff.mp shown).1)
  distinct := by
    rw [show (Loop.handle (fds.map server.event)).events.map Event.fd = fds from
      (List.map_map).trans (List.map_id fds)]
    exact distinct
  handled := fun _ _ none => by cases none

theorem live_of_pending {fd : Int} (pending : server.pending fd = true)
    (connection : fd ≠ server.pool.mListenFd) : fd ∈ server.live := by
  rw [Server.pending, if_neg connection] at pending
  exact of_decide_eq_true (Bool.and_eq_true_iff.mp pending).1

/-- A connection that is not reported keeps its edge. -/
theorem Tables.unreported (tables : Tables server) {fds : List Int} {fd : Int}
    (pending : ∀ fd ∈ fds, server.pending fd = true) (live : fd ∈ server.live)
    (absent : fd ∉ fds) :
    server.connAt fd ∉ (fds.filter (· ≠ server.pool.mListenFd)).map server.connAt := by
  intro member
  obtain ⟨other, listed, same⟩ := List.mem_map.mp member
  obtain ⟨reported, connection⟩ := List.mem_filter.mp listed
  have open_ := live_of_pending (pending other reported) (of_decide_eq_true connection)
  exact absent (tables.connInjective other open_ fd live same ▸ reported)

/-- While an event is handled, its descriptor is open and not among the rest. -/
theorem Agenda.start {mListenFd : Int} {mReadyList : Int → Int} {live : List Int}
    {event : Event} {events : List Event}
    (agenda : Agenda mListenFd mReadyList live (.handle (event :: events)))
    (member : event.fd ∈ live) {loop : Loop} (rest : loop.events = events)
    (handles : loop.handling = some (mReadyList event.fd, event.fd)) :
    Agenda mListenFd mReadyList live loop where
  reported := by
    intro other later
    rw [rest] at later
    exact agenda.reported other (List.mem_cons_of_mem _ later)
  distinct := by
    rw [rest]
    exact (List.nodup_cons.mp agenda.distinct).2
  handled := by
    intro taskId fd handled
    rw [handles] at handled
    cases handled
    rw [rest]
    exact ⟨member, rfl, (List.nodup_cons.mp agenda.distinct).1⟩

theorem Tables.accept (tables : Tables server) {connFd taskId : Int} {rest : List Int}
    {events : List Event} {conns : Nat → Conn}
    (agenda : Agenda server.pool.mListenFd server.pool.mReadyList server.live (.handle events))
    (closing : server.loop.closing = none)
    (inside : InRange connFd) (fresh : connFd ∉ server.live)
    (unreserved : connFd ∉ server.reserved)
    (free : server.pool.mFreeTasks = taskId :: rest) :
    Tables { server with
      pool := { server.pool with
        mFreeTasks := rest
        mReadyList := Function.update server.pool.mReadyList connFd taskId
        mTcpTasks := Function.update server.pool.mTcpTasks taskId
          ((server.task taskId).setFd connFd) }
      loop := .handle events
      live := connFd :: server.live
      connAt := Function.update server.connAt connFd server.accepted
      conns := conns
      accepted := server.accepted + 1 } := by
  have books := tables.books
  have old : ∀ fd ∈ server.live, fd ≠ connFd := fun fd member same => fresh (same ▸ member)
  have other : ∀ fd ∈ server.live, server.pool.mReadyList fd ≠ taskId := by
    intro fd member same
    apply books.not_free member
    rw [same, free]
    exact List.mem_cons_self ..
  constructor
  case books => exact books.assign inside fresh free rfl rfl
  case zeroReserved => exact tables.zeroReserved
  case listenReserved => exact tables.listenReserved
  case apart =>
    intro fd member
    rcases List.mem_cons.mp member with rfl | earlier
    · exact unreserved
    · exact tables.apart fd earlier
  case known =>
    intro fd member
    rcases List.mem_cons.mp member with rfl | earlier
    · simp
    · simp only [Function.update_of_ne (old fd earlier)]
      exact Nat.lt_succ_of_lt (tables.known fd earlier)
  case connInjective =>
    intro first firstLive second secondLive same
    rcases List.mem_cons.mp firstLive with rfl | firstOld <;>
      rcases List.mem_cons.mp secondLive with rfl | secondOld
    · rfl
    · simp only [Function.update_self, Function.update_of_ne (old second secondOld)] at same
      exact absurd (tables.known second secondOld) (by omega)
    · simp only [Function.update_self, Function.update_of_ne (old first firstOld)] at same
      exact absurd (tables.known first firstOld) (by omega)
    · simp only [Function.update_of_ne (old first firstOld),
        Function.update_of_ne (old second secondOld)] at same
      exact tables.connInjective first firstOld second secondOld same
  case assigned =>
    intro fd member _
    rcases List.mem_cons.mp member with rfl | earlier
    · simp [Server.task, TcpSocket.setFd]
    · simp only [Server.task, Function.update_of_ne (old fd earlier),
        Function.update_of_ne (other fd earlier)]
      exact tables.assigned fd earlier (by rw [closing]; exact (Option.some_ne_none fd).symm)
  case unassigned =>
    intro task owners
    by_cases same : task = taskId
    · cases owners connFd (List.mem_cons_self ..) (by simp [same])
    · simp only [Server.task, Function.update_of_ne same]
      refine tables.unassigned task fun fd earlier ready => ?_
      have owner := owners fd (List.mem_cons_of_mem _ earlier)
        (by simpa [Function.update_of_ne (old fd earlier)] using ready)
      cases owner
  case flag =>
    intro task
    refine Eq.trans ?_ (tables.flag task)
    refine update_field TcpSocket.mFlag ?_ task
    rfl
  case noRecvTasks => exact tables.noRecvTasks
  case agenda =>
    refine ⟨?_, agenda.distinct, fun _ _ none => by cases none⟩
    intro event member
    exact (agenda.reported event member).imp_left (List.mem_cons_of_mem _)

theorem Tables.close (tables : Tables server) {connFd : Int} {events : List Event}
    (member : connFd ∈ server.live)
    (agenda : Agenda server.pool.mListenFd server.pool.mReadyList server.live
      (.clean (server.pool.mReadyList connFd) connFd events))
    (closing : server.loop.closing = none) :
    Tables { server with
      pool := server.pool.forgetSocket (server.pool.mReadyList connFd)
      loop := .clean (server.pool.mReadyList connFd) connFd events } where
  books := tables.books.transport rfl rfl
  zeroReserved := tables.zeroReserved
  listenReserved := tables.listenReserved
  apart := tables.apart
  known := tables.known
  connInjective := tables.connInjective
  assigned := by
    intro fd live open_
    have different : fd ≠ connFd := fun same => open_ (by rw [same]; rfl)
    have other : server.pool.mReadyList fd ≠ server.pool.mReadyList connFd :=
      fun same => different (tables.books.injective live member same)
    simp only [Server.task, TcpTaskPool.forgetSocket, TcpTaskPool.setTask,
      Function.update_of_ne other]
    exact tables.assigned fd live (by rw [closing]; exact (Option.some_ne_none fd).symm)
  unassigned := by
    intro taskId owners
    by_cases same : taskId = server.pool.mReadyList connFd
    · rw [same]
      simp [Server.task, TcpTaskPool.forgetSocket, TcpTaskPool.setTask, TcpSocket.resetSocket]
    · simp only [Server.task, TcpTaskPool.forgetSocket, TcpTaskPool.setTask,
        Function.update_of_ne same]
      refine tables.unassigned taskId fun fd live ready => ?_
      have closes : some connFd = some fd := owners fd live ready
      cases closes
      exact (same ready.symm).elim
  flag := by
    intro taskId
    refine Eq.trans ?_ (tables.flag taskId)
    refine update_field TcpSocket.mFlag ?_ taskId
    rfl
  noRecvTasks := tables.noRecvTasks
  agenda := agenda

theorem Tables.finish (tables : Tables server) {delSubscript connFd : Int}
    {events : List Event} {messages : List (Message Octet Cause)}
    (reached : server.loop = .finish delSubscript connFd events) :
    Tables { server with
      pool := { server.pool with
        mUndoTasks := messages
        mFreeTasks := delSubscript :: server.pool.mFreeTasks }
      live := server.live.erase connFd
      loop := .handle events } := by
  have closing : server.loop.closing = some connFd := by rw [reached]; rfl
  obtain ⟨member, ready, later⟩ := tables.agenda.handled delSubscript connFd (by rw [reached]; rfl)
  have remain : ∀ fd, fd ∈ server.live.erase connFd ↔ fd ≠ connFd ∧ fd ∈ server.live :=
    fun fd => tables.books.distinct.mem_erase_iff
  constructor
  case books => exact tables.books.release member (by rw [ready]) rfl
  case zeroReserved => exact tables.zeroReserved
  case listenReserved => exact tables.listenReserved
  case apart => exact fun fd live => tables.apart fd ((remain fd).mp live).2
  case known => exact fun fd live => tables.known fd ((remain fd).mp live).2
  case connInjective =>
    intro first firstLive second secondLive
    exact tables.connInjective first ((remain first).mp firstLive).2 second
      ((remain second).mp secondLive).2
  case assigned =>
    intro fd live _
    refine tables.assigned fd ((remain fd).mp live).2 ?_
    rw [closing]
    exact fun same => ((remain fd).mp live).1 (Option.some.inj same).symm
  case unassigned =>
    intro taskId owners
    refine tables.unassigned taskId fun fd live assigned => ?_
    by_contra open_
    rw [closing] at open_
    cases owners fd ((remain fd).mpr ⟨fun same => open_ (same ▸ rfl), live⟩) assigned
  case flag => exact tables.flag
  case noRecvTasks => exact tables.noRecvTasks
  case agenda =>
    have agenda := tables.agenda
    rw [reached] at agenda later
    refine ⟨?_, agenda.distinct, fun _ _ none => by cases none⟩
    intro event listed
    refine (agenda.reported event listed).imp_left fun live => (remain _).mpr ⟨?_, live⟩
    intro same
    exact later (same ▸ List.mem_map_of_mem listed)

theorem LoopStep.tables (step : LoopStep server action after) (tables : Tables server) :
    Tables after := by
  cases step with
  | epollWait fds waits distinct pending =>
      refine tables.proceed ⟨rfl, fun _ => rfl, fun _ => rfl⟩
        ?_ (agenda_epollWait distinct pending)
      rw [waits]
      rfl
  | acceptFailed event events reached noHup listens =>
      refine tables.proceed ⟨rfl, fun _ => rfl, fun _ => rfl⟩
        ?_ (tables.agenda.rest (reached ▸ List.suffix_cons ..))
      rw [reached]
      rfl
  | accept event events connFd taskId rest reached noHup listens inside fresh unreserved waits
      free =>
      exact tables.accept (tables.agenda.rest (reached ▸ List.suffix_cons ..))
        (by rw [reached]; rfl) inside fresh unreserved free
  | close event events reached hup member =>
      have agenda := tables.agenda
      rw [reached] at agenda
      exact tables.close member (agenda.start member rfl rfl) (by rw [reached]; rfl)
  | recv event events reached noHup member =>
      have agenda := tables.agenda
      rw [reached] at agenda
      refine tables.proceed ⟨rfl, update_field TcpSocket.mSocket rfl,
        update_field TcpSocket.mFlag (tables.flag _).symm⟩
        ?_ (agenda.start member rfl rfl)
      rw [reached]
      rfl
  | append taskId fd events reached =>
      refine tables.proceed ⟨rfl, fun _ => rfl, fun _ => rfl⟩
        ?_ (tables.agenda.rest (reached ▸ List.suffix_refl ..))
      rw [reached]
      rfl
  | clean delSubscript connFd events reached =>
      have agenda := tables.agenda
      rw [reached] at agenda
      refine tables.proceed ⟨rfl, update_field TcpSocket.mSocket rfl,
        update_field TcpSocket.mFlag rfl⟩ ?_
        ⟨agenda.reported, agenda.distinct, agenda.handled⟩
      rw [reached]
      rfl
  | finish delSubscript connFd events reached => exact tables.finish reached

theorem ServerStep.tables (step : ServerStep server action after) (tables : Tables server) :
    Tables after := by
  cases step with
  | peer step => exact tables.transport step.sameTables.1 step.sameTables.2
  | loop step => exact step.tables tables
  | worker step => exact tables.transport step.sameTables.1 step.sameTables.2
  | app step => exact tables.transport step.sameTables.1 step.sameTables.2

theorem tables_init {mListenFd mEpollFd : Int} {reserved : List Int} {block : Nat → Octet}
    (zeroReserved : 0 ∈ reserved) (listenReserved : mListenFd ∈ reserved) :
    Tables (.init mListenFd mEpollFd reserved block) where
  books := books_init mListenFd mEpollFd block
  zeroReserved := zeroReserved
  listenReserved := listenReserved
  apart := fun _ member => by cases member
  known := fun _ member => by cases member
  connInjective := fun _ member => by cases member
  assigned := fun _ member => by cases member
  unassigned := fun _ _ => rfl
  flag := fun _ => rfl
  noRecvTasks := rfl
  agenda := ⟨fun _ member => (by cases member), List.nodup_nil, fun _ _ none => by cases none⟩

/-- In every state that any run reaches, the tables are in order. -/
theorem reachable_tables (reached : Net.server.Reachable server) : Tables server := by
  refine Machine.Reachable.invariant ?_ ?_ reached
  · rintro first ⟨mListenFd, mEpollFd, reserved, block, zeroReserved, listenReserved, _, rfl⟩
    exact tables_init zeroReserved listenReserved
  · intro before action after tables taken
    exact (serverStep_of_step? tables taken).tables tables

/-- The invariant rule of the server: an invariant of guarded runs holds at the
start and is kept by the steps that meet the guard. -/
theorem server_invariant {Guard : Server → Action → Prop} {Invariant : Server → Prop}
    (initial : ∀ mListenFd mEpollFd reserved block,
      Invariant (.init mListenFd mEpollFd reserved block))
    (preserved : ∀ before action after, Net.server.Reachable before → Invariant before →
      Guard before action → ServerStep before action after → Invariant after)
    (reached : Net.server.ReachableUnder Guard server) : Invariant server := by
  refine Machine.ReachableUnder.invariant ?_ ?_ reached
  · rintro first ⟨mListenFd, mEpollFd, reserved, block, _, _, _, rfl⟩
    exact initial mListenFd mEpollFd reserved block
  · intro before action after earlier holds allowed taken
    exact preserved before action after earlier.reachable holds allowed
      (serverStep_of_step? (reachable_tables earlier.reachable) taken)

/-- The step gives a task to a new connection. -/
def Action.accepts : Action → Bool
  | .accept (some _) => true
  | _ => false

/-- The step is one of the event loop inside a handler of `recv_msg` or
`close_connect`. -/
def Action.isLoop : Action → Bool
  | .loop => true
  | _ => false

/-! ## Pieces of runs -/

/-- The server with the listening socket at 3 and the epoll instance at 4. -/
def Server.started : Server := .init 3 4 [0, 1, 2, 3, 4] fun _ => Byte.zero

theorem start_started : Net.server.Start .started :=
  ⟨3, 4, [0, 1, 2, 3, 4], fun _ => Byte.zero, by decide, by decide, by decide, rfl⟩

/-- A client connects and is given a descriptor. -/
def letIn (connFd : Int) : List Action := [.connect, .epollWait [3], .accept (some connFd)]

/-- Bytes arrive and a read event is handled for them. -/
def ask (conn : Nat) (connFd : Int) (bytes : List UInt8) : List Action :=
  [.arrive conn bytes, .epollWait [connFd], .loop, .loop]

/-- A connection hangs up and is closed. -/
def hangUp (conn : Nat) (connFd : Int) : List Action :=
  [.peerReset conn, .epollWait [connFd], .loop, .loop, .loop]

/-- A worker reads bytes and stores them. -/
def serve (worker : Fin threadNumber) (count : Nat) : List Action :=
  [.take worker, .enter worker, .read worker (.data count), .store worker]

/-- The application answers its first message in one `write`. -/
def answer (reply : List UInt8) (count : Nat) : List Action :=
  [.reply 0 reply, .push 0 (fun _ => Byte.zero), .write 0 (.wrote count), .write 0 (.wrote 0)]

end LibNet.Net
