import LibNet.Net.Streams

/-!
# Are the payloads a connection's bytes in order?

`recv_msg` copies the receive buffer into a message before the worker it calls on has read
anything, so a message carries what an earlier read left there: the character `1` of a new
buffer, the bytes of the request before, or the same bytes once more.  The payloads are the
stream of the connection when the steps come in the right order: the workers keep up, the
buffer has been cleaned when the first event of a connection is handled, and no event of it is
handled after its end has been read.
-/

namespace LibNet.Net

open LibNet.Runs
open LibNet.Base

variable {server after : Server} {action : Action}

/-- The order of steps in which messages carry the stream: the workers keep up, the first read
event of a connection finds the receive buffer of its task clean, and none is handled after
`recv_buf` has met the end of the connection. -/
def InStep (server : Server) (action : Action) : Prop :=
  Prompt server action ∧ (action.isLoop = true → ∀ event ∈ server.loop.nextEvent,
    event.hup = false →
      (.read (server.connAt event.fd) ∉ server.made →
        (server.task (server.pool.mReadyList event.fd)).getMsg = []) ∧
      (server.conns (server.connAt event.fd)).sawEof = false)

instance (server : Server) (action : Action) : Decidable (InStep server action) :=
  inferInstanceAs (Decidable (_ ∧ (_ → _)))

/-- Bytes that were read, none of them made by the program. -/
def FromRead (bytes : List Octet) : Prop := ∀ octet ∈ bytes, octet.origin ≠ .program

theorem fromRead_octets (conn start : Nat) (bytes : List UInt8) :
    FromRead (octets conn start bytes) := by
  intro octet member
  obtain ⟨offset, inside, rfl⟩ := List.mem_mapIdx.mp member
  exact fun same => by cases same

def Reader.FromRead : Reader → Prop
  | .holding _ _ bytes => Net.FromRead bytes
  | _ => True

/-- Only what was read is with the workers and, once a connection has had an event, in the
receive buffer of its task. -/
structure ReadOnly (server : Server) : Prop where
  held : ∀ worker, (server.workers worker).FromRead
  buffered : ∀ fd ∈ server.live, .read (server.connAt fd) ∈ server.made →
    FromRead (server.task (server.pool.mReadyList fd)).getMsg

/-- All that a task has was read. -/
theorem ReadOnly.stored (only : ReadOnly server) {fd : Int} (live : fd ∈ server.live)
    (asked : .read (server.connAt fd) ∈ server.made) {bytes : List Octet}
    (stored : server.Stored (server.pool.mReadyList fd) bytes) : FromRead bytes := by
  rcases stored with rfl | ⟨worker, length, holds⟩
  · exact only.buffered fd live asked
  · have held := only.held worker
    rwa [holds] at held

/-- What a task has after a step was read, if what it had before was. -/
theorem StoredFrom.fromRead {taskId : Int} {bytes : List Octet}
    (source : StoredFrom server after taskId bytes)
    (before : ∀ bytes, server.Stored taskId bytes → FromRead bytes) : FromRead bytes := by
  cases source with
  | kept whole count stored =>
      exact fun octet member => before whole stored octet (List.mem_of_mem_take member)
  | read conn values member opened grown => exact fromRead_octets _ _ _
  | foreign whole foreign =>
      intro octet member
      rw [foreign octet member]
      exact fun same => by cases same

theorem WorkerStep.held_fromRead (step : WorkerStep server action after)
    (held : ∀ worker, (server.workers worker).FromRead) :
    ∀ worker, (after.workers worker).FromRead := by
  have changed : ∀ (worker : Fin threadNumber) (reader : Reader), reader.FromRead →
      ∀ other, (Function.update server.workers worker reader other).FromRead := by
    intro worker reader fine
    exact (Function.forall_update_iff server.workers (p := fun _ => Reader.FromRead)).mpr
      ⟨fine, fun other _ => held other⟩
  cases step with
  | data worker count taskId length fd conn reads socket member opened positive available fits
      representable => exact changed worker _ (fromRead_octets _ _ _)
  | foreign worker bytes taskId length reads fits closed representable =>
      refine changed worker _ fun octet member => ?_
      obtain ⟨value, _, rfl⟩ := List.mem_map.mp member
      exact fun same => by cases same
  | eagain worker taskId length reads empty representable =>
      exact changed worker _ fun _ none => by cases none
  | take worker taskId rest idle queued => exact changed worker _ trivial
  | enter worker taskId popped => exact changed worker _ trivial
  | eof worker taskId length fd conn reads socket member opened empty =>
      exact changed worker _ trivial
  | foreignEof worker taskId length reads closed => exact changed worker _ trivial
  | error worker taskId length reads representable => exact changed worker _ trivial
  | store worker taskId length bytes holds fits => exact changed worker _ trivial

theorem mem_made_of_append {message : Message Octet Cause} {cause : Cause}
    (made : cause ∈ after.made) (pulled : after.pulled = server.pulled)
    (undo : after.pool.mUndoTasks = server.pool.mUndoTasks ++ [message]) :
    cause ∈ server.made ∨ cause = message.cause := by
  rw [made_append pulled undo rfl] at made
  exact (List.mem_append.mp made).imp_right List.mem_singleton.mp

/-- A step that makes no message and assigns no task. -/
theorem ReadOnly.onward (only : ReadOnly server) (same : SameTables server after)
    (queued : after.queued = server.queued) (held : ∀ worker, (after.workers worker).FromRead)
    (stored : ∀ taskId bytes, after.Stored taskId bytes → StoredFrom server after taskId bytes) :
    ReadOnly after where
  held := held
  buffered := by
    intro fd live asked
    rw [same.live] at live
    rw [Server.made, queued, same.connAt] at asked
    rw [same.ready]
    exact (stored _ _ (.inl rfl)).fromRead fun bytes => only.stored live asked

/-- The first event of a connection finds its buffer clean, so that no message ever shows what
the program has put there. -/
theorem LoopStep.readOnly (step : LoopStep server action after) (cycle : Lifecycle server)
    (tables : Tables server) (allowed : InStep server action) (only : ReadOnly server) :
    ReadOnly after := by
  have held : ∀ worker, (after.workers worker).FromRead := by
    have workers : after.workers = server.workers := by cases step <;> rfl
    rw [workers]
    exact only.held
  have buffered : ∀ taskId, (∀ bytes, server.Stored taskId bytes → FromRead bytes) →
      FromRead (after.task taskId).getMsg := by
    intro taskId before
    rcases step.stored (.inl rfl) with old | cleaned
    · exact before _ old
    · rw [cleaned]
      exact fun _ none => by cases none
  refine ⟨held, fun fd live asked => buffered _ ?_⟩
  cases step with
  | accept event events connFd taskId rest reached noHup listens inside fresh unreserved waits
      free =>
      rcases List.mem_cons.mp live with rfl | old
      · -- The connection is new, and no message was made for it.
        have known := cycle.known _ asked
        simp [Cause.conn] at known
      · have other : fd ≠ connFd := fun same => fresh (same ▸ old)
        simp only [Function.update_of_ne other] at asked ⊢
        exact fun bytes => only.stored old asked
  | recv event events reached noHup member =>
      by_cases before : .read (server.connAt fd) ∈ server.made
      · exact fun bytes => only.stored live before
      · have now := (mem_made_of_append asked (show _ = server.pulled from rfl)
          rfl).resolve_left before
        cases tables.connInjective fd live event.fd member (Cause.read.inj now)
        have clean := (allowed.2 rfl event (by rw [reached]; rfl) noHup).1 before
        rintro bytes (rfl | ⟨worker, length, holds⟩)
        · change FromRead (server.task (server.pool.mReadyList event.fd)).getMsg
          rw [clean]
          exact fun _ none => by cases none
        · have held := only.held worker
          rwa [holds] at held
  | finish delSubscript connFd events reached =>
      rcases mem_made_of_append asked (show _ = server.pulled from rfl) rfl with earlier | now
      · exact fun bytes => only.stored (List.mem_of_mem_erase live) earlier
      · cases now
  | _ => exact fun bytes => only.stored live asked

theorem reachable_readOnly (reached : Net.server.ReachableUnder InStep server) :
    ReadOnly server := by
  refine Machine.ReachableUnder.invariant ?_ ?_ reached
  · rintro first ⟨mListenFd, mEpollFd, reserved, block, _, _, _, rfl⟩
    exact ⟨fun _ => trivial, fun _ member => by cases member⟩
  · intro before action after earlier only allowed taken
    have tables := reachable_tables earlier.reachable
    have inOrder := reachable_readersInOrder earlier.reachable
    cases step : serverStep_of_step? tables taken with
    | peer peers =>
        refine only.onward peers.sameTables.1 peers.queued ?_ fun taskId bytes =>
          (ServerStep.peer peers).stored inOrder
        cases peers <;> exact only.held
    | loop loops => exact loops.readOnly (reachable_lifecycle earlier.reachable) tables allowed only
    | worker works =>
        exact only.onward works.sameTables.1 works.queued (works.held_fromRead only.held)
          fun taskId bytes => (ServerStep.worker works).stored inOrder
    | app acts =>
        refine only.onward acts.sameTables.1 acts.queued ?_ fun taskId bytes =>
          (ServerStep.app acts).stored inOrder
        cases acts <;> exact only.held

/-- What has been read from a connection only grows. -/
theorem ServerStep.got_le (step : ServerStep server action after) (conn : Nat) :
    server.got conn <+: after.got conn := by
  have same : (after.conns conn).bytesRead = (server.conns conn).bytesRead →
      server.got conn <+: after.got conn := fun read => by rw [got_congr read]
  cases step with
  | peer step =>
      obtain ⟨_, _, _, _, changed⟩ := step.conns conn
      exact same (by rw [changed])
  | loop step =>
      obtain ⟨_, changed⟩ := step.conns conn
      exact same (by rw [changed])
  | worker step =>
      obtain ⟨_, bytes, _, changed⟩ := step.conns conn
      rw [Server.got, Server.got, changed, octets_append]
      exact List.prefix_append _ _
  | app step =>
      obtain ⟨_, changed⟩ := step.conns conn
      exact same (by rw [changed])

/-- Behind bytes that were read there is no greeting. -/
theorem Greeting.eq_nil {first bytes stream : List Octet} (greeting : Greeting first)
    (whole : bytes = first ++ stream) (read : FromRead bytes) : first = [] := by
  rcases greeting with rfl | rfl
  · exact absurd rfl (read Byte.digitOne (by rw [whole]; exact List.mem_cons_self))
  · rfl

/-- A read event shows what the last request has read, and then all of the stream is shown. -/
theorem messageBytes_recv (streams : Streams server) (only : ReadOnly server)
    (allowed : InStep server .loop) {event : Event} {events : List Event}
    (reached : server.loop = .handle (event :: events)) (noHup : event.hup = false)
    (live : event.fd ∈ server.live)
    (delivered : server.messageBytes (server.connAt event.fd) <+:
      server.got (server.connAt event.fd)) :
    server.messageBytes (server.connAt event.fd) ++
        (server.task (server.pool.mReadyList event.fd)).getMsg =
      server.got (server.connAt event.fd) := by
  have next : event ∈ server.loop.nextEvent := by rw [reached]; rfl
  obtain ⟨clean, unended⟩ := allowed.2 rfl event next noHup
  have unclosed : server.loop.closing ≠ some event.fd := by
    rw [reached]
    exact fun none => by cases none
  obtain ⟨first, greeting, flow⟩ := streams.opened event.fd live unclosed unended
  have whole := flow _ (.stored (allowed.1.1 event next))
  have buffered : FromRead (server.task (server.pool.mReadyList event.fd)).getMsg := by
    by_cases asked : .read (server.connAt event.fd) ∈ server.made
    · exact only.buffered event.fd live asked
    · rw [clean asked]
      exact fun _ none => by cases none
  have read : FromRead (server.messageBytes (server.connAt event.fd) ++
      (server.task (server.pool.mReadyList event.fd)).getMsg) := by
    intro octet member
    rcases List.mem_append.mp member with shown | stored
    · exact fromRead_octets _ _ _ octet (delivered.subset shown)
    · exact buffered octet stored
  rw [whole, greeting.eq_nil whole read, List.nil_append]

theorem LoopStep.messageBytes_prefix (step : LoopStep server action after)
    (streams : Streams server) (only : ReadOnly server) (allowed : InStep server action)
    {conn : Nat} (delivered : server.messageBytes conn <+: server.got conn) :
    after.messageBytes conn <+: server.got conn := by
  have joins : ∀ message, after.pulled = server.pulled →
      after.pool.mUndoTasks = server.pool.mUndoTasks ++ [message] →
      server.messageBytes conn ++ payload [message] conn <+: server.got conn →
      after.messageBytes conn <+: server.got conn := by
    intro message pulled undo shown
    rwa [messageBytes_append pulled undo]
  cases step with
  | recv event events reached noHup member =>
      refine joins _ rfl rfl ?_
      rw [payload_read rfl]
      by_cases own : server.connAt event.fd = conn
      · subst own
        rw [if_pos rfl, messageBytes_recv streams only allowed reached noHup member delivered]
      · rwa [if_neg own, List.append_nil]
  | finish delSubscript connFd events reached =>
      refine joins _ rfl rfl ?_
      rwa [payload_close rfl, List.append_nil]
  | _ => exact delivered

theorem reachable_delivered (reached : Net.server.ReachableUnder InStep server) (conn : Nat) :
    server.messageBytes conn <+: server.got conn := by
  induction reached with
  | start started =>
      obtain ⟨mListenFd, mEpollFd, reserved, block, _, _, _, rfl⟩ := started
      exact List.nil_prefix
  | step earlier allowed taken delivered =>
      have step := serverStep_of_step? (reachable_tables earlier.reachable) taken
      have grown := step.got_le conn
      cases step with
      | peer step =>
          rw [messageBytes_congr step.queued]
          exact delivered.trans grown
      | loop step =>
          have streams := reachable_streams (earlier.mono fun _ _ => And.left)
          exact (step.messageBytes_prefix streams (reachable_readOnly earlier) allowed
            delivered).trans grown
      | worker step =>
          rw [messageBytes_congr step.queued]
          exact delivered.trans grown
      | app step =>
          rw [messageBytes_congr step.queued]
          exact delivered.trans grown

/--
In runs in which the workers keep up, the first read event of a connection finds its buffer
clean and no event is handled after the end of the connection has been read, the payloads pulled
for a connection are a prefix of what was read from it: nothing is invented, repeated or skipped.
-/
theorem pulled_prefix_of_read (reached : Net.server.ReachableUnder InStep server) (conn : Nat) :
    (payload server.pulled conn).map Octet.value <+: (server.conns conn).bytesRead := by
  have shown := (reachable_delivered reached conn).map Octet.value
  rw [Server.got, map_value_octets] at shown
  rw [Server.messageBytes, Server.queued, payload_append, List.map_append] at shown
  exact (List.prefix_append _ _).trans shown

/-- A client on a task that was used and cleaned before: its first message is empty, and the
next ones have the byte read after the message before. -/
def deliveredInStep : List Action :=
  letIn 5 ++ hangUp 0 5 ++ letIn 5 ++ ask 1 5 [66] ++ serve 0 1 ++ ask 1 5 [67] ++
    serve 0 1 ++ ask 1 5 [68] ++ [.pull, .pull, .pull, .pull]

theorem pulled_prefix_of_read_in_step :
    ∃ last, Net.server.ReachableUnder InStep last ∧
      (payload last.pulled 1).map Octet.value = [66, 67] ∧
      [66, 67] <+: (last.conns 1).bytesRead := by
  obtain ⟨last, reached, ended⟩ := Machine.exists_reachableUnder_of_follow Net.server
    InStep deliveredInStep
    (fun last => decide ((payload last.pulled 1).map Octet.value = [66, 67]))
    start_started (by decide)
  have pulled : (payload last.pulled 1).map Octet.value = [66, 67] := of_decide_eq_true ended
  exact ⟨last, reached, pulled, pulled ▸ pulled_prefix_of_read reached 1⟩

/-- The first client of a server asks, and its message is pulled before a worker has run. -/
def pulledBeforeRead : List Action := letIn 5 ++ ask 0 5 [65] ++ [.pull]

/-- The payload is the character `1`, and nothing has been read. -/
theorem pulled_before_read :
    ∃ last, Net.server.Reachable last ∧
      (payload last.pulled 0).map Octet.value = [49] ∧ (last.conns 0).bytesRead = [] ∧
      ¬ (payload last.pulled 0).map Octet.value <+: (last.conns 0).bytesRead := by
  obtain ⟨last, reached, ended⟩ := Machine.exists_reachableUnder_of_follow Net.server
    (fun _ _ => True) pulledBeforeRead
    (fun last => decide ((payload last.pulled 0).map Octet.value = [49] ∧
      (last.conns 0).bytesRead = []))
    start_started (by decide)
  obtain ⟨pulled, read⟩ := of_decide_eq_true ended
  refine ⟨last, reached, pulled, read, ?_⟩
  rw [pulled, read]
  decide

end LibNet.Net
