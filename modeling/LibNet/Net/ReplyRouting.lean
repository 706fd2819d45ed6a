import LibNet.Net.ServerMessages

/-!
# Which connection a reply reaches

A message carries the id of a task, not that of a connection.  The free stack
hands the id of a closed connection out again at once, and `push_msg` writes to
whatever connection has the id by then.  A reply reaches only the connection its
message was queued for when no id is given away while a message carries it.
-/

namespace LibNet.Net

open LibNet.Runs
open LibNet.Base

variable {server after : Server} {action : Action}

/-- Every message that is still out belongs to the connection that has its id,
when one has it. -/
def MessagesOwned (server : Server) : Prop :=
  ∀ message ∈ server.outstanding, ∀ fd ∈ server.live,
    server.pool.mReadyList fd = message.taskId → server.connAt fd = message.cause.conn

/-- An id is given to a new connection only when no message carries it. -/
def ReusedWhenAnswered (server : Server) (action : Action) : Prop :=
  action.accepts = true → ∀ taskId ∈ server.pool.mFreeTasks.head?,
    ∀ message ∈ server.outstanding, message.taskId ≠ taskId

instance (server : Server) (action : Action) : Decidable (ReusedWhenAnswered server action) :=
  inferInstanceAs (Decidable (_ → _))

theorem MessagesOwned.transport (owned : MessagesOwned server) (same : SameTables server after)
    (fewer : ∀ message ∈ after.outstanding, message ∈ server.outstanding) :
    MessagesOwned after := by
  intro message member
  rw [same.live, same.ready, same.connAt]
  exact owned message (fewer message member)

theorem LoopStep.messagesOwned (step : LoopStep server action after) (tables : Tables server)
    (owned : MessagesOwned server) (allowed : ReusedWhenAnswered server action) :
    MessagesOwned after := by
  cases step with
  | epollWait fds waits distinct pending => exact owned
  | acceptFailed event events reached noHup listens => exact owned
  | accept event events connFd taskId rest reached noHup listens inside fresh unreserved waits
      free =>
      intro message member fd live listed
      rcases List.mem_cons.mp live with rfl | old
      · -- The new connection has the id of no message.
        have carried := allowed rfl taskId (by rw [free]; rfl) message member
        simp only [Function.update_self] at listed
        exact (carried listed.symm).elim
      · have different : fd ≠ connFd := fun same => fresh (same ▸ old)
        simp only [Function.update_of_ne different] at listed ⊢
        exact owned message member fd old listed
  | close event events reached hup member => exact owned
  | recv event events reached noHup live =>
      intro message member fd other listed
      rcases List.mem_append.mp member with queued | held
      · rcases List.mem_append.mp queued with old | new
        · exact owned message (List.mem_append_left _ old) fd other listed
        · rw [List.mem_singleton.mp new] at listed ⊢
          rw [tables.books.injective other live listed]
          rfl
      · exact owned message (List.mem_append_right _ held) fd other listed
  | append taskId fd events reached => exact owned
  | clean delSubscript connFd events reached => exact owned
  | finish delSubscript connFd events reached =>
      obtain ⟨live, ready, _⟩ := tables.agenda.handled delSubscript connFd (by rw [reached]; rfl)
      intro message member fd other listed
      obtain ⟨different, old⟩ := tables.books.distinct.mem_erase_iff.mp other
      rcases List.mem_append.mp member with queued | held
      · rcases List.mem_append.mp queued with earlier | new
        · exact owned message (List.mem_append_left _ earlier) fd old listed
        · -- The close event carries an id that no connection has any more.
          rw [List.mem_singleton.mp new] at listed
          exact (different (tables.books.injective old live (listed.trans ready.symm))).elim
      · exact owned message (List.mem_append_right _ held) fd old listed

theorem ServerStep.messagesOwned (step : ServerStep server action after) (tables : Tables server)
    (owned : MessagesOwned server) (allowed : ReusedWhenAnswered server action) :
    MessagesOwned after := by
  cases step with
  | peer step => exact owned.transport step.sameTables.1 (step.outstanding ▸ fun _ => id)
  | loop step => exact step.messagesOwned tables owned allowed
  | worker step => exact owned.transport step.sameTables.1 (step.outstanding ▸ fun _ => id)
  | app step => exact owned.transport step.sameTables.1 fun _ => step.mem_outstanding

/-- What a connection has been sent answers its own messages. -/
def WiresRouted (server : Server) : Prop :=
  ∀ conn, ∀ batch ∈ (server.conns conn).wire, batch.1 = conn

theorem WiresRouted.congr (routed : WiresRouted server)
    (same : ∀ conn, (after.conns conn).wire = (server.conns conn).wire) : WiresRouted after := by
  intro conn batch member
  rw [same] at member
  exact routed conn batch member

/-- A `write` reaches the connection whose message is being answered. -/
theorem AppStep.wiresRouted (step : AppStep server action after) (tables : Tables server)
    (owned : MessagesOwned server) (routed : WiresRouted server) : WiresRouted after := by
  cases step with
  | write slot count message frame sends =>
      have held : message ∈ server.outstanding :=
        List.mem_append_right _ (List.mem_map.mpr ⟨_, List.mem_of_getElem? sends, rfl⟩)
      intro conn batch member
      simp only [Server.kernelWrite] at member
      split at member
      · next live =>
          have owner := owned message held _ live (tables.owner live).1
          by_cases same : conn = server.connAt (server.task message.taskId).mSocket
          · subst same
            rw [Function.update_self] at member
            rcases List.mem_append.mp member with old | new
            · exact routed _ batch old
            · rw [List.mem_singleton.mp new]
              exact owner.symm
          · rw [Function.update_of_ne same] at member
            exact routed conn batch member
      · exact routed conn batch member
  | _ => exact routed

theorem ServerStep.wiresRouted (step : ServerStep server action after) (tables : Tables server)
    (owned : MessagesOwned server) (routed : WiresRouted server) : WiresRouted after := by
  cases step with
  | peer step =>
      refine routed.congr fun conn => ?_
      obtain ⟨_, _, _, _, changed⟩ := step.conns conn
      rw [changed]
  | loop step =>
      refine routed.congr fun conn => ?_
      obtain ⟨_, changed⟩ := step.conns conn
      rw [changed]
  | worker step =>
      refine routed.congr fun conn => ?_
      obtain ⟨_, _, _, changed⟩ := step.conns conn
      rw [changed]
  | app step => exact step.wiresRouted tables owned routed

/-- Replies are routed as long as messages are owned. -/
structure RepliesRouted (server : Server) : Prop where
  owned : MessagesOwned server
  routed : WiresRouted server

theorem reachable_repliesRouted
    (reached : Net.server.ReachableUnder ReusedWhenAnswered server) : RepliesRouted server := by
  refine server_invariant ?_ ?_ reached
  · intro mListenFd mEpollFd reserved block
    exact ⟨fun _ member => (by cases member), fun _ _ member => by cases member⟩
  · intro before action after earlier replies allowed step
    have tables := reachable_tables earlier
    exact ⟨step.messagesOwned tables replies.owned allowed,
      step.wiresRouted tables replies.owned replies.routed⟩

/--
In runs that give an id to a new connection only when no message carries it, the
bytes a connection receives were pushed for messages queued for that connection.
-/
theorem replies_reach_their_connection
    (reached : Net.server.ReachableUnder ReusedWhenAnswered server) (conn : Nat)
    (answers : Nat) (bytes : List Octet)
    (written : (answers, bytes) ∈ (server.conns conn).wire) : answers = conn :=
  (reachable_repliesRouted reached).routed conn (answers, bytes) written

/-- A client is answered and hangs up; the next one has its id and is answered. -/
def answeredTwice : List Action :=
  letIn 5 ++ ask 0 5 [65] ++ serve 0 1 ++ [.pull] ++ answer [66] 1 ++ hangUp 0 5 ++
    [.pull, .discard 0] ++ letIn 5 ++ ask 1 5 [67] ++ serve 0 1 ++ [.pull] ++ answer [68] 1

theorem replies_reach_their_connection_twice :
    ∃ last, Net.server.ReachableUnder ReusedWhenAnswered last ∧
      ∃ answers, (answers, [⟨68, .program⟩]) ∈ (last.conns 1).wire ∧ answers = 1 := by
  obtain ⟨last, reached, ended⟩ := Machine.exists_reachableUnder_of_follow Net.server
    ReusedWhenAnswered answeredTwice
    (fun last => decide ((1, [⟨68, .program⟩]) ∈ (last.conns 1).wire))
    start_started (by decide)
  exact ⟨last, reached, 1, of_decide_eq_true ended,
    replies_reach_their_connection reached 1 1 _ (of_decide_eq_true ended)⟩

/-- A message is answered after its connection was closed and its id was given
to the next client. -/
def answeredLate : List Action :=
  letIn 5 ++ ask 0 5 [65] ++ [.pull] ++ hangUp 0 5 ++ letIn 5 ++ answer [66] 7

/-- The reply to the first client goes to the second. -/
theorem late_reply_reaches_next_client :
    ∃ last, Net.server.Reachable last ∧
      (0, [⟨66, .program⟩] ++ List.replicate 6 ⟨0, .program⟩) ∈ (last.conns 1).wire := by
  obtain ⟨last, reached, ended⟩ := Machine.exists_reachableUnder_of_follow Net.server
    (fun _ _ => True) answeredLate
    (fun last => decide ((0, [⟨66, .program⟩] ++ List.replicate 6 ⟨0, .program⟩) ∈
      (last.conns 1).wire))
    start_started (by decide)
  exact ⟨last, reached, of_decide_eq_true ended⟩

end LibNet.Net
