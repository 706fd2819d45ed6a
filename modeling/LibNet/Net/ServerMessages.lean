import LibNet.Net.ServerRuns

/-!
# The messages of the server

Messages that still may be answered, and all messages ever made.  Only the event
loop makes messages; the application moves them and drops them.
-/

namespace LibNet.Net

open LibNet.Runs
open LibNet.Base

variable {server after : Server} {action : Action}

/-- All messages ever queued, in order: those pulled and those still queued. -/
def Server.queued (server : Server) : List (Message Octet Cause) :=
  server.pulled ++ server.pool.mUndoTasks

theorem AppStep.queued (step : AppStep server action after) : after.queued = server.queued := by
  cases step with
  | pull message rest front =>
      unfold Server.queued
      rw [front, List.append_assoc]
      rfl
  | _ => rfl

theorem PeerStep.queued (step : PeerStep server action after) :
    after.queued = server.queued := by
  cases step <;> rfl

theorem WorkerStep.queued (step : WorkerStep server action after) :
    after.queued = server.queued := by
  cases step <;> rfl

/-- The message is one of a read event of the connection. -/
def Message.asksFor (conn : Nat) (message : Message Octet Cause) : Bool :=
  message.cause = .read conn

/-- The payloads of the messages that read events of the connection made, one behind the
other. -/
def payload (messages : List (Message Octet Cause)) (conn : Nat) : List Octet :=
  (messages.filter (Message.asksFor conn)).flatMap Message.recvMsg

theorem payload_append (messages more : List (Message Octet Cause)) (conn : Nat) :
    payload (messages ++ more) conn = payload messages conn ++ payload more conn := by
  simp [payload]

theorem payload_close {message : Message Octet Cause} {closed : Nat}
    (cause : message.cause = .close closed) (conn : Nat) : payload [message] conn = [] := by
  simp [payload, Message.asksFor, cause]

theorem payload_read {message : Message Octet Cause} {asking : Nat}
    (cause : message.cause = .read asking) (conn : Nat) :
    payload [message] conn = if asking = conn then message.recvMsg else [] := by
  by_cases same : asking = conn
  · simp [payload, Message.asksFor, cause, same]
  · simp [payload, Message.asksFor, cause, same]

/-- The messages that are queued or with the application. -/
def Server.outstanding (server : Server) : List (Message Octet Cause) :=
  server.pool.mUndoTasks ++ server.slots.map Slot.message

theorem PeerStep.outstanding (step : PeerStep server action after) :
    after.outstanding = server.outstanding := by
  cases step <;> rfl

theorem WorkerStep.outstanding (step : WorkerStep server action after) :
    after.outstanding = server.outstanding := by
  cases step <;> rfl

/-- A slot that is emptied leaves fewer messages. -/
theorem mem_outstanding_of_eraseIdx {slot : Nat} {message : Message Octet Cause}
    (member : message ∈ server.pool.mUndoTasks ++
      (server.slots.eraseIdx slot).map Slot.message) : message ∈ server.outstanding := by
  rcases List.mem_append.mp member with queued | held
  · exact List.mem_append_left _ queued
  · obtain ⟨other, stays, rfl⟩ := List.mem_map.mp held
    exact List.mem_append_right _ (List.mem_map_of_mem (List.mem_of_mem_eraseIdx stays))

/-- A slot that goes on with its own message. -/
theorem mem_outstanding_of_set {slot : Nat} {held next : Slot} {message : Message Octet Cause}
    (found : server.slots[slot]? = some held) (same : next.message = held.message)
    (member : message ∈ server.pool.mUndoTasks ++
      (server.slots.set slot next).map Slot.message) : message ∈ server.outstanding := by
  rcases List.mem_append.mp member with queued | listed
  · exact List.mem_append_left _ queued
  · obtain ⟨other, stays, rfl⟩ := List.mem_map.mp listed
    rcases List.mem_or_eq_of_mem_set stays with old | rfl
    · exact List.mem_append_right _ (List.mem_map_of_mem old)
    · rw [same]
      exact List.mem_append_right _ (List.mem_map_of_mem (List.mem_of_getElem? found))

/-- The application makes no messages. -/
theorem AppStep.mem_outstanding (step : AppStep server action after)
    {message : Message Octet Cause} (member : message ∈ after.outstanding) :
    message ∈ server.outstanding := by
  cases step with
  | pull front rest queue =>
      unfold Server.outstanding at member ⊢
      rw [queue]
      simp only [List.map_append, List.mem_append, List.map_cons, List.map_nil,
        List.mem_cons, List.not_mem_nil, or_false] at member ⊢
      rcases member with later | held | pulled
      · exact .inl (.inr later)
      · exact .inr held
      · exact .inl (.inl pulled)
  | reply slot bytes answered taskId held through => exact member
  | replyClosed slot bytes => exact member
  | discard slot answered held => exact mem_outstanding_of_eraseIdx member
  | pushNothing slot heap answered held => exact mem_outstanding_of_eraseIdx member
  | push slot heap answered frame held reply =>
      refine mem_outstanding_of_set held ?_ member
      rfl
  | write slot count answered frame sends =>
      refine mem_outstanding_of_set sends ?_ member
      rfl
  | writeEnd slot last answered frame sends => exact mem_outstanding_of_eraseIdx member

end LibNet.Net
