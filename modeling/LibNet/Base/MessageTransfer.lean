import LibNet.Base.SocketUtil
import LibNet.Runs.Machine

/-!
# Messages over a byte stream

One end of a stream sends messages, one `writen` each, and the other receives
them with `readn` calls of the same lengths.  The two ends take the turns of their
loops in any order; a `write` takes any number of the bytes offered to it, a
`read` finds any number of those in flight, and both may be interrupted.
-/

namespace LibNet.Base

open LibNet.Runs

variable {β : Type}

/-- The two ends and the bytes in flight between them. -/
structure Transfer (β : Type) where
  unsent : List (List β)
  writer : Option (writenLoop β).Call
  stream : List β
  wanted : List Nat
  reader : Option (readnLoop β).Call
  returned : List (readnLoop β).Call

/-- The memory behind a message and at a buffer is arbitrary. -/
inductive TransferLabel (β : Type) where
  | callWriten (rest : Nat → β)
  | write (count : Nat)
  | interruptWrite
  | returnWriten
  | callReadn (buf : Nat → β)
  | read (count : Nat)
  | interruptRead
  | returnReadn

namespace Transfer

/-- Nothing is sent yet. -/
def start (messages : List (List β)) : Transfer β where
  unsent := messages
  writer := none
  stream := []
  wanted := messages.map List.length
  reader := none
  returned := []

def step? (transfer : Transfer β) : TransferLabel β → Option (Transfer β)
  | .callWriten rest =>
      match transfer.writer, transfer.unsent with
      | none, message :: others =>
          some { transfer with
            unsent := others
            writer := some (.begin (.start (layout message rest) message.length)) }
      | _, _ => none
  | .write count =>
      match transfer.writer with
      | none => none
      | some call =>
          if count ≤ call.frame.nleft then
            match call.resume? (.wrote count) with
            | none => none
            | some next =>
                some { transfer with
                  writer := some next
                  stream := transfer.stream ++ call.frame.chunk count }
          else none
  | .interruptWrite =>
      match transfer.writer with
      | none => none
      | some call =>
          match call.resume? .eintr with
          | none => none
          | some next => some { transfer with writer := some next }
  | .returnWriten =>
      match transfer.writer with
      | none => none
      | some call =>
          match (writenLoop β).test call.frame with
          | none => none
          | some _ => some { transfer with writer := none }
  | .callReadn buf =>
      match transfer.reader, transfer.wanted with
      | none, count :: others =>
          some { transfer with
            wanted := others
            reader := some (.begin (.start buf count)) }
      | _, _ => none
  | .read count =>
      match transfer.reader with
      | none => none
      | some call =>
          -- `read` waits for a first byte, and there is no end of the stream.
          if 0 < count ∧ count ≤ call.frame.nleft ∧ count ≤ transfer.stream.length then
            match call.resume? (.data (transfer.stream.take count)) with
            | none => none
            | some next =>
                some { transfer with
                  reader := some next
                  stream := transfer.stream.drop count }
          else none
  | .interruptRead =>
      match transfer.reader with
      | none => none
      | some call =>
          match call.resume? .eintr with
          | none => none
          | some next => some { transfer with reader := some next }
  | .returnReadn =>
      match transfer.reader with
      | none => none
      | some call =>
          match (readnLoop β).test call.frame with
          | none => none
          | some _ =>
              some { transfer with
                reader := none
                returned := transfer.returned ++ [call] }

end Transfer

/-- Runs of the two ends over a list of messages. -/
def transferMachine (messages : List (List β)) : Machine (Transfer β) (TransferLabel β) where
  Start := fun transfer => transfer = .start messages
  step? := Transfer.step?

/-- The steps of the two ends, with what their loops do in them. -/
inductive TransferStep (transfer : Transfer β) : TransferLabel β → Transfer β → Prop where
  | callWriten {rest : Nat → β} {message : List β} {others : List (List β)}
      (idle : transfer.writer = none) (next : transfer.unsent = message :: others) :
      TransferStep transfer (.callWriten rest)
        { transfer with
          unsent := others
          writer := some (.begin (.start (layout message rest) message.length)) }
  | write {count : Nat} {call next : (writenLoop β).Call} (writing : transfer.writer = some call)
      (goes : 0 < call.frame.nleft) (few : count ≤ call.frame.nleft)
      (frame : next.frame = call.frame.advance count) :
      TransferStep transfer (.write count)
        { transfer with
          writer := some next
          stream := transfer.stream ++ call.frame.chunk count }
  | interruptWrite {call next : (writenLoop β).Call} (writing : transfer.writer = some call)
      (frame : next.frame = call.frame) :
      TransferStep transfer .interruptWrite { transfer with writer := some next }
  | returnWriten {call : (writenLoop β).Call} (writing : transfer.writer = some call)
      (done : call.frame.nleft = 0) :
      TransferStep transfer .returnWriten { transfer with writer := none }
  | callReadn {buf : Nat → β} {count : Nat} {others : List Nat}
      (idle : transfer.reader = none) (next : transfer.wanted = count :: others) :
      TransferStep transfer (.callReadn buf)
        { transfer with
          wanted := others
          reader := some (.begin (.start buf count)) }
  | read {count : Nat} {call next : (readnLoop β).Call} (reading : transfer.reader = some call)
      (positive : 0 < count) (few : count ≤ call.frame.nleft)
      (available : count ≤ transfer.stream.length) (began : next.start = call.start)
      (frame : next.frame = call.frame.advance (transfer.stream.take count)) :
      TransferStep transfer (.read count)
        { transfer with
          reader := some next
          stream := transfer.stream.drop count }
  | interruptRead {call next : (readnLoop β).Call} (reading : transfer.reader = some call)
      (began : next.start = call.start) (frame : next.frame = call.frame) :
      TransferStep transfer .interruptRead { transfer with reader := some next }
  | returnReadn {call : (readnLoop β).Call} (reading : transfer.reader = some call)
      (done : call.frame.nleft = 0) :
      TransferStep transfer .returnReadn
        { transfer with
          reader := none
          returned := transfer.returned ++ [call] }

theorem transferStep_of_step? {before after : Transfer β} {label : TransferLabel β}
    (taken : before.step? label = some after) : TransferStep before label after := by
  cases label with
  | callWriten rest =>
      simp only [Transfer.step?] at taken
      split at taken
      · next idle next =>
          cases taken
          exact .callWriten idle next
      · cases taken
  | write count =>
      simp only [Transfer.step?] at taken
      split at taken
      · cases taken
      · next call writing =>
          split at taken
          · next few =>
              split at taken
              · cases taken
              · next next resumed =>
                  cases taken
                  have frame := writen_next?_wrote.mp (Loop.Call.resume?_some resumed).2
                  exact .write writing frame.1 few frame.2.symm
          · cases taken
  | interruptWrite =>
      simp only [Transfer.step?] at taken
      split at taken
      · cases taken
      · next call writing =>
          split at taken
          · cases taken
          · next next resumed =>
              cases taken
              have frame := writen_next?_eintr.mp (Loop.Call.resume?_some resumed).2
              exact .interruptWrite writing frame.2.symm
  | returnWriten =>
      simp only [Transfer.step?] at taken
      split at taken
      · cases taken
      · next call writing =>
          split at taken
          · cases taken
          · next ends =>
              cases taken
              exact .returnWriten writing (writen_test.mp ends).1
  | callReadn buf =>
      simp only [Transfer.step?] at taken
      split at taken
      · next idle next =>
          cases taken
          exact .callReadn idle next
      · cases taken
  | read count =>
      simp only [Transfer.step?] at taken
      split at taken
      · cases taken
      · next call reading =>
          split at taken
          · next possible =>
              split at taken
              · cases taken
              · next next resumed =>
                  cases taken
                  obtain ⟨began, turned⟩ := Loop.Call.resume?_some resumed
                  exact .read reading possible.1 possible.2.1 possible.2.2 began
                    (readn_next?_data.mp turned).2.symm
          · cases taken
  | interruptRead =>
      simp only [Transfer.step?] at taken
      split at taken
      · cases taken
      · next call reading =>
          split at taken
          · cases taken
          · next next resumed =>
              cases taken
              obtain ⟨began, turned⟩ := Loop.Call.resume?_some resumed
              exact .interruptRead reading began (readn_next?_eintr.mp turned).2.symm
  | returnReadn =>
      simp only [Transfer.step?] at taken
      split at taken
      · cases taken
      · next call reading =>
          split at taken
          · cases taken
          · next ends =>
              cases taken
              exact .returnReadn reading (readn_test.mp ends).1

/-- What the running `writen` still has to offer. -/
def Transfer.unwritten (transfer : Transfer β) : List β :=
  match transfer.writer with
  | none => []
  | some call => call.frame.rest

/-- A `readn` that has stored the front of `message` and lacks `missing`. -/
structure Fills (call : (readnLoop β).Call) (message missing : List β) : Prop where
  began : ∃ buf, call.start = .start buf message.length
  count : call.frame.count = message.length
  nleft : call.frame.nleft = missing.length
  stored : message = window call.frame.buf 0 call.frame.bufPtr ++ missing

/-- The message the running `readn` receives, as a list, and what it lacks of it. -/
def Transfer.Receives (transfer : Transfer β) (current : List (List β)) (missing : List β) :
    Prop :=
  match transfer.reader with
  | none => current = [] ∧ missing = []
  | some call => ∃ message, current = [message] ∧ Fills call message missing

/-- The finished, the current and the pending messages of the reader, and how the
bytes that are still under way make up what the reader lacks. -/
def Transfer.Joint (messages : List (List β)) (transfer : Transfer β) : Prop :=
  ∃ finished current pending missing,
    messages = finished ++ current ++ pending ∧
    List.Forall₂ (fun call message => Fills call message []) transfer.returned finished ∧
    transfer.Receives current missing ∧
    transfer.wanted = pending.map List.length ∧
    transfer.stream ++ transfer.unwritten ++ transfer.unsent.flatten = missing ++ pending.flatten

theorem Transfer.Receives.of_reader {transfer : Transfer β} {current : List (List β)}
    {missing : List β} {call : (readnLoop β).Call}
    (receives : transfer.Receives current missing) (reading : transfer.reader = some call) :
    ∃ message, current = [message] ∧ Fills call message missing := by
  simpa only [Transfer.Receives, reading] using receives

theorem Transfer.Receives.of_idle {transfer : Transfer β} {current : List (List β)}
    {missing : List β} (receives : transfer.Receives current missing)
    (idle : transfer.reader = none) : current = [] ∧ missing = [] := by
  simpa only [Transfer.Receives, idle] using receives

/-- A `readn` that stores the next bytes it lacks. -/
theorem Fills.read {call next : (readnLoop β).Call} {message missing bytes : List β}
    (fills : Fills call message (bytes ++ missing)) (began : next.start = call.start)
    (frame : next.frame = call.frame.advance bytes) : Fills next message missing where
  began := by
    rw [began]
    exact fills.began
  count := by
    rw [frame]
    exact fills.count
  nleft := by
    have nleft := fills.nleft
    rw [frame]
    simp only [ReadFrame.advance, nleft, List.length_append]
    omega
  stored := by
    rw [frame]
    simp only [ReadFrame.advance, window_store, List.append_assoc]
    exact fills.stored

theorem joint_step {messages : List (List β)} {before after : Transfer β}
    {label : TransferLabel β} (joint : before.Joint messages)
    (step : TransferStep before label after) : after.Joint messages := by
  obtain ⟨finished, current, pending, missing, split, returned, receives, wanted, bytes⟩ := joint
  cases step with
  | @callWriten rest message others idle next =>
      refine ⟨finished, current, pending, missing, split, returned, receives, wanted, ?_⟩
      have offered : window (layout message rest) 0 message.length = message := by
        rw [window_layout _ _ (Nat.le_refl _), List.take_length]
      simp only [Transfer.unwritten, idle, next, List.flatten_cons, List.append_nil] at bytes
      simp only [Transfer.unwritten, Loop.Call.begin, WriteFrame.rest, WriteFrame.start, offered,
        List.append_assoc, bytes]
  | write writing goes few frame =>
      refine ⟨finished, current, pending, missing, split, returned, receives, wanted, ?_⟩
      simp only [Transfer.unwritten, writing] at bytes
      simp only [Transfer.unwritten, frame, List.append_assoc] at bytes ⊢
      rw [← bytes, ← WriteFrame.chunk_append_rest few, List.append_assoc]
  | interruptWrite writing frame =>
      refine ⟨finished, current, pending, missing, split, returned, receives, wanted, ?_⟩
      simp only [Transfer.unwritten, writing, frame] at bytes ⊢
      exact bytes
  | returnWriten writing done =>
      refine ⟨finished, current, pending, missing, split, returned, receives, wanted, ?_⟩
      simp only [Transfer.unwritten, writing, WriteFrame.rest, done] at bytes
      exact bytes
  | @callReadn buf count others idle next =>
      obtain ⟨rfl, rfl⟩ := receives.of_idle idle
      rw [next] at wanted
      obtain ⟨message, rest, rfl, rfl, rfl⟩ := List.map_eq_cons_iff.mp wanted.symm
      refine ⟨finished, [message], rest, message, ?_, returned, ?_, rfl, ?_⟩
      · simpa using split
      · exact ⟨message, rfl, ⟨buf, rfl⟩, rfl, rfl, rfl⟩
      · exact bytes
  | @read count call next reading positive few available began frame =>
      obtain ⟨message, rfl, fills⟩ := receives.of_reader reading
      -- The bytes read are the first ones the reader lacks.
      have enough : count ≤ missing.length := fills.nleft ▸ few
      have taken := congrArg (List.take count) bytes
      have left := congrArg (List.drop count) bytes
      rw [List.append_assoc, List.take_append_of_le_length available,
        List.take_append_of_le_length enough] at taken
      rw [List.append_assoc, List.drop_append_of_le_length available,
        List.drop_append_of_le_length enough, ← List.append_assoc] at left
      refine ⟨finished, [message], pending, missing.drop count, split, returned, ?_, wanted, left⟩
      refine ⟨message, rfl, Fills.read ?_ began frame⟩
      rw [taken, List.take_append_drop]
      exact fills
  | @interruptRead call next reading began frame =>
      refine ⟨finished, current, pending, missing, split, returned, ?_, wanted, bytes⟩
      obtain ⟨message, rfl, fills⟩ := receives.of_reader reading
      exact ⟨message, rfl, began ▸ fills.began, frame ▸ fills.count, frame ▸ fills.nleft,
        frame ▸ fills.stored⟩
  | @returnReadn call reading done =>
      obtain ⟨message, rfl, fills⟩ := receives.of_reader reading
      obtain rfl : missing = [] := List.eq_nil_of_length_eq_zero (fills.nleft ▸ done)
      refine ⟨finished ++ [message], [], pending, [], ?_, ?_, ⟨rfl, rfl⟩, wanted, bytes⟩
      · simpa using split
      · exact List.rel_append returned (.cons fills .nil)

theorem reachable_joint {messages : List (List β)} {transfer : Transfer β}
    (reached : (transferMachine messages).Reachable transfer) : transfer.Joint messages := by
  refine Machine.Reachable.invariant ?_ ?_ reached
  · rintro first rfl
    exact ⟨[], [], messages, [], rfl, .nil, ⟨rfl, rfl⟩, rfl, rfl⟩
  · intro before label after joint taken
    exact joint_step joint (transferStep_of_step? taken)

/-- The steps that get the transfer on: an interruption does not, and neither does
a `write` of no bytes. -/
def TransferLabel.Productive : TransferLabel β → Prop
  | .write count => 0 < count
  | .interruptWrite => False
  | .interruptRead => False
  | _ => True

/-- The productive steps that may still come: each message is written and read
byte by byte at worst, and each call is made and returns. -/
def Transfer.work (transfer : Transfer β) : Nat :=
  (transfer.unsent.map fun message => 2 * message.length + 2).sum +
    (match transfer.writer with | none => 0 | some call => 2 * call.frame.nleft + 1) +
    transfer.stream.length + 2 * transfer.wanted.length +
    (match transfer.reader with | none => 0 | some _ => 1)

theorem work_step {before after : Transfer β} {label : TransferLabel β}
    (step : TransferStep before label after) :
    after.work ≤ before.work ∧ (label.Productive → after.work < before.work) := by
  cases step with
  | callWriten idle next =>
      simp only [Transfer.work, idle, next, List.map_cons, List.sum_cons, Loop.Call.begin,
        WriteFrame.start]
      omega
  | write writing goes few frame =>
      simp only [Transfer.work, writing, frame, WriteFrame.advance, WriteFrame.chunk,
        List.length_append, length_window, TransferLabel.Productive]
      omega
  | interruptWrite writing frame =>
      simp only [Transfer.work, writing, frame]
      exact ⟨Nat.le_refl _, fun productive => productive.elim⟩
  | returnWriten writing done =>
      simp only [Transfer.work, writing]
      omega
  | callReadn idle next =>
      simp only [Transfer.work, idle, next, List.length_cons]
      omega
  | read reading positive few available began frame =>
      simp only [Transfer.work, reading, List.length_drop]
      omega
  | interruptRead reading began frame =>
      simp only [Transfer.work, reading]
      exact ⟨Nat.le_refl _, fun productive => productive.elim⟩
  | returnReadn reading done =>
      simp only [Transfer.work, reading]
      omega

/-- A writer with bytes to send can go on. -/
theorem exists_writer_step [Inhabited β] {transfer : Transfer β}
    (more : transfer.unwritten ++ transfer.unsent.flatten ≠ []) :
    ∃ label, label.Productive ∧ (transfer.step? label).isSome := by
  cases writer : transfer.writer with
  | none =>
      cases unsent : transfer.unsent with
      | nil =>
          simp only [Transfer.unwritten, writer, unsent, List.flatten_nil, List.append_nil, ne_eq,
            not_true] at more
      | cons message others =>
          refine ⟨.callWriten fun _ => default, trivial, ?_⟩
          simp only [Transfer.step?, writer, unsent, Option.isSome_some]
  | some call =>
      by_cases done : call.frame.nleft = 0
      · refine ⟨.returnWriten, trivial, ?_⟩
        simp only [Transfer.step?, writer, writen_test.mpr ⟨done, rfl⟩, Option.isSome_some]
      · have goes : 0 < call.frame.nleft := Nat.pos_of_ne_zero done
        obtain ⟨next, resumed⟩ := Loop.Call.exists_resume?
          (writen_next?_wrote.mpr ⟨goes, rfl⟩ : (writenLoop β).next? call.frame (.wrote 1) = _)
        refine ⟨.write 1, Nat.one_pos, ?_⟩
        have few : 1 ≤ call.frame.nleft := goes
        simp only [Transfer.step?, writer, if_pos few, resumed, Option.isSome_some]

/-- While a message is missing, one of the ends can go on. -/
theorem exists_productive_step [Inhabited β] {messages : List (List β)} {transfer : Transfer β}
    (joint : transfer.Joint messages) (more : transfer.returned.length < messages.length) :
    ∃ label, label.Productive ∧ (transfer.step? label).isSome := by
  obtain ⟨finished, current, pending, missing, split, returned, receives, wanted, bytes⟩ := joint
  cases reader : transfer.reader with
  | none =>
      obtain ⟨rfl, rfl⟩ := receives.of_idle reader
      cases pending with
      | nil =>
          have lengths := returned.length_eq
          simp only [split, List.append_nil] at more
          omega
      | cons message others =>
          refine ⟨.callReadn fun _ => default, trivial, ?_⟩
          simp only [Transfer.step?, reader, wanted, List.map_cons, Option.isSome_some]
  | some call =>
      obtain ⟨message, rfl, fills⟩ := receives.of_reader reader
      by_cases done : call.frame.nleft = 0
      · refine ⟨.returnReadn, trivial, ?_⟩
        simp only [Transfer.step?, reader, readn_test.mpr ⟨done, rfl⟩, Option.isSome_some]
      · have goes : 0 < call.frame.nleft := Nat.pos_of_ne_zero done
        cases stream : transfer.stream with
        | cons byte others =>
            obtain ⟨next, resumed⟩ := Loop.Call.exists_resume?
              (readn_next?_data.mpr ⟨goes, rfl⟩ : (readnLoop β).next? call.frame (.data [byte]) = _)
            refine ⟨.read 1, trivial, ?_⟩
            have possible : 0 < 1 ∧ 1 ≤ call.frame.nleft ∧ 1 ≤ (byte :: others).length := by
              simp only [List.length_cons]
              omega
            simp only [Transfer.step?, reader, stream, if_pos possible, List.take_succ_cons,
              List.take_zero, resumed, Option.isSome_some]
        | nil =>
            -- Nothing is in flight, so what the reader lacks is the writer's to send.
            apply exists_writer_step
            intro nothing
            rw [stream, List.nil_append, nothing] at bytes
            have lacks : missing = [] := (List.append_eq_nil_iff.mp bytes.symm).1
            have nleft := fills.nleft
            rw [lacks] at nleft
            exact done nleft

/-! ## What is received -/

/-- The call of `readn` returned its full count, as an `ssize_t`, and left the
message in its buffer. -/
def Received (call : (readnLoop β).Call) (message : List β) : Prop :=
  ∃ buf result, call.start = .start buf message.length ∧
    readn buf message.length call.outcomes = some result ∧
    result.ret = ssize message.length ∧
    (message.length ≤ ssizeMax → result.ret = message.length) ∧
    window result.buf 0 message.length = message

theorem Fills.received {call : (readnLoop β).Call} {message : List β}
    (fills : Fills call message []) : Received call message := by
  obtain ⟨buf, began⟩ := fills.began
  have ends : (readnLoop β).test call.frame = some ⟨ssize message.length, call.frame.buf⟩ :=
    readn_test.mpr ⟨fills.nleft, by rw [fills.count]⟩
  have run := Loop.Call.run_eq ends
  rw [began] at run
  have stored : message = window call.frame.buf 0 call.frame.bufPtr := by
    simpa using fills.stored
  refine ⟨buf, _, began, run, rfl, ssize_eq, ?_⟩
  have length := congrArg List.length stored
  rw [length_window] at length
  simp only
  rw [length]
  exact stored.symm

/--
In every state the two ends can come to, each `readn` that has returned returned
its full count and filled its buffer with the message sent in its turn.  While a
message is missing one of the ends can go on, and how often they do is bounded: only
interruptions and writes of no bytes can come without end.
-/
theorem messages_transferred [Inhabited β] {messages : List (List β)} {transfer : Transfer β}
    (reached : (transferMachine messages).Reachable transfer) :
    List.Forall₂ Received transfer.returned (messages.take transfer.returned.length) ∧
    (transfer.returned.length < messages.length →
      ∃ label, label.Productive ∧ ((transferMachine messages).step? transfer label).isSome) ∧
    ∀ label after, (transferMachine messages).step? transfer label = some after →
      after.work ≤ transfer.work ∧ (label.Productive → after.work < transfer.work) := by
  have joint := reachable_joint reached
  refine ⟨?_, exists_productive_step joint, fun label after taken =>
    work_step (transferStep_of_step? taken)⟩
  obtain ⟨finished, current, pending, missing, split, returned, _⟩ := joint
  rw [split, returned.length_eq, List.append_assoc, List.take_left]
  exact returned.imp fun _ _ fills => fills.received

/-- Two messages, the first in two pieces, with an interruption and a `write` of no
bytes, and the second of no bytes at all. -/
def twoMessages : List (TransferLabel UInt8) :=
  [.callReadn fun _ => 7, .callWriten fun _ => 9, .write 0, .write 2, .interruptWrite, .read 1,
    .write 1, .interruptRead, .read 2, .returnReadn, .returnWriten, .callReadn fun _ => 7,
    .returnReadn]

theorem messages_transferred_two :
    ∃ transfer, (transferMachine [[65, 66, 67], ([] : List UInt8)]).Reachable transfer ∧
      transfer.returned.length = 2 ∧
      List.Forall₂ Received transfer.returned [[65, 66, 67], []] := by
  obtain ⟨transfer, reached, both⟩ := Machine.exists_reachableUnder_of_follow
    (transferMachine [[65, 66, 67], ([] : List UInt8)]) (fun _ _ => True) twoMessages
    (fun transfer => decide (transfer.returned.length = 2)) rfl (by decide)
  have two := of_decide_eq_true both
  have received := (messages_transferred reached).1
  rw [two] at received
  exact ⟨transfer, reached, two, received⟩

end LibNet.Base
