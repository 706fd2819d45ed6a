import LibNet.Net.Resend

/-!
# One call of `send_buf`

What a single call puts on the wire, whatever its writes come back with: a beginning of the
reply with zeros behind it, as far as `m_send_pos` counts.  Nothing is said here of the
calls before or after it, nor of how `m_send_pos` came to be what it is.
-/

namespace LibNet.Net

open LibNet.Runs
open LibNet.Base

variable {β : Type}

/-- No `write` of a loop that has `left` bytes to send accepts more than it is offered. -/
def Within : Int → List WriteResult → Prop
  | _, [] => True
  | left, .wrote (count + 1) :: rest =>
      ((count + 1 : Nat) : Int) ≤ left ∧ Within (left - (count + 1 : Nat)) rest
  -- Any other result is the last one of the call.
  | _, _ :: _ => True

instance decidableWithin :
    (left : Int) → (results : List WriteResult) → Decidable (Within left results)
  | _, [] => .isTrue trivial
  | left, .wrote (count + 1) :: rest =>
      have := decidableWithin (left - (count + 1 : Nat)) rest
      inferInstanceAs (Decidable (_ ∧ _))
  | _, .wrote 0 :: _ => .isTrue trivial
  | _, .eagain :: _ => .isTrue trivial
  | _, .error :: _ => .isTrue trivial

/-- How many bytes the writes of a loop accept, up to the first that accepts none. -/
def acceptedBytes : List WriteResult → Nat
  | .wrote (count + 1) :: rest => count + 1 + acceptedBytes rest
  | _ => 0

/-- What the loop of `send_buf` has done when it ends. -/
structure Sent (frame : SendFrame β) (ended : SendBuf β) : Prop where
  wire : ended.wire = window frame.buf frame.sendPos ended.wire.length
  few : (ended.wire.length : Int) ≤ frame.left
  whole : ended.ret = 0 ↔ (ended.wire.length : Int) = frame.left
  offers : ∀ offer ∈ ended.offered, offer.1 + offer.2 = frame.sendPos + frame.left

theorem sendEnd_ret (socket : TcpSocket β) (left : Int) (last : WriteResult) :
    (socket.sendEnd left last).1 = 0 ↔ left = 0 := by
  unfold TcpSocket.sendEnd
  by_cases nothing : left = 0
  · simp only [nothing, if_true]
  · cases last <;> simp [nothing]

/-- A loop whose next `write` accepts nothing ends. -/
theorem sent_last (socket : TcpSocket β) {frame : SendFrame β} (low : 0 ≤ frame.left)
    (last : WriteResult) :
    Sent frame ⟨(socket.sendEnd frame.left last).1, (socket.sendEnd frame.left last).2, [],
      [(frame.sendPos, frame.left)]⟩ where
  wire := rfl
  few := low
  whole := (sendEnd_ret socket frame.left last).trans eq_comm
  offers := fun offer member => by rw [List.mem_singleton.mp member]

/-- A `write` that accepts bytes puts them before those of the rest of the loop. -/
theorem Sent.cons {frame : SendFrame β} {count : Nat} {ended : SendBuf β}
    (later : Sent (frame.advance count) ended) :
    Sent frame { ended with
      wire := frame.chunk count ++ ended.wire
      offered := (frame.sendPos, frame.left) :: ended.offered } where
  wire := by
    have rest := later.wire
    dsimp only [SendFrame.advance] at rest
    rw [List.length_append, SendFrame.chunk, length_window, window_add, ← rest]
  few := by
    have few := later.few
    simp only [SendFrame.advance, List.length_append, SendFrame.chunk, length_window] at few ⊢
    omega
  whole := by
    have whole := later.whole
    simp only [SendFrame.advance, List.length_append, SendFrame.chunk, length_window] at whole ⊢
    rw [whole]
    omega
  offers := by
    intro offer member
    rcases List.mem_cons.mp member with rfl | rest
    · rfl
    · have offer_eq := later.offers offer rest
      simp only [SendFrame.advance] at offer_eq
      omega

/-- The bytes on the wire are as many as the writes accepted. -/
theorem length_wire_of_writeLoop {socket : TcpSocket β} {frame : SendFrame β}
    {results : List WriteResult} {ended : SendBuf β}
    (run : socket.writeLoop frame results = some ended) :
    ended.wire.length = acceptedBytes results := by
  induction results generalizing frame ended with
  | nil => cases run
  | cons result rest ih =>
      cases result with
      | eagain =>
          cases run
          rfl
      | error =>
          cases run
          rfl
      | wrote count =>
          cases count with
          | zero =>
              cases run
              rfl
          | succ less =>
              rw [TcpSocket.writeLoop] at run
              split at run
              · cases run
              · next looped called =>
                  cases run
                  rw [List.length_append, SendFrame.chunk, length_window, ih called,
                    acceptedBytes]

theorem sent_of_writeLoop {socket : TcpSocket β} {frame : SendFrame β}
    {results : List WriteResult} {ended : SendBuf β} (low : 0 ≤ frame.left)
    (within : Within frame.left results) (run : socket.writeLoop frame results = some ended) :
    Sent frame ended := by
  induction results generalizing frame ended with
  | nil => cases run
  | cons result rest ih =>
      cases result with
      | eagain =>
          cases run
          exact sent_last socket low _
      | error =>
          cases run
          exact sent_last socket low _
      | wrote count =>
          cases count with
          | zero =>
              cases run
              exact sent_last socket low _
          | succ less =>
              obtain ⟨fits, later⟩ := within
              rw [TcpSocket.writeLoop] at run
              split at run
              · cases run
              · next looped called =>
                  cases run
                  exact (ih (Int.sub_nonneg_of_le fits) later called).cons

/-- The loop ends: every `write` but the last takes a byte off what is left. -/
theorem exists_writeLoop (socket : TcpSocket β) {frame : SendFrame β}
    {results : List WriteResult} (within : Within frame.left results)
    (enough : frame.left < results.length) (low : 0 ≤ frame.left) :
    ∃ ended, socket.writeLoop frame results = some ended := by
  induction results generalizing frame with
  | nil => exact absurd enough (Int.not_lt.mpr low)
  | cons result rest ih =>
      cases result with
      | eagain => exact ⟨_, rfl⟩
      | error => exact ⟨_, rfl⟩
      | wrote count =>
          cases count with
          | zero => exact ⟨_, rfl⟩
          | succ less =>
              obtain ⟨fits, later⟩ := within
              have fewer : (frame.advance (less + 1)).left < rest.length := by
                simp only [SendFrame.advance]
                rw [List.length_cons] at enough
                omega
              obtain ⟨ended, called⟩ := ih later fewer (Int.sub_nonneg_of_le fits)
              rw [TcpSocket.writeLoop, called]
              exact ⟨_, rfl⟩

variable [Byte β]

/-- The bytes of the local copy: the reply and the zeros behind it. -/
def TcpSocket.padded (socket : TcpSocket β) : List β :=
  socket.mSendBuf.getBuf ++ List.replicate (bufferSize - socket.mSendBuf.mLength) Byte.zero

theorem window_sendCopy_padded {socket : TcpSocket β} (heap : Nat → β)
    (fits : socket.mSendBuf.mLength ≤ bufferSize) :
    window (socket.sendCopy heap) 0 bufferSize = socket.padded := by
  have zeros : window (socket.sendCopy heap) (0 + socket.mSendBuf.mLength)
      (bufferSize - socket.mSendBuf.mLength) =
        List.replicate (bufferSize - socket.mSendBuf.mLength) Byte.zero := by
    rw [List.eq_replicate_iff]
    refine ⟨length_window _ _ _, fun byte member => ?_⟩
    obtain ⟨offset, below, rfl⟩ := List.mem_map.mp member
    have inside := List.mem_range.mp below
    simp only [TcpSocket.sendCopy, memcpy]
    rw [if_neg (by omega), if_pos (by omega)]
  rw [← Nat.add_sub_cancel' fits, window_add, window_sendCopy, zeros]
  rfl

/-- The call comes to its end, whatever its writes come back with. -/
theorem exists_sendBuf (socket : TcpSocket β) (heap : Nat → β) {results : List WriteResult}
    (low : 0 ≤ socket.sendCount.mSendPos) (within : Within socket.sendCount.mSendPos results)
    (enough : socket.sendCount.mSendPos < results.length) :
    ∃ ended, socket.sendBuf heap results = some ended := by
  unfold TcpSocket.sendBuf TcpSocket.sendStart
  by_cases nothing : socket.mSendBuf.mLength = 0 ∨ socket.sendCount.mSendPos = 0
  · simp only [nothing, if_true]
    exact ⟨_, rfl⟩
  · simp only [nothing, if_false]
    exact exists_writeLoop socket.sendCount within enough low

/--
Whatever the writes of one call come back with, the call ends.  What they accepted, as many
bytes as they say, is a beginning of the reply with zeros behind it, no longer than `left`; every
`write` is offered the bytes behind those accepted before it; and `send_buf` returns 0 exactly if
there is no reply or all `left` bytes were accepted.
-/
theorem sendBuf_sends_beginning (socket : TcpSocket β) (heap : Nat → β)
    (results : Nat → WriteResult) (fits : socket.mSendBuf.mLength ≤ bufferSize)
    (low : 0 ≤ socket.sendCount.mSendPos) (high : socket.sendCount.mSendPos ≤ bufferSize)
    (within : ∀ writes,
      Within socket.sendCount.mSendPos ((List.range writes).map results)) :
    ∃ writes ended, socket.sendBuf heap ((List.range writes).map results) = some ended ∧
      ended.wire <+: socket.padded.take socket.sendCount.mSendPos.toNat ∧
      ended.wire.length = (if socket.mSendBuf.mLength = 0 ∨ socket.sendCount.mSendPos = 0 then 0
        else acceptedBytes ((List.range writes).map results)) ∧
      (∀ offer ∈ ended.offered, offer.1 + offer.2 = socket.sendCount.mSendPos) ∧
      (ended.ret = 0 ↔ socket.mSendBuf.mLength = 0 ∨
        (ended.wire.length : Int) = socket.sendCount.mSendPos) := by
  have enough : socket.sendCount.mSendPos <
      ((List.range (socket.sendCount.mSendPos.toNat + 1)).map results).length := by
    rw [List.length_map, List.length_range]
    omega
  obtain ⟨ended, run⟩ := exists_sendBuf socket heap low (within _) enough
  refine ⟨_, ended, run, ?_⟩
  rcases sendBuf_cases run with ⟨rfl, nothing⟩ | ⟨reply, positive, loop⟩
  · refine ⟨List.nil_prefix, (if_pos nothing).symm,
      fun _ member => absurd member List.not_mem_nil, ?_⟩
    simpa [eq_comm] using nothing
  · have sent := sent_of_writeLoop low (within _) loop
    refine ⟨?_, ?_, fun offer member => ?_, ?_⟩
    · have few : (ended.wire.length : Int) ≤ socket.sendCount.mSendPos := sent.few
      rw [← window_sendCopy_padded heap fits, window_take _ _ (by omega)]
      calc ended.wire
        _ = window (socket.sendCopy heap) 0 ended.wire.length := sent.wire
        _ = (window (socket.sendCopy heap) 0 socket.sendCount.mSendPos.toNat).take
              ended.wire.length := (window_take _ _ (by omega)).symm
        _ <+: window (socket.sendCopy heap) 0 socket.sendCount.mSendPos.toNat :=
              List.take_prefix _ _
    · rw [if_neg (not_or.mpr ⟨reply, positive⟩)]
      exact length_wire_of_writeLoop loop
    · simpa using sent.offers offer member
    · rw [sent.whole]
      exact ⟨.inr, fun either => either.resolve_left reply⟩

/-- One byte is accepted, and then no more. -/
def oneByte (turn : Nat) : WriteResult := if turn = 0 then .wrote 1 else .eagain

theorem sendBuf_one_byte :
    ∃ writes ended, withReply.sendBuf (fun _ => 7) ((List.range writes).map oneByte) =
        some ended ∧
      ended.wire <+: withReply.padded.take withReply.sendCount.mSendPos.toNat ∧
      ended.wire.length = (if withReply.mSendBuf.mLength = 0 ∨ withReply.sendCount.mSendPos = 0
        then 0 else acceptedBytes ((List.range writes).map oneByte)) ∧
      (∀ offer ∈ ended.offered, offer.1 + offer.2 = withReply.sendCount.mSendPos) ∧
      (ended.ret = 0 ↔ withReply.mSendBuf.mLength = 0 ∨
        (ended.wire.length : Int) = withReply.sendCount.mSendPos) := by
  refine sendBuf_sends_beginning withReply (fun _ => 7) oneByte (by decide) (by decide)
    (by decide) fun writes => ?_
  match writes with
  | 0 => exact trivial
  | 1 => decide
  | more + 2 =>
      rw [List.range_succ_eq_map, List.range_succ_eq_map]
      exact ⟨by decide, trivial⟩

end LibNet.Net
