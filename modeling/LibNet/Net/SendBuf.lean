import LibNet.Net.TcpSocket
import LibNet.Runs.Machine

/-!
# How much of a reply `send_buf` writes

One socket and the operations that meet on it: the event loop makes messages of
it, the application pulls them, writes replies and pushes them, and workers run
`recv_buf`.  The peer takes every byte it is offered, in chunks of any size.
What `send_buf` writes is counted by `m_send_pos`, which starts at 6, grows with
every reply and is zeroed by `recv_buf` alone.
-/

namespace LibNet.Net

open LibNet.Runs
open LibNet.Base

section Loop

variable {β : Type} [Byte β]

/-- The results of the writes when `chunks` are accepted one after the other;
the last `write` is offered nothing. -/
def accepted (chunks : List Nat) : List WriteResult :=
  chunks.map .wrote ++ [.wrote 0]

/-- The chunks make up all of what `send_buf` is going to offer. -/
def Accepts (socket : TcpSocket β) (chunks : List Nat) : Prop :=
  (∀ count ∈ chunks, 0 < count) ∧ ((chunks.sum : Nat) : Int) = socket.sendCount.mSendPos

instance (socket : TcpSocket β) (chunks : List Nat) : Decidable (Accepts socket chunks) :=
  inferInstanceAs (Decidable (_ ∧ _))

omit [Byte β] in
/-- Writing on until all is accepted sends the whole window and offers, each
time, exactly what is left of it. -/
theorem writeLoop_accepted (socket : TcpSocket β) (frame : SendFrame β) (chunks : List Nat)
    (positive : ∀ count ∈ chunks, 0 < count) (whole : ((chunks.sum : Nat) : Int) = frame.left) :
    ∃ ended, socket.writeLoop frame (accepted chunks) = some ended ∧ ended.ret = 0 ∧
      ended.socket = socket ∧ ended.wire = window frame.buf frame.sendPos chunks.sum ∧
      (frame.sendPos, frame.left) ∈ ended.offered ∧
      ∀ offer ∈ ended.offered, offer.1 + offer.2 = frame.sendPos + frame.left := by
  induction chunks generalizing frame with
  | nil =>
      have nothing : frame.left = 0 := by simpa using whole.symm
      refine ⟨⟨0, socket, [], [(frame.sendPos, frame.left)]⟩, ?_, rfl, rfl, rfl,
        List.mem_singleton_self _, ?_⟩
      · simp [accepted, TcpSocket.writeLoop, TcpSocket.sendEnd, nothing]
      · intro offer member
        rw [List.mem_singleton.mp member]
  | cons count rest ih =>
      obtain ⟨less, rfl⟩ := Nat.exists_eq_add_one.mpr (positive count (List.mem_cons_self ..))
      have remaining : ((rest.sum : Nat) : Int) = (frame.advance (less + 1)).left := by
        simp only [List.sum_cons] at whole
        simp only [SendFrame.advance]
        omega
      obtain ⟨ended, loop, ret, same, wire, first, offers⟩ := ih (frame.advance (less + 1))
        (fun other member => positive other (List.mem_cons_of_mem _ member)) remaining
      refine ⟨{ ended with
        wire := frame.chunk (less + 1) ++ ended.wire
        offered := (frame.sendPos, frame.left) :: ended.offered }, ?_, ret, same, ?_,
        List.mem_cons_self .., ?_⟩
      · simp only [accepted, List.map_cons, List.cons_append, TcpSocket.writeLoop]
        rw [show List.map WriteResult.wrote rest ++ [.wrote 0] = accepted rest from rfl, loop]
      · simp only [SendFrame.chunk, wire, SendFrame.advance, List.sum_cons]
        exact (window_add _ _ _ _).symm
      · intro offer member
        rcases List.mem_cons.mp member with here | later
        · rw [here]
        · have offer_eq := offers offer later
          simp only [SendFrame.advance] at offer_eq
          omega

/-- `send_buf` on a reply, with bytes to send, to a peer that takes everything. -/
theorem sendBuf_accepted (socket : TcpSocket β) (heap : Nat → β) (chunks : List Nat)
    (reply : socket.mSendBuf.mLength ≠ 0) (some_left : socket.sendCount.mSendPos ≠ 0)
    (accepts : Accepts socket chunks) :
    ∃ ended, socket.sendBuf heap (accepted chunks) = some ended ∧ ended.ret = 0 ∧
      ended.socket = socket.sendCount ∧
      ended.wire = window (socket.sendCopy heap) 0 chunks.sum ∧
      (0, socket.sendCount.mSendPos) ∈ ended.offered ∧
      ∀ offer ∈ ended.offered, offer.1 + offer.2 = socket.sendCount.mSendPos := by
  have start : socket.sendStart heap =
      (socket.sendCount, some ⟨socket.sendCopy heap, socket.sendCount.mSendPos, 0⟩) := by
    simp only [TcpSocket.sendStart, reply, some_left, or_self, if_false]
  obtain ⟨ended, loop, facts⟩ := writeLoop_accepted socket.sendCount
    ⟨socket.sendCopy heap, socket.sendCount.mSendPos, 0⟩ chunks accepts.1 accepts.2
  refine ⟨ended, ?_, ?_⟩
  · simp only [TcpSocket.sendBuf, start]
    exact loop
  · simpa using facts

/-- The first bytes of the local copy are the reply. -/
theorem window_sendCopy (socket : TcpSocket β) (heap : Nat → β) :
    window (socket.sendCopy heap) 0 socket.mSendBuf.mLength = socket.mSendBuf.getBuf := by
  rw [Buffer.getBuf_eq_window]
  exact window_memcpy _ _ _

/-- `recv_buf` leaves the send buffer and the reference count alone. -/
theorem readLoop_frame {socket : TcpSocket β} {length : Int} {results : List (ReadResult β)}
    {ended : RecvBuf β} (loop : socket.readLoop length results = some ended) :
    ended.socket = { socket with mRecvBuf := ended.socket.mRecvBuf } := by
  induction results generalizing length with
  | nil => cases loop
  | cons result rest ih =>
      unfold TcpSocket.readLoop at loop
      split at loop
      · exact ih loop
      · cases loop
        rfl
      · cases loop
        rfl

end Loop

/-! ## Any order of operations -/

/-- One socket, the messages made of it and not pulled yet, the pulled ones not
pushed yet, and whether `recv_buf` was called since the last `send_buf`. -/
structure Exchange where
  socket : TcpSocket UInt8
  queued : Nat
  pulled : Nat
  received : Bool

inductive ExchangeLabel where
  | addUndoTask
  | pullMsg
  | writeReply (reply : List UInt8)
  | recvBuf (results : List (ReadResult UInt8))
  | pushMsg (heap : Nat → UInt8) (chunks : List Nat)

namespace Exchange

/-- The largest `int`; a sum above it is undefined and ends the run. -/
def intMax : Int := 2 ^ 31 - 1

def step? (exchange : Exchange) : ExchangeLabel → Option Exchange
  | .addUndoTask =>
      if exchange.socket.mReferenceCount < intMax then
        some { exchange with
          socket := exchange.socket.getSendBufLenAddr
          queued := exchange.queued + 1 }
      else none
  | .pullMsg =>
      match exchange.queued with
      | 0 => none
      | rest + 1 => some { exchange with queued := rest, pulled := exchange.pulled + 1 }
  | .writeReply reply =>
      if 0 < exchange.pulled ∧ 1 ≤ reply.length ∧ reply.length ≤ bufferSize then
        some { exchange with socket := exchange.socket.writeReply reply }
      else none
  | .recvBuf results =>
      match exchange.socket.recvBuf results with
      | none => none
      | some ended =>
          -- A copy past the buffer is undefined and ends the run.
          if ended.copied ≤ bufferSize then
            some { exchange with socket := ended.socket, received := true }
          else none
  | .pushMsg heap chunks =>
      if Accepts exchange.socket chunks ∧ exchange.socket.sendCount.mSendPos ≤ intMax then
        match exchange.pulled, exchange.socket.sendBuf heap (accepted chunks) with
        | rest + 1, some ended =>
            some { exchange with socket := ended.socket, pulled := rest, received := false }
        | _, _ => none
      else none

end Exchange

/-- Runs of the operations on one socket, from its construction on. -/
def exchangeMachine : Machine Exchange ExchangeLabel where
  Start := fun exchange => ∃ sendBlock recvBlock,
    exchange = ⟨.new sendBlock recvBlock, 0, 0, false⟩
  step? := Exchange.step?

/-- What holds between any two operations. -/
structure Exchange.Counted (exchange : Exchange) : Prop where
  references : exchange.socket.mReferenceCount = 1 + exchange.queued + exchange.pulled
  nonempty : 1 ≤ exchange.socket.mSendBuf.mLength
  fits : exchange.socket.mSendBuf.mLength ≤ bufferSize
  nonnegative : 0 ≤ exchange.socket.mSendPos
  zeroed : exchange.received = true ↔ exchange.socket.mSendPos = 0

namespace Exchange.Counted

variable {exchange : Exchange} (counted : exchange.Counted)

include counted

/-- A reference is left for every pulled message. -/
theorem sendCount_mSendPos :
    exchange.socket.sendCount.mSendPos =
      exchange.socket.mSendPos + exchange.socket.mSendBuf.mLength := by
  have reference : exchange.socket.mReferenceCount > 0 := by
    rw [counted.references]
    omega
  simp only [TcpSocket.sendCount, if_pos reference, Buffer.getSize_eq counted.fits]

theorem sendCount_mReferenceCount :
    exchange.socket.sendCount.mReferenceCount = exchange.queued + exchange.pulled := by
  have reference : exchange.socket.mReferenceCount > 0 := by
    rw [counted.references]
    omega
  simp only [TcpSocket.sendCount, if_pos reference]
  rw [counted.references]
  omega

theorem sendCount_positive : 0 < exchange.socket.sendCount.mSendPos := by
  have := counted.sendCount_mSendPos
  have := counted.nonempty
  have := counted.nonnegative
  omega

/-- `send_buf` as every call of it goes between such operations. -/
theorem sendBuf_eq (heap : Nat → UInt8) {chunks : List Nat}
    (accepts : Accepts exchange.socket chunks) :
    ∃ ended, exchange.socket.sendBuf heap (accepted chunks) = some ended ∧ ended.ret = 0 ∧
      ended.socket = exchange.socket.sendCount ∧
      ended.wire = window (exchange.socket.sendCopy heap) 0 chunks.sum ∧
      (0, exchange.socket.sendCount.mSendPos) ∈ ended.offered ∧
      ∀ offer ∈ ended.offered,
        offer.1 + offer.2 = exchange.socket.sendCount.mSendPos :=
  sendBuf_accepted _ heap chunks (Nat.one_le_iff_ne_zero.mp counted.nonempty)
    (Int.ne_of_gt counted.sendCount_positive) accepts

end Exchange.Counted

theorem sendCount_mSendBuf {β : Type} (socket : TcpSocket β) :
    socket.sendCount.mSendBuf = socket.mSendBuf := by
  unfold TcpSocket.sendCount
  split <;> rfl

theorem counted_new (sendBlock recvBlock : Nat → UInt8) :
    Exchange.Counted ⟨.new sendBlock recvBlock, 0, 0, false⟩ where
  references := rfl
  nonempty := Nat.le_refl 1
  fits := show 1 ≤ bufferSize by decide
  nonnegative := show (0 : Int) ≤ 6 by decide
  zeroed := show false = true ↔ (6 : Int) = 0 by decide

/-- Every operation keeps the counts. -/
theorem counted_step {before after : Exchange} {label : ExchangeLabel}
    (counted : before.Counted) (taken : before.step? label = some after) : after.Counted := by
  cases label with
  | addUndoTask =>
      simp only [Exchange.step?] at taken
      split at taken
      · cases taken
        refine ⟨?_, counted.nonempty, counted.fits, counted.nonnegative, counted.zeroed⟩
        have references := counted.references
        simp only [TcpSocket.getSendBufLenAddr]
        omega
      · cases taken
  | pullMsg =>
      simp only [Exchange.step?] at taken
      split at taken
      · cases taken
      · next rest queued =>
          cases taken
          refine ⟨?_, counted.nonempty, counted.fits, counted.nonnegative, counted.zeroed⟩
          have references := counted.references
          simp only
          omega
  | writeReply reply =>
      simp only [Exchange.step?] at taken
      split at taken
      · next fits =>
          cases taken
          exact ⟨counted.references, fits.2.1, fits.2.2, counted.nonnegative, counted.zeroed⟩
      · cases taken
  | recvBuf results =>
      simp only [Exchange.step?] at taken
      split at taken
      · cases taken
      · next ended loop =>
          split at taken
          · cases taken
            have frame := readLoop_frame loop
            rw [frame]
            exact ⟨counted.references, counted.nonempty, counted.fits, Int.le_refl 0,
              ⟨fun _ => rfl, fun _ => rfl⟩⟩
          · cases taken
  | pushMsg heap chunks =>
      simp only [Exchange.step?] at taken
      split at taken
      · next accepts =>
          split at taken
          · next rest ended pulled sent =>
              cases taken
              obtain ⟨same, loop, _, after_eq, _⟩ := counted.sendBuf_eq heap accepts.1
              rw [sent] at loop
              cases loop
              have references := counted.sendCount_mReferenceCount
              have positive := counted.sendCount_positive
              rw [after_eq]
              refine ⟨?_, ?_, ?_, Int.le_of_lt positive, ?_⟩
              · simp only [references, pulled]
                omega
              · simpa only [sendCount_mSendBuf] using counted.nonempty
              · simpa only [sendCount_mSendBuf] using counted.fits
              · simp only [Bool.false_eq_true, false_iff]
                omega
          · cases taken
      · cases taken

theorem reachable_counted {exchange : Exchange}
    (reached : exchangeMachine.Reachable exchange) : exchange.Counted := by
  refine Machine.Reachable.invariant ?_ ?_ reached
  · rintro first ⟨sendBlock, recvBlock, rfl⟩
    exact counted_new sendBlock recvBlock
  · intro before label after counted taken
    exact counted_step counted taken

/-- A call of `send_buf` does as it should: it writes the reply, the bytes below
`m_length`, and never offers `write` anything beyond its local copy. -/
def SendsReply (socket : TcpSocket UInt8) (heap : Nat → UInt8) (chunks : List Nat) : Prop :=
  ∃ ended, socket.sendBuf heap (accepted chunks) = some ended ∧
    ended.wire = socket.mSendBuf.getBuf ∧
    ∀ offer ∈ ended.offered, offer.1 + offer.2 ≤ bufferSize

/--
After any operations, a call of `send_buf` sends exactly the reply if and only
if `recv_buf` was called since the last `send_buf`, and since the socket was made
if there was none.
-/
theorem sendsReply_iff {exchange : Exchange} (reached : exchangeMachine.Reachable exchange)
    (heap : Nat → UInt8) {chunks : List Nat}
    (accepts : Accepts exchange.socket chunks) :
    SendsReply exchange.socket heap chunks ↔ exchange.received = true := by
  have counted := reachable_counted reached
  have amount := counted.sendCount_mSendPos
  obtain ⟨ended, sent, _, _, wire, _, offers⟩ := counted.sendBuf_eq heap accepts
  rw [counted.zeroed]
  constructor
  · rintro ⟨same, sentAgain, exact_reply, _⟩
    rw [sent] at sentAgain
    cases sentAgain
    -- The bytes on the wire are as many as `m_send_pos` says.
    have lengths := congrArg List.length exact_reply
    rw [wire, length_window, Buffer.length_getBuf] at lengths
    have sum := accepts.2
    omega
  · intro zeroed
    have sum : chunks.sum = exchange.socket.mSendBuf.mLength := by
      have total := accepts.2
      omega
    refine ⟨ended, sent, ?_, ?_⟩
    · rw [wire, sum]
      exact window_sendCopy _ _
    · intro offer member
      have offered := offers offer member
      have fits := counted.fits
      omega

/-- A message is made, a worker reads, the application pulls the message and
answers with `hello`. -/
def answered : List ExchangeLabel :=
  [.addUndoTask, .recvBuf [.data [104, 105]], .pullMsg, .writeReply [104, 101, 108, 108, 111]]

theorem sendsReply_answered :
    ∃ exchange, exchangeMachine.Reachable exchange ∧ 0 < exchange.pulled ∧
      Accepts exchange.socket [2, 3] ∧ SendsReply exchange.socket (fun _ => 0) [2, 3] := by
  obtain ⟨exchange, reached, ended⟩ := Machine.exists_reachableUnder_of_follow
    exchangeMachine (fun _ _ => True) answered
    (fun exchange => decide (0 < exchange.pulled) && exchange.received &&
      decide (Accepts exchange.socket [2, 3])) ⟨fun _ => 0, fun _ => 0, rfl⟩ (by decide)
  simp only [Bool.and_eq_true, decide_eq_true_eq] at ended
  obtain ⟨⟨pulled, received⟩, accepts⟩ := ended
  exact ⟨exchange, reached, pulled, accepts,
    (sendsReply_iff reached _ accepts).mpr received⟩

/-- The same without the worker: no `recv_buf` comes before the `send_buf`. -/
def unread : List ExchangeLabel :=
  [.addUndoTask, .pullMsg, .writeReply [104, 101, 108, 108, 111]]

/-- The first answer is sent with six zeros after it. -/
theorem unread_sends_eleven :
    ¬ ∀ exchange, exchangeMachine.Reachable exchange → 0 < exchange.pulled →
      ∀ heap chunks, Accepts exchange.socket chunks →
        SendsReply exchange.socket heap chunks := by
  intro always
  obtain ⟨exchange, reached, ended⟩ := Machine.exists_reachableUnder_of_follow
    exchangeMachine (fun _ _ => True) unread
    (fun exchange => decide (0 < exchange.pulled) &&
      decide (exchange.socket.mSendBuf.mLength = 5) &&
      decide (Accepts exchange.socket [11]) &&
      decide (((exchange.socket.sendBuf (fun _ => 0) (accepted [11])).map SendBuf.wire) =
        some [104, 101, 108, 108, 111, 0, 0, 0, 0, 0, 0]))
    ⟨fun _ => 0, fun _ => 0, rfl⟩ (by decide)
  simp only [Bool.and_eq_true, decide_eq_true_eq] at ended
  obtain ⟨⟨⟨pulled, five⟩, accepts⟩, wire⟩ := ended
  obtain ⟨sent, call, exact_reply, _⟩ := always exchange reached pulled (fun _ => 0) [11] accepts
  rw [call] at wire
  have eleven := congrArg List.length (Option.some.inj wire)
  rw [exact_reply, Buffer.length_getBuf, five] at eleven
  exact absurd eleven (by decide)

end LibNet.Net
