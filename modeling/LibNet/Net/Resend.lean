import LibNet.Net.SendBuf

/-!
# Calling `send_buf` again

A peer that takes a part of what it is offered and then refuses, and `send_buf` called
again after each -1 until it returns 0.  `send_buf` keeps no account of the part: it copies
the reply from its beginning and, after `EAGAIN`, takes -1 off `m_send_pos`, so every call
has more to write than the one before.
-/

namespace LibNet.Net

open LibNet.Runs
open LibNet.Base

variable {β : Type} [Byte β]

/-- One call of `send_buf`: what the heap holds behind the local copy, and the numbers of
bytes the writes accept. -/
structure Attempt (β : Type) where
  heap : Nat → β
  chunks : List Nat

/-- The results of the writes when `chunks` are accepted and then no more. -/
def refused (chunks : List Nat) : List WriteResult :=
  chunks.map .wrote ++ [.eagain]

/-- The chunks make up a part of what `send_buf` is going to offer. -/
def Refuses (socket : TcpSocket β) (chunks : List Nat) : Prop :=
  (∀ count ∈ chunks, 0 < count) ∧ ((chunks.sum : Nat) : Int) < socket.sendCount.mSendPos

instance (socket : TcpSocket β) (chunks : List Nat) : Decidable (Refuses socket chunks) :=
  inferInstanceAs (Decidable (_ ∧ _))

/-- `send_buf` called again after each -1 until it returns 0, and what it left on the wire. -/
def resend : TcpSocket β → List (Attempt β) → Attempt β → Option (List β)
  | socket, [], last =>
      if Accepts socket last.chunks then
        match socket.sendBuf last.heap (accepted last.chunks) with
        | some ended => if ended.ret = 0 then some ended.wire else none
        | none => none
      else none
  | socket, attempt :: rest, last =>
      if Refuses socket attempt.chunks then
        match socket.sendBuf attempt.heap (refused attempt.chunks) with
        | some ended =>
            if ended.ret = -1 then (resend ended.socket rest last).map (ended.wire ++ ·) else none
        | none => none
      else none

/-- What one `send_buf` leaves on the wire when the first `write` accepts everything. -/
def AtOnce (socket : TcpSocket β) (wire : List β) : Prop :=
  ∃ heap ended,
    socket.sendBuf heap (accepted [socket.sendCount.mSendPos.toNat]) = some ended ∧
      ended.ret = 0 ∧ ended.wire = wire

omit [Byte β] in
theorem SendFrame.advance_add (frame : SendFrame β) (first second : Nat) :
    frame.advance (first + second) = (frame.advance first).advance second := by
  simp only [SendFrame.advance, Nat.cast_add, Int.sub_sub, Nat.add_assoc]

omit [Byte β] in
/-- Chunks that are accepted are on the wire, and the loop goes on behind them. -/
theorem writeLoop_wrote {socket : TcpSocket β} {frame : SendFrame β} {chunks : List Nat}
    {rest : List WriteResult} {ended : SendBuf β} (positive : ∀ count ∈ chunks, 0 < count)
    (run : socket.writeLoop frame (chunks.map .wrote ++ rest) = some ended) :
    ∃ later, socket.writeLoop (frame.advance chunks.sum) rest = some later ∧
      ended.ret = later.ret ∧ ended.socket = later.socket ∧
      ended.wire = frame.chunk chunks.sum ++ later.wire := by
  induction chunks generalizing frame ended with
  | nil => exact ⟨ended, by simpa [SendFrame.advance] using run, rfl, rfl, rfl⟩
  | cons count others ih =>
      obtain ⟨less, rfl⟩ := Nat.exists_eq_add_one.mpr (positive count (List.mem_cons_self ..))
      rw [List.map_cons, List.cons_append, TcpSocket.writeLoop] at run
      split at run
      · cases run
      · next looped called =>
          cases run
          obtain ⟨later, loop, ret, same, wire⟩ :=
            ih (fun other member => positive other (List.mem_cons_of_mem _ member)) called
          refine ⟨later, ?_, ret, same, ?_⟩
          · rw [← loop, List.sum_cons, SendFrame.advance_add]
          · rw [wire, ← List.append_assoc]
            simp only [SendFrame.chunk, SendFrame.advance, List.sum_cons, window_add]

/-- `send_buf` that returns at once has written nothing. -/
theorem sendBuf_cases {socket : TcpSocket β} {heap : Nat → β} {results : List WriteResult}
    {ended : SendBuf β} (run : socket.sendBuf heap results = some ended) :
    (ended = ⟨0, socket.sendCount, [], []⟩ ∧
        (socket.mSendBuf.mLength = 0 ∨ socket.sendCount.mSendPos = 0)) ∨
      (socket.mSendBuf.mLength ≠ 0 ∧ socket.sendCount.mSendPos ≠ 0 ∧
        socket.sendCount.writeLoop ⟨socket.sendCopy heap, socket.sendCount.mSendPos, 0⟩ results =
          some ended) := by
  unfold TcpSocket.sendBuf TcpSocket.sendStart at run
  by_cases nothing : socket.mSendBuf.mLength = 0 ∨ socket.sendCount.mSendPos = 0
  · simp only [nothing, if_true] at run
    exact .inl ⟨(Option.some.inj run).symm, nothing⟩
  · simp only [nothing, if_false] at run
    exact .inr ⟨fun zero => nothing (.inl zero), fun zero => nothing (.inr zero), run⟩

/-- A call that was refused has written the chunks, and `m_send_pos` has grown. -/
theorem sendBuf_refused {socket : TcpSocket β} {heap : Nat → β} {chunks : List Nat}
    {ended : SendBuf β} (refuses : Refuses socket chunks)
    (run : socket.sendBuf heap (refused chunks) = some ended) (failed : ended.ret = -1) :
    socket.mSendBuf.mLength ≠ 0 ∧ ended.wire.length = chunks.sum ∧
      ended.socket =
        { socket.sendCount with mSendPos := socket.sendCount.mSendPos + 1 } := by
  rcases sendBuf_cases run with ⟨rfl, _⟩ | ⟨reply, _, loop⟩
  · cases failed
  · obtain ⟨later, ends, _, same, wire⟩ := writeLoop_wrote refuses.1 loop
    have some_left : socket.sendCount.mSendPos - (chunks.sum : Int) ≠ 0 := by
      have part := refuses.2
      omega
    simp only [TcpSocket.writeLoop, TcpSocket.sendEnd, SendFrame.advance, some_left, if_false]
      at ends
    cases ends
    refine ⟨reply, ?_, ?_⟩
    · rw [wire, List.append_nil, SendFrame.chunk, length_window]
    · rw [same, Int.sub_neg]

/-- A call that was accepted returns 0 and has written all `m_send_pos` counts. -/
theorem sendBuf_all {socket : TcpSocket β} {heap : Nat → β} {chunks : List Nat}
    {ended : SendBuf β} (accepts : Accepts socket chunks)
    (run : socket.sendBuf heap (accepted chunks) = some ended) :
    ended.ret = 0 ∧
      (ended.wire = [] ∧ (socket.mSendBuf.mLength = 0 ∨ socket.sendCount.mSendPos = 0) ∨
        socket.mSendBuf.mLength ≠ 0 ∧
          ended.wire = window (socket.sendCopy heap) 0 socket.sendCount.mSendPos.toNat) := by
  rcases sendBuf_cases run with ⟨rfl, nothing⟩ | ⟨reply, some_left, _⟩
  · exact ⟨rfl, .inl ⟨rfl, nothing⟩⟩
  · obtain ⟨other, call, ret, _, wire, _⟩ := sendBuf_accepted socket heap chunks reply some_left
      accepts
    rw [run] at call
    cases call
    rw [← accepts.2, Int.toNat_natCast]
    exact ⟨ret, .inr ⟨reply, wire⟩⟩

section AtOnce

variable {socket : TcpSocket β}

omit [Byte β] in
/-- Everything at once is a way of accepting it. -/
theorem accepts_singleton (positive : 0 < socket.sendCount.mSendPos) :
    Accepts socket [socket.sendCount.mSendPos.toNat] := by
  constructor
  · intro count member
    rw [List.mem_singleton.mp member]
    omega
  · rw [List.sum_singleton]
    omega

/-- A call that is accepted in pieces writes what one accepted at once does. -/
theorem atOnce_of_accepts {heap : Nat → β} {chunks : List Nat} {ended : SendBuf β}
    (accepts : Accepts socket chunks)
    (run : socket.sendBuf heap (accepted chunks) = some ended) : AtOnce socket ended.wire := by
  by_cases nothing : socket.mSendBuf.mLength = 0 ∨ socket.sendCount.mSendPos = 0
  · refine ⟨heap, ended, ?_, (sendBuf_all accepts run).1, rfl⟩
    rw [← run]
    simp only [TcpSocket.sendBuf, TcpSocket.sendStart, nothing, if_true]
  · obtain ⟨reply, some_left⟩ := not_or.mp nothing
    have positive : 0 < socket.sendCount.mSendPos := by
      have whole := accepts.2
      omega
    obtain ⟨other, call, ret, _, wire, _⟩ := sendBuf_accepted socket heap _ reply some_left
      (accepts_singleton positive)
    refine ⟨heap, other, call, ret, ?_⟩
    rcases (sendBuf_all accepts run).2 with ⟨_, impossible⟩ | ⟨_, whole⟩
    · exact absurd impossible nothing
    · rw [wire, whole, List.sum_singleton]

theorem AtOnce.length {wire : List β} (atOnce : AtOnce socket wire)
    (reply : socket.mSendBuf.mLength ≠ 0) (positive : 0 < socket.sendCount.mSendPos) :
    (wire.length : Int) = socket.sendCount.mSendPos := by
  obtain ⟨heap, ended, run, _, rfl⟩ := atOnce
  rcases (sendBuf_all (accepts_singleton positive) run).2 with ⟨_, nothing⟩ | ⟨_, whole⟩
  · omega
  · rw [whole, length_window]
    omega

omit [Byte β] in
/-- Counting a reply in takes nothing off `m_send_pos`. -/
theorem le_sendCount (fits : socket.mSendBuf.mLength ≤ bufferSize) :
    socket.mSendPos ≤ socket.sendCount.mSendPos ∧ socket.sendCount.mSendBuf = socket.mSendBuf := by
  unfold TcpSocket.sendCount
  split
  · refine ⟨?_, rfl⟩
    dsimp only
    rw [Buffer.getSize_eq fits]
    omega
  · exact ⟨Int.le_refl _, rfl⟩

end AtOnce

section Resend

variable {socket : TcpSocket β} {attempts rest : List (Attempt β)} {attempt last : Attempt β}
  {wire : List β}

theorem of_resend_nil (sent : resend socket [] last = some wire) :
    Accepts socket last.chunks ∧
      ∃ ended, socket.sendBuf last.heap (accepted last.chunks) = some ended ∧
        ended.wire = wire := by
  rw [resend] at sent
  split at sent
  · next accepts =>
      split at sent
      · next ended run =>
          split at sent
          · exact ⟨accepts, ended, run, Option.some.inj sent⟩
          · cases sent
      · cases sent
  · cases sent

theorem of_resend_cons (sent : resend socket (attempt :: rest) last = some wire) :
    Refuses socket attempt.chunks ∧
      ∃ ended later, socket.sendBuf attempt.heap (refused attempt.chunks) = some ended ∧
        ended.ret = -1 ∧ resend ended.socket rest last = some later ∧
        wire = ended.wire ++ later := by
  rw [resend] at sent
  split at sent
  · next refuses =>
      split at sent
      · next ended run =>
          split at sent
          · next failed =>
              obtain ⟨later, again, isWire⟩ := Option.map_eq_some_iff.mp sent
              exact ⟨refuses, ended, later, run, failed, again, isWire.symm⟩
          · cases sent
      · cases sent
  · cases sent

/-- Every call that was refused leaves at least one byte more to be written. -/
theorem length_resend (fits : socket.mSendBuf.mLength ≤ bufferSize)
    (reply : socket.mSendBuf.mLength ≠ 0) (sent : resend socket attempts last = some wire) :
    socket.sendCount.mSendPos + attempts.length ≤ wire.length := by
  induction attempts generalizing socket wire with
  | nil =>
      obtain ⟨accepts, ended, run, rfl⟩ := of_resend_nil sent
      rw [List.length_nil]
      rcases (sendBuf_all accepts run).2 with ⟨_, nothing⟩ | ⟨_, whole⟩
      · omega
      · rw [whole, length_window]
        omega
  | cons attempt rest ih =>
      obtain ⟨refuses, ended, later, run, failed, again, rfl⟩ := of_resend_cons sent
      obtain ⟨_, part, isNext⟩ := sendBuf_refused refuses run failed
      have same : ended.socket.mSendBuf = socket.mSendBuf := by
        rw [isNext]
        exact (le_sendCount fits).2
      have grown : ended.socket.mSendPos = socket.sendCount.mSendPos + 1 := by
        rw [isNext]
      have counted := (le_sendCount (same ▸ fits)).1
      have more := ih (same ▸ fits) (same ▸ reply) again
      rw [List.length_cons, List.length_append]
      omega

end Resend

/-- `send_buf` called again until it returns 0 leaves on the wire what one call would, whose
first `write` accepts everything, exactly if it never had to be called again. -/
theorem resend_same_iff (socket : TcpSocket β) (attempts : List (Attempt β)) (last : Attempt β)
    (wire : List β) (fits : socket.mSendBuf.mLength ≤ bufferSize)
    (sent : resend socket attempts last = some wire) :
    AtOnce socket wire ↔ attempts = [] := by
  cases attempts with
  | nil =>
      obtain ⟨accepts, ended, run, rfl⟩ := of_resend_nil sent
      exact iff_of_true (atOnce_of_accepts accepts run) rfl
  | cons attempt rest =>
      refine iff_of_false (fun atOnce => ?_) (List.cons_ne_nil attempt rest)
      obtain ⟨refuses, ended, later, run, failed, again, rfl⟩ := of_resend_cons sent
      have reply := (sendBuf_refused refuses run failed).1
      have longer := length_resend fits reply sent
      have part := refuses.2
      have same := atOnce.length reply (by omega)
      rw [List.length_cons] at longer
      omega

/-- A socket with the reply `hi`, which nobody has counted in yet. -/
def withReply : TcpSocket UInt8 :=
  { TcpSocket.new (fun _ => 0) (fun _ => 0) with
    mSendPos := 0
    mSendBuf := ⟨layout [104, 105] fun _ => 0, 2⟩ }

/-- The reply is taken byte by byte. -/
theorem reply_in_pieces : AtOnce withReply [104, 105] :=
  (resend_same_iff withReply [] ⟨fun _ => 0, [1, 1]⟩ [104, 105] (by decide) (by decide)).mpr rfl

/-- The first byte is taken and then no more; the second call writes the reply from its
beginning, and a zero behind it. -/
theorem first_byte_sent_twice :
    resend withReply [⟨fun _ => 0, [1]⟩] ⟨fun _ => 0, [3]⟩ = some [104, 104, 105, 0] ∧
      ¬ AtOnce withReply [104, 104, 105, 0] := by
  refine ⟨by decide, fun atOnce => ?_⟩
  exact absurd (atOnce.length (by decide) (by decide)) (by decide)

end LibNet.Net
