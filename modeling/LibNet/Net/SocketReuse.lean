import LibNet.Net.SendBuf

/-!
# What a connection leaves behind in its task

A task serves one connection after another.  `reset` gives up the descriptor and
cleans both buffers, but `m_send_pos` and `m_reference_count` stay as the earlier
connections left them, and `send_buf` counts with both.  Two histories of a socket
cannot be told apart by what comes after `reset` and `set_fd` just when they leave
the same values in these two fields.
-/

namespace LibNet.Net

open LibNet.Runs
open LibNet.Base

variable {β : Type}

/-- The operations on a socket, with the results of their system calls. -/
inductive SocketOp (β : Type) where
  | recvBuf (results : List (ReadResult β))
  | getMsg
  | getSendBufLenAddr
  | writeReply (reply : List β)
  | sendBuf (heap : Nat → β) (results : List WriteResult)

/-- What is seen of an operation: what it returns, the payload, and the bytes it
offers to each `write`. -/
inductive Seen (β : Type) where
  | returned (ret : Int)
  | payload (bytes : List β)
  | silent
  | sent (ret : Int) (offers : List (List β))
  deriving DecidableEq

/-- A `read` of at most `BUFFER_SIZE-1` bytes that is not at the end of the
stream returns some. -/
def ReadResult.Possible : ReadResult β → Prop
  | .data bytes => 0 < bytes.length ∧ bytes.length ≤ bufferSize - 1
  | _ => True

instance : DecidablePred (@ReadResult.Possible β)
  | .data bytes => inferInstanceAs (Decidable (0 < bytes.length ∧ bytes.length ≤ bufferSize - 1))
  | .eof => instDecidableTrue
  | .eagain => instDecidableTrue
  | .error => instDecidableTrue

section Perform

variable [Byte β]

/-- The bytes offered to the writes of a call. -/
def TcpSocket.offers (socket : TcpSocket β) (heap : Nat → β) (ended : SendBuf β) :
    List (List β) :=
  ended.offered.map fun offer => window (socket.sendCopy heap) offer.1 offer.2.toNat

/-- One operation.  A copy past a buffer and a sum past the largest `int` are
undefined, and a `write` never takes more than it is offered. -/
def TcpSocket.perform? (socket : TcpSocket β) : SocketOp β → Option (Seen β × TcpSocket β)
  | .recvBuf results =>
      match socket.recvBuf results with
      | none => none
      | some ended =>
          if (∀ result ∈ results, result.Possible) ∧ ended.copied ≤ bufferSize then
            some (.returned ended.ret, ended.socket)
          else none
  | .getMsg => some (.payload socket.getMsg, socket)
  | .getSendBufLenAddr =>
      if socket.mReferenceCount < Exchange.intMax then some (.silent, socket.getSendBufLenAddr)
      else none
  | .writeReply reply =>
      if reply.length ≤ bufferSize then some (.silent, socket.writeReply reply) else none
  | .sendBuf heap results =>
      match socket.sendBuf heap results with
      | none => none
      | some ended =>
          if socket.sendCount.mSendPos ≤ Exchange.intMax ∧
              ended.socket.mSendPos ≤ Exchange.intMax ∧ ∀ offer ∈ ended.offered, 0 ≤ offer.2 then
            some (.sent ended.ret (socket.offers heap ended), ended.socket)
          else none

/-- What is seen of operations one after the other, up to an undefined one. -/
def TcpSocket.observe (socket : TcpSocket β) : List (SocketOp β) → List (Option (Seen β))
  | [] => []
  | op :: rest =>
      match socket.perform? op with
      | none => [none]
      | some (seen, next) => some seen :: next.observe rest

/-- No operations tell the sockets apart. -/
def Indistinguishable (first second : TcpSocket β) : Prop :=
  ∀ ops, first.observe ops = second.observe ops

end Perform

/-- What happens to the socket of a task over its connections. -/
inductive Use (β : Type) where
  | op (op : SocketOp β)
  | reset
  | setFd (connFd : Int)

/-- Histories of a socket. -/
def socketUses (β : Type) [Byte β] : Machine (TcpSocket β) (Use β) where
  Start := fun socket => ∃ sendBlock recvBlock, socket = .new sendBlock recvBlock
  step? := fun socket use =>
    match use with
    | .op op => (socket.perform? op).map Prod.snd
    | .reset => some socket.reset
    | .setFd connFd => some (socket.setFd connFd)

/-! ## Sockets that behave alike -/

/-- The same messages in the buffers, the same descriptor and the same counts. -/
structure Alike (first second : TcpSocket β) : Prop where
  socket : first.mSocket = second.mSocket
  references : first.mReferenceCount = second.mReferenceCount
  sendPos : first.mSendPos = second.mSendPos
  reply : first.mSendBuf.getBuf = second.mSendBuf.getBuf
  request : first.mRecvBuf.getBuf = second.mRecvBuf.getBuf

/-- Buffers with the same message have it at the same length. -/
theorem mLength_eq_of_getBuf {first second : Buffer β} (same : first.getBuf = second.getBuf) :
    first.mLength = second.mLength := by
  rw [← first.length_getBuf, ← second.length_getBuf, same]

/-- Copies of buffers with the same message are the same. -/
theorem memcpy_eq_of_getBuf {first second : Buffer β} (same : first.getBuf = second.getBuf)
    (block : Nat → β) :
    memcpy block first.mBuf first.mLength = memcpy block second.mBuf second.mLength := by
  have lengths := mLength_eq_of_getBuf same
  rw [Buffer.getBuf_eq_window, Buffer.getBuf_eq_window, lengths] at same
  funext position
  simp only [memcpy, lengths]
  split
  · next below =>
      have cells := congrArg (fun bytes => bytes[position]?) same
      simpa only [getElem?_window, if_pos below, Option.some.injEq, Nat.zero_add] using cells
  · rfl

theorem getBuf_putBuf_congr {first second : Buffer β} (same : first.getBuf = second.getBuf)
    (source : Nat → β) (length : Nat) :
    (first.putBuf (some source) length).buffer.getBuf =
        (second.putBuf (some source) length).buffer.getBuf ∧
      (first.putBuf (some source) length).copied =
        (second.putBuf (some source) length).copied := by
  by_cases nothing : length = 0
  · simp only [Buffer.putBuf, if_pos nothing]
    exact ⟨same, trivial⟩
  · rw [Buffer.getBuf_putBuf _ _ nothing, Buffer.getBuf_putBuf _ _ nothing]
    simp only [Buffer.putBuf, if_neg nothing, and_self]

theorem sendBuf_eq [Byte β] (socket : TcpSocket β) (heap : Nat → β)
    (results : List WriteResult) :
    socket.sendBuf heap results =
      if socket.mSendBuf.mLength = 0 ∨ socket.sendCount.mSendPos = 0 then
        some ⟨0, socket.sendCount, [], []⟩
      else
        socket.sendCount.writeLoop ⟨socket.sendCopy heap, socket.sendCount.mSendPos, 0⟩
          results := by
  unfold TcpSocket.sendBuf TcpSocket.sendStart
  by_cases nothing : socket.mSendBuf.mLength = 0 ∨ socket.sendCount.mSendPos = 0
  · simp only [if_pos nothing]
  · simp only [if_neg nothing]

namespace Alike

variable {first second : TcpSocket β} (alike : Alike first second)

include alike

theorem sendCount : Alike first.sendCount second.sendCount := by
  have sizes : first.mSendBuf.getSize = second.mSendBuf.getSize := by
    simp only [Buffer.getSize, mLength_eq_of_getBuf alike.reply]
  unfold TcpSocket.sendCount
  rw [alike.references]
  split
  · exact ⟨alike.socket, rfl, by rw [alike.sendPos, sizes], alike.reply, alike.request⟩
  · exact alike

theorem sendEnd (left : Int) (last : WriteResult) :
    (first.sendEnd left last).1 = (second.sendEnd left last).1 ∧
      Alike (first.sendEnd left last).2 (second.sendEnd left last).2 := by
  unfold TcpSocket.sendEnd
  split
  · exact ⟨rfl, alike⟩
  · cases last with
    | eagain =>
        exact ⟨rfl, alike.socket, alike.references, by rw [alike.sendPos], alike.reply,
          alike.request⟩
    | wrote count => exact ⟨rfl, alike⟩
    | error => exact ⟨rfl, alike⟩

/-- The loops of two calls of `send_buf` over the same results. -/
theorem writeLoop (frame : SendFrame β) (results : List WriteResult) :
    Option.Rel (fun one other => one.ret = other.ret ∧ one.offered = other.offered ∧
        Alike one.socket other.socket)
      (first.writeLoop frame results) (second.writeLoop frame results) := by
  induction results generalizing frame with
  | nil => exact .none
  | cons result rest ih =>
      have ended := alike.sendEnd frame.left result
      cases result with
      | eagain => exact .some ⟨ended.1, rfl, ended.2⟩
      | error => exact .some ⟨ended.1, rfl, ended.2⟩
      | wrote count =>
          cases count with
          | zero => exact .some ⟨ended.1, rfl, ended.2⟩
          | succ count =>
              have later := ih (frame.advance (count + 1))
              simp only [TcpSocket.writeLoop]
              revert later
              generalize first.writeLoop (frame.advance (count + 1)) rest = one
              generalize second.writeLoop (frame.advance (count + 1)) rest = other
              rintro (⟨ret, offered, sockets⟩ | _)
              · exact .some ⟨ret, by rw [offered], sockets⟩
              · exact .none

theorem readLoop [Byte β] (length : Int) (results : List (ReadResult β)) :
    Option.Rel (fun one other => one.ret = other.ret ∧ one.copied = other.copied ∧
        Alike one.socket other.socket)
      (first.readLoop length results) (second.readLoop length results) := by
  induction results generalizing length with
  | nil => exact .none
  | cons result rest ih =>
      simp only [TcpSocket.readLoop]
      cases TcpSocket.recvNext length result with
      | again total => exact ih total
      | peerClosed => exact .some ⟨rfl, rfl, alike⟩
      | store total bytes =>
          have put := getBuf_putBuf_congr alike.request (layout bytes fun _ => Byte.zero)
            (TcpSocket.storeLength total)
          exact .some ⟨rfl, put.2, alike.socket, alike.references, alike.sendPos, alike.reply,
            put.1⟩

variable [Byte β]

theorem sendBuf (heap : Nat → β) (results : List WriteResult) :
    Option.Rel (fun one other => one.ret = other.ret ∧ one.offered = other.offered ∧
        Alike one.socket other.socket)
      (first.sendBuf heap results) (second.sendBuf heap results) := by
  have copies : first.sendCopy heap = second.sendCopy heap :=
    memcpy_eq_of_getBuf alike.reply _
  have counted := alike.sendCount
  rw [sendBuf_eq, sendBuf_eq, mLength_eq_of_getBuf alike.reply, counted.sendPos, copies]
  split
  · exact .some ⟨rfl, rfl, counted⟩
  · exact counted.writeLoop _ results

/-- An operation shows the same of both sockets and leaves them alike. -/
theorem perform (op : SocketOp β) :
    Option.Rel (fun one other => one.1 = other.1 ∧ Alike one.2 other.2)
      (first.perform? op) (second.perform? op) := by
  cases op with
  | recvBuf results =>
      have started : Alike first.recvStart second.recvStart :=
        ⟨alike.socket, alike.references, rfl, alike.reply, alike.request⟩
      have loops := started.readLoop 0 results
      simp only [TcpSocket.perform?, TcpSocket.recvBuf]
      revert loops
      generalize first.recvStart.readLoop 0 results = one
      generalize second.recvStart.readLoop 0 results = other
      rintro (⟨ret, copied, sockets⟩ | _)
      · simp only [ret, copied]
        split
        · exact .some ⟨rfl, sockets⟩
        · exact .none
      · exact .none
  | getMsg => exact .some ⟨congrArg Seen.payload alike.request, alike⟩
  | getSendBufLenAddr =>
      simp only [TcpSocket.perform?, alike.references]
      split
      · exact .some ⟨rfl, alike.socket, congrArg (· + 1) alike.references, alike.sendPos,
          alike.reply, alike.request⟩
      · exact .none
  | writeReply reply =>
      simp only [TcpSocket.perform?]
      split
      · refine .some ⟨rfl, alike.socket, alike.references, alike.sendPos, ?_, alike.request⟩
        simp only [TcpSocket.writeReply, Buffer.getBuf_eq_window,
          window_layout _ _ (Nat.le_refl _)]
      · exact .none
  | sendBuf heap results =>
      have calls := alike.sendBuf heap results
      have copies : first.sendCopy heap = second.sendCopy heap :=
        memcpy_eq_of_getBuf alike.reply _
      simp only [TcpSocket.perform?, alike.sendCount.sendPos]
      revert calls
      generalize first.sendBuf heap results = one
      generalize second.sendBuf heap results = other
      rintro (⟨ret, offered, sockets⟩ | _)
      · simp only [TcpSocket.offers, ret, offered, sockets.sendPos, copies]
        split
        · exact .some ⟨rfl, sockets⟩
        · exact .none
      · exact .none

/-- Sockets that are alike stay so over any operations. -/
theorem indistinguishable : Indistinguishable first second := by
  intro ops
  induction ops generalizing first second with
  | nil => rfl
  | cons op rest ih =>
      have steps := alike.perform op
      simp only [TcpSocket.observe]
      revert steps
      generalize first.perform? op = one
      generalize second.perform? op = other
      rintro (⟨seen, sockets⟩ | _)
      · simp only [seen, ih sockets]
      · rfl

end Alike

/-- `send_buf` after its loop changes `m_send_pos` alone, and never lowers it. -/
theorem writeLoop_frame {socket : TcpSocket β} {frame : SendFrame β}
    {results : List WriteResult} {ended : SendBuf β}
    (loop : socket.writeLoop frame results = some ended) :
    ended.socket = { socket with mSendPos := ended.socket.mSendPos } ∧
      socket.mSendPos ≤ ended.socket.mSendPos := by
  have finish : ∀ left last, (socket.sendEnd left last).2 =
        { socket with mSendPos := (socket.sendEnd left last).2.mSendPos } ∧
      socket.mSendPos ≤ (socket.sendEnd left last).2.mSendPos := by
    intro left last
    unfold TcpSocket.sendEnd
    split
    · exact ⟨rfl, Int.le_refl _⟩
    · cases last with
      | eagain => exact ⟨rfl, by simp only; omega⟩
      | wrote count => exact ⟨rfl, Int.le_refl _⟩
      | error => exact ⟨rfl, Int.le_refl _⟩
  induction results generalizing frame ended with
  | nil => cases loop
  | cons result rest ih =>
      cases result with
      | eagain =>
          cases loop
          exact finish _ _
      | error =>
          cases loop
          exact finish _ _
      | wrote count =>
          cases count with
          | zero =>
              cases loop
              exact finish _ _
          | succ count =>
              simp only [TcpSocket.writeLoop] at loop
              split at loop
              · cases loop
              · next later rest_loop =>
                  cases loop
                  have frames := ih rest_loop
                  exact frames

/-- The bounds every history keeps on the fields `reset` leaves as they are. -/
structure Kept (socket : TcpSocket β) : Prop where
  references : 0 ≤ socket.mReferenceCount
  nonnegative : 0 ≤ socket.mSendPos
  representable : socket.mSendPos ≤ Exchange.intMax
  fits : socket.mSendBuf.mLength ≤ bufferSize

/-- `send_buf` uses up a reference only if there is one, and adds a length. -/
theorem Kept.sendCount {socket : TcpSocket β} (kept : Kept socket) :
    0 ≤ socket.sendCount.mReferenceCount ∧ 0 ≤ socket.sendCount.mSendPos := by
  have size := Buffer.getSize_eq kept.fits
  have references := kept.references
  have nonnegative := kept.nonnegative
  unfold TcpSocket.sendCount
  split
  · constructor
    · simp only
      omega
    · simp only [size]
      omega
  · exact ⟨references, nonnegative⟩

section Histories

variable [Byte β]

theorem kept_perform {socket after : TcpSocket β} {op : SocketOp β} {seen : Seen β}
    (kept : Kept socket) (taken : socket.perform? op = some (seen, after)) : Kept after := by
  cases op with
  | recvBuf results =>
      simp only [TcpSocket.perform?] at taken
      split at taken
      · cases taken
      · next ended loop =>
          split at taken
          · cases taken
            rw [readLoop_frame loop]
            exact ⟨kept.references, Int.le_refl 0, show (0 : Int) ≤ Exchange.intMax by decide,
              kept.fits⟩
          · cases taken
  | getMsg =>
      cases taken
      exact kept
  | getSendBufLenAddr =>
      simp only [TcpSocket.perform?] at taken
      split at taken
      · cases taken
        exact ⟨Int.le_trans kept.references (Int.le_add_one (Int.le_refl _)), kept.nonnegative,
          kept.representable, kept.fits⟩
      · cases taken
  | writeReply reply =>
      simp only [TcpSocket.perform?] at taken
      split at taken
      · next fits =>
          cases taken
          exact ⟨kept.references, kept.nonnegative, kept.representable, fits⟩
      · cases taken
  | sendBuf heap results =>
      simp only [TcpSocket.perform?] at taken
      split at taken
      · cases taken
      · next ended sent =>
          split at taken
          · next possible =>
              cases taken
              have counted := kept.sendCount
              have fits : socket.sendCount.mSendBuf.mLength ≤ bufferSize := by
                rw [sendCount_mSendBuf]
                exact kept.fits
              rw [sendBuf_eq] at sent
              split at sent
              · cases sent
                exact ⟨counted.1, counted.2, possible.1, fits⟩
              · obtain ⟨frame, grown⟩ := writeLoop_frame sent
                have representable := possible.2.1
                rw [frame] at representable ⊢
                exact ⟨counted.1, Int.le_trans counted.2 grown, representable, fits⟩
          · cases taken

theorem reachable_kept {socket : TcpSocket β} (reached : (socketUses β).Reachable socket) :
    Kept socket := by
  refine Machine.Reachable.invariant ?_ ?_ reached
  · rintro first ⟨sendBlock, recvBlock, rfl⟩
    exact ⟨show (0 : Int) ≤ 1 by decide, show (0 : Int) ≤ 6 by decide,
      show (6 : Int) ≤ Exchange.intMax by decide, show 1 ≤ bufferSize by decide⟩
  · intro before use after kept taken
    cases use with
    | op op =>
        obtain ⟨⟨seen, next⟩, performed, rfl⟩ := Option.map_eq_some_iff.mp taken
        exact kept_perform kept performed
    | reset =>
        cases taken
        exact ⟨kept.references, kept.nonnegative, kept.representable, Nat.zero_le _⟩
    | setFd connFd =>
        cases taken
        exact ⟨kept.references, kept.nonnegative, kept.representable, kept.fits⟩

end Histories

/-! ## Telling sockets apart -/

/-- A socket without a reply, as `reset` leaves it. -/
structure Clean (socket : TcpSocket β) : Prop extends Kept socket where
  empty : socket.mSendBuf.mLength = 0

/-- `send_buf` without a reply, time and again: each call takes a reference. -/
def drain (β : Type) [Byte β] (count : Nat) : List (SocketOp β) :=
  List.replicate count (.sendBuf (fun _ => Byte.zero) [])

/-- A reply of one byte, and a `send_buf` whose `write` fails. -/
def probe (β : Type) [Byte β] : List (SocketOp β) :=
  [.writeReply [Byte.zero], .sendBuf (fun _ => Byte.zero) [.error]]

/-- The number of bytes offered. -/
def Seen.offered : Seen β → Nat
  | .sent _ offers => (offers.map List.length).sum
  | _ => 0

section Probing

variable [Byte β]

/-- `recv_buf` at the end of the stream: `m_send_pos` is zeroed all the same. -/
theorem observe_eof (socket : TcpSocket β) (rest : List (SocketOp β)) :
    socket.observe (.recvBuf [.eof] :: rest) =
      some (.returned (-1)) :: socket.recvStart.observe rest := by
  have possible : ∀ result ∈ [(ReadResult.eof : ReadResult β)], result.Possible := by
    intro result member
    rw [List.mem_singleton.mp member]
    trivial
  simp only [TcpSocket.observe, TcpSocket.perform?, TcpSocket.recvBuf, TcpSocket.readLoop,
    TcpSocket.recvNext]
  rw [if_pos ⟨possible, Nat.zero_le _⟩]

/-- A `send_buf` whose first `write` fails offers what it counted, if anything. -/
theorem perform_failing_write {socket : TcpSocket β} (heap : Nat → β)
    (reply : socket.mSendBuf.mLength ≠ 0) (nonnegative : 0 ≤ socket.sendCount.mSendPos)
    (representable : socket.sendCount.mSendPos ≤ Exchange.intMax) :
    ∃ seen after, socket.perform? (.sendBuf heap [.error]) = some (seen, after) ∧
      seen.offered = socket.sendCount.mSendPos.toNat := by
  by_cases nothing : socket.sendCount.mSendPos = 0
  · refine ⟨.sent 0 [], socket.sendCount, ?_, by rw [nothing]; rfl⟩
    simp only [TcpSocket.perform?, sendBuf_eq, if_pos (Or.inr nothing)]
    rw [if_pos ⟨representable, representable, by simp⟩]
    rfl
  · refine ⟨.sent (-1) [window (socket.sendCopy heap) 0 socket.sendCount.mSendPos.toNat],
      socket.sendCount, ?_, ?_⟩
    · have starts : ¬ (socket.mSendBuf.mLength = 0 ∨ socket.sendCount.mSendPos = 0) :=
        not_or.mpr ⟨reply, nothing⟩
      simp only [TcpSocket.perform?, sendBuf_eq, if_neg starts, TcpSocket.writeLoop,
        TcpSocket.sendEnd, if_neg nothing]
      rw [if_pos ⟨representable, representable, by simpa using nonnegative⟩]
      rfl
    · simp only [Seen.offered, List.map_cons, List.map_nil, length_window, List.sum_singleton]

namespace Clean

variable {socket : TcpSocket β}

omit [Byte β] in
theorem recvStart (clean : Clean socket) : Clean socket.recvStart where
  references := clean.references
  nonnegative := Int.le_refl 0
  representable := show (0 : Int) ≤ Exchange.intMax by decide
  fits := clean.fits
  empty := clean.empty

omit [Byte β] in
/-- Without a reply a reference is taken and nothing is added. -/
theorem sendCount_eq (clean : Clean socket) (referenced : 0 < socket.mReferenceCount) :
    socket.sendCount = { socket with mReferenceCount := socket.mReferenceCount - 1 } := by
  have size : socket.mSendBuf.getSize = 0 := by
    rw [Buffer.getSize_eq clean.fits, clean.empty]
    rfl
  simp only [TcpSocket.sendCount, if_pos referenced, size, Int.add_zero]

omit [Byte β] in
theorem drop (clean : Clean socket) {count : Int} (enough : count ≤ socket.mReferenceCount) :
    Clean { socket with mReferenceCount := socket.mReferenceCount - count } where
  references := Int.sub_nonneg.mpr enough
  nonnegative := clean.nonnegative
  representable := clean.representable
  fits := clean.fits
  empty := clean.empty

theorem observe_drain (clean : Clean socket) {count : Nat}
    (enough : (count : Int) ≤ socket.mReferenceCount) (rest : List (SocketOp β)) :
    socket.observe (drain β count ++ rest) =
      List.replicate count (some (.sent 0 [])) ++
        { socket with mReferenceCount := socket.mReferenceCount - count }.observe rest := by
  induction count generalizing socket with
  | zero => simp only [drain, List.replicate_zero, List.nil_append, Nat.cast_zero, Int.sub_zero]
  | succ count ih =>
      have referenced : 0 < socket.mReferenceCount := by omega
      have counted := clean.sendCount_eq referenced
      have sent : socket.perform? (.sendBuf (fun _ => Byte.zero) []) =
          some (.sent 0 [], { socket with mReferenceCount := socket.mReferenceCount - 1 }) := by
        simp only [TcpSocket.perform?, sendBuf_eq, if_pos (Or.inl clean.empty), counted]
        rw [if_pos ⟨clean.representable, clean.representable, by simp⟩]
        rfl
      have later := ih (clean.drop (show 1 ≤ socket.mReferenceCount by omega))
        (show (count : Int) ≤ socket.mReferenceCount - 1 by omega)
      simp only [drain, List.replicate_succ, List.cons_append, TcpSocket.observe, sent]
      refine congrArg (some (.sent 0 []) :: ·) (later.trans ?_)
      have left : socket.mReferenceCount - 1 - count =
          socket.mReferenceCount - (count + 1 : Nat) := by omega
      simp only [left]

/-- A probe offers as much as `m_send_pos` then counts. -/
theorem observe_probe (clean : Clean socket) {amount : Int}
    (counts : amount = if 0 < socket.mReferenceCount then socket.mSendPos + 1
      else socket.mSendPos)
    (representable : amount ≤ Exchange.intMax) :
    ∃ seen, socket.observe (probe β) = [some .silent, some seen] ∧
      seen.offered = amount.toNat := by
  have nonnegative : 0 ≤ amount := by
    have := clean.nonnegative
    split at counts <;> omega
  have counted : (socket.writeReply [Byte.zero]).sendCount.mSendPos = amount := by
    simp only [TcpSocket.sendCount, TcpSocket.writeReply, gt_iff_lt, counts]
    split
    · rfl
    · rfl
  have written : socket.perform? (.writeReply [Byte.zero]) =
      some (.silent, socket.writeReply [Byte.zero]) := by
    simp only [TcpSocket.perform?]
    exact if_pos (show 1 ≤ bufferSize by decide)
  obtain ⟨seen, after, sent, offered⟩ := perform_failing_write
    (fun _ => Byte.zero)
    (show (socket.writeReply [Byte.zero]).mSendBuf.mLength ≠ 0 from Nat.one_ne_zero)
    (counted ▸ nonnegative) (counted ▸ representable)
  refine ⟨seen, ?_, by rw [offered, counted]⟩
  simp only [probe, TcpSocket.observe, written, sent]

end Clean

/-- The bytes offered by a probe tell the counts apart. -/
theorem amount_eq_of_observe_probe {first second : TcpSocket β} (one : Clean first)
    (other : Clean second) {firstAmount secondAmount : Int}
    (firstCounts : firstAmount = if 0 < first.mReferenceCount then first.mSendPos + 1
      else first.mSendPos)
    (secondCounts : secondAmount = if 0 < second.mReferenceCount then second.mSendPos + 1
      else second.mSendPos)
    (firstFits : firstAmount ≤ Exchange.intMax) (secondFits : secondAmount ≤ Exchange.intMax)
    (same : first.observe (probe β) = second.observe (probe β)) :
    firstAmount.toNat = secondAmount.toNat := by
  obtain ⟨seen, observed, offered⟩ := one.observe_probe firstCounts firstFits
  obtain ⟨seenToo, observedToo, offeredToo⟩ := other.observe_probe secondCounts secondFits
  rw [observed, observedToo] at same
  simp only [List.cons.injEq, Option.some.injEq, and_true, true_and] at same
  rw [← offered, ← offeredToo, same]

namespace Indistinguishable

variable {first second : TcpSocket β}

/-- Draining the references of one socket shows whether the other has more. -/
theorem references_le (same : Indistinguishable first second) (one : Clean first)
    (other : Clean second) : first.mReferenceCount ≤ second.mReferenceCount := by
  by_contra more
  obtain ⟨count, count_eq⟩ := Int.eq_ofNat_of_zero_le other.references
  have observed := same (.recvBuf [.eof] :: (drain β count ++ probe β))
  have firstEnough : (count : Int) ≤ first.recvStart.mReferenceCount :=
    show (count : Int) ≤ first.mReferenceCount by omega
  have secondEnough : (count : Int) ≤ second.recvStart.mReferenceCount :=
    show (count : Int) ≤ second.mReferenceCount by omega
  rw [observe_eof, observe_eof, one.recvStart.observe_drain firstEnough,
    other.recvStart.observe_drain secondEnough] at observed
  have probed := List.append_cancel_left (List.cons.inj observed).2
  have amounts := amount_eq_of_observe_probe (one.recvStart.drop firstEnough)
    (other.recvStart.drop secondEnough)
    (show (1 : Int) = if 0 < first.mReferenceCount - count then 0 + 1 else 0 by
      rw [if_pos (by omega)]
      rfl)
    (show (0 : Int) = if 0 < second.mReferenceCount - count then 0 + 1 else 0 by
      rw [if_neg (by omega)])
    (by decide) (by decide) probed
  exact absurd amounts (by decide)

theorem references_eq (same : Indistinguishable first second) (one : Clean first)
    (other : Clean second) : first.mReferenceCount = second.mReferenceCount :=
  Int.le_antisymm (same.references_le one other)
    (references_le (fun ops => (same ops).symm) other one)

/-- With no reference left, a probe offers `m_send_pos` bytes. -/
theorem sendPos_eq (same : Indistinguishable first second) (one : Clean first)
    (other : Clean second) : first.mSendPos = second.mSendPos := by
  have references := same.references_eq one other
  obtain ⟨count, count_eq⟩ := Int.eq_ofNat_of_zero_le other.references
  have observed := same (drain β count ++ probe β)
  have firstEnough : (count : Int) ≤ first.mReferenceCount := by omega
  have secondEnough : (count : Int) ≤ second.mReferenceCount := by omega
  rw [one.observe_drain firstEnough, other.observe_drain secondEnough] at observed
  have amounts := amount_eq_of_observe_probe (one.drop firstEnough) (other.drop secondEnough)
    (if_neg (show ¬ 0 < first.mReferenceCount - count by omega)).symm
    (if_neg (show ¬ 0 < second.mReferenceCount - count by omega)).symm
    one.representable other.representable (List.append_cancel_left observed)
  have nonnegative := one.nonnegative
  have nonnegativeToo := other.nonnegative
  simp only at amounts
  omega

end Indistinguishable

theorem clean_reset {socket : TcpSocket β} (kept : Kept socket) (connFd : Int) :
    Clean (socket.reset.setFd connFd) where
  references := kept.references
  nonnegative := kept.nonnegative
  representable := kept.representable
  fits := Nat.zero_le _
  empty := rfl

/--
After any two histories, `reset` and `set_fd` to the same descriptor, no
operations tell the two sockets apart if and only if the histories left the same
`m_send_pos` and the same `m_reference_count`.
-/
theorem indistinguishable_reset_iff {first second : TcpSocket β}
    (one : (socketUses β).Reachable first) (other : (socketUses β).Reachable second)
    (connFd : Int) :
    Indistinguishable (first.reset.setFd connFd) (second.reset.setFd connFd) ↔
      first.mSendPos = second.mSendPos ∧ first.mReferenceCount = second.mReferenceCount := by
  have oneClean := clean_reset (reachable_kept one) connFd
  have otherClean := clean_reset (reachable_kept other) connFd
  constructor
  · intro same
    exact ⟨same.sendPos_eq oneClean otherClean, same.references_eq oneClean otherClean⟩
  · rintro ⟨sendPos, references⟩
    have alike : Alike (first.reset.setFd connFd) (second.reset.setFd connFd) :=
      ⟨rfl, references, sendPos, rfl, rfl⟩
    exact alike.indistinguishable

end Probing

/-- One connection asks `A`, the other asks `BCD`, and neither is answered. -/
theorem indistinguishable_reset_unanswered :
    ∃ first second : TcpSocket UInt8, (socketUses UInt8).Reachable first ∧
      (socketUses UInt8).Reachable second ∧ first.getMsg = [65] ∧
      second.getMsg = [66, 67, 68] ∧
      Indistinguishable (first.reset.setFd 7) (second.reset.setFd 7) := by
  obtain ⟨first, one, first_is⟩ := Machine.exists_reachableUnder_of_follow (socketUses UInt8)
    (fun _ _ => True) [.setFd 6, .op (.recvBuf [.data [65]])]
    (fun socket => decide (socket.getMsg = [65]) && decide (socket.mSendPos = 0) &&
      decide (socket.mReferenceCount = 1)) ⟨fun _ => 0, fun _ => 0, rfl⟩ (by decide)
  obtain ⟨second, other, second_is⟩ := Machine.exists_reachableUnder_of_follow
    (socketUses UInt8) (fun _ _ => True) [.setFd 6, .op (.recvBuf [.data [66, 67, 68]])]
    (fun socket => decide (socket.getMsg = [66, 67, 68]) && decide (socket.mSendPos = 0) &&
      decide (socket.mReferenceCount = 1)) ⟨fun _ => 0, fun _ => 0, rfl⟩ (by decide)
  simp only [Bool.and_eq_true, decide_eq_true_eq] at first_is second_is
  obtain ⟨⟨firstMsg, firstPos⟩, firstCount⟩ := first_is
  obtain ⟨⟨secondMsg, secondPos⟩, secondCount⟩ := second_is
  exact ⟨first, second, one, other, firstMsg, secondMsg,
    (indistinguishable_reset_iff one other 7).mpr
      ⟨firstPos.trans secondPos.symm, firstCount.trans secondCount.symm⟩⟩

/-- The next reply on the task, with a `write` that takes all it is offered. -/
def nextReply : List (SocketOp UInt8) :=
  [.writeReply [104, 105], .sendBuf (fun _ => 0) [.wrote 2, .wrote 0]]

/-- The first connection on a task reads, or is closed before it does; the second
one is sent its reply as it is, or is offered six bytes more. -/
theorem earlier_connection_shows :
    ¬ ∀ first second : TcpSocket UInt8, (socketUses UInt8).Reachable first →
      (socketUses UInt8).Reachable second → ∀ connFd,
        Indistinguishable (first.reset.setFd connFd) (second.reset.setFd connFd) := by
  intro always
  obtain ⟨first, one, firstSees⟩ := Machine.exists_reachableUnder_of_follow (socketUses UInt8)
    (fun _ _ => True) [.setFd 6, .op (.recvBuf [.data [65]])]
    (fun socket => decide ((socket.reset.setFd 7).observe nextReply =
      [some .silent, some (.sent 0 [[104, 105], []])])) ⟨fun _ => 0, fun _ => 0, rfl⟩ (by decide)
  obtain ⟨second, other, secondSees⟩ := Machine.exists_reachableUnder_of_follow
    (socketUses UInt8) (fun _ _ => True) [.setFd 6]
    (fun socket => decide ((socket.reset.setFd 7).observe nextReply =
      [some .silent, some (.sent (-1) [[104, 105, 0, 0, 0, 0, 0, 0], [0, 0, 0, 0, 0, 0]])]))
    ⟨fun _ => 0, fun _ => 0, rfl⟩ (by decide)
  simp only [decide_eq_true_eq] at firstSees secondSees
  have same := always first second one other 7 nextReply
  rw [firstSees, secondSees] at same
  exact absurd same (by decide)

end LibNet.Net
