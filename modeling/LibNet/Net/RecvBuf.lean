import LibNet.Net.Server

/-!
# What `recv_buf` stores and when it ends

The loop of `recv_buf` goes on after every failed `read` but `EAGAIN`, and adds the -1 of
each to the number of bytes it will store.  A call is decided by the first `read` that
does not fail so; the failed reads before it only count.
-/

namespace LibNet.Net

open LibNet.Runs
open LibNet.Base

namespace ReadResult

variable {β : Type}

/-- The failed reads after which `recv_buf` reads again. -/
def failures : List (ReadResult β) → Nat
  | .error :: rest => failures rest + 1
  | _ => 0

/-- The read that ends the loop of `recv_buf`. -/
def deciding : List (ReadResult β) → Option (ReadResult β)
  | [] => none
  | .error :: rest => deciding rest
  | last :: _ => some last

/-- The bytes read in a call of `recv_buf`. -/
def bytesRead (results : List (ReadResult β)) : List β :=
  match deciding results with
  | some (.data bytes) => bytes
  | _ => []

/-- The least the total of `recv_buf` comes to. -/
def leastTotal (results : List (ReadResult β)) : Int :=
  match deciding results with
  | some .eagain => -(failures results + 1)
  | _ => -failures results

theorem deciding_ne_error (results : List (ReadResult β)) : deciding results ≠ some .error := by
  induction results with
  | nil => exact fun impossible => by cases impossible
  | cons result rest ih =>
      cases result with
      | error => exact ih
      | data bytes => exact fun impossible => by cases impossible
      | eof => exact fun impossible => by cases impossible
      | eagain => exact fun impossible => by cases impossible

theorem mem_of_deciding {results : List (ReadResult β)} {last : ReadResult β}
    (decided : deciding results = some last) : last ∈ results := by
  induction results with
  | nil => cases decided
  | cons result rest ih =>
      cases result with
      | error => exact List.mem_cons_of_mem _ (ih decided)
      | data bytes => exact Option.some.inj decided ▸ List.mem_cons_self ..
      | eof => exact Option.some.inj decided ▸ List.mem_cons_self ..
      | eagain => exact Option.some.inj decided ▸ List.mem_cons_self ..

/-- Some read is no failed one exactly if one of them decides the call. -/
theorem deciding_isSome_iff (results : List (ReadResult β)) :
    (deciding results).isSome ↔ ∃ result ∈ results, result ≠ .error := by
  induction results with
  | nil => simp [deciding]
  | cons result rest ih =>
      cases result with
      | error => simpa [deciding] using ih
      | data bytes => simp [deciding]
      | eof => simp [deciding]
      | eagain => simp [deciding]

end ReadResult

open ReadResult

namespace TcpSocket

variable {β : Type} [Byte β]

/-- How `recv_buf` ends with a read that is not tried again. -/
def recvLast (socket : TcpSocket β) (length : Int) : ReadResult β → Option (RecvBuf β)
  | .data bytes => some (socket.recvStore (length + bytes.length) bytes)
  | .eof => some ⟨-1, socket, 0⟩
  | .eagain => some (socket.recvStore (length - 1) [])
  | .error => none

/-- The loop is decided by one read, with the failed reads before it taken off the total. -/
theorem readLoop_eq (socket : TcpSocket β) (length : Int) (results : List (ReadResult β)) :
    socket.readLoop length results =
      (deciding results).bind (socket.recvLast (length - failures results)) := by
  induction results generalizing length with
  | nil => rfl
  | cons result rest ih =>
      cases result with
      | error =>
          simp only [readLoop, recvNext, deciding, failures, Nat.cast_add, Nat.cast_one]
          rw [ih, Int.sub_sub, Int.add_comm 1]
      | data bytes => simp [readLoop, recvNext, deciding, failures, recvLast]
      | eof => simp [readLoop, recvNext, deciding, failures, recvLast]
      | eagain => simp [readLoop, recvNext, deciding, failures, recvLast]

theorem recvBuf_eq (socket : TcpSocket β) (results : List (ReadResult β)) :
    socket.recvBuf results =
      (deciding results).bind (socket.recvStart.recvLast (-failures results)) := by
  rw [recvBuf, readLoop_eq, Int.zero_sub]

theorem copied_recvStore (socket : TcpSocket β) (length : Int) (bytes : List β) :
    (socket.recvStore length bytes).copied = storeLength length := by
  by_cases nothing : storeLength length = 0
  · simp [recvStore, Buffer.putBuf, nothing]
  · simp [recvStore, Buffer.putBuf, nothing]

/-- What is stored of a total that counts the bytes read. -/
theorem getBuf_recvStore (socket : TcpSocket β) {bytes : List β} (nonempty : 0 < bytes.length)
    (small : bytes.length ≤ bufferSize) :
    storeLength bytes.length = bytes.length ∧
      (socket.recvStore bytes.length bytes).socket.mRecvBuf.getBuf = bytes := by
  have size : bufferSize = 10240 := rfl
  have exact_length : storeLength bytes.length = bytes.length := by
    unfold storeLength
    omega
  refine ⟨exact_length, ?_⟩
  unfold recvStore
  rw [Buffer.getBuf_putBuf _ _ (by omega), exact_length, window_layout _ _ (Nat.le_refl _),
    List.take_length]

/-- `recv_buf` stores the bytes it read and no others: no total leaves the range of `int`;
what is handed to `put_buf` is the number of bytes read, one at least and less than
`BUFFER_SIZE`, and they are then the message; and without bytes nothing changes. -/
structure StoresBytesRead (socket : TcpSocket β) (results : List (ReadResult β))
    (ended : RecvBuf β) : Prop where
  representable : intMin ≤ leastTotal results
  length : ended.ret = 0 → 1 ≤ ended.copied ∧ ended.copied ≤ bufferSize - 1 ∧
    ended.copied = (bytesRead results).length ∧
    ended.socket.mRecvBuf.getBuf = bytesRead results
  unchanged : bytesRead results = [] → ended.socket.mRecvBuf = socket.mRecvBuf

omit [Byte β] in
/-- The first read gives bytes, or the reads come to the end of the stream, with no more
failed ones than `int` has negative values. -/
def FirstReadOrEnd (results : List (ReadResult β)) : Prop :=
  match deciding results with
  | some (.data _) => failures results = 0
  | some .eof => failures results ≤ 2 ^ 31
  | _ => False

section Cases

variable {socket : TcpSocket β} {results : List (ReadResult β)}

/-- A failed read before the bytes takes one off the length, and no number of them that
`int` can count takes off a multiple of `2^32`. -/
theorem storesBytesRead_data_iff {bytes : List β} (decided : deciding results = some (.data bytes))
    (some_bytes : 1 ≤ bytes.length) (few : bytes.length ≤ bufferSize - 1) :
    StoresBytesRead socket results
        (socket.recvStart.recvStore (-failures results + bytes.length) bytes) ↔
      failures results = 0 := by
  have least : intMin = -2147483648 := rfl
  have size : bufferSize = 10240 := rfl
  have isRead : bytesRead results = bytes := by
    unfold bytesRead
    rw [decided]
  have isLeast : leastTotal results = -failures results := by
    unfold leastTotal
    rw [decided]
  constructor
  · intro stores
    have representable := stores.representable
    have length := (stores.length rfl).2.2.1
    rw [copied_recvStore, isRead] at length
    rw [isLeast] at representable
    unfold storeLength at length
    omega
  · intro none_failed
    obtain ⟨exact_length, stored⟩ := getBuf_recvStore socket.recvStart some_bytes (by omega)
    rw [none_failed, Nat.cast_zero, Int.neg_zero, Int.zero_add]
    refine ⟨by rw [isLeast]; omega, fun _ => ?_, fun empty => ?_⟩
    · rw [copied_recvStore, exact_length, isRead]
      exact ⟨some_bytes, few, rfl, stored⟩
    · rw [isRead] at empty
      rw [empty] at some_bytes
      exact absurd some_bytes (Nat.not_succ_le_zero 0)

omit [Byte β] in
theorem storesBytesRead_eof_iff (decided : deciding results = some .eof) :
    StoresBytesRead socket results ⟨-1, socket.recvStart, 0⟩ ↔ failures results ≤ 2 ^ 31 := by
  have least : intMin = -2147483648 := rfl
  have isLeast : leastTotal results = -failures results := by
    unfold leastTotal
    rw [decided]
  constructor
  · intro stores
    have representable := stores.representable
    rw [isLeast] at representable
    omega
  · intro few
    exact ⟨by rw [isLeast]; omega, fun stored => absurd stored (by decide : (-1 : Int) ≠ 0),
      fun _ => rfl⟩

/-- `EAGAIN` is stored as if it were bytes. -/
theorem not_storesBytesRead_eagain (decided : deciding results = some .eagain) (length : Int) :
    ¬ StoresBytesRead socket results (socket.recvStart.recvStore length []) := by
  intro stores
  have none_read : bytesRead results = [] := by
    unfold bytesRead
    rw [decided]
  obtain ⟨positive, _, counted, _⟩ := stores.length rfl
  rw [counted, none_read] at positive
  exact absurd positive (Nat.not_succ_le_zero 0)

end Cases

/-- Whatever the reads come back with, with at most `BUFFER_SIZE-1` bytes each, `recv_buf`
stores what it read exactly if the first read gives bytes or the stream is at its end: a
failed read before the bytes makes the stored length too small, and `EAGAIN` makes it
`2^32-1`. -/
theorem recv_buf_stores_iff (socket : TcpSocket β) (results : List (ReadResult β))
    (ended : RecvBuf β)
    (sizes : ∀ bytes, .data bytes ∈ results → 1 ≤ bytes.length ∧ bytes.length ≤ bufferSize - 1)
    (run : socket.recvBuf results = some ended) :
    StoresBytesRead socket results ended ↔ FirstReadOrEnd results := by
  rw [recvBuf_eq] at run
  unfold FirstReadOrEnd
  cases decided : deciding results with
  | none =>
      rw [decided] at run
      cases run
  | some last =>
      simp only [decided, Option.bind_some] at run
      cases last with
      | error => exact absurd decided (deciding_ne_error results)
      | data bytes =>
          obtain ⟨some_bytes, few⟩ := sizes bytes (mem_of_deciding decided)
          cases run
          exact storesBytesRead_data_iff decided some_bytes few
      | eof =>
          cases run
          exact storesBytesRead_eof_iff decided
      | eagain =>
          cases run
          exact iff_of_false (not_storesBytesRead_eagain decided _) id

/-- A socket over memory full of zeros. -/
def blank : TcpSocket UInt8 := .new (fun _ => 0) (fun _ => 0)

/-- Two bytes at the first read. -/
theorem two_bytes_stored :
    StoresBytesRead blank [.data [104, 105]] (blank.recvStart.recvStore 2 [104, 105]) :=
  (recv_buf_stores_iff blank [.data [104, 105]] (blank.recvStart.recvStore 2 [104, 105])
    (by simp [show bufferSize = 10240 from rfl]) rfl).mpr rfl

/-- An interrupted read and then two bytes, of which one is stored; and nothing to read,
for which `put_buf` is to copy `2^32-1` bytes. -/
theorem interrupted_and_empty_misstored :
    (∃ ended, blank.recvBuf [.error, .data [104, 105]] = some ended ∧
      ended.socket.mRecvBuf.getBuf = [104] ∧
      ¬ StoresBytesRead blank [.error, .data [104, 105]] ended) ∧
    ∃ ended, blank.recvBuf [.eagain] = some ended ∧ ended.copied = 2 ^ 32 - 1 ∧
      ¬ StoresBytesRead blank [.eagain] ended := by
  constructor
  · refine ⟨blank.recvStart.recvStore 1 [104, 105], rfl, rfl, fun stores => ?_⟩
    exact absurd (stores.length rfl).2.2.1 (by decide)
  · exact ⟨blank.recvStart.recvStore (-1) [], rfl, rfl, not_storesBytesRead_eagain rfl _⟩

end TcpSocket

/-! ## When it ends -/

/-- What a `read` can come back with, an interrupted call and another error apart. -/
inductive RecvOutcome (β : Type) where
  | data (bytes : List β)
  | eof
  | eagain
  | eintr
  | failed

namespace RecvOutcome

variable {β : Type}

/-- What `recv_buf` makes of it. -/
def result : RecvOutcome β → ReadResult β
  | .data bytes => .data bytes
  | .eof => .eof
  | .eagain => .eagain
  | .eintr => .error
  | .failed => .error

/-- The first `count` results of a sequence of outcomes. -/
def firstResults (outcomes : Nat → RecvOutcome β) (count : Nat) : List (ReadResult β) :=
  (List.range count).map fun turn => (outcomes turn).result

end RecvOutcome

namespace TcpSocket

variable {β : Type} [Byte β]

/-- The loop of `recv_buf` ends after finitely many reads. -/
def RecvBufEnds (socket : TcpSocket β) (outcomes : Nat → RecvOutcome β) : Prop :=
  ∃ count, (socket.recvBuf (RecvOutcome.firstResults outcomes count)).isSome

/-- A call of `recv_buf` has ended once a read decided it. -/
theorem recvBuf_isSome_iff (socket : TcpSocket β) (results : List (ReadResult β)) :
    (socket.recvBuf results).isSome ↔ ∃ result ∈ results, result ≠ .error := by
  rw [← deciding_isSome_iff, recvBuf_eq]
  cases decided : deciding results with
  | none => rfl
  | some last =>
      cases last with
      | error => exact absurd decided (deciding_ne_error results)
      | data bytes => rfl
      | eof => rfl
      | eagain => rfl

theorem recvBufEnds_iff (socket : TcpSocket β) (outcomes : Nat → RecvOutcome β) :
    socket.RecvBufEnds outcomes ↔ ∃ turn, (outcomes turn).result ≠ .error := by
  unfold RecvBufEnds
  simp only [recvBuf_isSome_iff, RecvOutcome.firstResults, List.mem_map, List.mem_range]
  constructor
  · rintro ⟨_, _, ⟨turn, _, rfl⟩, decides⟩
    exact ⟨turn, decides⟩
  · rintro ⟨turn, decides⟩
    exact ⟨turn + 1, _, ⟨turn, Nat.lt_succ_self turn, rfl⟩, decides⟩

/-- Over any sequence of outcomes: that the loop ends if one of them is no interruption
holds exactly if some outcome is bytes, the end of the stream or `EAGAIN` whenever another
error is among them.  On such errors alone `recv_buf` reads for ever. -/
theorem recv_buf_ends_iff (socket : TcpSocket β) (outcomes : Nat → RecvOutcome β) :
    ((∃ turn, outcomes turn ≠ .eintr) → socket.RecvBufEnds outcomes) ↔
      ((∃ turn, outcomes turn = .failed) → ∃ turn, (outcomes turn).result ≠ .error) := by
  rw [recvBufEnds_iff]
  constructor
  · rintro ends ⟨turn, failed⟩
    exact ends ⟨turn, by rw [failed]; exact fun impossible => by cases impossible⟩
  · rintro decided ⟨turn, calm⟩
    cases outcome : outcomes turn with
    | eintr => exact absurd outcome calm
    | failed => exact decided ⟨turn, outcome⟩
    | data bytes => exact ⟨turn, by rw [outcome]; exact fun impossible => by cases impossible⟩
    | eof => exact ⟨turn, by rw [outcome]; exact fun impossible => by cases impossible⟩
    | eagain => exact ⟨turn, by rw [outcome]; exact fun impossible => by cases impossible⟩

/-- A connection that was reset fails every read. -/
theorem reset_connection_never_ends :
    (∃ turn : Nat, (fun _ => .failed : Nat → RecvOutcome UInt8) turn ≠ .eintr) ∧
      ¬ blank.RecvBufEnds (fun _ => .failed) := by
  refine ⟨⟨0, fun impossible => by cases impossible⟩, ?_⟩
  rw [recvBufEnds_iff]
  rintro ⟨_, decides⟩
  exact decides rfl

end TcpSocket

end LibNet.Net
