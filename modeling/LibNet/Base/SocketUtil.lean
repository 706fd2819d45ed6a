import LibNet.Runs.Cells
import LibNet.Runs.Loop

/-!
# Reading and writing a fixed number of bytes

`readn` and `writen` of `socket_util.cpp`, as loops around `read` and `write`.
The locals of a call are those of the source: `count`, `nleft`, and `buf_ptr` as
an offset from `buf`.
-/

namespace LibNet.Base

open LibNet.Runs

variable {β : Type}

/-- `SSIZE_MAX`. -/
def ssizeMax : Nat := 2 ^ 63 - 1

/-- The conversion of a `size_t` to the `ssize_t` that is returned. -/
def ssize (count : Nat) : Int := (BitVec.ofNat 64 count).toInt

theorem ssize_eq {count : Nat} (fits : count ≤ ssizeMax) : ssize count = count := by
  have bound : ssizeMax = 9223372036854775807 := rfl
  unfold ssize
  rw [BitVec.toInt_ofNat']
  exact Int.bmod_eq_of_le (by omega) (by omega)

/-- What one `read` comes back with. -/
inductive ReadOutcome (β : Type) where
  | data (bytes : List β)
  | eof
  | eintr
  | error

/-- What one `write` comes back with. -/
inductive WriteOutcome where
  | wrote (count : Nat)
  | eintr
  | error

/-- The memory at `buf` and the locals of `readn`. -/
structure ReadFrame (β : Type) where
  buf : Nat → β
  count : Nat
  bufPtr : Nat
  nleft : Nat

/-- What `readn` returns, and the memory it leaves. -/
structure Readn (β : Type) where
  ret : Int
  buf : Nat → β

namespace ReadFrame

def start (buf : Nat → β) (count : Nat) : ReadFrame β := ⟨buf, count, 0, count⟩

/-- `buf_ptr += nread; nleft -= nread`, with the bytes `read` has stored. -/
def advance (frame : ReadFrame β) (bytes : List β) : ReadFrame β :=
  { frame with
    buf := store frame.buf frame.bufPtr bytes
    bufPtr := frame.bufPtr + bytes.length
    nleft := frame.nleft - bytes.length }

end ReadFrame

def readnLoop (β : Type) : Loop (ReadFrame β) (ReadOutcome β) (Readn β) where
  test := fun frame =>
    if 0 < frame.nleft then none else some ⟨ssize frame.count, frame.buf⟩
  turn := fun frame outcome =>
    match outcome with
    | .eintr => .again frame
    | .error => .done ⟨-1, frame.buf⟩
    | .eof => .done ⟨ssize (frame.count - frame.nleft), frame.buf⟩
    | .data bytes => .again (frame.advance bytes)

/-- `readn`, over the outcomes of its reads. -/
def readn (buf : Nat → β) (count : Nat) (outcomes : List (ReadOutcome β)) : Option (Readn β) :=
  (readnLoop β).run (.start buf count) outcomes

/-- The memory at `buf`, the locals of `writen`, and the bytes `write` accepted. -/
structure WriteFrame (β : Type) where
  buf : Nat → β
  count : Nat
  bufPtr : Nat
  nleft : Nat
  wire : List β

/-- What `writen` returns, and the bytes `write` accepted. -/
structure Writen (β : Type) where
  ret : Int
  wire : List β

namespace WriteFrame

def start (buf : Nat → β) (count : Nat) : WriteFrame β := ⟨buf, count, 0, count, []⟩

/-- The bytes a `write` takes when it accepts `count` of those offered. -/
def chunk (frame : WriteFrame β) (count : Nat) : List β :=
  window frame.buf frame.bufPtr count

/-- `buf_ptr += nwritten; nleft -= nwritten`. -/
def advance (frame : WriteFrame β) (count : Nat) : WriteFrame β :=
  { frame with
    bufPtr := frame.bufPtr + count
    nleft := frame.nleft - count
    wire := frame.wire ++ frame.chunk count }

/-- What is still to be offered. -/
def rest (frame : WriteFrame β) : List β :=
  window frame.buf frame.bufPtr frame.nleft

/-- What a `write` takes comes off the front of the rest. -/
theorem chunk_append_rest {frame : WriteFrame β} {count : Nat} (few : count ≤ frame.nleft) :
    frame.chunk count ++ (frame.advance count).rest = frame.rest := by
  simp only [chunk, rest, advance]
  rw [← window_add, Nat.add_sub_cancel' few]

end WriteFrame

def writenLoop (β : Type) : Loop (WriteFrame β) WriteOutcome (Writen β) where
  test := fun frame =>
    if 0 < frame.nleft then none else some ⟨ssize frame.count, frame.wire⟩
  turn := fun frame outcome =>
    match outcome with
    | .eintr => .again frame
    | .error => .done ⟨-1, frame.wire⟩
    | .wrote 0 => .again frame
    | .wrote (less + 1) => .again (frame.advance (less + 1))

/-- `writen`, over the outcomes of its writes. -/
def writen (buf : Nat → β) (count : Nat) (outcomes : List WriteOutcome) : Option (Writen β) :=
  (writenLoop β).run (.start buf count) outcomes

theorem readn_next?_eintr {frame next : ReadFrame β} :
    (readnLoop β).next? frame .eintr = some next ↔ 0 < frame.nleft ∧ frame = next := by
  simp [Loop.next?_eq_some_iff, readnLoop]

theorem readn_next?_data {frame next : ReadFrame β} {bytes : List β} :
    (readnLoop β).next? frame (.data bytes) = some next ↔
      0 < frame.nleft ∧ frame.advance bytes = next := by
  simp [Loop.next?_eq_some_iff, readnLoop]

theorem readn_test {frame : ReadFrame β} {result : Readn β} :
    (readnLoop β).test frame = some result ↔
      frame.nleft = 0 ∧ ⟨ssize frame.count, frame.buf⟩ = result := by
  simp [readnLoop]

theorem writen_next?_eintr {frame next : WriteFrame β} :
    (writenLoop β).next? frame .eintr = some next ↔ 0 < frame.nleft ∧ frame = next := by
  simp [Loop.next?_eq_some_iff, writenLoop]

/-- A `write` of no bytes changes nothing, so it advances as any other does. -/
theorem writen_next?_wrote {frame next : WriteFrame β} {count : Nat} :
    (writenLoop β).next? frame (.wrote count) = some next ↔
      0 < frame.nleft ∧ frame.advance count = next := by
  cases count with
  | zero =>
      have same : frame.advance 0 = frame := by
        simp [WriteFrame.advance, WriteFrame.chunk, window]
      simp [Loop.next?_eq_some_iff, writenLoop, same]
  | succ less => simp [Loop.next?_eq_some_iff, writenLoop]

theorem writen_test {frame : WriteFrame β} {result : Writen β} :
    (writenLoop β).test frame = some result ↔
      frame.nleft = 0 ∧ ⟨ssize frame.count, frame.wire⟩ = result := by
  simp [writenLoop]

end LibNet.Base
