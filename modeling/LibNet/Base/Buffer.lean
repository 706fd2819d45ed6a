import LibNet.Runs.Cells

/-!
# Message buffers

`Buffer` of `buffer.h` and `buffer.cpp`: a block of `BUFFER_SIZE` bytes and the
length of the message in it.  The type of bytes is left open, so that bytes may
carry their history; the code itself only ever writes the bytes of `Byte`.
-/

namespace LibNet.Base

open LibNet.Runs

/-- The bytes the code writes of its own: `memset` writes zeros and the
constructor of `Buffer` the character `1`. -/
class Byte (β : Type) where
  zero : β
  digitOne : β

instance : Byte UInt8 where
  zero := 0
  digitOne := 49

/-- `BUFFER_SIZE`, defined as `1024*10`. -/
def bufferSize : Nat := 1024 * 10

/-- The block `m_buf` points to, and `m_length`, a `uint32_t`. -/
structure Buffer (β : Type) where
  mBuf : Nat → β
  mLength : Nat

/-- What `put_buf` returns and leaves, and how many bytes it copied to `m_buf`. -/
structure PutBuf (β : Type) where
  ret : Nat
  buffer : Buffer β
  copied : Nat

namespace Buffer

variable {β : Type}

/-- The constructor: `malloc` leaves the block as it finds it, but for one byte. -/
def new [Byte β] (block : Nat → β) : Buffer β where
  mBuf := memcpy block (fun _ => Byte.digitOne) 1
  mLength := 1

/-- `get_size` converts the `uint32_t` length to `int`. -/
def getSize (buffer : Buffer β) : Int :=
  (BitVec.ofNat 32 buffer.mLength).toInt

/-- The bytes `get_buf` copies out; it returns how many there are. -/
def getBuf (buffer : Buffer β) : List β :=
  if buffer.mLength ≠ 0 then window buffer.mBuf 0 buffer.mLength else []

/-- `put_buf`; a null `buf_in` is `none`, and -1 is returned as a `uint32_t`. -/
def putBuf (buffer : Buffer β) (bufIn : Option (Nat → β)) (bufLength : Nat) : PutBuf β :=
  match bufIn with
  | none => ⟨2 ^ 32 - 1, buffer, 0⟩
  | some source =>
      if bufLength = 0 then ⟨2 ^ 32 - 1, buffer, 0⟩
      else ⟨0, ⟨memcpy buffer.mBuf source bufLength, bufLength⟩, bufLength⟩

def clean [Byte β] (buffer : Buffer β) : Buffer β where
  mBuf := memcpy buffer.mBuf (fun _ => Byte.zero) bufferSize
  mLength := 0

def isFull (buffer : Buffer β) : Bool := buffer.mLength == bufferSize

def isEmpty (buffer : Buffer β) : Bool := buffer.mLength == 0

@[simp] theorem length_getBuf (buffer : Buffer β) : buffer.getBuf.length = buffer.mLength := by
  unfold getBuf
  split
  · exact length_window _ _ _
  · next empty => simpa using (not_not.mp empty).symm

theorem getBuf_eq_window (buffer : Buffer β) :
    buffer.getBuf = window buffer.mBuf 0 buffer.mLength := by
  unfold getBuf
  split
  · rfl
  · next empty => rw [not_not.mp empty]; rfl

@[simp] theorem getBuf_clean [Byte β] (buffer : Buffer β) : buffer.clean.getBuf = [] := rfl

/-- `get_size` is the length as long as the length is that of some message. -/
theorem getSize_eq {buffer : Buffer β} (fits : buffer.mLength ≤ bufferSize) :
    buffer.getSize = buffer.mLength := by
  have bound : bufferSize = 10240 := rfl
  unfold getSize
  rw [BitVec.toInt_ofNat']
  exact Int.bmod_eq_of_le (by omega) (by omega)

/-- A successful `put_buf` makes the copied bytes the message. -/
theorem getBuf_putBuf (buffer : Buffer β) (source : Nat → β) {bufLength : Nat}
    (some_bytes : bufLength ≠ 0) :
    (buffer.putBuf (some source) bufLength).buffer.getBuf = window source 0 bufLength := by
  simp only [putBuf, if_neg some_bytes, getBuf_eq_window]
  exact window_memcpy _ _ _

end Buffer

end LibNet.Base
