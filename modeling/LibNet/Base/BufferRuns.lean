import LibNet.Base.Buffer

/-!
# Calls on a buffer

Any sequence of `put_buf`, `get_buf` and `clean` on a `Buffer`.  Each call is given
with how far it reaches into the block that `m_buf` points to.  `put_buf` compares
its length with nothing but zero.
-/

namespace LibNet.Base

open LibNet.Runs

variable {β : Type}

/-- A call, with its arguments; a null `buf_in` is `none`. -/
inductive BufferCall (β : Type) where
  | putBuf (bufIn : Option (Nat → β)) (bufLength : UInt32)
  | getBuf
  | clean

/-- What a call returns and leaves, and how many bytes of the block it copies to or
from. -/
structure BufferReturn (β : Type) where
  ret : Nat
  buffer : Buffer β
  reach : Nat

namespace BufferCall

/-- What a call makes the message, if it sets it. -/
def sets : BufferCall β → Option (List β)
  | .putBuf none _ => none
  | .putBuf (some source) bufLength =>
      if bufLength.toNat = 0 then none else some (window source 0 bufLength.toNat)
  | .getBuf => none
  | .clean => some []

/-- The call is a `put_buf` and reports failure. -/
def Fails (call : BufferCall β) (returned : BufferReturn β) : Prop :=
  match call with
  | .putBuf _ _ => returned.ret ≠ 0
  | _ => False

/-- What is copied in fits into the block. -/
def Fits : BufferCall β → Prop
  | .putBuf (some _) bufLength => bufLength.toNat ≤ bufferSize
  | _ => True

end BufferCall

/-- The message after some calls: what the last call that sets it has made it, and nothing
before that. -/
def lastSet (calls : List (BufferCall β)) : List β :=
  (calls.reverse.findSome? BufferCall.sets).getD []

/-- Every `get_buf` comes after a call that sets the message. -/
def SetBeforeGet (calls : List (BufferCall β)) : Prop :=
  ∀ earlier later, calls = earlier ++ .getBuf :: later →
    ∃ call ∈ earlier, call.sets.isSome = true

namespace Buffer

variable [Byte β]

def perform (buffer : Buffer β) : BufferCall β → BufferReturn β
  | .putBuf bufIn bufLength =>
      let put := buffer.putBuf bufIn bufLength.toNat
      ⟨put.ret, put.buffer, put.copied⟩
  | .getBuf => ⟨buffer.getBuf.length, buffer, buffer.getBuf.length⟩
  | .clean => ⟨0, buffer.clean, bufferSize⟩

/-- The buffer after some calls. -/
def after (buffer : Buffer β) (calls : List (BufferCall β)) : Buffer β :=
  calls.foldl (fun buffer call => (buffer.perform call).buffer) buffer

/-- What is asked of every state and every call in a sequence of calls on a new buffer. -/
structure Sound (block : Nat → β) (calls : List (BufferCall β)) : Prop where
  length : ∀ earlier later, calls = earlier ++ later →
    ((new block).after earlier).mLength ≤ bufferSize
  reach : ∀ earlier call later, calls = earlier ++ call :: later →
    (((new block).after earlier).perform call).reach ≤ bufferSize
  failure : ∀ earlier call later, calls = earlier ++ call :: later →
    call.Fails (((new block).after earlier).perform call) →
    (((new block).after earlier).perform call).buffer = (new block).after earlier
  message : ∀ earlier later, calls = earlier ++ .getBuf :: later →
    ((new block).after earlier).getBuf = lastSet earlier

theorem getBuf_perform (buffer : Buffer β) (call : BufferCall β) :
    (buffer.perform call).buffer.getBuf = call.sets.getD buffer.getBuf := by
  cases call with
  | putBuf bufIn bufLength =>
      cases bufIn with
      | none => rfl
      | some source =>
          simp only [perform, BufferCall.sets]
          split
          · next empty => simp only [putBuf, if_pos empty, Option.getD_none]
          · next some_bytes => exact getBuf_putBuf buffer source some_bytes
  | getBuf => rfl
  | clean => exact getBuf_clean buffer

theorem mLength_perform_le {buffer : Buffer β} {call : BufferCall β}
    (small : buffer.mLength ≤ bufferSize) (fits : call.Fits) :
    (buffer.perform call).buffer.mLength ≤ bufferSize := by
  cases call with
  | putBuf bufIn bufLength =>
      cases bufIn with
      | none => exact small
      | some source =>
          simp only [perform, putBuf]
          split
          · exact small
          · exact fits
  | getBuf => exact small
  | clean => exact Nat.zero_le _

theorem reach_perform_le {buffer : Buffer β} {call : BufferCall β}
    (small : buffer.mLength ≤ bufferSize) (fits : call.Fits) :
    (buffer.perform call).reach ≤ bufferSize := by
  cases call with
  | putBuf bufIn bufLength =>
      cases bufIn with
      | none => exact Nat.zero_le _
      | some source =>
          simp only [perform, putBuf]
          split
          · exact Nat.zero_le _
          · exact fits
  | getBuf => exact (length_getBuf buffer).trans_le small
  | clean => exact Nat.le_refl _

/-- A call that reaches no further than the block copies in no more than fits. -/
theorem fits_of_reach_perform {buffer : Buffer β} {call : BufferCall β}
    (inside : (buffer.perform call).reach ≤ bufferSize) : call.Fits := by
  cases call with
  | putBuf bufIn bufLength =>
      cases bufIn with
      | none => trivial
      | some source =>
          simp only [perform, putBuf] at inside
          split at inside
          · next empty => exact empty.trans_le (Nat.zero_le _)
          · exact inside
  | getBuf => trivial
  | clean => trivial

theorem perform_of_fails {buffer : Buffer β} {call : BufferCall β}
    (fails : call.Fails (buffer.perform call)) : (buffer.perform call).buffer = buffer := by
  cases call with
  | putBuf bufIn bufLength =>
      cases bufIn with
      | none => rfl
      | some source =>
          simp only [BufferCall.Fails, perform, putBuf] at fails ⊢
          split
          · rfl
          · next some_bytes =>
              rw [if_neg some_bytes] at fails
              exact absurd rfl fails
  | getBuf => rfl
  | clean => exact fails.elim

theorem after_concat (buffer : Buffer β) (calls : List (BufferCall β)) (call : BufferCall β) :
    buffer.after (calls ++ [call]) = ((buffer.after calls).perform call).buffer := by
  simp only [after, List.foldl_append, List.foldl_cons, List.foldl_nil]

omit [Byte β] in
theorem findSome?_concat (calls : List (BufferCall β)) (call : BufferCall β) :
    (calls ++ [call]).reverse.findSome? BufferCall.sets =
      call.sets.or (calls.reverse.findSome? BufferCall.sets) := by
  rw [List.reverse_append, List.reverse_singleton, List.singleton_append, List.findSome?_cons]
  cases call.sets with
  | none => rfl
  | some message => rfl

/-- Whatever was put into the buffer before, the last call that sets the message decides; the
byte of the constructor is there until then. -/
theorem getBuf_after (block : Nat → β) (calls : List (BufferCall β)) :
    ((new block).after calls).getBuf =
      (calls.reverse.findSome? BufferCall.sets).getD [Byte.digitOne] := by
  induction calls using List.reverseRecOn with
  | nil => rfl
  | append_singleton calls call ih =>
      rw [after_concat, findSome?_concat, getBuf_perform, ih]
      cases call.sets with
      | none => rfl
      | some message => rfl

/-- The message is right exactly if some call has set it. -/
theorem getBuf_after_eq_lastSet_iff (block : Nat → β) (calls : List (BufferCall β)) :
    ((new block).after calls).getBuf = lastSet calls ↔
      ∃ call ∈ calls, call.sets.isSome = true := by
  rw [getBuf_after, lastSet]
  constructor
  · intro same
    cases found : calls.reverse.findSome? BufferCall.sets with
    | none =>
        rw [found] at same
        cases same
    | some message =>
        obtain ⟨call, member, sets⟩ := List.exists_of_findSome?_eq_some found
        exact ⟨call, List.mem_reverse.mp member, by rw [sets]; rfl⟩
  · rintro ⟨call, member, sets⟩
    have found := List.findSome?_isSome_iff.mpr ⟨call, List.mem_reverse.mpr member, sets⟩
    obtain ⟨message, found⟩ := Option.isSome_iff_exists.mp found
    rw [found]
    rfl

theorem mLength_after_le (block : Nat → β) {calls : List (BufferCall β)}
    (fit : ∀ call ∈ calls, call.Fits) : ((new block).after calls).mLength ≤ bufferSize := by
  induction calls using List.reverseRecOn with
  | nil => exact (by decide : 1 ≤ bufferSize)
  | append_singleton calls call ih =>
      rw [after_concat]
      refine mLength_perform_le (ih fun earlier member => ?_) ?_
      · exact fit earlier (List.mem_append_left _ member)
      · exact fit call (List.mem_append_right _ (List.mem_singleton_self call))

/--
For every sequence of calls on a new buffer: the length stays within the block, no call reaches
past it, failed calls change nothing and `get_buf` returns the message of the last call that set
it, if and only if no `put_buf` is given more than `BUFFER_SIZE` bytes and every `get_buf` comes
after a call that sets the message.
-/
theorem buffer_sound_iff (block : Nat → β) (calls : List (BufferCall β)) :
    Sound block calls ↔ (∀ call ∈ calls, call.Fits) ∧ SetBeforeGet calls := by
  constructor
  · intro sound
    constructor
    · intro call member
      obtain ⟨earlier, later, split⟩ := List.append_of_mem member
      exact fits_of_reach_perform (sound.reach earlier call later split)
    · intro earlier later split
      exact (getBuf_after_eq_lastSet_iff block earlier).mp (sound.message earlier later split)
  · rintro ⟨fit, set⟩
    have small : ∀ earlier later, calls = earlier ++ later →
        ((new block).after earlier).mLength ≤ bufferSize := by
      intro earlier later split
      refine mLength_after_le block fun call member => fit call ?_
      rw [split]
      exact List.mem_append_left _ member
    refine ⟨small, ?_, ?_, ?_⟩
    · intro earlier call later split
      refine reach_perform_le (small earlier (call :: later) split) (fit call ?_)
      rw [split]
      exact List.mem_append_right _ (List.mem_cons_self ..)
    · intro earlier call later _ fails
      exact perform_of_fails fails
    · intro earlier later split
      exact (getBuf_after_eq_lastSet_iff block earlier).mpr (set earlier later split)

/-- One `put_buf` of 10241 bytes reports success and writes the byte behind the block; and a
`get_buf` on a new buffer returns the byte of the constructor, which nobody put there. -/
theorem long_message_and_stray_byte :
    ((new fun _ => 0).perform (.putBuf (some fun _ => (7 : UInt8)) 10241)).ret = 0 ∧
      ((new fun _ => 0).perform (.putBuf (some fun _ => (7 : UInt8)) 10241)).reach = 10241 ∧
      ¬ Sound (fun _ => (0 : UInt8)) [.putBuf (some fun _ => 7) 10241] ∧
      (new fun _ => (0 : UInt8)).getBuf = [49] ∧ ¬ Sound (fun _ => (0 : UInt8)) [.getBuf] := by
  refine ⟨rfl, rfl, fun sound => ?_, rfl, fun sound => ?_⟩
  · have inside := sound.reach [] (.putBuf (some fun _ => 7) 10241) [] rfl
    exact absurd inside (by decide)
  · have message := sound.message [] [] rfl
    exact absurd message (by decide)

end Buffer

end LibNet.Base
