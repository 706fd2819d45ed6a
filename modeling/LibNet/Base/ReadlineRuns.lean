import LibNet.Base.Readline

/-!
# What `readline` returns

The runs of `readline` over a stream that has a newline within its reach, and over one
that has none.  After a newline the code goes on reading, so what it returns is never the
length of the line it found, unless `errno` happens to be that number; and without a
newline it returns 0 or `errno` after bytes have been taken.
-/

namespace LibNet.Base

open LibNet.Runs

namespace LineState

variable {errno fuel bufPtr : Nat} {nleft ret : Int} {state last : LineState}

/-- How a turn of the loop of `readline` can go, by what its calls come back with. -/
inductive Round (errno fuel bufPtr : Nat) (nleft : Int) (state : LineState) :
    Int → LineState → Prop where
  | failed (last : LineState) (called : state.peek? bufPtr nleft = some (none, last)) :
      Round errno fuel bufPtr nleft state (-1) last
  | closed (last : LineState) (called : state.peek? bufPtr nleft = some (some [], last)) :
      Round errno fuel bufPtr nleft state 0 last
  | returned (byte : UInt8) (bytes : List UInt8) (next : LineState) (ret : Int) (last : LineState)
      (called : state.peek? bufPtr nleft = some (some (byte :: bytes), next))
      (scanned : scan? bufPtr (bytes.length + 1) 0 next = some (.returns ret last)) :
      Round errno fuel bufPtr nleft state ret last
  | exceeded (byte : UInt8) (bytes : List UInt8) (next last : LineState)
      (called : state.peek? bufPtr nleft = some (some (byte :: bytes), next))
      (scanned : scan? bufPtr (bytes.length + 1) 0 next = some (.ends last))
      (more : ((bytes.length + 1 : Nat) : Int) > nleft) :
      Round errno fuel bufPtr nleft state errno last
  | short (byte : UInt8) (bytes : List UInt8) (next scan : LineState) (got : Int)
      (last : LineState)
      (called : state.peek? bufPtr nleft = some (some (byte :: bytes), next))
      (scanned : scan? bufPtr (bytes.length + 1) 0 next = some (.ends scan))
      (fits : ¬ ((bytes.length + 1 : Nat) : Int) > nleft)
      (read : scan.readn? bufPtr (bytes.length + 1) = some (got, last))
      (few : got ≠ ((bytes.length + 1 : Nat) : Int)) :
      Round errno fuel bufPtr nleft state errno last
  | again (byte : UInt8) (bytes : List UInt8) (next scan after : LineState) (ret : Int)
      (last : LineState)
      (called : state.peek? bufPtr nleft = some (some (byte :: bytes), next))
      (scanned : scan? bufPtr (bytes.length + 1) 0 next = some (.ends scan))
      (fits : ¬ ((bytes.length + 1 : Nat) : Int) > nleft)
      (read : scan.readn? bufPtr (bytes.length + 1) =
        some (((bytes.length + 1 : Nat) : Int), after))
      (later : readlineLoop? errno fuel (bufPtr + (bytes.length + 1))
        (nleft - ((bytes.length + 1 : Nat) : Int)) after = some (ret, last)) :
      Round errno fuel bufPtr nleft state ret last

theorem round_of_readlineLoop?
    (run : readlineLoop? errno (fuel + 1) bufPtr nleft state = some (ret, last)) :
    Round errno fuel bufPtr nleft state ret last := by
  unfold readlineLoop? at run
  split at run
  · cases run
  · next called =>
      cases run
      exact .failed last called
  · next called =>
      cases run
      exact .closed last called
  · next byte bytes next called =>
      dsimp only at run
      split at run
      · cases run
      · next scanned =>
          cases run
          exact .returned byte bytes next ret last called scanned
      · next scan scanned =>
          split at run
          · next more =>
              cases run
              exact .exceeded byte bytes next last called scanned more
          · next fits =>
              split at run
              · cases run
              · next got after read =>
                  split at run
                  · next few =>
                      cases run
                      exact .short byte bytes next scan got last called scanned fits read few
                  · next all =>
                      rw [not_not.mp all] at read
                      exact .again byte bytes next scan after ret last called scanned fits read run

/-- How a turn of the loop of `readline` can go on when it was shown some bytes. -/
inductive Shown (errno fuel bufPtr : Nat) (nleft : Int) (bytes : List UInt8) (next : LineState) :
    Int → LineState → Prop where
  | returned (ret : Int) (last : LineState)
      (scanned : scan? bufPtr bytes.length 0 next = some (.returns ret last)) :
      Shown errno fuel bufPtr nleft bytes next ret last
  | exceeded (last : LineState)
      (scanned : scan? bufPtr bytes.length 0 next = some (.ends last))
      (more : nleft < bytes.length) :
      Shown errno fuel bufPtr nleft bytes next errno last
  | short (scan last : LineState) (got : Int)
      (scanned : scan? bufPtr bytes.length 0 next = some (.ends scan))
      (fits : bytes.length ≤ nleft) (read : Read scan bufPtr bytes.length got last)
      (few : got ≠ bytes.length) :
      Shown errno fuel bufPtr nleft bytes next errno last
  | again (scan read : LineState) (ret : Int) (last : LineState)
      (scanned : scan? bufPtr bytes.length 0 next = some (.ends scan))
      (fits : bytes.length ≤ nleft) (whole : Read scan bufPtr bytes.length bytes.length read)
      (later : readlineLoop? errno fuel (bufPtr + bytes.length) (nleft - bytes.length) read =
        some (ret, last)) :
      Shown errno fuel bufPtr nleft bytes next ret last

/-- How a turn of the loop of `readline` can go. -/
inductive Turn (errno fuel bufPtr : Nat) (nleft : Int) (state : LineState) :
    Int → LineState → Prop where
  | failed (last : LineState) (peek : Peek state bufPtr nleft none last) :
      Turn errno fuel bufPtr nleft state (-1) last
  | closed (last : LineState) (peek : Peek state bufPtr nleft (some []) last) :
      Turn errno fuel bufPtr nleft state 0 last
  | shown (bytes : List UInt8) (next : LineState) (ret : Int) (last : LineState)
      (called : state.peek? bufPtr nleft = some (some bytes, next))
      (peek : Peek state bufPtr nleft (some bytes) next) (nonempty : bytes ≠ [])
      (shown : Shown errno fuel bufPtr nleft bytes next ret last) :
      Turn errno fuel bufPtr nleft state ret last

theorem Peek.length_le {bytes : List UInt8} {next : LineState}
    (peek : Peek state bufPtr nleft (some bytes) next) :
    bytes.length ≤ ssizeMax ∧ bytes.length ≤ state.stream.length := by
  cases peek with
  | bytes most recvs _ _ _ =>
      obtain ⟨_, small, available⟩ := length_served_le state.stream (toSizeT nleft) most
      exact ⟨Nat.le_trans small (by decide), available⟩

theorem Peek.length_le_int {bytes : List UInt8} {next : LineState}
    (peek : Peek state bufPtr nleft (some bytes) next) : bytes.length ≤ int32Max := by
  cases peek with
  | bytes most recvs _ _ _ => exact (length_served_le state.stream (toSizeT nleft) most).2.1

/-- A peek takes nothing out of the stream. -/
theorem Peek.same {peeked : Option (List UInt8)} {next : LineState}
    (peek : Peek state bufPtr nleft peeked next) :
    next.stream = state.stream ∧ next.reads = state.reads := by
  cases peek with
  | failed recvs error => exact ⟨rfl, rfl⟩
  | bytes most recvs _ _ _ => exact ⟨rfl, rfl⟩

theorem Peek.progress {bytes : List UInt8} {next : LineState}
    (peek : Peek state bufPtr nleft (some bytes) next) :
    next.recvs.length < state.recvs.length ∧ calm state.recvs = calm next.recvs + 1 ∧
      (.error ∈ state.recvs ↔ .error ∈ next.recvs) := by
  cases peek with
  | bytes most recvs shorter fast clean => exact ⟨shorter, fast, clean⟩

theorem turn_of_readlineLoop?
    (run : readlineLoop? errno (fuel + 1) bufPtr nleft state = some (ret, last)) :
    Turn errno fuel bufPtr nleft state ret last := by
  cases round_of_readlineLoop? run with
  | failed _ called => exact .failed last (peek_of_peek? called)
  | closed _ called => exact .closed last (peek_of_peek? called)
  | returned byte bytes next _ _ called scanned =>
      exact .shown (byte :: bytes) next ret last called (peek_of_peek? called) (by simp)
        (.returned ret last scanned)
  | exceeded byte bytes next _ called scanned more =>
      exact .shown (byte :: bytes) next _ last called (peek_of_peek? called) (by simp)
        (.exceeded last scanned more)
  | short byte bytes next scan got _ called scanned fits read few =>
      have peek := peek_of_peek? called
      exact .shown (byte :: bytes) next _ last called peek (by simp)
        (.short scan last got scanned (Int.not_lt.mp fits)
          (read_of_readn? peek.length_le.1 read) few)
  | again byte bytes next scan after _ _ called scanned fits read later =>
      have peek := peek_of_peek? called
      exact .shown (byte :: bytes) next ret last called peek (by simp)
        (.again scan after ret last scanned (Int.not_lt.mp fits)
          (read_of_readn? peek.length_le.1 read) later)

/-- Without errors, `readline` takes nothing back. -/
theorem readlineLoop?_le (clean : .error ∉ state.reads)
    (run : readlineLoop? errno fuel bufPtr nleft state = some (ret, last)) :
    last.stream.length ≤ state.stream.length := by
  induction fuel generalizing bufPtr nleft state with
  | zero => cases run
  | succ fuel ih =>
      cases turn_of_readlineLoop? run with
      | failed _ peek => rw [peek.same.1]
      | closed _ peek => rw [peek.same.1]
      | shown bytes next _ _ _ peek _ shown =>
          have small : 0 + bytes.length ≤ ssizeMax := by
            rw [Nat.zero_add]
            exact peek.length_le.1
          rw [← peek.same.2] at clean
          rw [← peek.same.1]
          cases shown with
          | returned _ _ scanned => exact scan?_le small clean scanned
          | exceeded _ scanned _ => exact scan?_le small clean scanned
          | short scan _ got scanned _ read _ =>
              have advanced := scan?_ends small scanned
              exact Nat.le_trans (read.le (mt advanced.clean.mpr clean)) advanced.shorter
          | again scan read _ _ scanned _ whole later =>
              have advanced := (scan?_ends small scanned).trans (whole.advanced rfl)
              exact Nat.le_trans (ih (mt advanced.clean.mpr clean) later) advanced.shorter

/-- `readline` comes to an end once enough calls are not interrupted: every turn takes
one answer to `recv` and one byte of the stream. -/
theorem exists_readlineLoop? (enough : state.stream.length < calm state.recvs)
    (enoughReads : state.stream.length < calm state.reads)
    (fueled : state.recvs.length ≤ fuel) :
    ∃ ret last, readlineLoop? errno fuel bufPtr nleft state = some (ret, last) := by
  induction fuel generalizing bufPtr nleft state with
  | zero =>
      have none_left : calm state.recvs ≤ state.recvs.length := List.countP_le_length
      omega
  | succ fuel ih =>
      obtain ⟨peeked, next, called⟩ := exists_peek? bufPtr nleft (Nat.zero_lt_of_lt enough)
      have peek := peek_of_peek? called
      obtain ⟨stream, reads⟩ := peek.same
      unfold readlineLoop?
      rw [called]
      match peeked with
      | none => exact ⟨_, _, rfl⟩
      | some [] => exact ⟨_, _, rfl⟩
      | some (byte :: bytes) =>
          have small : bytes.length + 1 ≤ ssizeMax := peek.length_le.1
          obtain ⟨shorter, fast, _⟩ := peek.progress
          rw [← stream] at enough enoughReads
          rw [← reads] at enoughReads
          obtain ⟨result, scanned⟩ := exists_scan? bufPtr
            (show 0 + (bytes.length + 1) ≤ ssizeMax by omega) enoughReads
          dsimp only
          rw [scanned]
          match result with
          | .returns ret last => exact ⟨_, _, rfl⟩
          | .ends scan =>
              have advanced := scan?_ends (by omega) scanned
              have slack := advanced.slack
              obtain ⟨got, read, calledRead⟩ := exists_readn? bufPtr (bytes.length + 1)
                (show scan.stream.length < calm scan.reads by omega)
              dsimp only
              rw [calledRead]
              by_cases more : ((bytes.length + 1 : Nat) : Int) > nleft
              · exact ⟨_, _, if_pos more⟩
              · rw [if_neg more]
                dsimp only
                by_cases few : got ≠ ((bytes.length + 1 : Nat) : Int)
                · exact ⟨_, _, if_pos few⟩
                · rw [if_neg few]
                  have whole := read_of_readn? small calledRead
                  have further := advanced.trans (whole.advanced (not_not.mp few))
                  have taken := whole.length_add (not_not.mp few)
                  have before := advanced.shorter
                  have later := further.slack
                  apply ih
                  · rw [further.recvs]
                    omega
                  · omega
                  · rw [further.recvs]
                    omega

theorem toSizeT_le (low : 0 ≤ nleft) : (toSizeT nleft : Int) ≤ nleft := by
  unfold toSizeT
  omega

/-- A length that is no `int` in disguise asks for something. -/
theorem toSizeT_pos (low : -2 ^ 31 ≤ nleft) (high : nleft ≤ int32Max) (some_asked : nleft ≠ 0) :
    0 < toSizeT nleft := by
  have bound : int32Max = 2147483647 := rfl
  unfold toSizeT
  omega

/-- What a peek shows is the beginning of the stream. -/
theorem Peek.shows {bytes : List UInt8} {next : LineState}
    (peek : Peek state bufPtr nleft (some bytes) next) :
    bytes = state.stream.take bytes.length ∧ next.buf = store state.buf bufPtr bytes ∧
      (0 ≤ nleft → bytes.length ≤ nleft) := by
  cases peek with
  | bytes most recvs _ _ _ =>
      refine ⟨served_eq_take _ _ _, rfl, fun low => ?_⟩
      have asked := (length_served_le state.stream (toSizeT nleft) most).1
      have converted := toSizeT_le low
      omega

theorem Peek.nil {next : LineState} (peek : Peek state bufPtr nleft (some []) next)
    (some_left : state.stream ≠ []) (low : -2 ^ 31 ≤ nleft) (high : nleft ≤ int32Max) :
    nleft = 0 := by
  by_contra some_asked
  generalize shown : some [] = peeked at peek
  cases peek with
  | failed recvs error => cases shown
  | bytes most recvs _ _ _ =>
      have empty := Option.some.inj shown
      exact served_ne_nil most some_left (toSizeT_pos low high some_asked) empty.symm

/-! ## Up to the newline -/

section Newline

variable {line later : List UInt8} {next : LineState}

/-- Bytes before the newline are passed over. -/
theorem scan?_line {bytes : List UInt8} (memory : next.buf = store state.buf bufPtr bytes)
    (shown : bytes = line.take bytes.length) (first : newline ∉ line) :
    scan? bufPtr bytes.length 0 next = some (.ends next) := by
  refine scan?_quiet fun offset below => ?_
  have byte := List.getElem?_eq_getElem below
  rw [memory, Nat.zero_add, store_apply _ _ byte]
  intro isNewline
  have member := List.getElem_mem below
  rw [isNewline, shown] at member
  exact first (List.mem_of_mem_take member)

/-- At the newline the line is read, and the scan goes on behind it. -/
theorem scan?_newline {rest more : List UInt8} {result : Scan}
    (memory : next.buf = store state.buf bufPtr (line ++ newline :: rest))
    (stream : next.stream = line ++ newline :: rest ++ more) (first : newline ∉ line)
    (clean : .error ∉ next.reads) (small : (line ++ newline :: rest).length ≤ ssizeMax)
    (scanned : scan? bufPtr (line ++ newline :: rest).length 0 next = some result) :
    ∃ reads, .error ∉ reads ∧
      scan? bufPtr rest.length (line.length + 1)
        { next with stream := rest ++ more, reads := reads } = some result := by
  have length : (line ++ newline :: rest).length = line.length + (rest.length + 1) := by simp
  have quiet : ∀ offset < line.length, next.buf (bufPtr + (0 + offset)) ≠ newline := by
    intro offset below isNewline
    have byte : (line ++ newline :: rest)[offset]? = some (line.get ⟨offset, below⟩) := by
      rw [List.getElem?_append_left below, List.getElem?_eq_getElem below]
      rfl
    rw [memory, Nat.zero_add, store_apply _ _ byte] at isNewline
    exact first (isNewline ▸ List.getElem_mem below)
  have here : next.buf (bufPtr + (0 + line.length)) = newline := by
    have byte : (line ++ newline :: rest)[line.length]? = some newline := by simp
    rw [memory, Nat.zero_add, store_apply _ _ byte]
  rw [length, scan?_add line.length quiet, scan?, if_pos here] at scanned
  split at scanned
  · cases scanned
  · next ret read called =>
      simp only [Nat.zero_add] at called scanned
      cases read_of_readn? (by omega) called with
      | whole reads enough fast cleaner =>
          simp only [Nat.cast_add, Nat.cast_one, ne_eq, not_true_eq_false, if_false] at scanned
          have memory_same : store next.buf bufPtr (next.stream.take (line.length + 1)) =
              next.buf := by
            rw [stream, List.take_append_of_le_length (by simp), memory, store_take]
          have behind : next.stream.drop (line.length + 1) = rest ++ more := by
            rw [stream, List.append_assoc, List.drop_length_add_append]
            rfl
          rw [memory_same, behind] at scanned
          exact ⟨reads, mt cleaner.mpr clean, scanned⟩
      | short reads few _ =>
          rw [stream] at few
          simp at few
      | failed buf after reads error => exact absurd error clean

/-- A scan that returns has read. -/
theorem scan?_returns_lt {left i : Nat} (small : i + left ≤ ssizeMax) (clean : .error ∉ next.reads)
    (some_left : next.stream ≠ [])
    (scanned : scan? bufPtr left i next = some (.returns ret last)) :
    last.stream.length < next.stream.length := by
  by_cases ahead : ∃ offset < left, next.buf (bufPtr + (i + offset)) = newline
  · exact scan?_lt small clean ahead some_left scanned
  · push Not at ahead
    rw [scan?_quiet ahead] at scanned
    cases scanned

/-- What a peek shows of a line: a part of it, or all of it and some of what follows. -/
theorem Peek.line_or_more {bytes : List UInt8} (peek : Peek state bufPtr nleft (some bytes) next)
    (stream : state.stream = line ++ newline :: later) :
    (bytes.length ≤ line.length ∧ bytes = line.take bytes.length) ∨
      ∃ rest more, later = rest ++ more ∧ bytes = line ++ newline :: rest ∧
        rest.length + line.length + 1 = bytes.length := by
  obtain ⟨shown, _, _⟩ := peek.shows
  have available := peek.length_le.2
  rw [stream] at shown available
  by_cases part : bytes.length ≤ line.length
  · exact .inl ⟨part, by rwa [List.take_append_of_le_length part] at shown⟩
  · refine .inr ⟨later.take (bytes.length - line.length - 1),
      later.drop (bytes.length - line.length - 1), (List.take_append_drop _ _).symm, ?_, ?_⟩
    · rw [List.take_append, List.take_of_length_le (by omega)] at shown
      rw [show bytes.length - line.length = bytes.length - line.length - 1 + 1 by omega,
        List.take_succ_cons] at shown
      exact shown
    · simp only [List.length_append, List.length_cons] at available
      rw [List.length_take]
      omega

/-- Bytes that were shown without a newline and fit are read: without an error they are gone
and the loop goes on, with one `readline` returns `errno`. -/
theorem Shown.quiet {bytes : List UInt8}
    (shown : Shown errno fuel bufPtr nleft bytes next ret last)
    (scans : scan? bufPtr bytes.length 0 next = some (.ends next))
    (available : bytes.length ≤ next.stream.length) (fits : bytes.length ≤ nleft) :
    (ret = errno ∧ .error ∈ next.reads) ∨
      ∃ read : LineState, read.buf = store next.buf bufPtr (next.stream.take bytes.length) ∧
        read.stream = next.stream.drop bytes.length ∧ read.recvs = next.recvs ∧
        (.error ∈ next.reads ↔ .error ∈ read.reads) ∧
        readlineLoop? errno fuel (bufPtr + bytes.length) (nleft - bytes.length) read =
          some (ret, last) := by
  cases shown with
  | returned _ _ scanned =>
      rw [scans] at scanned
      cases scanned
  | exceeded _ _ more => omega
  | short scan _ got scanned _ read few =>
      rw [scans] at scanned
      cases scanned
      cases read with
      | whole reads _ _ _ => exact absurd rfl few
      | short reads fewer _ => omega
      | failed buf after reads error => exact .inl ⟨rfl, error⟩
  | again scan read _ _ scanned _ whole later =>
      rw [scans] at scanned
      cases scanned
      refine .inr ⟨read, ?_⟩
      generalize all : (bytes.length : Int) = got at whole
      cases whole with
      | whole reads _ _ clean => exact ⟨rfl, rfl, rfl, clean, later⟩
      | short reads fewer _ => omega
      | failed buf after reads error => omega

/-- A peek of a part of the line is read, and the loop goes on. -/
theorem Shown.within {bytes : List UInt8}
    (shown : Shown errno fuel bufPtr nleft bytes next ret last)
    (memory : next.buf = store state.buf bufPtr bytes)
    (part : bytes = line.take bytes.length) (stream : bytes = next.stream.take bytes.length)
    (available : bytes.length ≤ next.stream.length) (fits : bytes.length ≤ nleft)
    (first : newline ∉ line) (clean : .error ∉ next.reads) :
    ∃ read : LineState, read.buf = next.buf ∧ read.stream = next.stream.drop bytes.length ∧
      read.recvs = next.recvs ∧ .error ∉ read.reads ∧
      readlineLoop? errno fuel (bufPtr + bytes.length) (nleft - bytes.length) read =
        some (ret, last) := by
  have again := store_take state.buf bufPtr bytes bytes.length
  rw [List.take_length, ← memory] at again
  rcases shown.quiet (scan?_line memory part first) available fits with
    ⟨_, error⟩ | ⟨read, buf, behind, recvs, cleaner, later⟩
  · exact absurd error clean
  · rw [← stream, again] at buf
    exact ⟨read, buf, behind, recvs, mt cleaner.mpr clean, later⟩

/-- The line and nothing behind it is read, and then there is nothing to be read again. -/
theorem Shown.alone (shown : Shown errno fuel bufPtr nleft (line ++ [newline]) next ret last)
    (memory : next.buf = store state.buf bufPtr (line ++ [newline]))
    (stream : next.stream = line ++ [newline]) (fits : (line ++ [newline]).length ≤ nleft)
    (small : (line ++ [newline]).length ≤ ssizeMax) (first : newline ∉ line)
    (clean : .error ∉ next.reads) :
    ret = errno ∧ last.stream = [] ∧ last.buf = next.buf := by
  have found : ∀ {result : Scan}, scan? bufPtr (line ++ [newline]).length 0 next = some result →
      ∃ reads, .error ∉ reads ∧ result = .ends { next with stream := [], reads := reads } := by
    intro result scanned
    obtain ⟨reads, cleaner, rest⟩ := scan?_newline memory (by simpa using stream) first clean small
      scanned
    exact ⟨reads, cleaner, (Option.some.inj rest).symm⟩
  cases shown with
  | returned _ _ scanned =>
      obtain ⟨reads, _, impossible⟩ := found scanned
      cases impossible
  | exceeded _ _ more => omega
  | short scan _ got scanned _ read _ =>
      obtain ⟨reads, cleaner, isEnds⟩ := found scanned
      cases isEnds
      cases read with
      | whole _ enough _ _ => simp at enough
      | short _ _ _ => exact ⟨rfl, rfl, store_nil _ _⟩
      | failed buf after _ error => exact absurd error cleaner
  | again scan read _ _ scanned _ whole _ =>
      obtain ⟨reads, _, isEnds⟩ := found scanned
      cases isEnds
      have taken := whole.length_add rfl
      simp at taken

/-- Of what stands behind the line, at least one byte is taken. -/
theorem Shown.beyond {rest more : List UInt8}
    (shown : Shown errno fuel bufPtr nleft (line ++ newline :: rest) next ret last)
    (memory : next.buf = store state.buf bufPtr (line ++ newline :: rest))
    (stream : next.stream = line ++ newline :: rest ++ more)
    (fits : (line ++ newline :: rest).length ≤ nleft)
    (small : (line ++ newline :: rest).length ≤ ssizeMax) (first : newline ∉ line)
    (clean : .error ∉ next.reads) (some_left : rest ++ more ≠ []) :
    last.stream.length < (rest ++ more).length := by
  have positive := List.length_pos_iff.mpr some_left
  have length : (line ++ newline :: rest).length = line.length + 1 + rest.length := by
    simp only [List.length_append, List.length_cons]
    omega
  have found := fun {result : Scan} (scanned : scan? bufPtr (line ++ newline :: rest).length 0
    next = some result) => scan?_newline memory stream first clean small scanned
  cases shown with
  | returned _ _ scanned =>
      obtain ⟨reads, cleaner, behind⟩ := found scanned
      exact scan?_returns_lt (by omega) cleaner some_left behind
  | exceeded _ _ more => omega
  | short scan _ got scanned _ read _ =>
      obtain ⟨reads, cleaner, behind⟩ := found scanned
      have advanced := scan?_ends (by omega) behind
      have shorter := advanced.shorter
      by_cases nothing : scan.stream = []
      · have none_left := read.le (mt advanced.clean.mpr cleaner)
        rw [nothing] at none_left
        exact Nat.lt_of_le_of_lt none_left positive
      · exact Nat.lt_of_lt_of_le
          (read.lt (mt advanced.clean.mpr cleaner) (by omega) nothing) shorter
  | again scan read _ _ scanned _ whole later =>
      obtain ⟨reads, cleaner, behind⟩ := found scanned
      have advanced := scan?_ends (by omega) behind
      have shorter := advanced.shorter
      have taken := whole.length_add rfl
      have cleanest := (advanced.trans (whole.advanced rfl)).clean
      have rest_le := readlineLoop?_le (mt cleanest.mpr cleaner) later
      dsimp only at shorter
      omega

/-- Over a stream with a newline: the newline is out of reach and `readline` returns 0; it
ends the stream and `readline` returns `errno` with the line read; or bytes behind it are
taken. -/
theorem readlineLoop?_newline (low : 0 ≤ nleft) (high : nleft ≤ int32Max)
    (stream : state.stream = line ++ newline :: later) (first : newline ∉ line)
    (clean : .error ∉ state.recvs) (cleanReads : .error ∉ state.reads)
    (run : readlineLoop? errno fuel bufPtr nleft state = some (ret, last)) :
    (nleft ≤ line.length ∧ ret = 0) ∨
      (line.length < nleft ∧ later = [] ∧ ret = errno ∧ last.stream = [] ∧
        last.buf = store state.buf bufPtr (line ++ [newline])) ∨
      (line.length < nleft ∧ later ≠ [] ∧ last.stream.length < later.length) := by
  induction fuel generalizing bufPtr nleft state line with
  | zero => cases run
  | succ fuel ih =>
      have some_left : state.stream ≠ [] := by
        rw [stream]
        simp
      cases turn_of_readlineLoop? run with
      | failed _ peek =>
          cases peek with
          | failed recvs error => exact absurd error clean
      | closed _ peek =>
          have none_asked := peek.nil some_left (by omega) high
          exact .inl ⟨by omega, rfl⟩
      | shown bytes next _ _ _ peek nonempty shown =>
          obtain ⟨isTake, memory, fits⟩ := peek.shows
          obtain ⟨small, available⟩ := peek.length_le
          have cleanNext := mt peek.progress.2.2.mpr clean
          have positive := List.length_pos_iff.mpr nonempty
          rw [← peek.same.2] at cleanReads
          rw [← peek.same.1] at stream isTake available
          rcases peek.line_or_more (peek.same.1 ▸ stream) with ⟨part, isPart⟩ |
            ⟨rest, more, rfl, rfl, count⟩
          · obtain ⟨read, buf', stream', recvs', cleaner, run'⟩ :=
              shown.within memory isPart isTake available (fits low) first cleanReads
            rw [stream, List.drop_append_of_le_length part] at stream'
            rw [← recvs'] at cleanNext
            have spelled : bytes ++ line.drop bytes.length = line := by
              conv_lhs => rw [isPart]
              rw [List.length_take, Nat.min_eq_left part, List.take_append_drop]
            have left := fits low
            have later_line := ih (by omega) (by omega) stream'
              (fun member => first (List.mem_of_mem_drop member)) cleanNext cleaner run'
            rcases later_line with
              ⟨far, zero⟩ | ⟨near, nothing, value, ended, buf⟩ | ⟨near, more, fewer⟩
            · exact .inl ⟨by rw [List.length_drop] at far; omega, zero⟩
            · rw [List.length_drop] at near
              refine .inr (.inl ⟨by omega, nothing, value, ended, ?_⟩)
              rw [buf, buf', memory, store_append, ← List.append_assoc, spelled]
            · exact .inr (.inr ⟨by rw [List.length_drop] at near; omega, more, fewer⟩)
          · have left := fits low
            rw [List.length_append, List.length_cons] at left
            refine .inr ?_
            by_cases nothing : rest ++ more = []
            · obtain ⟨rfl, rfl⟩ := List.append_eq_nil_iff.mp nothing
              obtain ⟨value, ended, buf⟩ := shown.alone memory (by simpa using stream) (fits low)
                small first cleanReads
              exact .inl ⟨by omega, rfl, value, ended, by rw [buf, memory]⟩
            · exact .inr ⟨by omega, nothing, shown.beyond memory (by simpa using stream) (fits low)
                small first cleanReads nothing⟩

/-- With a negative length the turn is the last one. -/
theorem Shown.scanned {bytes : List UInt8} (negative : nleft < 0)
    (shown : Shown errno fuel bufPtr nleft bytes next ret last) :
    ∃ result : Scan, scan? bufPtr bytes.length 0 next = some result ∧ result.state = last ∧
      ∀ scan, result = .ends scan → ret = errno := by
  cases shown with
  | returned _ _ scanned => exact ⟨_, scanned, rfl, fun _ impossible => by cases impossible⟩
  | exceeded _ scanned _ => exact ⟨_, scanned, rfl, fun _ _ => rfl⟩
  | short scan _ got scanned fits read few => omega
  | again scan read _ _ scanned fits whole later => omega

/-- Behind the newline the scan reads on exactly if there is another one. -/
theorem scan?_behind {rest more reads : List _} {result : Scan}
    (memory : next.buf = store state.buf bufPtr (line ++ newline :: rest))
    (small : line.length + 1 + rest.length ≤ ssizeMax) (clean : Answer.error ∉ reads)
    (scanned : scan? bufPtr rest.length (line.length + 1)
      { next with stream := rest ++ more, reads := reads } = some result) :
    (newline ∉ rest ∧
        result = .ends { next with stream := rest ++ more, reads := reads }) ∨
      (newline ∈ rest ∧ result.state.stream.length < (rest ++ more).length) := by
  have byte : ∀ offset, (below : offset < rest.length) →
      next.buf (bufPtr + (line.length + 1 + offset)) = rest.get ⟨offset, below⟩ := by
    intro offset below
    have there : (line ++ newline :: rest)[line.length + 1 + offset]? =
        some (rest.get ⟨offset, below⟩) := by
      rw [List.getElem?_append_right (by omega),
        show line.length + 1 + offset - line.length = offset + 1 by omega, List.getElem?_cons_succ,
        List.getElem?_eq_getElem below]
      rfl
    rw [memory, store_apply _ _ there]
  by_cases another : newline ∈ rest
  · obtain ⟨⟨offset, below⟩, isNewline⟩ := List.get_of_mem another
    refine .inr ⟨another, scan?_lt small clean ⟨offset, below, ?_⟩ ?_ scanned⟩
    · exact (byte offset below).trans isNewline
    · exact List.append_ne_nil_of_left_ne_nil (List.ne_nil_of_mem another) more
  · refine .inl ⟨another, ?_⟩
    rw [scan?_quiet] at scanned
    · exact (Option.some.inj scanned).symm
    · intro offset below isNewline
      exact another ((byte offset below).symm.trans isNewline ▸ List.get_mem rest ⟨offset, below⟩)

/-- With a negative length the first turn is the last.  It reads the line and nothing more
if it was shown the newline and no other. -/
theorem readlineLoop?_negative (low : -2 ^ 31 ≤ nleft) (negative : nleft < 0)
    (stream : state.stream = line ++ newline :: later) (first : newline ∉ line)
    (clean : .error ∉ state.recvs) (cleanReads : .error ∉ state.reads)
    (run : readlineLoop? errno (fuel + 1) bufPtr nleft state = some (ret, last)) :
    ∃ bytes next, state.peek? bufPtr nleft = some (some bytes, next) ∧
      ((bytes.count newline = 1 ∧ ret = errno ∧ last.stream = later ∧
          window last.buf bufPtr (line.length + 1) = line ++ [newline]) ∨
        (bytes.count newline ≠ 1 ∧ last.stream ≠ later)) := by
  have some_left : state.stream ≠ [] := by
    rw [stream]
    simp
  cases turn_of_readlineLoop? run with
  | failed _ peek =>
      cases peek with
      | failed recvs error => exact absurd error clean
  | closed _ peek => exact absurd (peek.nil some_left low (by omega)) (by omega)
  | shown bytes next _ _ called peek nonempty shown =>
      refine ⟨bytes, next, called, ?_⟩
      obtain ⟨_, memory, _⟩ := peek.shows
      have small := peek.length_le.1
      obtain ⟨result, scanned, rfl, value⟩ := shown.scanned negative
      rcases peek.line_or_more stream with ⟨_, isPart⟩ | ⟨rest, more, rfl, rfl, count⟩
      · have none_shown : newline ∉ bytes := by
          rw [isPart]
          exact fun member => first (List.mem_of_mem_take member)
        rw [scan?_line memory isPart first] at scanned
        cases scanned
        refine .inr ⟨by rw [List.count_eq_zero_of_not_mem none_shown]; decide, fun same => ?_⟩
        have lengths := congrArg List.length ((peek.same.1.symm.trans same).symm.trans stream)
        simp at lengths
        omega
      · rw [← peek.same.1] at stream
        rw [← peek.same.2] at cleanReads
        have counted : (line ++ newline :: rest).count newline = rest.count newline + 1 := by
          rw [List.count_append, List.count_eq_zero_of_not_mem first, List.count_cons_self,
            Nat.zero_add]
        obtain ⟨reads, cleaner, behind⟩ := scan?_newline memory (by simpa using stream) first
          cleanReads small scanned
        rcases scan?_behind memory (by omega) cleaner behind with
          ⟨another, isEnds⟩ | ⟨another, fewer⟩
        · subst isEnds
          refine .inl ⟨by rw [counted, List.count_eq_zero_of_not_mem another], value _ rfl, rfl, ?_⟩
          dsimp only [Scan.state]
          rw [memory, window_store_take state.buf bufPtr (by omega), List.take_append,
            List.take_of_length_le (by omega)]
          simp
        · have some_more := List.count_pos_iff.mpr another
          exact .inr ⟨by omega, fun same => by rw [same] at fewer; omega⟩

/-- `readline` has returned the line: its length, with the line and its newline in `buf`,
and nothing else taken out of the stream. -/
def ReturnsLine (line later : List UInt8) (ret : Int) (last : LineState) : Prop :=
  ret = line.length + 1 ∧ window last.buf 0 (line.length + 1) = line ++ [newline] ∧
    last.stream = later

/-- The bytes the first `recv_peek` of `readline` shows. -/
def firstShown (state : LineState) (maxline : Nat) : List UInt8 :=
  match recvPeek state.stream (toSizeT (toInt32 maxline)) state.recvs with
  | some (some bytes, _) => bytes
  | _ => []

/-- What has to come together for the line to be returned: `errno` holds its length; and
nothing follows it, or `maxline` is negative as an `int` and one newline is in the first
peek. -/
def Coincidence (state : LineState) (maxline errno : Nat) (line later : List UInt8) : Prop :=
  errno = line.length + 1 ∧
    ((line.length < toInt32 maxline ∧ later = []) ∨
      (toInt32 maxline < 0 ∧ (state.firstShown maxline).count newline = 1))

instance (state : LineState) (maxline errno : Nat) (line later : List UInt8) :
    Decidable (Coincidence state maxline errno line later) :=
  inferInstanceAs (Decidable (_ ∧ _))

theorem toInt32_range (value : Nat) : -2 ^ 31 ≤ toInt32 value ∧ toInt32 value ≤ int32Max := by
  have bound : int32Max = 2147483647 := rfl
  have low := Int.le_bmod (x := value) (m := 2 ^ 32) (by decide)
  have high := Int.bmod_lt (x := value) (m := 2 ^ 32) (by decide)
  unfold toInt32
  omega

theorem firstShown_eq {maxline : Nat} {bytes : List UInt8} {bufPtr : Nat}
    (called : state.peek? bufPtr (toInt32 maxline) = some (some bytes, next)) :
    state.firstShown maxline = bytes := by
  unfold peek? at called
  unfold firstShown
  split at called
  · cases called
  · cases called
  · next peek =>
      cases called
      rw [peek]

/-- A run of `readline` has a turn of its loop. -/
theorem exists_fuel {maxline : Nat} (run : state.readline? maxline errno = some (ret, last)) :
    ∃ fuel, readlineLoop? errno (fuel + 1) 0 (toInt32 maxline) state = some (ret, last) := by
  unfold readline? at run
  cases fueled : state.recvs.length with
  | zero =>
      rw [fueled] at run
      cases run
  | succ fuel => exact ⟨fuel, fueled ▸ run⟩

/-- A run of `readline` returns the line exactly in that coincidence. -/
theorem returnsLine_iff {maxline : Nat} (stream : state.stream = line ++ newline :: later)
    (first : newline ∉ line) (clean : .error ∉ state.recvs) (cleanReads : .error ∉ state.reads)
    (run : state.readline? maxline errno = some (ret, last)) :
    ReturnsLine line later ret last ↔ Coincidence state maxline errno line later := by
  obtain ⟨low, high⟩ := toInt32_range maxline
  unfold ReturnsLine Coincidence
  by_cases negative : toInt32 maxline < 0
  · obtain ⟨fuel, run⟩ := exists_fuel run
    obtain ⟨bytes, next, called, outcome⟩ :=
      readlineLoop?_negative low negative stream first clean cleanReads run
    rw [firstShown_eq called]
    rcases outcome with ⟨one, rfl, isLater, inBuf⟩ | ⟨notOne, other⟩
    · constructor
      · rintro ⟨value, -, -⟩
        exact ⟨by omega, .inr ⟨negative, one⟩⟩
      · rintro ⟨value, -⟩
        exact ⟨by omega, inBuf, isLater⟩
    · constructor
      · rintro ⟨-, -, isLater⟩
        exact absurd isLater other
      · rintro ⟨-, ⟨reach, -⟩ | ⟨-, one⟩⟩
        · omega
        · exact absurd one notOne
  · rcases readlineLoop?_newline (by omega) high stream first clean cleanReads run with
      ⟨far, rfl⟩ | ⟨near, nothing, rfl, ended, buf⟩ | ⟨near, more, fewer⟩
    · constructor
      · rintro ⟨value, -, -⟩
        omega
      · rintro ⟨-, ⟨reach, -⟩ | ⟨isNegative, -⟩⟩
        · omega
        · exact absurd isNegative negative
    · constructor
      · rintro ⟨value, -, -⟩
        exact ⟨by omega, .inl ⟨near, nothing⟩⟩
      · rintro ⟨value, -⟩
        refine ⟨by omega, ?_, ended.trans nothing.symm⟩
        rw [buf, window_store_take _ _ (by simp), List.take_of_length_le (by simp)]
    · constructor
      · rintro ⟨-, -, isLater⟩
        rw [isLater] at fewer
        omega
      · rintro ⟨-, ⟨-, nothing⟩ | ⟨isNegative, -⟩⟩
        · exact absurd nothing more
        · exact absurd isNegative negative

/-- Whatever follows the line and however the calls split it, `readline` returns the line,
its length and nothing more in exactly one coincidence: the scan goes on behind the newline
and the loop behind the scan, so the line has to end what there is and `errno` has to hold
its length. -/
theorem readline_returns_line_iff (state : LineState) (maxline errno : Nat)
    (line later : List UInt8) (stream : state.stream = line ++ newline :: later)
    (first : newline ∉ line)
    (clean : .error ∉ state.recvs ∧ .error ∉ state.reads)
    (enough : state.stream.length < calm state.recvs ∧ state.stream.length < calm state.reads) :
    (∃ ret last, state.readline? maxline errno = some (ret, last) ∧
        ReturnsLine line later ret last) ↔ Coincidence state maxline errno line later := by
  constructor
  · rintro ⟨ret, last, run, returned⟩
    exact (returnsLine_iff stream first clean.1 clean.2 run).mp returned
  · intro coincidence
    obtain ⟨ret, last, run⟩ : ∃ ret last, state.readline? maxline errno = some (ret, last) :=
      exists_readlineLoop? enough.1 enough.2 (Nat.le_refl _)
    exact ⟨ret, last, run, (returnsLine_iff stream first clean.1 clean.2 run).mpr coincidence⟩

/-- A stream, with calls that take all they can. -/
def willing (stream : List UInt8) (calls : Nat) : LineState where
  buf := fun _ => 0
  stream := stream
  recvs := .eintr :: List.replicate calls (.bytes 100)
  reads := .eintr :: List.replicate calls (.bytes 100)

/-- Three bytes and a newline, with `errno` still at `EINTR`, which is 4. -/
theorem line_of_three_returned :
    ∃ ret last, (willing [97, 98, 99, 10] 5).readline? 80 4 = some (ret, last) ∧
      ReturnsLine [97, 98, 99] [] ret last :=
  (readline_returns_line_iff (willing [97, 98, 99, 10] 5) 80 4 [97, 98, 99] [] rfl (by decide)
    (by decide) (by decide)).mpr (by decide)

/-- Two lines: the second one is taken too and overwrites the first. -/
theorem second_line_lost :
    ((willing [97, 10, 98, 10] 5).readline? 80 0).map
        (fun result => (result.1, window result.2.buf 0 2, result.2.stream)) =
        some (2, [98, 10], []) ∧
      ¬ ∃ ret last, (willing [97, 10, 98, 10] 5).readline? 80 0 = some (ret, last) ∧
        ReturnsLine [97] [98, 10] ret last := by
  refine ⟨by decide, ?_⟩
  rintro ⟨ret, last, run, -, -, isLater⟩
  have lost : ((willing [97, 10, 98, 10] 5).readline? 80 0).map (fun result => result.2.stream) =
      some [] := by
    decide
  rw [run, Option.map_some, isLater] at lost
  cases lost

end Newline

/-! ## Without a newline -/

section Quiet

/-- Over a stream without a newline in reach, with the calls it makes and no others:
`readline` returns -1 when a `recv` fails, `errno` when a `read` fails, and otherwise 0,
with all bytes in reach taken. -/
theorem readlineLoop?_quiet (low : 0 ≤ nleft) (high : nleft ≤ int32Max)
    (quiet : newline ∉ state.stream.take nleft.toNat)
    (run : readlineLoop? errno fuel bufPtr nleft state = some (ret, last))
    (used : last.recvs = [] ∧ last.reads = []) :
    (ret = -1 ∧ .error ∈ state.recvs ∧ .error ∉ state.reads) ∨
      (ret = 0 ∧ .error ∉ state.recvs ∧ .error ∉ state.reads ∧
        last.stream = state.stream.drop nleft.toNat) ∨
      (ret = errno ∧ .error ∈ state.reads) := by
  induction fuel generalizing bufPtr nleft state with
  | zero => cases run
  | succ fuel ih =>
      cases turn_of_readlineLoop? run with
      | failed _ peek =>
          rw [← peek.same.2, used.2]
          cases peek with
          | failed recvs error => exact .inl ⟨rfl, error, List.not_mem_nil⟩
      | closed _ peek =>
          have taken : last.stream = state.stream.drop nleft.toNat := by
            rw [peek.same.1]
            by_cases some_left : state.stream = []
            · rw [some_left, List.drop_nil]
            · rw [peek.nil some_left (by omega) high]
              rfl
          rw [← peek.same.2, peek.progress.2.2, used.1, used.2]
          exact .inr (.inl ⟨rfl, List.not_mem_nil, List.not_mem_nil, taken⟩)
      | shown bytes next _ _ _ peek nonempty shown =>
          obtain ⟨isTake, memory, within⟩ := peek.shows
          have available := peek.length_le.2
          have fits := within low
          have short : bytes.length ≤ nleft.toNat := by omega
          have isPart : bytes = (state.stream.take nleft.toNat).take bytes.length := by
            rwa [List.take_take, Nat.min_eq_left short]
          have scans := scan?_line memory isPart quiet
          rw [← peek.same.1] at available quiet ⊢
          rw [← peek.same.2, peek.progress.2.2]
          rcases shown.quiet scans available fits with error |
            ⟨read, _, stream', recvs', clean, run'⟩
          · exact .inr (.inr error)
          · have rest : (nleft - bytes.length).toNat = nleft.toNat - bytes.length := by omega
            have quiet' : newline ∉ read.stream.take (nleft - bytes.length).toNat := by
              rw [stream', rest, ← List.drop_take]
              exact fun member => quiet (List.mem_of_mem_drop member)
            have outcome := ih (by omega) (by omega) quiet' run'
            rw [stream', recvs', ← clean, rest, List.drop_drop, Nat.add_sub_cancel' short]
              at outcome
            exact outcome

/-- With a negative length the loop has one turn, which takes nothing. -/
theorem readlineLoop?_quiet_negative (low : -2 ^ 31 ≤ nleft) (negative : nleft < 0)
    (quiet : newline ∉ state.stream.take int32Max)
    (run : readlineLoop? errno (fuel + 1) bufPtr nleft state = some (ret, last)) :
    last.stream = state.stream ∧ last.reads = state.reads ∧
      ((ret = -1 ∧ .error ∈ state.recvs) ∨
        ((.error ∈ state.recvs ↔ .error ∈ last.recvs) ∧
          (ret = 0 ∧ state.stream = [] ∨ ret = errno ∧ state.stream ≠ []))) := by
  cases turn_of_readlineLoop? run with
  | failed _ peek =>
      refine ⟨peek.same.1, peek.same.2, .inl ?_⟩
      cases peek with
      | failed recvs error => exact ⟨rfl, error⟩
  | closed _ peek =>
      refine ⟨peek.same.1, peek.same.2, .inr ⟨peek.progress.2.2, .inl ⟨rfl, ?_⟩⟩⟩
      by_contra some_left
      have none_asked := peek.nil some_left low (by omega)
      omega
  | shown bytes next _ _ _ peek nonempty shown =>
      obtain ⟨isTake, memory, _⟩ := peek.shows
      have available := peek.length_le.2
      have isPart : bytes = (state.stream.take int32Max).take bytes.length := by
        rwa [List.take_take, Nat.min_eq_left peek.length_le_int]
      obtain ⟨result, scanned, rfl, value⟩ := shown.scanned negative
      rw [scan?_line memory isPart quiet] at scanned
      cases scanned
      refine ⟨peek.same.1, peek.same.2, .inr ⟨peek.progress.2.2, .inr ⟨value _ rfl, ?_⟩⟩⟩
      rintro none_left
      rw [none_left] at isTake
      exact nonempty (isTake.trans List.take_nil)

/-- `readline` accounts for what it took: a result that is not negative is the number of
bytes taken, which are in `buf`, and a failed call makes it -1. -/
def Accounts (state : LineState) (ret : Int) (last : LineState) : Prop :=
  (0 ≤ ret → ret ≤ state.stream.length ∧ last.stream = state.stream.drop ret.toNat ∧
      window last.buf 0 ret.toNat = state.stream.take ret.toNat) ∧
    (.error ∈ state.recvs ∨ .error ∈ state.reads → ret = -1)

/-- No `read` fails, and: a `recv` does, or nothing is there to be taken, or nothing may be
taken, with `errno` 0 where `maxline` is negative as an `int`. -/
def NothingToAccountFor (state : LineState) (maxline errno : Nat) : Prop :=
  .error ∉ state.reads ∧
    (.error ∈ state.recvs ∨ state.stream = [] ∨ toInt32 maxline = 0 ∨
      (toInt32 maxline < 0 ∧ errno = 0))

instance (state : LineState) (maxline errno : Nat) :
    Decidable (NothingToAccountFor state maxline errno) :=
  inferInstanceAs (Decidable (_ ∧ _))

/-- A result of 0 accounts for a stream that was left alone. -/
theorem accounts_zero_iff (clean : .error ∉ state.recvs ∧ .error ∉ state.reads) :
    Accounts state 0 last ↔ last.stream = state.stream := by
  constructor
  · rintro ⟨taken, -⟩
    exact (taken (Int.le_refl 0)).2.1
  · intro same
    exact ⟨fun _ => ⟨by omega, same, rfl⟩, fun error => absurd error (not_or.mpr clean)⟩

/-- A result of -1 accounts for anything. -/
theorem accounts_failed : Accounts state (-1) last :=
  ⟨fun negative => absurd negative (by decide), fun _ => rfl⟩

/-- What `int` makes of a `size_t` is no larger, and negative only for large ones. -/
theorem toInt32_le (value : Nat) :
    toInt32 value ≤ value ∧ (toInt32 value < 0 → int32Max ≤ value) := by
  have bound : int32Max = 2147483647 := rfl
  unfold toInt32 Int.bmod
  dsimp only
  split <;> omega

theorem accounts_iff_of_negative {maxline : Nat} (negative : toInt32 maxline < 0)
    (quiet : newline ∉ state.stream.take maxline)
    (run : state.readline? maxline errno = some (ret, last))
    (used : last.recvs = [] ∧ last.reads = []) :
    Accounts state ret last ↔ NothingToAccountFor state maxline errno := by
  have quietInt : newline ∉ state.stream.take int32Max := fun member =>
    quiet (List.take_subset_take_left _ ((toInt32_le maxline).2 negative) member)
  obtain ⟨fuel, run⟩ := exists_fuel run
  obtain ⟨same, sameReads, outcome⟩ :=
    readlineLoop?_quiet_negative (toInt32_range maxline).1 negative quietInt run
  have cleanReads : .error ∉ state.reads := by
    rw [← sameReads, used.2]
    exact List.not_mem_nil
  rcases outcome with ⟨rfl, error⟩ | ⟨clean, outcome⟩
  · exact iff_of_true accounts_failed ⟨cleanReads, .inl error⟩
  · rw [used.1] at clean
    have cleanRecvs := mt clean.mp List.not_mem_nil
    rcases outcome with ⟨rfl, none_left⟩ | ⟨rfl, some_left⟩
    · exact iff_of_true ((accounts_zero_iff ⟨cleanRecvs, cleanReads⟩).mpr same)
        ⟨cleanReads, .inr (.inl none_left)⟩
    · rcases Nat.eq_zero_or_pos errno with rfl | positive
      · exact iff_of_true ((accounts_zero_iff ⟨cleanRecvs, cleanReads⟩).mpr same)
          ⟨cleanReads, .inr (.inr (.inr ⟨negative, rfl⟩))⟩
      · refine iff_of_false ?_ ?_
        · rintro ⟨taken, -⟩
          obtain ⟨few, dropped, -⟩ := taken (by omega)
          have lengths := congrArg List.length (same.symm.trans dropped)
          rw [List.length_drop, Int.toNat_natCast] at lengths
          omega
        · rintro ⟨-, error | none_left | zero | ⟨-, zero⟩⟩
          · exact cleanRecvs error
          · exact some_left none_left
          · omega
          · omega

theorem accounts_iff_of_nonneg {maxline : Nat} (low : 0 ≤ toInt32 maxline)
    (quiet : newline ∉ state.stream.take maxline)
    (run : state.readline? maxline errno = some (ret, last))
    (used : last.recvs = [] ∧ last.reads = []) :
    Accounts state ret last ↔ NothingToAccountFor state maxline errno := by
  have reach : (toInt32 maxline).toNat ≤ maxline := by
    have le := (toInt32_le maxline).1
    omega
  have quietInt : newline ∉ state.stream.take (toInt32 maxline).toNat := fun member =>
    quiet (List.take_subset_take_left _ reach member)
  rcases readlineLoop?_quiet low (toInt32_range maxline).2 quietInt run used with
    ⟨rfl, error, cleanReads⟩ | ⟨rfl, cleanRecvs, cleanReads, taken⟩ | ⟨rfl, error⟩
  · exact iff_of_true accounts_failed ⟨cleanReads, .inl error⟩
  · rw [accounts_zero_iff ⟨cleanRecvs, cleanReads⟩, taken]
    constructor
    · intro same
      by_cases none_left : state.stream = []
      · exact ⟨cleanReads, .inr (.inl none_left)⟩
      · have positive := List.length_pos_iff.mpr none_left
        have lengths := congrArg List.length same
        rw [List.length_drop] at lengths
        exact ⟨cleanReads, .inr (.inr (.inl (by omega)))⟩
    · rintro ⟨-, error | none_left | zero | ⟨negative, -⟩⟩
      · exact absurd error cleanRecvs
      · rw [none_left, List.drop_nil]
      · rw [zero]
        rfl
      · omega
  · refine iff_of_false ?_ fun nothing => nothing.1 error
    rintro ⟨-, failed⟩
    have impossible := failed (.inr error)
    omega

/-- Over a stream without a newline in its first `maxline` bytes, with every call it makes
answered and no answer left over, `readline` accounts for what it took exactly when there
was nothing to account for: at the end of the stream and at the limit it returns 0 whatever
was taken before, and after a failed `read` it returns `errno`. -/
theorem readline_accounts_iff (state last : LineState) (maxline errno : Nat) (ret : Int)
    (quiet : newline ∉ state.stream.take maxline)
    (run : state.readline? maxline errno = some (ret, last))
    (used : last.recvs = [] ∧ last.reads = []) :
    Accounts state ret last ↔ NothingToAccountFor state maxline errno := by
  rcases Int.lt_or_le (toInt32 maxline) 0 with negative | low
  · exact accounts_iff_of_negative negative quiet run used
  · exact accounts_iff_of_nonneg low quiet run used

/-- A byte is taken, and then a `recv` fails. -/
theorem failed_recv_accounted :
    ∃ last, (LineState.mk (fun _ => 0) [97, 98] [.bytes 1, .error] [.bytes 1]).readline? 80 0 =
        some (-1, last) ∧
      Accounts ⟨fun _ => 0, [97, 98], [.bytes 1, .error], [.bytes 1]⟩ (-1) last := by
  refine ⟨⟨store (store (fun _ => 0) 0 [97]) 0 [97], [98], [], []⟩, rfl, ?_⟩
  exact (readline_accounts_iff ⟨fun _ => 0, [97, 98], [.bytes 1, .error], [.bytes 1]⟩ _ 80 0 (-1)
    (by decide) rfl ⟨rfl, rfl⟩).mpr (by decide)

/-- Two bytes are taken before the end of the stream, and `readline` returns 0; and a `read`
fails with `ECONNRESET`, which is 104, and `readline` returns 104. -/
theorem bytes_not_accounted :
    (∃ last, (LineState.mk (fun _ => 0) [97, 98] [.bytes 9, .bytes 9] [.bytes 9]).readline? 80 0 =
        some (0, last) ∧ last.stream = [] ∧
      ¬ Accounts ⟨fun _ => 0, [97, 98], [.bytes 9, .bytes 9], [.bytes 9]⟩ 0 last) ∧
    ∃ last, (LineState.mk (fun _ => 0) [97, 98] [.bytes 9] [.error]).readline? 80 104 =
        some (104, last) ∧
      ¬ Accounts ⟨fun _ => 0, [97, 98], [.bytes 9], [.error]⟩ 104 last := by
  constructor
  · refine ⟨⟨store (store (store (fun _ => 0) 0 [97, 98]) 0 [97, 98]) 2 [], [], [], []⟩, rfl, rfl,
      ?_⟩
    rintro ⟨taken, -⟩
    exact absurd (taken (by decide)).2.1 (by decide)
  · refine ⟨⟨store (fun _ => 0) 0 [97, 98], [97, 98], [], []⟩, rfl, ?_⟩
    rintro ⟨-, failed⟩
    exact absurd (failed (by decide)) (by decide)

end Quiet

end LineState

end LibNet.Base
