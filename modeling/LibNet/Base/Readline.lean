import LibNet.Base.SocketUtil

/-!
# Reading a line

`recv_peek` and `readline` of `socket_util.cpp`, over the bytes a peer has sent and will
send before it closes.  The answers the kernel gives to `recv` and to `read` are lists of
their own; they say how a call ends and how much of the stream it may have at most.
`readline` goes on after the newline it was looking for.
-/

namespace LibNet.Base

open LibNet.Runs

/-- `'\n'`. -/
def newline : UInt8 := 10

/-- The largest `int`; no call returns more. -/
def int32Max : Nat := 2 ^ 31 - 1

/-- The conversion of a `size_t` to `int`. -/
def toInt32 (value : Nat) : Int := (value : Int).bmod (2 ^ 32)

/-- The conversion of an `int` to `size_t`. -/
def toSizeT (value : Int) : Nat := (value % 2 ^ 64).toNat

/-- How a call of `recv` or `read` ends: with bytes, of which `most` bounds the number,
or with none at the end of the stream; interrupted by a signal; or with another error. -/
inductive Answer where
  | bytes (most : Nat)
  | eintr
  | error
  deriving DecidableEq

/-- The bytes a call for `len` bytes comes back with: one at least, if there is one. -/
def served (stream : List UInt8) (len most : Nat) : List UInt8 :=
  stream.take (min (min len int32Max) (max 1 most))

/-- The answers that are no interruptions. -/
def calm (answers : List Answer) : Nat := answers.countP (· ≠ .eintr)

/-- The memory at `buf`, what is in the stream, and the answers to the calls to come. -/
structure LineState where
  buf : Nat → UInt8
  stream : List UInt8
  recvs : List Answer
  reads : List Answer

/-- How the loop over the bytes of a peek ends: at their end, or with a short read. -/
inductive Scan where
  | ends (state : LineState)
  | returns (ret : Int) (state : LineState)

def Scan.state : Scan → LineState
  | .ends state => state
  | .returns _ state => state

/-- The kernel's side of `read(fd, buf_ptr, nleft)`. -/
def readAnswer (frame : ReadFrame UInt8) (stream : List UInt8) :
    Answer → ReadOutcome UInt8 × List UInt8
  | .eintr => (.eintr, stream)
  | .error => (.error, stream)
  | .bytes most =>
      match served stream frame.nleft most with
      | [] => (.eof, stream)
      | byte :: bytes => (.data (byte :: bytes), stream.drop (bytes.length + 1))

/-- `readn` with the kernel on the other side. -/
def streamLoop : Loop (ReadFrame UInt8 × List UInt8) Answer (Readn UInt8 × List UInt8) :=
  (readnLoop UInt8).against readAnswer

/-- `recv_peek`, `none` inside when it returns -1. -/
def recvPeek (stream : List UInt8) (len : Nat) :
    List Answer → Option (Option (List UInt8) × List Answer)
  | [] => none
  | .eintr :: rest => recvPeek stream len rest
  | .error :: rest => some (none, rest)
  | .bytes most :: rest => some (some (served stream len most), rest)

namespace LineState

/-- `readn(sockfd, buf_ptr, count)`. -/
def readn? (state : LineState) (bufPtr count : Nat) : Option (Int × LineState) :=
  match streamLoop.exec (⟨state.buf, count, bufPtr, count⟩, state.stream) state.reads with
  | none => none
  | some ((read, stream), reads) =>
      some (read.ret, { state with buf := read.buf, stream := stream, reads := reads })

/-- `recv_peek(sockfd, buf_ptr, nleft)`. -/
def peek? (state : LineState) (bufPtr : Nat) (nleft : Int) :
    Option (Option (List UInt8) × LineState) :=
  match recvPeek state.stream (toSizeT nleft) state.recvs with
  | none => none
  | some (none, recvs) => some (none, { state with recvs := recvs })
  | some (some bytes, recvs) =>
      some (some bytes, { state with buf := store state.buf bufPtr bytes, recvs := recvs })

/-- The loop over the bytes of a peek, with `left` of them to go. -/
def scan? (bufPtr : Nat) : (left i : Nat) → LineState → Option Scan
  | 0, _, state => some (.ends state)
  | left + 1, i, state =>
      if state.buf (bufPtr + i) = newline then
        match state.readn? bufPtr (i + 1) with
        | none => none
        | some (ret, next) =>
            if ret ≠ i + 1 then some (.returns ret next) else scan? bufPtr left (i + 1) next
      else scan? bufPtr left (i + 1) state

/-- The loop of `readline`.  `errno` is what `errno` holds after the output of `ERR_EXIT`. -/
def readlineLoop? (errno : Nat) :
    (fuel bufPtr : Nat) → (nleft : Int) → LineState → Option (Int × LineState)
  | 0, _, _, _ => none
  | fuel + 1, bufPtr, nleft, state =>
      match state.peek? bufPtr nleft with
      | none => none
      | some (none, next) => some (-1, next)
      | some (some [], next) => some (0, next)
      | some (some (_ :: bytes), next) =>
          let nread := bytes.length + 1
          match scan? bufPtr nread 0 next with
          | none => none
          | some (.returns ret last) => some (ret, last)
          | some (.ends scanned) =>
              if (nread : Int) > nleft then some (errno, scanned)
              else
                match scanned.readn? bufPtr nread with
                | none => none
                | some (ret, read) =>
                    if ret ≠ nread then some (errno, read)
                    else readlineLoop? errno fuel (bufPtr + nread) (nleft - nread) read

/-- `readline`.  Every turn of its loop takes an answer to `recv`. -/
def readline? (state : LineState) (maxline errno : Nat) : Option (Int × LineState) :=
  readlineLoop? errno state.recvs.length 0 (toInt32 maxline) state

end LineState

theorem length_served (stream : List UInt8) (len most : Nat) :
    (served stream len most).length =
      min (min (min len int32Max) (max 1 most)) stream.length := by
  simp [served]

theorem served_eq_take (stream : List UInt8) (len most : Nat) :
    served stream len most = stream.take (served stream len most).length := by
  rw [length_served]
  unfold served
  rw [List.take_eq_take_min]

theorem served_ne_nil {stream : List UInt8} {len : Nat} (most : Nat) (some_left : stream ≠ [])
    (asked : 0 < len) : served stream len most ≠ [] := by
  have available := List.length_pos_iff.mpr some_left
  apply List.length_pos_iff.mp
  have bound : int32Max = 2147483647 := rfl
  rw [length_served]
  omega

theorem length_served_le (stream : List UInt8) (len most : Nat) :
    (served stream len most).length ≤ len ∧ (served stream len most).length ≤ int32Max ∧
      (served stream len most).length ≤ stream.length := by
  rw [length_served]
  omega

/-! ## `readn` on a stream -/

section StreamLoop

variable {frame : ReadFrame UInt8} {stream : List UInt8}

theorem streamLoop_test_of_pos (goes : 0 < frame.nleft) :
    streamLoop.test (frame, stream) = none := by
  simp only [streamLoop, Loop.against_test, readnLoop, if_pos goes, Option.map_none]

theorem streamLoop_test_of_zero (done : frame.nleft = 0) :
    streamLoop.test (frame, stream) = some (⟨ssize frame.count, frame.buf⟩, stream) := by
  simp only [streamLoop, Loop.against_test, readnLoop, done, Nat.lt_irrefl, if_false,
    Option.map_some]

theorem readAnswer_of_nil {most : Nat} (nothing : served stream frame.nleft most = []) :
    readAnswer frame stream (.bytes most) = (.eof, stream) := by
  simp only [readAnswer, nothing]

theorem readAnswer_of_ne_nil {most : Nat} (some_served : served stream frame.nleft most ≠ []) :
    readAnswer frame stream (.bytes most) =
      (.data (served stream frame.nleft most),
        stream.drop (served stream frame.nleft most).length) := by
  obtain ⟨byte, bytes, isServed⟩ := List.exists_cons_of_ne_nil some_served
  simp only [readAnswer, isServed, List.length_cons]

/-- A turn that is served nothing ends the loop. -/
theorem streamLoop_turn_of_nil {most : Nat} (nothing : served stream frame.nleft most = []) :
    streamLoop.turn (frame, stream) (.bytes most) =
      .done (⟨ssize (frame.count - frame.nleft), frame.buf⟩, stream) := by
  simp only [streamLoop, Loop.against, readAnswer_of_nil nothing, readnLoop]

theorem streamLoop_turn_of_ne_nil {most : Nat}
    (some_served : served stream frame.nleft most ≠ []) :
    streamLoop.turn (frame, stream) (.bytes most) =
      .again (frame.advance (served stream frame.nleft most),
        stream.drop (served stream frame.nleft most).length) := by
  simp only [streamLoop, Loop.against, readAnswer_of_ne_nil some_served, readnLoop]

theorem streamLoop_exec_zero (done : frame.nleft = 0) (reads : List Answer) :
    streamLoop.exec (frame, stream) reads =
      some ((⟨ssize frame.count, frame.buf⟩, stream), reads) :=
  Loop.exec_of_test (streamLoop_test_of_zero done) reads

theorem streamLoop_exec_nil (goes : 0 < frame.nleft) :
    streamLoop.exec (frame, stream) [] = none := by
  simp only [Loop.exec, streamLoop_test_of_pos goes]

theorem streamLoop_exec_eintr (goes : 0 < frame.nleft) (rest : List Answer) :
    streamLoop.exec (frame, stream) (.eintr :: rest) = streamLoop.exec (frame, stream) rest :=
  Loop.exec_of_again (streamLoop_test_of_pos goes) rfl rest

theorem streamLoop_exec_error (goes : 0 < frame.nleft) (rest : List Answer) :
    streamLoop.exec (frame, stream) (.error :: rest) =
      some ((⟨-1, frame.buf⟩, stream), rest) :=
  Loop.exec_of_done (streamLoop_test_of_pos goes) rfl rest

/-- At the end of the stream. -/
theorem streamLoop_exec_eof (goes : 0 < frame.nleft) (most : Nat) (rest : List Answer) :
    streamLoop.exec (frame, []) (.bytes most :: rest) =
      some ((⟨ssize (frame.count - frame.nleft), frame.buf⟩, []), rest) :=
  Loop.exec_of_done (streamLoop_test_of_pos goes) (streamLoop_turn_of_nil List.take_nil) rest

theorem streamLoop_exec_bytes (goes : 0 < frame.nleft) (some_left : stream ≠ []) (most : Nat)
    (rest : List Answer) :
    streamLoop.exec (frame, stream) (.bytes most :: rest) =
      streamLoop.exec (frame.advance (served stream frame.nleft most),
        stream.drop (served stream frame.nleft most).length) rest :=
  Loop.exec_of_again (streamLoop_test_of_pos goes)
    (streamLoop_turn_of_ne_nil (served_ne_nil most some_left goes)) rest

end StreamLoop

/-- How `readn` can end: with all bytes, short of some at the end of the stream, or with
an error.  In the first two no error was met. -/
inductive StreamRead (frame : ReadFrame UInt8) (stream : List UInt8) (reads : List Answer) :
    Readn UInt8 → List UInt8 → List Answer → Prop where
  | whole (rest : List Answer) (enough : frame.nleft ≤ stream.length)
      (fast : calm reads ≤ calm rest + frame.nleft)
      (clean : .error ∈ reads ↔ .error ∈ rest) :
      StreamRead frame stream reads
        ⟨ssize frame.count, store frame.buf frame.bufPtr (stream.take frame.nleft)⟩
        (stream.drop frame.nleft) rest
  | short (rest : List Answer) (few : stream.length < frame.nleft)
      (clean : .error ∈ reads ↔ .error ∈ rest) :
      StreamRead frame stream reads
        ⟨ssize (frame.count - frame.nleft + stream.length),
          store frame.buf frame.bufPtr stream⟩ [] rest
  | failed (buf : Nat → UInt8) (after : List UInt8) (rest : List Answer)
      (error : .error ∈ reads) : StreamRead frame stream reads ⟨-1, buf⟩ after rest

theorem calm_cons_bytes (most : Nat) (rest : List Answer) :
    calm (.bytes most :: rest) = calm rest + 1 := by
  simp [calm]

theorem calm_cons_eintr (rest : List Answer) : calm (.eintr :: rest) = calm rest := by
  simp [calm]

theorem streamRead_done {frame : ReadFrame UInt8} (done : frame.nleft = 0) (stream : List UInt8)
    (reads : List Answer) :
    StreamRead frame stream reads ⟨ssize frame.count, frame.buf⟩ stream reads := by
  have whole : StreamRead frame stream reads _ _ reads :=
    .whole reads (by omega) (by omega) Iff.rfl
  simpa only [done, List.take_zero, List.drop_zero, store_nil] using whole

/-- A turn that reads takes its bytes off the front of what the rest of the loop reads. -/
theorem streamRead_of_advance {frame : ReadFrame UInt8} {stream after : List UInt8} {most : Nat}
    {reads rest : List Answer} {read : Readn UInt8} (counted : frame.nleft ≤ frame.count)
    (goes : 0 < frame.nleft) (some_left : stream ≠ [])
    (later : StreamRead (frame.advance (served stream frame.nleft most))
      (stream.drop (served stream frame.nleft most).length) reads read after rest) :
    StreamRead frame stream (.bytes most :: reads) read after rest := by
  have positive := List.length_pos_iff.mpr (served_ne_nil most some_left goes)
  obtain ⟨asked, _, available⟩ := length_served_le stream frame.nleft most
  have taken := served_eq_take stream frame.nleft most
  generalize served stream frame.nleft most = bytes at *
  cases later with
  | whole _ enough fast clean =>
      simp only [ReadFrame.advance, List.length_drop] at enough fast ⊢
      have split : bytes ++ (stream.drop bytes.length).take (frame.nleft - bytes.length) =
          stream.take frame.nleft := by
        conv_lhs => rw [taken]
        rw [List.length_take, Nat.min_eq_left available, ← List.take_add,
          Nat.add_sub_cancel' asked]
      rw [store_append, split, List.drop_drop, Nat.add_sub_cancel' asked]
      exact .whole rest (by omega) (by rw [calm_cons_bytes]; omega) (by simpa using clean)
  | short _ few clean =>
      simp only [ReadFrame.advance, List.length_drop] at few ⊢
      have split : bytes ++ stream.drop bytes.length = stream := by
        conv_lhs => rw [taken]
        rw [List.length_take, Nat.min_eq_left available, List.take_append_drop]
      have count : frame.count - (frame.nleft - bytes.length) + (stream.length - bytes.length) =
          frame.count - frame.nleft + stream.length := by
        omega
      rw [store_append, split, count]
      exact .short rest (by omega) (by simpa using clean)
  | failed buf _ _ error => exact .failed buf _ _ (List.mem_cons_of_mem _ error)

theorem streamRead_of_exec {frame : ReadFrame UInt8} {stream after : List UInt8}
    {reads rest : List Answer} {read : Readn UInt8} (counted : frame.nleft ≤ frame.count)
    (executed : streamLoop.exec (frame, stream) reads = some ((read, after), rest)) :
    StreamRead frame stream reads read after rest := by
  induction reads generalizing frame stream with
  | nil =>
      by_cases goes : 0 < frame.nleft
      · rw [streamLoop_exec_nil goes] at executed
        cases executed
      · rw [streamLoop_exec_zero (by omega)] at executed
        cases executed
        exact streamRead_done (by omega) _ _
  | cons answer others ih =>
      by_cases goes : 0 < frame.nleft
      · cases answer with
        | eintr =>
            rw [streamLoop_exec_eintr goes] at executed
            cases ih counted executed with
            | whole _ enough fast clean =>
                exact .whole rest enough (by rwa [calm_cons_eintr]) (by simpa using clean)
            | short _ few clean => exact .short rest few (by simpa using clean)
            | failed buf _ _ error => exact .failed buf _ _ (List.mem_cons_of_mem _ error)
        | error =>
            rw [streamLoop_exec_error goes] at executed
            cases executed
            exact .failed _ _ _ (List.mem_cons_self ..)
        | bytes most =>
            by_cases some_left : stream = []
            · subst some_left
              rw [streamLoop_exec_eof goes] at executed
              cases executed
              have short : StreamRead frame [] (.bytes most :: rest) _ _ rest :=
                .short rest goes (by simp)
              simpa only [List.length_nil, Nat.add_zero, store_nil] using short
            · rw [streamLoop_exec_bytes goes some_left] at executed
              refine streamRead_of_advance counted goes some_left (ih ?_ executed)
              simp only [ReadFrame.advance]
              omega
      · rw [streamLoop_exec_zero (by omega)] at executed
        cases executed
        exact streamRead_done (by omega) _ _

/-- `readn` comes to an end once enough of its calls are not interrupted. -/
theorem exists_streamLoop_exec (frame : ReadFrame UInt8) {stream : List UInt8}
    {reads : List Answer} (enough : stream.length < calm reads) :
    ∃ read after rest, streamLoop.exec (frame, stream) reads = some ((read, after), rest) := by
  induction reads generalizing frame stream with
  | nil => exact absurd enough (Nat.not_lt_zero _)
  | cons answer others ih =>
      by_cases goes : 0 < frame.nleft
      · cases answer with
        | eintr =>
            rw [streamLoop_exec_eintr goes]
            exact ih _ (by rwa [calm_cons_eintr] at enough)
        | error => exact ⟨_, _, _, streamLoop_exec_error goes others⟩
        | bytes most =>
            by_cases some_left : stream = []
            · subst some_left
              exact ⟨_, _, _, streamLoop_exec_eof goes most others⟩
            · rw [streamLoop_exec_bytes goes some_left]
              have positive := List.length_pos_iff.mpr (served_ne_nil most some_left goes)
              apply ih
              rw [calm_cons_bytes] at enough
              rw [List.length_drop]
              have available := (length_served_le stream frame.nleft most).2.2
              omega
      · exact ⟨_, _, _, streamLoop_exec_zero (by omega) _⟩

/-! ## The calls of `readline` -/

namespace LineState

/-- How a call of `readn` can end. -/
inductive Read (state : LineState) (bufPtr count : Nat) : Int → LineState → Prop where
  | whole (reads : List Answer) (enough : count ≤ state.stream.length)
      (fast : calm state.reads ≤ calm reads + count)
      (clean : .error ∈ state.reads ↔ .error ∈ reads) :
      Read state bufPtr count count { state with
        buf := store state.buf bufPtr (state.stream.take count)
        stream := state.stream.drop count
        reads := reads }
  | short (reads : List Answer) (few : state.stream.length < count)
      (clean : .error ∈ state.reads ↔ .error ∈ reads) :
      Read state bufPtr count state.stream.length { state with
        buf := store state.buf bufPtr state.stream
        stream := []
        reads := reads }
  | failed (buf : Nat → UInt8) (stream : List UInt8) (reads : List Answer)
      (error : .error ∈ state.reads) :
      Read state bufPtr count (-1) { state with buf := buf, stream := stream, reads := reads }

theorem read_of_readn? {state next : LineState} {bufPtr count : Nat} {ret : Int}
    (small : count ≤ ssizeMax) (called : state.readn? bufPtr count = some (ret, next)) :
    Read state bufPtr count ret next := by
  unfold readn? at called
  split at called
  · cases called
  · next read stream reads executed =>
      cases called
      cases streamRead_of_exec (Nat.le_refl count) executed with
      | whole _ enough fast clean =>
          rw [ssize_eq small]
          exact .whole reads enough fast clean
      | short _ few clean =>
          simp only [Nat.sub_self, Nat.zero_add]
          rw [ssize_eq (Nat.le_trans (Nat.le_of_lt few) small)]
          exact .short reads few clean
      | failed buf _ _ error => exact .failed buf stream reads error

theorem exists_readn? {state : LineState} (bufPtr count : Nat)
    (enough : state.stream.length < calm state.reads) :
    ∃ ret next, state.readn? bufPtr count = some (ret, next) := by
  obtain ⟨read, after, rest, executed⟩ := exists_streamLoop_exec
    ⟨state.buf, count, bufPtr, count⟩ enough
  exact ⟨read.ret, _, by rw [readn?, executed]⟩

/-- A call of `readn` here is a run of its loop, from `buf_ptr` on. -/
theorem exists_run_of_readn? {state next : LineState} {bufPtr count : Nat} {ret : Int}
    (called : state.readn? bufPtr count = some (ret, next)) :
    ∃ outcomes, (readnLoop UInt8).run ⟨state.buf, count, bufPtr, count⟩ outcomes =
      some ⟨ret, next.buf⟩ := by
  unfold readn? at called
  split at called
  · cases called
  · next read stream reads executed =>
      cases called
      exact Loop.exists_run_of_against (Loop.run_of_exec executed)

/-- How a call of `recv_peek` can end. -/
inductive Peek (state : LineState) (bufPtr : Nat) (nleft : Int) :
    Option (List UInt8) → LineState → Prop where
  | failed (recvs : List Answer) (error : .error ∈ state.recvs) :
      Peek state bufPtr nleft none { state with recvs := recvs }
  | bytes (most : Nat) (recvs : List Answer) (shorter : recvs.length < state.recvs.length)
      (fast : calm state.recvs = calm recvs + 1)
      (clean : .error ∈ state.recvs ↔ .error ∈ recvs) :
      Peek state bufPtr nleft (some (served state.stream (toSizeT nleft) most)) { state with
        buf := store state.buf bufPtr (served state.stream (toSizeT nleft) most)
        recvs := recvs }

theorem recvPeek_some {stream : List UInt8} {len : Nat} {recvs rest : List Answer}
    {peeked : Option (List UInt8)} (called : recvPeek stream len recvs = some (peeked, rest)) :
    (peeked = none ∧ .error ∈ recvs) ∨
      (∃ most, peeked = some (served stream len most)) ∧ rest.length < recvs.length ∧
        calm recvs = calm rest + 1 ∧ (.error ∈ recvs ↔ .error ∈ rest) := by
  induction recvs with
  | nil => cases called
  | cons answer others ih =>
      cases answer with
      | eintr =>
          rcases ih called with ⟨isNone, error⟩ | ⟨bytes, shorter, fast, clean⟩
          · exact .inl ⟨isNone, List.mem_cons_of_mem _ error⟩
          · exact .inr ⟨bytes, Nat.lt_succ_of_lt shorter, by rwa [calm_cons_eintr],
              by simpa using clean⟩
      | error =>
          cases called
          exact .inl ⟨rfl, List.mem_cons_self ..⟩
      | bytes most =>
          cases called
          exact .inr ⟨⟨most, rfl⟩, Nat.lt_succ_self _, calm_cons_bytes most rest, by simp⟩

theorem peek_of_peek? {state next : LineState} {bufPtr : Nat} {nleft : Int}
    {peeked : Option (List UInt8)} (called : state.peek? bufPtr nleft = some (peeked, next)) :
    Peek state bufPtr nleft peeked next := by
  unfold peek? at called
  split at called
  · cases called
  · next recvs peek =>
      cases called
      rcases recvPeek_some peek with ⟨_, error⟩ | ⟨⟨most, impossible⟩, _⟩
      · exact .failed recvs error
      · cases impossible
  · next bytes recvs peek =>
      cases called
      rcases recvPeek_some peek with ⟨impossible, _⟩ | ⟨⟨most, isServed⟩, shorter, fast, clean⟩
      · cases impossible
      · cases isServed
        exact .bytes most recvs shorter fast clean

theorem exists_peek? {state : LineState} (bufPtr : Nat) (nleft : Int)
    (enough : 0 < calm state.recvs) :
    ∃ peeked next, state.peek? bufPtr nleft = some (peeked, next) := by
  have called : ∀ recvs : List Answer, 0 < calm recvs →
      ∃ peeked rest, recvPeek state.stream (toSizeT nleft) recvs = some (peeked, rest) := by
    intro recvs some_calm
    induction recvs with
    | nil => exact absurd some_calm (Nat.lt_irrefl 0)
    | cons answer others ih =>
        cases answer with
        | eintr => exact ih (by rwa [calm_cons_eintr] at some_calm)
        | error => exact ⟨_, _, rfl⟩
        | bytes most => exact ⟨_, _, rfl⟩
  obtain ⟨peeked, rest, peek⟩ := called state.recvs enough
  unfold peek?
  rw [peek]
  cases peeked with
  | none => exact ⟨_, _, rfl⟩
  | some bytes => exact ⟨_, _, rfl⟩

/-- What reading leaves alone, and how far it gets with the answers it uses. -/
structure Advanced (state next : LineState) : Prop where
  recvs : next.recvs = state.recvs
  shorter : next.stream.length ≤ state.stream.length
  clean : .error ∈ state.reads ↔ .error ∈ next.reads
  slack : calm state.reads + next.stream.length ≤ calm next.reads + state.stream.length

theorem Advanced.refl (state : LineState) : Advanced state state :=
  ⟨rfl, Nat.le_refl _, Iff.rfl, Nat.le_refl _⟩

theorem Advanced.trans {first second third : LineState} (here : Advanced first second)
    (there : Advanced second third) : Advanced first third where
  recvs := there.recvs.trans here.recvs
  shorter := Nat.le_trans there.shorter here.shorter
  clean := here.clean.trans there.clean
  slack := by
    have before := here.slack
    have after := there.slack
    omega

/-- A call of `readn` with all its bytes has taken that many. -/
theorem Read.length_add {state next : LineState} {bufPtr count : Nat} {ret : Int}
    (read : Read state bufPtr count ret next) (all : ret = count) :
    next.stream.length + count = state.stream.length := by
  cases read with
  | whole reads enough fast clean =>
      simp only [List.length_drop]
      omega
  | short reads few clean => exact absurd all (by omega)
  | failed buf stream reads error => exact absurd all (by omega)

/-- A call of `readn` with all its bytes. -/
theorem Read.advanced {state next : LineState} {bufPtr count : Nat} {ret : Int}
    (read : Read state bufPtr count ret next) (all : ret = count) : Advanced state next := by
  have taken := read.length_add all
  cases read with
  | whole reads enough fast clean =>
      exact ⟨rfl, by omega, clean, by dsimp only at taken ⊢; omega⟩
  | short reads few clean => exact absurd all (by omega)
  | failed buf stream reads error => exact absurd all (by omega)

theorem Read.le {state next : LineState} {bufPtr count : Nat} {ret : Int}
    (read : Read state bufPtr count ret next) (clean : .error ∉ state.reads) :
    next.stream.length ≤ state.stream.length := by
  cases read with
  | whole reads enough fast _ =>
      simp only [List.length_drop]
      omega
  | short reads few _ => exact Nat.zero_le _
  | failed buf stream reads error => exact absurd error clean

/-- Without errors, a call of `readn` takes bytes if there are any. -/
theorem Read.lt {state next : LineState} {bufPtr count : Nat} {ret : Int}
    (read : Read state bufPtr count ret next) (clean : .error ∉ state.reads)
    (asked : 0 < count) (some_left : state.stream ≠ []) :
    next.stream.length < state.stream.length := by
  have available := List.length_pos_iff.mpr some_left
  cases read with
  | whole reads enough fast _ =>
      simp only [List.length_drop]
      omega
  | short reads few _ => exact available
  | failed buf stream reads error => exact absurd error clean

section Scan

variable {bufPtr left i : Nat} {state : LineState}

/-- Bytes without a newline are passed over. -/
theorem scan?_quiet (quiet : ∀ offset < left, state.buf (bufPtr + (i + offset)) ≠ newline) :
    scan? bufPtr left i state = some (.ends state) := by
  induction left generalizing i with
  | zero => rfl
  | succ left ih =>
      have here := quiet 0 (Nat.succ_pos left)
      rw [scan?, if_neg (by simpa using here)]
      refine ih fun offset below => ?_
      have there := quiet (offset + 1) (by omega)
      rwa [show i + 1 + offset = i + (offset + 1) by omega]

/-- The scan may begin behind bytes without a newline. -/
theorem scan?_add (before : Nat)
    (quiet : ∀ offset < before, state.buf (bufPtr + (i + offset)) ≠ newline) :
    scan? bufPtr (before + left) i state = scan? bufPtr left (i + before) state := by
  induction before generalizing i with
  | zero => simp
  | succ before ih =>
      have here := quiet 0 (Nat.succ_pos before)
      rw [show before + 1 + left = (before + left) + 1 by omega, scan?,
        if_neg (by simpa using here), ih, show i + 1 + before = i + (before + 1) by omega]
      intro offset below
      have there := quiet (offset + 1) (by omega)
      rwa [show i + 1 + offset = i + (offset + 1) by omega]

/-- How the scan can go on at one byte: past it, out with a short read, or on behind the
bytes it has read up to a newline. -/
inductive ScanTurn (bufPtr left i : Nat) (state : LineState) : Scan → Prop where
  | passed (result : Scan) (other : state.buf (bufPtr + i) ≠ newline)
      (later : scan? bufPtr left (i + 1) state = some result) :
      ScanTurn bufPtr left i state result
  | stopped (ret : Int) (next : LineState) (read : Read state bufPtr (i + 1) ret next) :
      ScanTurn bufPtr left i state (.returns ret next)
  | went (next : LineState) (result : Scan)
      (read : Read state bufPtr (i + 1) ((i + 1 : Nat) : Int) next)
      (later : scan? bufPtr left (i + 1) next = some result) :
      ScanTurn bufPtr left i state result

theorem scanTurn_of_scan? {result : Scan} (small : i + (left + 1) ≤ ssizeMax)
    (scanned : scan? bufPtr (left + 1) i state = some result) :
    ScanTurn bufPtr left i state result := by
  rw [scan?] at scanned
  split at scanned
  · split at scanned
    · cases scanned
    · next ret next called =>
        have read := read_of_readn? (by omega) called
        split at scanned
        · cases scanned
          exact .stopped ret next read
        · next all =>
            have isAll : ret = ((i + 1 : Nat) : Int) := by simpa using not_not.mp all
            rw [isAll] at read
            exact .went next result read scanned
  · next other => exact .passed result other scanned

theorem scan?_ends {next : LineState} (small : i + left ≤ ssizeMax)
    (scanned : scan? bufPtr left i state = some (.ends next)) : Advanced state next := by
  induction left generalizing i state with
  | zero =>
      cases scanned
      exact Advanced.refl _
  | succ left ih =>
      cases scanTurn_of_scan? small scanned with
      | passed _ other later => exact ih (by omega) later
      | went read _ whole later => exact (whole.advanced rfl).trans (ih (by omega) later)

/-- Without errors, the scan takes nothing back. -/
theorem scan?_le {result : Scan} (small : i + left ≤ ssizeMax) (clean : .error ∉ state.reads)
    (scanned : scan? bufPtr left i state = some result) :
    result.state.stream.length ≤ state.stream.length := by
  induction left generalizing i state with
  | zero =>
      cases scanned
      exact Nat.le_refl _
  | succ left ih =>
      cases scanTurn_of_scan? small scanned with
      | passed _ other later => exact ih (by omega) clean later
      | stopped ret read short => exact short.le clean
      | went read _ whole later =>
          have advanced := whole.advanced rfl
          exact Nat.le_trans (ih (by omega) (mt advanced.clean.mpr clean) later) advanced.shorter

/-- Without errors, a newline in the bytes makes the scan read. -/
theorem scan?_lt {result : Scan} (small : i + left ≤ ssizeMax) (clean : .error ∉ state.reads)
    (ahead : ∃ offset < left, state.buf (bufPtr + (i + offset)) = newline)
    (some_left : state.stream ≠ []) (scanned : scan? bufPtr left i state = some result) :
    result.state.stream.length < state.stream.length := by
  induction left generalizing i state with
  | zero =>
      obtain ⟨offset, below, _⟩ := ahead
      exact absurd below (Nat.not_lt_zero _)
  | succ left ih =>
      cases scanTurn_of_scan? small scanned with
      | passed _ other later =>
          refine ih (by omega) clean ?_ some_left later
          obtain ⟨offset, below, isNewline⟩ := ahead
          cases offset with
          | zero => exact absurd (by simpa using isNewline) other
          | succ offset =>
              exact ⟨offset, by omega, by rwa [show i + 1 + offset = i + (offset + 1) by omega]⟩
      | stopped ret read short => exact short.lt clean (Nat.succ_pos i) some_left
      | went read _ whole later =>
          have advanced := whole.advanced rfl
          exact Nat.lt_of_le_of_lt (scan?_le (by omega) (mt advanced.clean.mpr clean) later)
            (whole.lt clean (Nat.succ_pos i) some_left)

/-- The scan comes to an end once enough calls of `read` are not interrupted. -/
theorem exists_scan? (bufPtr : Nat) {left i : Nat} (small : i + left ≤ ssizeMax)
    {state : LineState} (enough : state.stream.length < calm state.reads) :
    ∃ result, scan? bufPtr left i state = some result := by
  induction left generalizing i state with
  | zero => exact ⟨_, rfl⟩
  | succ left ih =>
      rw [scan?]
      split
      · obtain ⟨ret, next, called⟩ := exists_readn? bufPtr (i + 1) enough
        rw [called]
        by_cases all : ret = i + 1
        · have slack := ((read_of_readn? (by omega) called).advanced (by simpa using all)).slack
          simp only [all, ne_eq, not_true_eq_false, if_false]
          exact ih (by omega) (by omega)
        · simp only [all, ne_eq, not_false_eq_true, if_true]
          exact ⟨_, rfl⟩
      · exact ih (by omega) enough

end Scan

end LineState

end LibNet.Base
