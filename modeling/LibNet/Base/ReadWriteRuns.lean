import LibNet.Base.SocketUtil

/-!
# What `readn` and `writen` come to

`readn` on any stream and `writen` of any buffer, whatever number of bytes each `read` and
`write` takes and however often it is interrupted.  The kernel keeps a log of what its
calls came back with, so that "an error came first" can be read off it.
-/

namespace LibNet.Base

open LibNet.Runs

variable {β : Type}

/-! ## `readn` on a stream -/

/-- How the kernel means to answer a `read`: with at most so many bytes, but one at least,
with the end of the file, or not at all.  Without bytes left it is the end of the file. -/
inductive ReadAnswer where
  | bytes (most : Nat)
  | eof
  | eintr
  | error
  deriving DecidableEq

/-- What a `read` of at most `nleft` bytes comes back with. -/
def ReadAnswer.outcome (nleft : Nat) (stream : List β) : ReadAnswer → ReadOutcome β
  | .eintr => .eintr
  | .error => .error
  | .eof => .eof
  | .bytes most =>
      match stream with
      | [] => .eof
      | byte :: rest => .data ((byte :: rest).take (min nleft (max 1 most)))

/-- The bytes a `read` takes off the stream. -/
def ReadOutcome.bytes : ReadOutcome β → List β
  | .data bytes => bytes
  | _ => []

/-- The bytes that are still to be read, and what every `read` came back with. -/
structure ReadWorld (β : Type) where
  stream : List β
  log : List (ReadOutcome β)

/-- After one more `read`. -/
def ReadWorld.after (world : ReadWorld β) (outcome : ReadOutcome β) : ReadWorld β :=
  ⟨world.stream.drop outcome.bytes.length, world.log ++ [outcome]⟩

/-- The kernel's side of `read(fd, buf_ptr, nleft)`. -/
def kernelRead (frame : ReadFrame β) (world : ReadWorld β) (answer : ReadAnswer) :
    ReadOutcome β × ReadWorld β :=
  let outcome := answer.outcome frame.nleft world.stream
  (outcome, world.after outcome)

/-- `readn` with the kernel on the other side. -/
def readnOn (β : Type) : Loop (ReadFrame β × ReadWorld β) ReadAnswer (Readn β × ReadWorld β) :=
  (readnLoop β).against kernelRead

/-- Bytes come off the front of the stream: one at least, and no more than asked for. -/
theorem outcome_data {nleft : Nat} {stream bytes : List β} {answer : ReadAnswer}
    (asked : 0 < nleft) (read : answer.outcome nleft stream = .data bytes) :
    bytes = stream.take bytes.length ∧ 0 < bytes.length ∧ bytes.length ≤ nleft := by
  cases answer with
  | bytes most =>
      cases stream with
      | nil => cases read
      | cons byte rest =>
          cases read
          refine ⟨?_, ?_, ?_⟩
          · rw [List.length_take, ← List.take_eq_take_min]
          · rw [List.length_take, List.length_cons]
            omega
          · rw [List.length_take]
            omega
  | eof => cases read
  | eintr => cases read
  | error => cases read

theorem outcome_eintr {nleft : Nat} {stream : List β} {answer : ReadAnswer}
    (interrupted : answer.outcome nleft stream = .eintr) : answer = .eintr := by
  cases answer with
  | bytes most =>
      cases stream with
      | nil => cases interrupted
      | cons byte rest => cases interrupted
  | eof => cases interrupted
  | eintr => rfl
  | error => cases interrupted

/-- A call of `readn` on its way: `bytes` have come off the front of the stream and stand in
the buffer. -/
structure Reading (buf : Nat → β) (count : Nat) (stream bytes : List β) (frame : ReadFrame β)
    (world : ReadWorld β) : Prop where
  walked : (readnLoop β).walk? (.start buf count) world.log = some frame
  split : stream = bytes ++ world.stream
  counted : frame.count = count
  placed : frame.bufPtr = bytes.length
  left : bytes.length + frame.nleft = count
  stored : frame.buf = store buf 0 bytes
  going : .eof ∉ world.log ∧ .error ∉ world.log

/-- How a call of `readn` ends. -/
inductive ReadnEnds (buf : Nat → β) (count : Nat) (stream : List β) :
    Readn β × ReadWorld β → Prop where
  | whole {bytes : List β} {world : ReadWorld β} (split : stream = bytes ++ world.stream)
      (all : bytes.length = count) (going : .eof ∉ world.log ∧ .error ∉ world.log)
      (ran : readn buf count world.log = some ⟨count, store buf 0 bytes⟩) :
      ReadnEnds buf count stream (⟨count, store buf 0 bytes⟩, world)
  | short {bytes : List β} {world : ReadWorld β} (split : stream = bytes ++ world.stream)
      (few : bytes.length < count) (ended : .eof ∈ world.log ∧ .error ∉ world.log)
      (ran : readn buf count world.log = some ⟨bytes.length, store buf 0 bytes⟩) :
      ReadnEnds buf count stream (⟨bytes.length, store buf 0 bytes⟩, world)
  | failed {bytes : List β} {world : ReadWorld β} (split : stream = bytes ++ world.stream)
      (few : bytes.length < count) (failed : .eof ∉ world.log ∧ .error ∈ world.log)
      (ran : readn buf count world.log = some ⟨-1, store buf 0 bytes⟩) :
      ReadnEnds buf count stream (⟨-1, store buf 0 bytes⟩, world)

section Readn

variable {buf : Nat → β} {count : Nat} {stream bytes : List β} {frame : ReadFrame β}
  {world : ReadWorld β}

theorem readn_goes (goes : 0 < frame.nleft) : (readnLoop β).test frame = none := by
  simp [readnLoop, goes]

theorem Reading.ends (reading : Reading buf count stream bytes frame world)
    (small : count ≤ ssizeMax) (none_left : frame.nleft = 0) :
    ReadnEnds buf count stream (⟨ssize frame.count, frame.buf⟩, world) := by
  have all : bytes.length = count := by
    have left := reading.left
    rwa [none_left, Nat.add_zero] at left
  have ran : readn buf count world.log = some ⟨ssize frame.count, frame.buf⟩ :=
    Loop.run_of_test reading.walked (readn_test.mpr ⟨none_left, rfl⟩)
  rw [reading.counted, reading.stored, ssize_eq small] at ran ⊢
  exact .whole reading.split all reading.going ran

section Turns

variable {answer : ReadAnswer} {outcome : ReadOutcome β}
  (answered : answer.outcome frame.nleft world.stream = outcome)

include answered

theorem readnOn_turn_of_again {next : ReadFrame β}
    (again : (readnLoop β).turn frame outcome = .again next) :
    (readnOn β).turn (frame, world) answer = .again (next, world.after outcome) := by
  subst answered
  exact Loop.against_turn_of_again again

theorem readnOn_turn_of_done {read : Readn β}
    (done : (readnLoop β).turn frame outcome = .done read) :
    (readnOn β).turn (frame, world) answer = .done (read, world.after outcome) := by
  subst answered
  exact Loop.against_turn_of_done done

end Turns

/-- The bytes of one more `read` stand behind those read before. -/
theorem Reading.advance (reading : Reading buf count stream bytes frame world)
    (goes : 0 < frame.nleft) {more : List β} (taken : more = world.stream.take more.length)
    (asked : more.length ≤ frame.nleft) :
    Reading buf count stream (bytes ++ more) (frame.advance more) (world.after (.data more)) := by
  have walked : (readnLoop β).walk? (.start buf count) (world.log ++ [.data more]) =
      some (frame.advance more) := Loop.walk?_concat reading.walked (readn_goes goes) rfl
  obtain ⟨_, split, counted, placed, left, stored, noEof, noError⟩ := reading
  refine ⟨walked, ?_, counted, ?_, ?_, ?_, ?_, ?_⟩
  · rw [split, List.append_assoc]
    congr 1
    calc world.stream = world.stream.take more.length ++ world.stream.drop more.length :=
          (List.take_append_drop _ _).symm
      _ = more ++ world.stream.drop more.length := by rw [← taken]
  · rw [List.length_append, ← placed]
    rfl
  · simp only [ReadFrame.advance, List.length_append]
    omega
  · have joined := store_append buf 0 bytes more
    rw [Nat.zero_add] at joined
    simp only [ReadFrame.advance, stored, placed, joined]
  · simpa [ReadWorld.after] using noEof
  · simpa [ReadWorld.after] using noError

theorem Reading.turn (reading : Reading buf count stream bytes frame world)
    (small : count ≤ ssizeMax) (goes : 0 < frame.nleft) (answer : ReadAnswer) :
    ((readnOn β).turn (frame, world) answer).Meets
      (fun state => ∃ bytes, Reading buf count stream bytes state.1 state.2)
      (ReadnEnds buf count stream) := by
  obtain ⟨noEof, noError⟩ := reading.going
  have few : bytes.length < count := by
    rw [← reading.left]
    exact Nat.lt_add_of_pos_right goes
  cases answered : answer.outcome frame.nleft world.stream with
  | eintr =>
      rw [readnOn_turn_of_again answered rfl]
      refine ⟨bytes, { reading with
        walked := Loop.walk?_concat reading.walked (readn_goes goes) rfl
        split := reading.split
        going := ⟨?_, ?_⟩ }⟩
      · simpa [ReadWorld.after] using noEof
      · simpa [ReadWorld.after] using noError
  | error =>
      have ran : readn buf count (world.log ++ [.error]) = some ⟨-1, frame.buf⟩ :=
        Loop.run_concat reading.walked (readn_goes goes) rfl
      rw [readnOn_turn_of_done answered rfl]
      rw [reading.stored] at ran ⊢
      exact .failed reading.split few
        ⟨by simpa [ReadWorld.after] using noEof, by simp [ReadWorld.after]⟩ ran
  | eof =>
      have ran : readn buf count (world.log ++ [.eof]) =
          some ⟨ssize (frame.count - frame.nleft), frame.buf⟩ :=
        Loop.run_concat reading.walked (readn_goes goes) rfl
      have read : ssize (frame.count - frame.nleft) = bytes.length := by
        rw [reading.counted, ← reading.left, Nat.add_sub_cancel,
          ssize_eq (Nat.le_trans (Nat.le_of_lt few) small)]
      rw [readnOn_turn_of_done answered rfl]
      rw [read, reading.stored] at ran ⊢
      exact .short reading.split few
        ⟨by simp [ReadWorld.after], by simpa [ReadWorld.after] using noError⟩ ran
  | data more =>
      obtain ⟨taken, _, asked⟩ := outcome_data goes answered
      rw [readnOn_turn_of_again answered rfl]
      exact ⟨bytes ++ more, reading.advance goes taken asked⟩

theorem readnOn_test {read : Readn β × ReadWorld β} :
    (readnOn β).test (frame, world) = some read ↔
      frame.nleft = 0 ∧ (⟨ssize frame.count, frame.buf⟩, world) = read := by
  rw [readnOn, Loop.against_test, readnLoop]
  by_cases goes : 0 < frame.nleft
  · simp [goes, Nat.ne_of_gt goes]
  · simp [Nat.eq_zero_of_not_pos goes]

theorem readnOn_test_none : (readnOn β).test (frame, world) = none ↔ 0 < frame.nleft := by
  rw [readnOn, Loop.against_test, readnLoop]
  by_cases goes : 0 < frame.nleft
  · simp [goes]
  · simp [goes]

theorem readnEnds_of_run (small : count ≤ ssizeMax) {answers : List ReadAnswer}
    {read : Readn β × ReadWorld β}
    (ran : (readnOn β).run (.start buf count, ⟨stream, []⟩) answers = some read) :
    ReadnEnds buf count stream read := by
  refine Loop.post_of_run (fun state => ∃ bytes, Reading buf count stream bytes state.1 state.2)
    (ReadnEnds buf count stream) ?_ ?_ ?_ ran
  · rintro ⟨frame, world⟩ read ⟨bytes, reading⟩ ends
    obtain ⟨none_left, rfl⟩ := readnOn_test.mp ends
    exact reading.ends small none_left
  · rintro ⟨frame, world⟩ answer ⟨bytes, reading⟩ goes
    exact reading.turn small (readnOn_test_none.mp goes) answer
  · refine ⟨[], rfl, rfl, rfl, rfl, Nat.zero_add _, (store_nil buf 0).symm, ?_, ?_⟩
    · exact List.not_mem_nil
    · exact List.not_mem_nil

/-- Every answer but an interruption ends the call or brings it bytes. -/
theorem readnOn_progress (state : ReadFrame β × ReadWorld β) (answer : ReadAnswer)
    (next : ReadFrame β × ReadWorld β) (ends : (readnOn β).test state = none)
    (again : (readnOn β).turn state answer = .again next) :
    next.1.nleft + (if answer = .eintr then 0 else 1) ≤ state.1.nleft := by
  obtain ⟨frame, world⟩ := state
  have goes := readnOn_test_none.mp ends
  cases answered : answer.outcome frame.nleft world.stream with
  | eintr =>
      rw [readnOn_turn_of_again answered rfl] at again
      cases again
      rw [if_pos (outcome_eintr answered)]
      exact Nat.le_refl _
  | error =>
      rw [readnOn_turn_of_done answered rfl] at again
      cases again
  | eof =>
      rw [readnOn_turn_of_done answered rfl] at again
      cases again
  | data more =>
      obtain ⟨_, some_bytes, asked⟩ := outcome_data goes answered
      rw [readnOn_turn_of_again answered rfl] at again
      cases again
      simp only [ReadFrame.advance]
      split
      · omega
      · omega

end Readn

/--
For every `count` up to `SSIZE_MAX`, every stream and every sequence of answers with
finitely many interruptions: `readn` returns.  It returns `count` exactly if it read
`count` bytes, a smaller number exactly if the end of the file came after so many bytes,
and -1 exactly if an error came first, and nothing else is ever returned.  In all three cases
the bytes it took off the stream are its first ones, no more than `count`, and stand in the
buffer in order.
-/
theorem readn_returns (buf : Nat → β) {count : Nat} (small : count ≤ ssizeMax)
    (stream : List β) (answers : Nat → ReadAnswer)
    (calm : {turn | answers turn = .eintr}.Finite) :
    ∃ turns read world,
      (readnOn β).run (.start buf count, ⟨stream, []⟩) ((List.range turns).map answers) =
        some (read, world) ∧
      readn buf count world.log = some read ∧
      ∃ bytes, stream = bytes ++ world.stream ∧ bytes.length ≤ count ∧
        read.buf = store buf 0 bytes ∧
        (read.ret = count ∨ (∃ n < count, read.ret = n) ∨ read.ret = -1) ∧
        (read.ret = count ↔ bytes.length = count) ∧
        (∀ n < count, read.ret = n ↔ .eof ∈ world.log ∧ bytes.length = n) ∧
        (read.ret = -1 ↔ .error ∈ world.log) := by
  have busy : {turn | ¬ answers turn = .eintr}.Infinite := calm.infinite_compl
  obtain ⟨turns, ⟨read, world⟩, ran⟩ := Loop.exists_run_of_infinite
    (fun state : ReadFrame β × ReadWorld β => state.1.nleft)
    (fun answer : ReadAnswer => answer = .eintr) readnOn_progress
    (.start buf count, ⟨stream, []⟩) busy
  have negative : ∀ number : Nat, (-1 : Int) ≠ number := fun number => by omega
  refine ⟨turns, read, world, ran, ?_⟩
  cases readnEnds_of_run small ran with
  | whole split all going ran =>
      refine ⟨ran, _, split, Nat.le_of_eq all, rfl, .inl rfl, iff_of_true rfl all, ?_, ?_⟩
      · intro n below
        exact iff_of_false (fun same => Nat.ne_of_gt below (Nat.cast_inj.mp same))
          fun ended => going.1 ended.1
      · exact iff_of_false (negative count).symm going.2
  | @short bytes _ split few ended ran =>
      refine ⟨ran, bytes, split, Nat.le_of_lt few, rfl, .inr (.inl ⟨_, few, rfl⟩), Nat.cast_inj,
        ?_, ?_⟩
      · intro n _
        exact Nat.cast_inj.trans (and_iff_right ended.1).symm
      · exact iff_of_false (negative bytes.length).symm ended.2
  | failed split few failed ran =>
      refine ⟨ran, _, split, Nat.le_of_lt few, rfl, .inr (.inr rfl), ?_, ?_,
        iff_of_true rfl failed.2⟩
      · exact iff_of_false (negative count) (Nat.ne_of_lt few)
      · intro n _
        exact iff_of_false (negative n) fun ended => failed.1 ended.1

/-- An interruption, and then two bytes at a time. -/
def inTwos (turn : Nat) : ReadAnswer := if turn = 0 then .eintr else .bytes 2

/-- Three of four bytes. -/
theorem readn_returns_three :
    ∃ turns read world,
      (readnOn UInt8).run (.start (fun _ => 0) 3, ⟨[7, 8, 9, 10], []⟩)
        ((List.range turns).map inTwos) = some (read, world) ∧
      read.ret = 3 ∧ window read.buf 0 3 = [7, 8, 9] ∧ world.stream = [10] := by
  have calm : {turn : Nat | inTwos turn = .eintr}.Finite :=
    (Set.finite_singleton 0).subset fun turn interrupted => by
      by_contra later
      simp [inTwos, Set.mem_singleton_iff.not.mp later] at interrupted
  obtain ⟨turns, read, world, ran, _, bytes, split, _, stored, _, whole, _⟩ :=
    readn_returns (fun _ => (0 : UInt8)) (show 3 ≤ ssizeMax by decide) [7, 8, 9, 10] _ calm
  have left : world.stream = [10] := by
    -- The call is over after three answers, whatever comes behind them.
    rcases turns with _ | _ | _ | _ | more
    · cases ran
    · cases ran
    · cases ran
    · cases ran
      rfl
    · rw [List.range_succ_eq_map, List.range_succ_eq_map, List.range_succ_eq_map,
        List.range_succ_eq_map] at ran
      cases ran
      rfl
  have three : bytes = [7, 8, 9] := by
    rw [left] at split
    exact (List.append_left_injective [10] split).symm
  refine ⟨turns, read, world, ran, whole.mpr (by rw [three]; rfl), ?_, left⟩
  rw [stored, three]
  rfl

/-! ## `writen` -/

/-- What a `write` of at most `nleft` bytes comes back with, if the kernel means to take
`count` bytes. -/
def WriteOutcome.within (nleft : Nat) : WriteOutcome → WriteOutcome
  | .wrote count => .wrote (min count nleft)
  | .eintr => .eintr
  | .error => .error

/-- The kernel's side of `write(fd, buf_ptr, nleft)`, with the log of its calls. -/
def kernelWrite (frame : WriteFrame β) (log : List WriteOutcome) (answer : WriteOutcome) :
    WriteOutcome × List WriteOutcome :=
  (answer.within frame.nleft, log ++ [answer.within frame.nleft])

/-- `writen` with the kernel on the other side. -/
def writenOn (β : Type) :
    Loop (WriteFrame β × List WriteOutcome) WriteOutcome (Writen β × List WriteOutcome) :=
  (writenLoop β).against kernelWrite

/-- Interrupted, or without a byte taken. -/
def WriteOutcome.Idle (outcome : WriteOutcome) : Prop := outcome = .eintr ∨ outcome = .wrote 0

/-- A call of `writen` on its way: what was taken is the front of the buffer. -/
structure Writing (buf : Nat → β) (count : Nat) (frame : WriteFrame β)
    (log : List WriteOutcome) : Prop where
  walked : (writenLoop β).walk? (.start buf count) log = some frame
  memory : frame.buf = buf
  counted : frame.count = count
  left : frame.bufPtr + frame.nleft = count
  taken : frame.wire = window buf 0 frame.bufPtr
  going : .error ∉ log

/-- How a call of `writen` ends. -/
inductive WritenEnds (buf : Nat → β) (count : Nat) : Writen β × List WriteOutcome → Prop where
  | whole {log : List WriteOutcome} (going : .error ∉ log)
      (ran : writen buf count log = some ⟨count, window buf 0 count⟩) :
      WritenEnds buf count (⟨count, window buf 0 count⟩, log)
  | failed {sent : Nat} {log : List WriteOutcome} (few : sent < count) (failed : .error ∈ log)
      (ran : writen buf count log = some ⟨-1, window buf 0 sent⟩) :
      WritenEnds buf count (⟨-1, window buf 0 sent⟩, log)

section Writen

variable {buf : Nat → β} {count : Nat} {frame : WriteFrame β} {log : List WriteOutcome}

theorem writen_goes (goes : 0 < frame.nleft) : (writenLoop β).test frame = none := by
  simp [writenLoop, goes]

/-- A `write` that takes nothing leaves the locals as an advance by nothing does. -/
theorem writen_turn_wrote (frame : WriteFrame β) (taken : Nat) :
    (writenLoop β).turn frame (.wrote taken) = .again (frame.advance taken) := by
  cases taken with
  | zero => simp [writenLoop, WriteFrame.advance, WriteFrame.chunk, window]
  | succ less => rfl

theorem Writing.ends (writing : Writing buf count frame log) (small : count ≤ ssizeMax)
    (none_left : frame.nleft = 0) :
    WritenEnds buf count (⟨ssize frame.count, frame.wire⟩, log) := by
  have all : frame.bufPtr = count := by
    have left := writing.left
    rwa [none_left, Nat.add_zero] at left
  have ran : writen buf count log = some ⟨ssize frame.count, frame.wire⟩ :=
    Loop.run_of_test writing.walked (writen_test.mpr ⟨none_left, rfl⟩)
  rw [writing.counted, writing.taken, all, ssize_eq small] at ran ⊢
  exact .whole writing.going ran

/-- What one more `write` takes stands behind what was taken before. -/
theorem Writing.advance (writing : Writing buf count frame log) (goes : 0 < frame.nleft)
    {more : Nat} (asked : more ≤ frame.nleft) :
    Writing buf count (frame.advance more) (log ++ [.wrote more]) := by
  refine ⟨?_, writing.memory, writing.counted, ?_, ?_, ?_⟩
  · exact Loop.walk?_concat writing.walked (writen_goes goes) (writen_turn_wrote frame more)
  · have left := writing.left
    simp only [WriteFrame.advance]
    omega
  · simp only [WriteFrame.advance, WriteFrame.chunk, writing.taken, writing.memory]
    rw [window_add, Nat.zero_add]
  · simpa using writing.going

theorem Writing.turn (writing : Writing buf count frame log) (goes : 0 < frame.nleft)
    (answer : WriteOutcome) :
    ((writenOn β).turn (frame, log) answer).Meets
      (fun state => Writing buf count state.1 state.2) (WritenEnds buf count) := by
  cases answer with
  | wrote most =>
      have turned := writen_turn_wrote frame (min most frame.nleft)
      rw [writenOn, Loop.against_turn_of_again turned]
      exact writing.advance goes (Nat.min_le_right _ _)
  | eintr =>
      rw [writenOn, Loop.against_turn_of_again rfl]
      exact { writing with
        walked := Loop.walk?_concat writing.walked (writen_goes goes) rfl
        going := by simpa [kernelWrite, WriteOutcome.within] using writing.going }
  | error =>
      have ran : writen buf count (log ++ [.error]) = some ⟨-1, frame.wire⟩ :=
        Loop.run_concat writing.walked (writen_goes goes) rfl
      have few : frame.bufPtr < count := by
        rw [← writing.left]
        exact Nat.lt_add_of_pos_right goes
      rw [writenOn, Loop.against_turn_of_done rfl]
      rw [writing.taken] at ran ⊢
      exact .failed few (List.mem_append_right _ (List.mem_singleton_self _)) ran

theorem writenOn_test {written : Writen β × List WriteOutcome} :
    (writenOn β).test (frame, log) = some written ↔
      frame.nleft = 0 ∧ (⟨ssize frame.count, frame.wire⟩, log) = written := by
  rw [writenOn, Loop.against_test, writenLoop]
  by_cases goes : 0 < frame.nleft
  · simp [goes, Nat.ne_of_gt goes]
  · simp [Nat.eq_zero_of_not_pos goes]

theorem writenOn_test_none : (writenOn β).test (frame, log) = none ↔ 0 < frame.nleft := by
  rw [writenOn, Loop.against_test, writenLoop]
  by_cases goes : 0 < frame.nleft
  · simp [goes]
  · simp [goes]

theorem writenEnds_of_run (small : count ≤ ssizeMax) {answers : List WriteOutcome}
    {written : Writen β × List WriteOutcome}
    (ran : (writenOn β).run (.start buf count, []) answers = some written) :
    WritenEnds buf count written := by
  refine Loop.post_of_run (fun state => Writing buf count state.1 state.2)
    (WritenEnds buf count) ?_ ?_ ?_ ran
  · rintro ⟨frame, log⟩ written writing ends
    obtain ⟨none_left, rfl⟩ := writenOn_test.mp ends
    exact writing.ends small none_left
  · rintro ⟨frame, log⟩ answer writing goes
    exact writing.turn (writenOn_test_none.mp goes) answer
  · exact ⟨rfl, rfl, rfl, Nat.zero_add _, rfl, List.not_mem_nil⟩

instance (outcome : WriteOutcome) : Decidable outcome.Idle :=
  match outcome with
  | .wrote 0 => isTrue (.inr rfl)
  | .wrote (_ + 1) => isFalse (fun idle => idle.elim (fun h => by cases h) fun h => by cases h)
  | .eintr => isTrue (.inl rfl)
  | .error => isFalse (fun idle => idle.elim (fun h => by cases h) fun h => by cases h)

/-- Every answer but an idle one ends the call or takes bytes. -/
theorem writenOn_progress (state : WriteFrame β × List WriteOutcome) (answer : WriteOutcome)
    (next : WriteFrame β × List WriteOutcome) (ends : (writenOn β).test state = none)
    (again : (writenOn β).turn state answer = .again next) :
    next.1.nleft + (if answer.Idle then 0 else 1) ≤ state.1.nleft := by
  obtain ⟨frame, log⟩ := state
  have goes := writenOn_test_none.mp ends
  cases answer with
  | wrote most =>
      have turned := writen_turn_wrote frame (min most frame.nleft)
      rw [writenOn, Loop.against_turn_of_again turned] at again
      cases again
      simp only [WriteFrame.advance]
      split
      · omega
      · next busy =>
          have positive : most ≠ 0 := fun none => busy (.inr (by rw [none]))
          omega
  | eintr =>
      rw [writenOn, Loop.against_turn_of_again rfl] at again
      cases again
      rw [if_pos (.inl rfl)]
      exact Nat.le_refl _
  | error =>
      rw [writenOn, Loop.against_turn_of_done rfl] at again
      cases again

end Writen

/--
For every buffer of `count` bytes, up to `SSIZE_MAX`, and every sequence of answers with
finitely many interruptions and writes of no bytes: `writen` returns.  The bytes that
were taken are the first ones of the buffer in order, each once.  It returns `count` or -1:
`count` exactly if they are all of them, and -1 exactly if an error came first; then they are
not all.
-/
theorem writen_returns (buf : Nat → β) {count : Nat} (small : count ≤ ssizeMax)
    (answers : Nat → WriteOutcome) (calm : {turn | (answers turn).Idle}.Finite) :
    ∃ turns written log,
      (writenOn β).run (.start buf count, []) ((List.range turns).map answers) =
        some (written, log) ∧
      writen buf count log = some written ∧
      ∃ sent ≤ count, written.wire = window buf 0 sent ∧
        (written.ret = count ∨ written.ret = -1) ∧
        (written.ret = count ↔ written.wire = window buf 0 count) ∧
        (written.ret = -1 ↔ .error ∈ log) ∧ (.error ∈ log → sent < count) := by
  have busy : {turn | ¬ (answers turn).Idle}.Infinite := calm.infinite_compl
  obtain ⟨turns, ⟨written, log⟩, ran⟩ := Loop.exists_run_of_infinite
    (fun state : WriteFrame β × List WriteOutcome => state.1.nleft) WriteOutcome.Idle
    writenOn_progress (.start buf count, []) busy
  have negative : (-1 : Int) ≠ count := by omega
  refine ⟨turns, written, log, ran, ?_⟩
  cases writenEnds_of_run small ran with
  | whole going ran =>
      refine ⟨ran, count, Nat.le_refl _, rfl, .inl rfl, iff_of_true rfl rfl, ?_, fun error => ?_⟩
      · exact iff_of_false negative.symm going
      · exact absurd error going
  | @failed sent _ few failed ran =>
      refine ⟨ran, sent, Nat.le_of_lt few, rfl, .inr rfl, ?_, iff_of_true rfl failed,
        fun _ => few⟩
      refine iff_of_false negative fun same => Nat.ne_of_lt few ?_
      have lengths := congrArg List.length same
      rwa [length_window, length_window] at lengths

/-- A write of no bytes, and then two bytes at a time. -/
def outTwos (turn : Nat) : WriteOutcome := if turn = 0 then .wrote 0 else .wrote 2

theorem writen_returns_three :
    ∃ turns written log,
      (writenOn UInt8).run (.start (fun position => if position = 0 then 7 else 8) 3, [])
        ((List.range turns).map outTwos) = some (written, log) ∧
      written.ret = 3 ∧ written.wire = [7, 8, 8] := by
  have calm : {turn : Nat | (outTwos turn).Idle}.Finite :=
    (Set.finite_singleton 0).subset fun turn idle => by
      by_contra later
      simp [outTwos, Set.mem_singleton_iff.not.mp later, WriteOutcome.Idle] at idle
  obtain ⟨turns, written, log, ran, _, sent, _, _, either, whole, failed, _⟩ :=
    writen_returns (fun position => if position = 0 then (7 : UInt8) else 8)
      (show 3 ≤ ssizeMax by decide) _ calm
  have logged : log = [.wrote 0, .wrote 2, .wrote 1] := by
    rcases turns with _ | _ | _ | _ | more
    · cases ran
    · cases ran
    · cases ran
    · cases ran
      rfl
    · rw [List.range_succ_eq_map, List.range_succ_eq_map, List.range_succ_eq_map,
        List.range_succ_eq_map] at ran
      cases ran
      rfl
  have fine : WriteOutcome.error ∉ log := by simp [logged]
  have all := either.resolve_right fun error => fine (failed.mp error)
  exact ⟨turns, written, log, ran, all, whole.mp all⟩

end LibNet.Base
