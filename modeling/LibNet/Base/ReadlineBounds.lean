import LibNet.Base.ReadWriteRuns
import LibNet.Base.ReadlineRuns
import LibNet.Runs.Logged

/-!
# Where `readline` writes

The calls `readline` makes and the stores they make into `buf`, as a log of its run.  The
same bytes are peeked, scanned and read several times over, and a newline in the scan
overwrites bytes that are still to be scanned; but no call is ever given more room than is
left, whatever the stream holds.  The loops that keep the log come back with what those of
`readline` come back with, and the log is there for runs that wait for an answer, too.
-/

namespace LibNet.Base

open LibNet.Runs

/-- What `readline` does: a call of `recv_peek`, with which every round of its loop begins;
a call of `readn`; or bytes that one of the two stores. -/
inductive LineEvent where
  | recvPeek (bufPtr : Nat) (nleft : Int)
  | readn (bufPtr count : Nat)
  | stored (position : Nat) (bytes : List UInt8)
  deriving DecidableEq

namespace LineEvent

/-- The memory after an event. -/
def leaves (buf : Nat → UInt8) : LineEvent → Nat → UInt8
  | .recvPeek _ _ => buf
  | .readn _ _ => buf
  | .stored position bytes => store buf position bytes

/-- An event keeps to the `maxline` bytes of `buf`.  At the head of a round `nleft` is all
that is left of them. -/
def Inside (maxline : Nat) : LineEvent → Prop
  | .recvPeek bufPtr nleft => 0 ≤ nleft ∧ bufPtr + nleft = maxline
  | .readn bufPtr count => bufPtr + count ≤ maxline
  | .stored position bytes => position + bytes.length ≤ maxline

instance (maxline : Nat) : (event : LineEvent) → Decidable (event.Inside maxline)
  | .recvPeek _ _ => inferInstanceAs (Decidable (_ ∧ _))
  | .readn _ _ => inferInstanceAs (Decidable (_ ≤ _))
  | .stored _ _ => inferInstanceAs (Decidable (_ ≤ _))

def isRound : LineEvent → Bool
  | .recvPeek _ _ => true
  | .readn _ _ => false
  | .stored _ _ => false

/-- The rounds of the loop in a log. -/
def rounds (events : List LineEvent) : Nat := events.countP isRound

end LineEvent

/-! ## The log -/

/-- What one `read` of `readn` stores. -/
def readStored : (ReadFrame UInt8 × List UInt8) × Answer → LineEvent
  | ((frame, stream), answer) => .stored frame.bufPtr (readAnswer frame stream answer).1.bytes

namespace LineState

/-- `readn?` with its log. -/
def readnLogged (state : LineState) (bufPtr count : Nat) : Logged LineEvent (Int × LineState) where
  log := .readn bufPtr count ::
    (streamLoop.turns (⟨state.buf, count, bufPtr, count⟩, state.stream) state.reads).map readStored
  result := state.readn? bufPtr count

/-- `peek?` with its log. -/
def peekLogged (state : LineState) (bufPtr : Nat) (nleft : Int) :
    Logged LineEvent (Option (List UInt8) × LineState) where
  log := .recvPeek bufPtr nleft ::
    (((state.peek? bufPtr nleft).bind Prod.fst).map (.stored bufPtr)).toList
  result := state.peek? bufPtr nleft

/-- `scan?` with its log. -/
def scanLogged (bufPtr : Nat) : (left i : Nat) → LineState → Logged LineEvent Scan
  | 0, _, state => .returns (.ends state)
  | left + 1, i, state =>
      if state.buf (bufPtr + i) = newline then
        (state.readnLogged bufPtr (i + 1)).andThen fun (ret, next) =>
          if ret ≠ i + 1 then .returns (.returns ret next) else scanLogged bufPtr left (i + 1) next
      else scanLogged bufPtr left (i + 1) state

/-- `readlineLoop?` with its log. -/
def loopLogged (errno : Nat) :
    (fuel bufPtr : Nat) → (nleft : Int) → LineState → Logged LineEvent (Int × LineState)
  | 0, _, _, _ => ⟨[], none⟩
  | fuel + 1, bufPtr, nleft, state =>
      (state.peekLogged bufPtr nleft).andThen fun
        | (none, next) => .returns (-1, next)
        | (some [], next) => .returns (0, next)
        | (some (_ :: bytes), next) =>
            let nread := bytes.length + 1
            (scanLogged bufPtr nread 0 next).andThen fun
              | .returns ret last => .returns (ret, last)
              | .ends scanned =>
                  if (nread : Int) > nleft then .returns (errno, scanned)
                  else
                    (scanned.readnLogged bufPtr nread).andThen fun (ret, read) =>
                      if ret ≠ nread then .returns (errno, read)
                      else loopLogged errno fuel (bufPtr + nread) (nleft - nread) read

/-- `readline?` with its log.  One more round may have begun than there are answers. -/
def readlineLogged (state : LineState) (maxline errno : Nat) : Logged LineEvent (Int × LineState) :=
  loopLogged errno (state.recvs.length + 1) 0 (toInt32 maxline) state

theorem result_scanLogged (bufPtr left i : Nat) (state : LineState) :
    (scanLogged bufPtr left i state).result = scan? bufPtr left i state := by
  induction left generalizing i state with
  | zero => rfl
  | succ left ih =>
      rw [scanLogged, scan?]
      by_cases isNewline : state.buf (bufPtr + i) = newline
      · rw [if_pos isNewline, if_pos isNewline, Logged.result_andThen, readnLogged]
        cases called : state.readn? bufPtr (i + 1) with
        | none => rfl
        | some answer =>
            obtain ⟨ret, next⟩ := answer
            simp only [Option.bind_some]
            by_cases few : ret ≠ i + 1
            · rw [if_pos few, if_pos few]
              rfl
            · rw [if_neg few, if_neg few]
              exact ih (i + 1) next
      · rw [if_neg isNewline, if_neg isNewline]
        exact ih (i + 1) state

theorem result_loopLogged (errno fuel bufPtr : Nat) (nleft : Int) (state : LineState) :
    (loopLogged errno fuel bufPtr nleft state).result =
      readlineLoop? errno fuel bufPtr nleft state := by
  induction fuel generalizing bufPtr nleft state with
  | zero => rfl
  | succ fuel ih =>
      rw [loopLogged, readlineLoop?, Logged.result_andThen, peekLogged]
      rcases state.peek? bufPtr nleft with _ | ⟨_ | _ | ⟨byte, bytes⟩, next⟩
      · rfl
      · rfl
      · rfl
      · simp only [Option.bind_some]
        rw [Logged.result_andThen, result_scanLogged]
        rcases scan? bufPtr (bytes.length + 1) 0 next with _ | scanned | ⟨ret, last⟩
        · rfl
        · simp only [Option.bind_some]
          by_cases exceeds : ((bytes.length + 1 : Nat) : Int) > nleft
          · rw [if_pos exceeds, if_pos exceeds]
            rfl
          · rw [if_neg exceeds, if_neg exceeds, Logged.result_andThen, readnLogged]
            rcases scanned.readn? bufPtr (bytes.length + 1) with _ | ⟨ret, read⟩
            · rfl
            · simp only [Option.bind_some]
              by_cases few : ret ≠ ((bytes.length + 1 : Nat) : Int)
              · rw [if_pos few, if_pos few]
                rfl
              · rw [if_neg few, if_neg few]
                exact ih _ _ read
        · rfl

/-- One more round than there are answers to `recv` only waits. -/
theorem readlineLoop?_succ {errno fuel bufPtr : Nat} {nleft : Int} {state : LineState}
    (few : state.recvs.length ≤ fuel) :
    readlineLoop? errno (fuel + 1) bufPtr nleft state =
      readlineLoop? errno fuel bufPtr nleft state := by
  induction fuel generalizing bufPtr nleft state with
  | zero =>
      have nobody : state.peek? bufPtr nleft = none := by
        rw [peek?, List.length_eq_zero_iff.mp (Nat.le_zero.mp few)]
        rfl
      rw [show readlineLoop? errno 0 bufPtr nleft state = none from rfl, readlineLoop?, nobody]
  | succ fuel ih =>
      rw [readlineLoop?, readlineLoop?]
      rcases called : state.peek? bufPtr nleft with _ | ⟨_ | _ | ⟨byte, bytes⟩, next⟩
      · rfl
      · rfl
      · rfl
      · dsimp only
        rcases scanned : scan? bufPtr (bytes.length + 1) 0 next with _ | scan | ⟨ret, last⟩
        · rfl
        · dsimp only
          rcases read : scan.readn? bufPtr (bytes.length + 1) with _ | ⟨ret, after⟩
          · rfl
          · dsimp only
            by_cases short : ret ≠ ((bytes.length + 1 : Nat) : Int)
            · rw [if_pos short, if_pos short]
            · have peek := peek_of_peek? called
              have small : bytes.length + 1 ≤ ssizeMax := peek.length_le.1
              have advanced := (scan?_ends (by omega) scanned).trans
                ((read_of_readn? small read).advanced (not_not.mp short))
              have shorter := peek.progress.1
              rw [← advanced.recvs] at shorter
              rw [ih (by omega)]
        · rfl

theorem result_readlineLogged (state : LineState) (maxline errno : Nat) :
    (state.readlineLogged maxline errno).result = state.readline? maxline errno :=
  (result_loopLogged errno _ 0 (toInt32 maxline) state).trans (readlineLoop?_succ (Nat.le_refl _))

/-- A `read` that is answered with bytes stores what it is served. -/
theorem readStored_bytes (frame : ReadFrame UInt8) (stream : List UInt8) (most : Nat) :
    readStored ((frame, stream), .bytes most) =
      .stored frame.bufPtr (served stream frame.nleft most) := by
  simp only [readStored]
  by_cases nothing : served stream frame.nleft most = []
  · rw [readAnswer_of_nil nothing, nothing]
    rfl
  · rw [readAnswer_of_ne_nil nothing]
    rfl

theorem readStored_leaves (frame : ReadFrame UInt8) (stream : List UInt8) (answer : Answer) :
    (streamLoop.turn (frame, stream) answer).Meets
      (fun next => next.1.buf = (readStored ((frame, stream), answer)).leaves frame.buf)
      (fun ended => ended.1.buf = (readStored ((frame, stream), answer)).leaves frame.buf) := by
  cases answer with
  | eintr => exact (store_nil _ _).symm
  | error => exact (store_nil _ _).symm
  | bytes most =>
      rw [readStored_bytes]
      by_cases nothing : served stream frame.nleft most = []
      · rw [streamLoop_turn_of_nil nothing, nothing]
        exact (store_nil _ _).symm
      · rw [streamLoop_turn_of_ne_nil nothing]
        rfl

theorem buf_of_streamLoop_test {place : ReadFrame UInt8 × List UInt8}
    {ended : Readn UInt8 × List UInt8} (ends : streamLoop.test place = some ended) :
    ended.1.buf = place.1.buf := by
  rw [streamLoop, Loop.against_test, Option.map_eq_some_iff] at ends
  obtain ⟨read, tested, rfl⟩ := ends
  simp only [readnLoop] at tested
  split at tested
  · cases tested
  · cases tested
    rfl

/-- What `readn` leaves in memory. -/
theorem plays_readnLogged (state : LineState) (bufPtr count : Nat) :
    Logged.Plays LineEvent.leaves state.buf (state.readnLogged bufPtr count)
      fun answer => answer.2.buf := by
  rintro ⟨ret, next⟩ called
  change state.readn? bufPtr count = some (ret, next) at called
  unfold readn? at called
  split at called
  · cases called
  · next read stream reads executed =>
      cases called
      rw [readnLogged, List.foldl_cons, List.foldl_map]
      exact Loop.view_of_exec (fun place => place.1.buf) (fun ended => ended.1.buf)
        (fun buf turn => (readStored turn).leaves buf) (fun _ _ => buf_of_streamLoop_test)
        (fun place answer => readStored_leaves place.1 place.2 answer) executed

/-- What `recv_peek` leaves in memory. -/
theorem plays_peekLogged (state : LineState) (bufPtr : Nat) (nleft : Int) :
    Logged.Plays LineEvent.leaves state.buf (state.peekLogged bufPtr nleft)
      fun answer => answer.2.buf := by
  rintro ⟨peeked, next⟩ called
  change state.peek? bufPtr nleft = some (peeked, next) at called
  simp only [peekLogged, called, Option.bind_some]
  cases peek_of_peek? called with
  | failed recvs error => rfl
  | bytes most recvs shorter fast clean => rfl

theorem plays_scanLogged (bufPtr left i : Nat) (state : LineState) :
    Logged.Plays LineEvent.leaves state.buf (scanLogged bufPtr left i state)
      fun scan => scan.state.buf := by
  induction left generalizing i state with
  | zero => exact Logged.plays_returns (Scan.ends state)
  | succ left ih =>
      rw [scanLogged]
      split
      · refine (plays_readnLogged state bufPtr (i + 1)).andThen ?_
        rintro ⟨ret, next⟩ _
        dsimp only
        split
        · exact Logged.plays_returns (Scan.returns ret next)
        · exact ih (i + 1) next
      · exact ih (i + 1) state

theorem plays_loopLogged (errno fuel bufPtr : Nat) (nleft : Int) (state : LineState) :
    Logged.Plays LineEvent.leaves state.buf (loopLogged errno fuel bufPtr nleft state)
      fun answer => answer.2.buf := by
  induction fuel generalizing bufPtr nleft state with
  | zero =>
      intro answer came
      cases came
  | succ fuel ih =>
      rw [loopLogged]
      refine (plays_peekLogged state bufPtr nleft).andThen ?_
      rintro ⟨_ | _ | ⟨byte, bytes⟩, next⟩ _
      · exact Logged.plays_returns ((-1 : Int), next)
      · exact Logged.plays_returns ((0 : Int), next)
      · refine (plays_scanLogged bufPtr (bytes.length + 1) 0 next).andThen ?_
        rintro (scanned | ⟨ret, last⟩) _
        · dsimp only
          split
          · exact Logged.plays_returns ((errno : Int), scanned)
          · refine (plays_readnLogged scanned bufPtr (bytes.length + 1)).andThen ?_
            rintro ⟨ret, read⟩ _
            dsimp only
            split
            · exact Logged.plays_returns ((errno : Int), read)
            · exact ih _ _ read
        · exact Logged.plays_returns (ret, last)

/-! ## The log keeps inside -/

/-- Events inside leave the memory behind the `maxline` bytes alone. -/
theorem foldl_leaves_of_inside {maxline position : Nat} (behind : maxline ≤ position)
    {events : List LineEvent} (inside : ∀ event ∈ events, event.Inside maxline)
    (buf : Nat → UInt8) : events.foldl LineEvent.leaves buf position = buf position := by
  induction events generalizing buf with
  | nil => rfl
  | cons event rest ih =>
      obtain ⟨here, later⟩ := List.forall_mem_cons.mp inside
      rw [List.foldl_cons, ih later]
      cases event with
      | recvPeek bufPtr nleft => rfl
      | readn bufPtr count => rfl
      | stored start bytes => exact store_apply_of_le _ (Nat.le_trans here behind)

/-- A log that keeps to the `maxline` bytes of `buf` and has at most `count` rounds. -/
structure Bounded (maxline count : Nat) (events : List LineEvent) : Prop where
  inside : ∀ event ∈ events, event.Inside maxline
  few : LineEvent.rounds events ≤ count

namespace Bounded

variable {maxline count : Nat} {events first : List LineEvent}

theorem nil : Bounded maxline count [] :=
  ⟨fun _ member => absurd member List.not_mem_nil, Nat.zero_le _⟩

theorem mono {most : Nat} (bounded : Bounded maxline count events) (fewer : count ≤ most) :
    Bounded maxline most events :=
  ⟨bounded.inside, Nat.le_trans bounded.few fewer⟩

theorem cons {event : LineEvent} (inside : event.Inside maxline) (quiet : event.isRound = false)
    (bounded : Bounded maxline count events) : Bounded maxline count (event :: events) where
  inside := List.forall_mem_cons.mpr ⟨inside, bounded.inside⟩
  few := by
    rw [LineEvent.rounds, List.countP_cons_of_neg (by simp [quiet])]
    exact bounded.few

/-- One more round. -/
theorem round {bufPtr : Nat} {nleft : Int} (low : 0 ≤ nleft) (room : bufPtr + nleft = maxline)
    (bounded : Bounded maxline count events) :
    Bounded maxline (count + 1) (.recvPeek bufPtr nleft :: events) where
  inside := List.forall_mem_cons.mpr ⟨⟨low, room⟩, bounded.inside⟩
  few := by
    rw [LineEvent.rounds, List.countP_cons_of_pos rfl]
    exact Nat.succ_le_succ bounded.few

/-- The rounds of two computations add up. -/
theorem andThen {Value Other : Type} {more : Nat} {first : Logged LineEvent Value}
    {next : Value → Logged LineEvent Other} (here : Bounded maxline count first.log)
    (there : ∀ value, first.result = some value → Bounded maxline more (next value).log) :
    Bounded maxline (count + more) (first.andThen next).log := by
  refine Logged.log_andThen _ (here.mono (Nat.le_add_right _ _)) fun value ended => ?_
  obtain ⟨inside, few⟩ := there value ended
  refine ⟨List.forall_mem_append.mpr ⟨here.inside, inside⟩, ?_⟩
  rw [LineEvent.rounds, List.countP_append]
  exact Nat.add_le_add here.few few

end Bounded

/-- A turn of `readn` keeps the end of the room it has. -/
theorem room_of_streamLoop_turn {room : Nat} {frame : ReadFrame UInt8} {stream : List UInt8}
    {answer : Answer} {next : ReadFrame UInt8 × List UInt8}
    (kept : frame.bufPtr + frame.nleft = room)
    (again : streamLoop.turn (frame, stream) answer = .again next) :
    next.1.bufPtr + next.1.nleft = room := by
  cases answer with
  | eintr =>
      cases again
      exact kept
  | error => cases again
  | bytes most =>
      have asked := (length_served_le stream frame.nleft most).1
      by_cases nothing : served stream frame.nleft most = []
      · rw [streamLoop_turn_of_nil nothing] at again
        cases again
      · rw [streamLoop_turn_of_ne_nil nothing] at again
        cases again
        simp only [ReadFrame.advance]
        omega

/-- A `read` stores into that room. -/
theorem readStored_inside {maxline : Nat} {frame : ReadFrame UInt8} (stream : List UInt8)
    (answer : Answer) (fits : frame.bufPtr + frame.nleft ≤ maxline) :
    (readStored ((frame, stream), answer)).Inside maxline := by
  have start : frame.bufPtr ≤ maxline := Nat.le_trans (Nat.le_add_right _ _) fits
  cases answer with
  | eintr => exact start
  | error => exact start
  | bytes most =>
      rw [readStored_bytes]
      exact Nat.le_trans (Nat.add_le_add_left (length_served_le _ _ most).1 _) fits

theorem bounded_readnLogged {maxline bufPtr count : Nat} (state : LineState)
    (fits : bufPtr + count ≤ maxline) :
    Bounded maxline 0 (state.readnLogged bufPtr count).log := by
  refine .cons fits rfl ⟨fun event member => ?_, ?_⟩
  · obtain ⟨⟨⟨frame, stream⟩, answer⟩, taken, rfl⟩ := List.mem_map.mp member
    have room : frame.bufPtr + frame.nleft = bufPtr + count :=
      Loop.invariant_of_mem_turns (fun place => place.1.bufPtr + place.1.nleft = bufPtr + count)
        (fun _ _ _ kept _ again => room_of_streamLoop_turn kept again) rfl taken
    exact readStored_inside stream answer (Nat.le_trans (Nat.le_of_eq room) fits)
  · rw [LineEvent.rounds, List.countP_map]
    exact Nat.le_of_eq (List.countP_eq_zero.mpr fun _ _ => Bool.false_ne_true)

/-- A peek begins a round, and shows no more than there is room for. -/
theorem bounded_peekLogged {maxline bufPtr : Nat} {nleft : Int} (state : LineState)
    (low : 0 ≤ nleft) (room : bufPtr + nleft = maxline) :
    Bounded maxline 1 (state.peekLogged bufPtr nleft).log := by
  refine .round low room ?_
  rcases called : state.peek? bufPtr nleft with _ | ⟨_ | bytes, next⟩
  · exact .nil
  · exact .nil
  · have shown : (bytes.length : Int) ≤ nleft := (peek_of_peek? called).shows.2.2 low
    have inside : bufPtr + bytes.length ≤ maxline := by omega
    exact .cons inside rfl .nil

theorem bounded_scanLogged {maxline bufPtr left i : Nat} {state : LineState}
    (fits : bufPtr + (i + left) ≤ maxline) :
    Bounded maxline 0 (scanLogged bufPtr left i state).log := by
  induction left generalizing i state with
  | zero => exact .nil
  | succ left ih =>
      rw [scanLogged]
      split
      · change Bounded maxline (0 + 0) _
        refine (bounded_readnLogged state (by omega)).andThen ?_
        rintro ⟨ret, next⟩ _
        dsimp only
        split
        · exact .nil
        · exact ih (by omega)
      · exact ih (by omega)

/-- Every round but the last takes a byte off the room that is left. -/
theorem bounded_loopLogged {errno maxline fuel bufPtr : Nat} {nleft : Int} {state : LineState}
    (low : 0 ≤ nleft) (room : bufPtr + nleft = maxline) :
    Bounded maxline (1 + nleft.toNat) (loopLogged errno fuel bufPtr nleft state).log := by
  induction fuel generalizing bufPtr nleft state with
  | zero => exact .nil
  | succ fuel ih =>
      rw [loopLogged]
      refine (bounded_peekLogged state low room).andThen ?_
      rintro ⟨_ | _ | ⟨byte, bytes⟩, next⟩ called
      · exact .nil
      · exact .nil
      · have shown : ((bytes.length + 1 : Nat) : Int) ≤ nleft :=
          (peek_of_peek? called).shows.2.2 low
        have inside : bufPtr + (bytes.length + 1) ≤ maxline := by omega
        rw [← Nat.zero_add nleft.toNat]
        refine (bounded_scanLogged (by omega)).andThen ?_
        rintro (scanned | ⟨ret, last⟩) _
        · dsimp only
          split
          · exact .nil
          · rw [← Nat.zero_add nleft.toNat]
            refine (bounded_readnLogged scanned inside).andThen ?_
            rintro ⟨ret, read⟩ _
            dsimp only
            split
            · exact .nil
            · exact (ih (by omega) (by omega)).mono (by omega)
        · exact .nil

theorem toInt32_of_le {maxline : Nat} (small : maxline ≤ int32Max) :
    toInt32 maxline = maxline := by
  have bound : int32Max = 2147483647 := rfl
  exact Int.bmod_eq_of_le (by omega) (by omega)

/-- A call of `readline`, with the first answers that `recv` and `read` will be given. -/
def awaiting (buf : Nat → UInt8) (stream : List UInt8) (recvs reads : Nat → Answer)
    (recvCalls readCalls : Nat) : LineState where
  buf := buf
  stream := stream
  recvs := (List.range recvCalls).map recvs
  reads := (List.range readCalls).map reads

theorem bounded_readlineLogged {maxline : Nat} (small : maxline ≤ int32Max) (errno : Nat)
    (state : LineState) :
    Bounded maxline (maxline + 1) (state.readlineLogged maxline errno).log := by
  rw [readlineLogged, toInt32_of_le small, Nat.add_comm maxline]
  exact bounded_loopLogged (Int.natCast_nonneg maxline) (Int.zero_add _)

/-- Of answers that are interruptions finitely often, enough are not. -/
theorem exists_lt_calm {answers : Nat → Answer} (calmed : {call | answers call = .eintr}.Finite)
    (wanted : Nat) : ∃ calls, wanted < calm ((List.range calls).map answers) := by
  have often : {call | answers call ≠ .eintr}.Infinite := calmed.infinite_compl
  exact Loop.exists_lt_countP_of_infinite (· ≠ Answer.eintr) often wanted

/--
Whatever the stream holds, however `recv` and `read` split it and wherever they fail, at
every moment of a call of `readline` its log keeps to the `maxline` bytes of `buf` and has
at most `maxline + 1` rounds; the loop that keeps the log comes back when `readline` does and
with the same.  If the calls are interrupted finitely often `readline` returns; the memory is
then what the log has stored, and no byte behind the `maxline` has changed.
-/
theorem readline_keeps_inside (buf : Nat → UInt8) (stream : List UInt8)
    (recvs reads : Nat → Answer) (maxline errno : Nat) (small : maxline ≤ int32Max)
    (calmRecvs : {call | recvs call = .eintr}.Finite)
    (calmReads : {call | reads call = .eintr}.Finite) :
    (∀ recvCalls readCalls,
      ((awaiting buf stream recvs reads recvCalls readCalls).readlineLogged maxline
          errno).result =
        (awaiting buf stream recvs reads recvCalls readCalls).readline? maxline errno ∧
      Bounded maxline (maxline + 1)
        ((awaiting buf stream recvs reads recvCalls readCalls).readlineLogged maxline
          errno).log) ∧
      ∃ recvCalls readCalls ret last,
        (awaiting buf stream recvs reads recvCalls readCalls).readline? maxline errno =
          some (ret, last) ∧
        last.buf = ((awaiting buf stream recvs reads recvCalls readCalls).readlineLogged
          maxline errno).log.foldl LineEvent.leaves buf ∧
        ∀ position, maxline ≤ position → last.buf position = buf position := by
  refine ⟨fun _ _ => ⟨result_readlineLogged _ maxline errno,
    bounded_readlineLogged small errno _⟩, ?_⟩
  obtain ⟨recvCalls, enough⟩ := exists_lt_calm calmRecvs stream.length
  obtain ⟨readCalls, enoughReads⟩ := exists_lt_calm calmReads stream.length
  obtain ⟨ret, last, run⟩ : ∃ ret last,
      (awaiting buf stream recvs reads recvCalls readCalls).readline? maxline errno =
        some (ret, last) :=
    exists_readlineLoop? enough enoughReads (Nat.le_refl _)
  have memory : last.buf = _ :=
    plays_loopLogged _ _ _ _ _ (ret, last) ((result_readlineLogged _ _ _).trans run)
  refine ⟨recvCalls, readCalls, ret, last, run, memory, fun position behind => ?_⟩
  rw [memory]
  exact foldl_leaves_of_inside behind (bounded_readlineLogged small errno _).inside buf

-- Two lines in one peek: the second `readn` of the scan overwrites the first line.
example : ((willing [97, 10, 98, 10] 5).readlineLogged 80 0).log =
    [.recvPeek 0 80, .stored 0 [97, 10, 98, 10], .readn 0 2, .stored 0 [], .stored 0 [97, 10],
      .readn 0 4, .stored 0 [98, 10], .stored 2 []] := by
  decide

/-- Two bytes at a time, after one interruption. -/
def pairs (call : Nat) : Answer := if call = 0 then .eintr else .bytes 2

theorem calm_pairs : {call | pairs call = .eintr}.Finite := by
  refine (Set.finite_singleton 0).subset fun call interrupted => ?_
  by_contra later
  have calm : pairs call = .bytes 2 := if_neg later
  exact absurd (calm.symm.trans interrupted) (by decide)

/-- Two lines in a buffer of three bytes. -/
theorem readline_keeps_to_three :
    (∀ recvCalls readCalls,
      ((awaiting (fun _ => 0) [97, 10, 98, 10] pairs pairs recvCalls readCalls).readlineLogged 3
          0).result =
        (awaiting (fun _ => 0) [97, 10, 98, 10] pairs pairs recvCalls readCalls).readline? 3 0 ∧
      Bounded 3 4
        ((awaiting (fun _ => 0) [97, 10, 98, 10] pairs pairs recvCalls readCalls).readlineLogged 3
          0).log) ∧
      ∃ recvCalls readCalls ret last,
        (awaiting (fun _ => 0) [97, 10, 98, 10] pairs pairs recvCalls readCalls).readline? 3 0 =
          some (ret, last) ∧
        last.buf = ((awaiting (fun _ => 0) [97, 10, 98, 10] pairs pairs recvCalls
          readCalls).readlineLogged 3 0).log.foldl LineEvent.leaves (fun _ => 0) ∧
        ∀ position, 3 ≤ position → last.buf position = 0 :=
  readline_keeps_inside (fun _ => 0) [97, 10, 98, 10] pairs pairs 3 0 (by decide) calm_pairs
    calm_pairs

end LineState

end LibNet.Base
