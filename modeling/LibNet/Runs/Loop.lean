import Mathlib

/-!
# Loops around a system call

A loop tests its locals, makes one call, and goes on or returns by what the call
comes back with.  A run of the loop is given by the list of outcomes; it is `none`
if the list ends before the loop does.  A call in progress carries the outcomes it
has seen, so that threads may take the turns of their loops one at a time.
-/

namespace LibNet.Runs

variable {Frame Outcome Result : Type}

/-- What a turn of a loop ends with. -/
inductive Next (Frame Result : Type) where
  | again (frame : Frame)
  | done (result : Result)

/-- A turn goes on with locals that meet `Again`, or ends with a result that meets `Done`. -/
def Next.Meets (Again : Frame → Prop) (Done : Result → Prop) : Next Frame Result → Prop
  | .again frame => Again frame
  | .done result => Done result

/-- A loop by its test, which may end it before the call, and its turn. -/
structure Loop (Frame Outcome Result : Type) where
  test : Frame → Option Result
  turn : Frame → Outcome → Next Frame Result

namespace Loop

variable (loop : Loop Frame Outcome Result)

/-- Run the loop over the outcomes of its calls. -/
def run (frame : Frame) : List Outcome → Option Result
  | [] => loop.test frame
  | outcome :: rest =>
      match loop.test frame with
      | some result => some result
      | none =>
          match loop.turn frame outcome with
          | .again next => run next rest
          | .done result => some result

/-- Run the loop, and say which of the outcomes it has not used. -/
def exec (frame : Frame) : List Outcome → Option (Result × List Outcome)
  | [] =>
      match loop.test frame with
      | some result => some (result, [])
      | none => none
  | outcome :: rest =>
      match loop.test frame with
      | some result => some (result, outcome :: rest)
      | none =>
          match loop.turn frame outcome with
          | .again next => exec next rest
          | .done result => some (result, rest)

/-- The locals after one more turn, if the loop goes on. -/
def next? (frame : Frame) (outcome : Outcome) : Option Frame :=
  match loop.test frame with
  | some _ => none
  | none =>
      match loop.turn frame outcome with
      | .again next => some next
      | .done _ => none

/-- The locals after the turns with the given outcomes. -/
def walk? (frame : Frame) : List Outcome → Option Frame
  | [] => some frame
  | outcome :: rest =>
      match loop.next? frame outcome with
      | none => none
      | some next => walk? next rest

/-- The turns the loop takes over the outcomes: the locals at each call, and its outcome. -/
def turns (frame : Frame) : List Outcome → List (Frame × Outcome)
  | [] => []
  | outcome :: rest =>
      match loop.test frame with
      | some _ => []
      | none =>
          (frame, outcome) ::
            match loop.turn frame outcome with
            | .again next => turns next rest
            | .done _ => []

variable {loop}

theorem next?_eq_some_iff {frame next : Frame} {outcome : Outcome} :
    loop.next? frame outcome = some next ↔
      loop.test frame = none ∧ loop.turn frame outcome = .again next := by
  unfold next?
  cases loop.test frame with
  | some result => simp only [reduceCtorEq, false_and]
  | none =>
      cases loop.turn frame outcome with
      | again other => simp only [Option.some.injEq, Next.again.injEq, true_and]
      | done result => simp only [reduceCtorEq, and_false]

theorem run_of_next? {frame next : Frame} {outcome : Outcome}
    (turned : loop.next? frame outcome = some next) (rest : List Outcome) :
    loop.run frame (outcome :: rest) = loop.run next rest := by
  obtain ⟨goes, again⟩ := next?_eq_some_iff.mp turned
  simp only [run, goes, again]

theorem walk?_append {frame middle : Frame} {first second : List Outcome}
    (walked : loop.walk? frame first = some middle) :
    loop.walk? frame (first ++ second) = loop.walk? middle second := by
  induction first generalizing frame with
  | nil =>
      cases walked
      rfl
  | cons outcome rest ih =>
      simp only [walk?, List.cons_append] at walked ⊢
      split at walked
      · cases walked
      · exact ih walked

/-- The turns taken so far may be left out of a run. -/
theorem run_of_walk? {frame middle : Frame} {first : List Outcome}
    (walked : loop.walk? frame first = some middle) (rest : List Outcome) :
    loop.run frame (first ++ rest) = loop.run middle rest := by
  induction first generalizing frame with
  | nil =>
      cases walked
      rfl
  | cons outcome others ih =>
      simp only [walk?] at walked
      split at walked
      · cases walked
      · next turned =>
          rw [List.cons_append, run_of_next? turned]
          exact ih walked

/-- One more turn that goes on. -/
theorem walk?_concat {frame middle next : Frame} {first : List Outcome} {outcome : Outcome}
    (walked : loop.walk? frame first = some middle) (goes : loop.test middle = none)
    (again : loop.turn middle outcome = .again next) :
    loop.walk? frame (first ++ [outcome]) = some next := by
  rw [walk?_append walked]
  simp only [walk?, next?_eq_some_iff.mpr ⟨goes, again⟩]

/-- One more turn, which ends the loop. -/
theorem run_concat {frame middle : Frame} {first : List Outcome} {outcome : Outcome}
    {result : Result} (walked : loop.walk? frame first = some middle)
    (goes : loop.test middle = none) (done : loop.turn middle outcome = .done result) :
    loop.run frame (first ++ [outcome]) = some result := by
  rw [run_of_walk? walked]
  simp only [run, goes, done]

/-- After the turns taken so far, the test ends the loop. -/
theorem run_of_test {frame middle : Frame} {first : List Outcome} {result : Result}
    (walked : loop.walk? frame first = some middle) (ends : loop.test middle = some result) :
    loop.run frame first = some result := by
  have run := run_of_walk? walked []
  rw [List.append_nil] at run
  exact run.trans ends

/-- Outcomes after which the loop stands where it stood may be left out of a run. -/
theorem run_replicate {frame : Frame} {outcome : Outcome} (goes : loop.test frame = none)
    (stays : loop.turn frame outcome = .again frame) (times : Nat) (rest : List Outcome) :
    loop.run frame (List.replicate times outcome ++ rest) = loop.run frame rest := by
  induction times with
  | zero => rfl
  | succ times ih =>
      rw [List.replicate_succ, List.cons_append,
        run_of_next? (next?_eq_some_iff.mpr ⟨goes, stays⟩)]
      exact ih

theorem exec_of_test {frame : Frame} {result : Result} (ends : loop.test frame = some result)
    (outcomes : List Outcome) : loop.exec frame outcomes = some (result, outcomes) := by
  cases outcomes with
  | nil => simp only [exec, ends]
  | cons outcome rest => simp only [exec, ends]

theorem exec_of_again {frame next : Frame} {outcome : Outcome} (goes : loop.test frame = none)
    (again : loop.turn frame outcome = .again next) (rest : List Outcome) :
    loop.exec frame (outcome :: rest) = loop.exec next rest := by
  simp only [exec, goes, again]

theorem exec_of_done {frame : Frame} {outcome : Outcome} {result : Result}
    (goes : loop.test frame = none) (done : loop.turn frame outcome = .done result)
    (rest : List Outcome) : loop.exec frame (outcome :: rest) = some (result, rest) := by
  simp only [exec, goes, done]

/-- What is executed is a run. -/
theorem run_of_exec {frame : Frame} {outcomes rest : List Outcome} {result : Result}
    (executed : loop.exec frame outcomes = some (result, rest)) :
    loop.run frame outcomes = some result := by
  induction outcomes generalizing frame with
  | nil =>
      unfold exec at executed
      split at executed
      · next ends =>
          cases executed
          exact ends
      · cases executed
  | cons outcome others ih =>
      unfold exec at executed
      unfold run
      cases ends : loop.test frame with
      | some other =>
          rw [ends] at executed
          cases executed
          rfl
      | none =>
          simp only [ends] at executed
          cases turned : loop.turn frame outcome with
          | again next =>
              rw [turned] at executed
              exact ih executed
          | done other =>
              rw [turned] at executed
              cases executed
              rfl

/-! ## Rules -/

/-- The invariant rule: what the locals meet before every turn, the result meets in the end. -/
theorem post_of_run (Invariant : Frame → Prop) (Post : Result → Prop)
    (tested : ∀ frame result, Invariant frame → loop.test frame = some result → Post result)
    (turned : ∀ frame outcome, Invariant frame → loop.test frame = none →
      (loop.turn frame outcome).Meets Invariant Post)
    {frame : Frame} (holds : Invariant frame) {outcomes : List Outcome} {result : Result}
    (ran : loop.run frame outcomes = some result) : Post result := by
  induction outcomes generalizing frame with
  | nil => exact tested frame result holds ran
  | cons outcome rest ih =>
      unfold run at ran
      cases ends : loop.test frame with
      | some other =>
          rw [ends] at ran
          cases ran
          exact tested frame result holds ends
      | none =>
          have meets := turned frame outcome holds ends
          simp only [ends] at ran
          cases turn : loop.turn frame outcome with
          | again next =>
              rw [turn] at ran meets
              exact ih meets ran
          | done other =>
              rw [turn] at ran meets
              cases ran
              exact meets

/-- What the locals meet before every turn, they meet at every call. -/
theorem invariant_of_mem_turns (Invariant : Frame → Prop)
    (turned : ∀ frame outcome next, Invariant frame → loop.test frame = none →
      loop.turn frame outcome = .again next → Invariant next)
    {frame : Frame} (holds : Invariant frame) {outcomes : List Outcome} {turn : Frame × Outcome}
    (member : turn ∈ loop.turns frame outcomes) : Invariant turn.1 := by
  induction outcomes generalizing frame with
  | nil => cases member
  | cons outcome rest ih =>
      unfold turns at member
      cases ends : loop.test frame with
      | some result =>
          rw [ends] at member
          cases member
      | none =>
          simp only [ends, List.mem_cons] at member
          rcases member with rfl | later
          · exact holds
          · cases goes : loop.turn frame outcome with
            | done result =>
                rw [goes] at later
                cases later
            | again next =>
                rw [goes] at later
                exact ih (turned frame outcome next holds ends goes) later

/-- What every turn changes by the turn alone is, in the end, folded over the turns. -/
theorem view_of_exec {View : Type} (view : Frame → View) (viewEnd : Result → View)
    (change : View → Frame × Outcome → View)
    (tested : ∀ frame result, loop.test frame = some result → viewEnd result = view frame)
    (turned : ∀ frame outcome, (loop.turn frame outcome).Meets
      (fun next => view next = change (view frame) (frame, outcome))
      (fun result => viewEnd result = change (view frame) (frame, outcome)))
    {frame : Frame} {outcomes rest : List Outcome} {result : Result}
    (executed : loop.exec frame outcomes = some (result, rest)) :
    viewEnd result = (loop.turns frame outcomes).foldl change (view frame) := by
  induction outcomes generalizing frame with
  | nil =>
      unfold exec at executed
      split at executed
      · next ends =>
          cases executed
          exact tested frame result ends
      · cases executed
  | cons outcome others ih =>
      unfold exec at executed
      unfold turns
      cases ends : loop.test frame with
      | some other =>
          rw [ends] at executed
          cases executed
          exact tested frame result ends
      | none =>
          have changed := turned frame outcome
          simp only [ends] at executed ⊢
          rw [List.foldl_cons]
          cases goes : loop.turn frame outcome with
          | again next =>
              rw [goes] at executed changed
              rw [← changed]
              exact ih executed
          | done other =>
              rw [goes] at executed changed
              cases executed
              exact changed

/-- An infinite sequence with infinitely many members of a kind has beginnings with as many
of them as are wanted. -/
theorem exists_lt_countP_of_infinite {outcomes : Nat → Outcome} (Kind : Outcome → Prop)
    [DecidablePred Kind] (often : {turn | Kind (outcomes turn)}.Infinite) (wanted : Nat) :
    ∃ turns, wanted < ((List.range turns).map outcomes).countP fun outcome => Kind outcome := by
  refine ⟨Nat.nth (fun turn => Kind (outcomes turn)) (wanted + 1), ?_⟩
  rw [List.countP_map]
  have counted := Nat.count_nth_of_infinite often (wanted + 1)
  exact Nat.lt_of_lt_of_eq (Nat.lt_succ_self _) counted.symm

section Progress

variable (measure : Frame → Nat) (Idle : Outcome → Prop) [DecidablePred Idle]
  (progress : ∀ frame outcome next, loop.test frame = none →
    loop.turn frame outcome = .again next →
    measure next + (if Idle outcome then 0 else 1) ≤ measure frame)

include progress

/-- A loop ends after more turns that are not idle than its measure allows. -/
theorem exists_run_of_lt_countP {outcomes : List Outcome} {frame : Frame}
    (enough : measure frame < outcomes.countP fun outcome => ¬ Idle outcome) :
    ∃ result, loop.run frame outcomes = some result := by
  induction outcomes generalizing frame with
  | nil => exact absurd enough (Nat.not_lt_zero _)
  | cons outcome rest ih =>
      unfold run
      cases ends : loop.test frame with
      | some result => exact ⟨result, rfl⟩
      | none =>
          cases turned : loop.turn frame outcome with
          | done result => exact ⟨result, rfl⟩
          | again next =>
              have less := progress frame outcome next ends turned
              simp only
              apply ih
              rw [List.countP_cons] at enough
              by_cases idle : Idle outcome
              · simp only [idle, not_true_eq_false, decide_false, Bool.false_eq_true, if_false,
                  if_true] at enough less
                omega
              · simp only [idle, not_false_eq_true, decide_true, if_true, if_false] at enough less
                omega

/-- Over an infinite sequence of outcomes of which infinitely many are not idle, a loop
ends. -/
theorem exists_run_of_infinite {outcomes : Nat → Outcome} (frame : Frame)
    (busy : {turn | ¬ Idle (outcomes turn)}.Infinite) :
    ∃ turns result, loop.run frame ((List.range turns).map outcomes) = some result := by
  obtain ⟨turns, enough⟩ :=
    exists_lt_countP_of_infinite (fun outcome => ¬ Idle outcome) busy (measure frame)
  exact ⟨turns, exists_run_of_lt_countP measure Idle progress enough⟩

end Progress

section Against

variable {World Answer : Type}

variable (loop) in
/-- The loop in a world that answers its calls. -/
def against (respond : Frame → World → Answer → Outcome × World) :
    Loop (Frame × World) Answer (Result × World) where
  test := fun (frame, world) =>
    match loop.test frame with
    | some result => some (result, world)
    | none => none
  turn := fun (frame, world) answer =>
    let (outcome, after) := respond frame world answer
    match loop.turn frame outcome with
    | .again next => .again (next, after)
    | .done result => .done (result, after)

section Turns

variable {respond : Frame → World → Answer → Outcome × World} {frame : Frame} {world : World}

theorem against_test :
    (loop.against respond).test (frame, world) =
      (loop.test frame).map fun result => (result, world) := by
  simp only [against]
  cases loop.test frame with
  | none => rfl
  | some result => rfl

theorem against_turn_of_again {answer : Answer} {next : Frame}
    (again : loop.turn frame (respond frame world answer).1 = .again next) :
    (loop.against respond).turn (frame, world) answer =
      .again (next, (respond frame world answer).2) := by
  simp only [against, again]

theorem against_turn_of_done {answer : Answer} {result : Result}
    (done : loop.turn frame (respond frame world answer).1 = .done result) :
    (loop.against respond).turn (frame, world) answer =
      .done (result, (respond frame world answer).2) := by
  simp only [against, done]

end Turns

/-- Whatever the world answers, the loop makes one of its own runs. -/
theorem exists_run_of_against {respond : Frame → World → Answer → Outcome × World} {frame : Frame}
    {world after : World} {answers : List Answer} {result : Result}
    (ran : (loop.against respond).run (frame, world) answers = some (result, after)) :
    ∃ outcomes, loop.run frame outcomes = some result := by
  induction answers generalizing frame world with
  | nil =>
      simp only [run, against] at ran
      split at ran
      · next ends =>
          cases ran
          exact ⟨[], ends⟩
      · cases ran
  | cons answer rest ih =>
      simp only [run, against] at ran
      cases ends : loop.test frame with
      | some other =>
          simp only [ends, Option.some.injEq, Prod.mk.injEq] at ran
          exact ⟨[], by rw [run, ends, ran.1]⟩
      | none =>
          simp only [ends] at ran
          cases turned : loop.turn frame (respond frame world answer).1 with
          | again next =>
              simp only [turned] at ran
              obtain ⟨outcomes, later⟩ := ih ran
              exact ⟨(respond frame world answer).1 :: outcomes, by
                simp only [run, ends, turned, later]⟩
          | done other =>
              simp only [turned, Option.some.injEq, Prod.mk.injEq] at ran
              exact ⟨[(respond frame world answer).1], by
                simp only [run, ends, turned, ran.1]⟩

end Against

variable (loop)

/-- A call in progress: where it started, what it has seen and where it is. -/
structure Call where
  start : Frame
  outcomes : List Outcome
  frame : Frame
  walked : loop.walk? start outcomes = some frame

variable {loop}

namespace Call

/-- A call that has just been made. -/
def begin (frame : Frame) : loop.Call := ⟨frame, [], frame, rfl⟩

/-- One more turn of the call. -/
def resume? (call : loop.Call) (outcome : Outcome) : Option loop.Call :=
  match turned : loop.next? call.frame outcome with
  | none => none
  | some next => some
      { start := call.start
        outcomes := call.outcomes ++ [outcome]
        frame := next
        walked := by
          rw [walk?_append call.walked]
          simp only [walk?, turned] }

/-- A resumed call has the same start and the locals of one more turn. -/
theorem resume?_some {call next : loop.Call} {outcome : Outcome}
    (resumed : call.resume? outcome = some next) :
    next.start = call.start ∧ loop.next? call.frame outcome = some next.frame := by
  unfold resume? at resumed
  split at resumed
  · cases resumed
  · next turned =>
      cases resumed
      exact ⟨rfl, turned⟩

theorem exists_resume? {call : loop.Call} {outcome : Outcome} {frame : Frame}
    (turned : loop.next? call.frame outcome = some frame) :
    ∃ next, call.resume? outcome = some next := by
  unfold resume?
  split
  · next stuck => simp only [turned, reduceCtorEq] at stuck
  · exact ⟨_, rfl⟩

/-- A call whose test ends it returns what a run over its outcomes returns. -/
theorem run_eq {call : loop.Call} {result : Result}
    (ends : loop.test call.frame = some result) :
    loop.run call.start call.outcomes = some result :=
  run_of_test call.walked ends

end Call

end Loop

end LibNet.Runs
