import LibNet.Runs.Settle

/-!
# Code that takes locks

What threads do to locks and shared variables, with everything else left out: a code locks and
unlocks, touches variables, calls what may block, branches and goes round.  A branch may go
either way, so every run of the real code is a run of its code here.

Rules of pre- and postconditions say which lock a code needs on entry and holds on exit.  By
them a thread holds one lock at most, gives it back, and neither blocks nor loops nor asks for
another one while it holds it.  Threads whose codes obey the rules never fault, never deadlock,
and never meet at two accesses that the rules put under one lock.
-/

namespace LibNet.Runs

/-- What a thread does in one step that others may notice. -/
inductive Act (Lock Access : Type) where
  | lock (name : Lock)
  | unlock (name : Lock)
  | touch (access : Access)
  | block
  deriving DecidableEq

/-- Codes: `either` is a branch, `choose` a branch with any number of ways to go, and `loop`
any number of turns. -/
inductive Code (Lock Access Choice : Type) where
  | skip
  | act (act : Act Lock Access)
  | seq (first second : Code Lock Access Choice)
  | either (first second : Code Lock Access Choice)
  | choose (branch : Choice → Code Lock Access Choice)
  | loop (body : Code Lock Access Choice)

/-- One code after the other. -/
def Code.inOrder {Lock Access Choice : Type} :
    List (Code Lock Access Choice) → Code Lock Access Choice
  | [] => .skip
  | code :: rest => .seq code (.inOrder rest)

/-- What the threads have left to do, and who holds which lock. -/
structure Threads (Thread Lock Access Choice : Type) where
  todo : Thread → List (Code Lock Access Choice)
  holder : Lock → Option Thread

/-- The thread that steps, and which way it goes if it comes to a branch. -/
structure Pick (Thread Choice : Type) where
  thread : Thread
  yes : Bool
  way : Choice

section Machine

variable {Thread Lock Access Choice : Type} [DecidableEq Thread]

namespace Threads

/-- The thread goes on with `rest`. -/
def goOn (threads : Threads Thread Lock Access Choice) (thread : Thread)
    (rest : List (Code Lock Access Choice)) : Threads Thread Lock Access Choice :=
  { threads with todo := Function.update threads.todo thread rest }

@[simp] theorem goOn_todo_self (threads : Threads Thread Lock Access Choice) (thread : Thread)
    (rest : List (Code Lock Access Choice)) : (threads.goOn thread rest).todo thread = rest :=
  Function.update_self ..

theorem goOn_todo_of_ne (threads : Threads Thread Lock Access Choice) {thread other : Thread}
    (different : other ≠ thread) (rest : List (Code Lock Access Choice)) :
    (threads.goOn thread rest).todo other = threads.todo other :=
  Function.update_of_ne different ..

variable [DecidableEq Lock]

/-- The lock changes hands. -/
def setHolder (threads : Threads Thread Lock Access Choice) (name : Lock)
    (holder : Option Thread) : Threads Thread Lock Access Choice :=
  { threads with holder := Function.update threads.holder name holder }

/-- One action; a lock that is held blocks, and to unlock a lock one does not hold is a
fault. -/
def act? (threads : Threads Thread Lock Access Choice) (thread : Thread)
    (rest : List (Code Lock Access Choice)) :
    Act Lock Access → Option (Threads Thread Lock Access Choice)
  | .lock name =>
      if threads.holder name = none then
        some ((threads.setHolder name (some thread)).goOn thread rest)
      else none
  | .unlock name =>
      if threads.holder name = some thread then
        some ((threads.setHolder name none).goOn thread rest)
      else none
  | .touch _ => some (threads.goOn thread rest)
  | .block => some (threads.goOn thread rest)

def step? (threads : Threads Thread Lock Access Choice) (pick : Pick Thread Choice) :
    Option (Threads Thread Lock Access Choice) :=
  match threads.todo pick.thread with
  | [] => none
  | .skip :: rest => some (threads.goOn pick.thread rest)
  | .act act :: rest => threads.act? pick.thread rest act
  | .seq first second :: rest => some (threads.goOn pick.thread (first :: second :: rest))
  | .either first second :: rest =>
      some (threads.goOn pick.thread ((if pick.yes then first else second) :: rest))
  | .choose branch :: rest => some (threads.goOn pick.thread (branch pick.way :: rest))
  | .loop body :: rest =>
      some (threads.goOn pick.thread (if pick.yes then body :: .loop body :: rest else rest))

end Threads

/-- What the thread is about to do, if that is an action. -/
def Threads.next? {Thread Lock Access Choice : Type} (threads : Threads Thread Lock Access Choice)
    (thread : Thread) : Option (Act Lock Access) :=
  match threads.todo thread with
  | .act act :: _ => some act
  | _ => none

/-- All threads run their codes from the start, with every lock free. -/
def threadsOf [DecidableEq Lock] (code : Thread → Code Lock Access Choice) :
    Machine (Threads Thread Lock Access Choice) (Pick Thread Choice) where
  Start := fun threads => threads = ⟨fun thread => [code thread], fun _ => none⟩
  step? := Threads.step?

end Machine

/-! ## The rules -/

section Rules

variable {Thread Lock Access Choice : Type}

/-- The rules for one thread: `Keeps may code before after` says that the code may be entered
with the lock `before` and is left with the lock `after`.  `may` tells which accesses the
thread may make under which lock. -/
inductive Keeps (may : Option Lock → Access → Prop) :
    Code Lock Access Choice → Option Lock → Option Lock → Prop where
  | skip (held : Option Lock) : Keeps may .skip held held
  | lock (name : Lock) : Keeps may (.act (.lock name)) none (some name)
  | unlock (name : Lock) : Keeps may (.act (.unlock name)) (some name) none
  | touch {held : Option Lock} {access : Access} (allowed : may held access) :
      Keeps may (.act (.touch access)) held held
  | block : Keeps may (.act .block) none none
  | seq {first second : Code Lock Access Choice} {before middle after : Option Lock}
      (one : Keeps may first before middle) (two : Keeps may second middle after) :
      Keeps may (.seq first second) before after
  | either {first second : Code Lock Access Choice} {before after : Option Lock}
      (one : Keeps may first before after) (two : Keeps may second before after) :
      Keeps may (.either first second) before after
  | choose {branch : Choice → Code Lock Access Choice}
      (every : ∀ way, Keeps may (branch way) none none) :
      Keeps may (.choose branch) none none
  | loop {body : Code Lock Access Choice} (turn : Keeps may body none none) :
      Keeps may (.loop body) none none

namespace Keeps

variable {may : Option Lock → Access → Prop}

theorem nil (held : Option Lock) :
    Keeps may (.inOrder [] : Code Lock Access Choice) held held :=
  .skip held

theorem cons {code : Code Lock Access Choice} {rest : List (Code Lock Access Choice)}
    {before middle after : Option Lock} (one : Keeps may code before middle)
    (others : Keeps may (.inOrder rest) middle after) :
    Keeps may (.inOrder (code :: rest)) before after :=
  .seq one others

end Keeps

/-- What a thread has left to do obeys the rules, from the lock it holds to none. -/
inductive Obeys (may : Option Lock → Access → Prop) :
    List (Code Lock Access Choice) → Option Lock → Prop where
  | nil : Obeys may [] none
  | cons {code : Code Lock Access Choice} {rest : List (Code Lock Access Choice)}
      {before after : Option Lock} (keeps : Keeps may code before after)
      (obeys : Obeys may rest after) : Obeys may (code :: rest) before

/-- The thread holds this lock, or none. -/
def Threads.Holds (threads : Threads Thread Lock Access Choice) (thread : Thread)
    (held : Option Lock) : Prop :=
  ∀ name, threads.holder name = some thread ↔ held = some name

/-- Every thread obeys the rules from the lock it holds. -/
def Threads.Lawful (may : Thread → Option Lock → Access → Prop)
    (threads : Threads Thread Lock Access Choice) : Prop :=
  ∀ thread, ∃ held, Obeys (may thread) (threads.todo thread) held ∧ threads.Holds thread held

/-- A step that leaves the locks alone. -/
theorem Threads.Lawful.goOn [DecidableEq Thread] {may : Thread → Option Lock → Access → Prop}
    {threads : Threads Thread Lock Access Choice} (lawful : threads.Lawful may) {thread : Thread}
    {held : Option Lock} {rest : List (Code Lock Access Choice)}
    (obeys : Obeys (may thread) rest held) (holds : threads.Holds thread held) :
    (threads.goOn thread rest).Lawful may := by
  intro other
  by_cases same : other = thread
  · subst other
    refine ⟨held, ?_, holds⟩
    rw [Threads.goOn_todo_self]
    exact obeys
  · obtain ⟨its, obeys', holds'⟩ := lawful other
    refine ⟨its, ?_, holds'⟩
    rw [Threads.goOn_todo_of_ne _ same]
    exact obeys'

/-- A step that gives a lock to its thread or takes it from there. -/
theorem Threads.Lawful.passLock [DecidableEq Thread] [DecidableEq Lock]
    {may : Thread → Option Lock → Access → Prop} {threads : Threads Thread Lock Access Choice}
    (lawful : threads.Lawful may) {thread : Thread} {name : Lock} {holder : Option Thread}
    {held : Option Lock} {rest : List (Code Lock Access Choice)}
    (alone : ∀ other, other ≠ thread → threads.holder name ≠ some other ∧ holder ≠ some other)
    (obeys : Obeys (may thread) rest held)
    (holds : (threads.setHolder name holder).Holds thread held) :
    ((threads.setHolder name holder).goOn thread rest).Lawful may := by
  intro other
  by_cases same : other = thread
  · subst other
    refine ⟨held, ?_, holds⟩
    rw [Threads.goOn_todo_self]
    exact obeys
  · obtain ⟨its, obeys', holds'⟩ := lawful other
    refine ⟨its, ?_, fun lock => ?_⟩
    · rw [Threads.goOn_todo_of_ne _ same]
      exact obeys'
    · obtain ⟨before, after⟩ := alone other same
      change Function.update threads.holder name holder lock = some other ↔ its = some lock
      by_cases here : lock = name
      · subst lock
        rw [Function.update_self, ← holds' name]
        exact ⟨fun now => absurd now after, fun then_ => absurd then_ before⟩
      · rw [Function.update_of_ne here]
        exact holds' lock

end Rules

/-! ## Runs of lawful threads -/

section Runs

variable {Thread Lock Access Choice : Type} [DecidableEq Thread] [DecidableEq Lock]
  {may : Thread → Option Lock → Access → Prop} {code : Thread → Code Lock Access Choice}
  {before after : Threads Thread Lock Access Choice} {pick : Pick Thread Choice}

theorem lawful_act {thread : Thread} {act : Act Lock Access} {rest : List (Code Lock Access Choice)}
    (lawful : before.Lawful may) (front : before.todo thread = .act act :: rest)
    (taken : before.act? thread rest act = some after) : after.Lawful may := by
  obtain ⟨held, obeys, holds⟩ := lawful thread
  rw [front] at obeys
  cases obeys with
  | cons keeps obeys =>
      cases keeps with
      | lock name =>
          simp only [Threads.act?, Option.ite_none_right_eq_some, Option.some.injEq] at taken
          obtain ⟨free, rfl⟩ := taken
          refine lawful.passLock (fun other different => ⟨?_, ?_⟩) obeys fun lock => ?_
          · rw [free]
            exact fun none => by cases none
          · exact fun same => different (Option.some.inj same).symm
          · change Function.update before.holder name (some thread) lock = some thread ↔ _
            by_cases here : lock = name
            · subst lock
              simp
            · rw [Function.update_of_ne here, holds lock]
              simp [Ne.symm here]
      | unlock name =>
          simp only [Threads.act?, Option.ite_none_right_eq_some, Option.some.injEq] at taken
          obtain ⟨mine, rfl⟩ := taken
          refine lawful.passLock (fun other different => ⟨?_, ?_⟩) obeys fun lock => ?_
          · rw [mine]
            exact fun same => different (Option.some.inj same).symm
          · exact fun none => by cases none
          · change Function.update before.holder name none lock = some thread ↔ _
            by_cases here : lock = name
            · subst lock
              simp
            · rw [Function.update_of_ne here, holds lock]
              simp [Ne.symm here]
      | touch allowed =>
          cases taken
          exact lawful.goOn obeys holds
      | block =>
          cases taken
          exact lawful.goOn obeys holds

theorem lawful_step (lawful : before.Lawful may) (taken : before.step? pick = some after) :
    after.Lawful may := by
  obtain ⟨held, obeys, holds⟩ := lawful pick.thread
  unfold Threads.step? at taken
  cases todo : before.todo pick.thread with
  | nil => simp [todo] at taken
  | cons front rest =>
      rw [todo] at obeys
      cases obeys with
      | cons keeps obeys =>
          cases keeps with
          | skip =>
              simp only [todo, Option.some.injEq] at taken
              exact taken ▸ lawful.goOn obeys holds
          | seq one two =>
              simp only [todo, Option.some.injEq] at taken
              exact taken ▸ lawful.goOn (.cons one (.cons two obeys)) holds
          | either one two =>
              simp only [todo, Option.some.injEq] at taken
              refine taken ▸ lawful.goOn (.cons ?_ obeys) holds
              split
              · exact one
              · exact two
          | choose every =>
              simp only [todo, Option.some.injEq] at taken
              exact taken ▸ lawful.goOn (.cons (every _) obeys) holds
          | loop turn =>
              simp only [todo, Option.some.injEq] at taken
              refine taken ▸ lawful.goOn ?_ holds
              split
              · exact .cons turn (.cons (.loop turn) obeys)
              · exact obeys
          | lock name => exact lawful_act lawful todo (by simpa only [todo] using taken)
          | unlock name => exact lawful_act lawful todo (by simpa only [todo] using taken)
          | touch allowed => exact lawful_act lawful todo (by simpa only [todo] using taken)
          | block => exact lawful_act lawful todo (by simpa only [todo] using taken)

theorem reachable_lawful (codes : ∀ thread, Keeps (may thread) (code thread) none none)
    {threads : Threads Thread Lock Access Choice}
    (reached : (threadsOf code).Reachable threads) : threads.Lawful may := by
  refine Machine.Reachable.invariant ?_ ?_ reached
  · rintro first rfl thread
    exact ⟨none, .cons (codes thread) .nil, fun _ => ⟨fun h => (by cases h), fun h => by cases h⟩⟩
  · intro before pick after lawful taken
    exact lawful_step lawful taken

omit [DecidableEq Thread] [DecidableEq Lock] in
theorem todo_of_next? {threads : Threads Thread Lock Access Choice} {thread : Thread}
    {act : Act Lock Access} (next : threads.next? thread = some act) :
    ∃ rest, threads.todo thread = .act act :: rest := by
  unfold Threads.next? at next
  split at next
  · next first rest todo =>
      cases next
      exact ⟨rest, todo⟩
  · cases next

omit [DecidableEq Thread] [DecidableEq Lock] in
/-- What a thread about to act holds: nothing when it locks or blocks, the lock it unlocks, and
what the rules ask for an access. -/
theorem Threads.Lawful.holds_at {threads : Threads Thread Lock Access Choice}
    (lawful : threads.Lawful may) {thread : Thread} {act : Act Lock Access}
    (next : threads.next? thread = some act) :
    match act with
    | .lock _ => threads.Holds thread none
    | .unlock name => threads.Holds thread (some name)
    | .touch access => ∃ held, threads.Holds thread held ∧ may thread held access
    | .block => threads.Holds thread none := by
  obtain ⟨held, obeys, holds⟩ := lawful thread
  obtain ⟨rest, todo⟩ := todo_of_next? next
  rw [todo] at obeys
  cases obeys with
  | cons keeps obeys =>
      cases keeps with
      | lock name => exact holds
      | unlock name => exact holds
      | touch allowed => exact ⟨held, holds, allowed⟩
      | block => exact holds

/-- The rules let the two threads make these accesses under one and the same lock only. -/
def Apart (may : Thread → Option Lock → Access → Prop) (first second : Thread)
    (access access' : Access) : Prop :=
  ∀ held held', may first held access → may second held' access' → held = held' ∧ held ≠ none

/-- Two threads are about to make these accesses. -/
structure Threads.Meet (threads : Threads Thread Lock Access Choice) (first second : Thread)
    (access access' : Access) : Prop where
  different : first ≠ second
  one : threads.next? first = some (.touch access)
  two : threads.next? second = some (.touch access')

omit [DecidableEq Thread] [DecidableEq Lock] in
theorem Threads.Lawful.not_meet {threads : Threads Thread Lock Access Choice}
    (lawful : threads.Lawful may) {first second : Thread} {access access' : Access}
    (apart : Apart may first second access access') :
    ¬ threads.Meet first second access access' := by
  rintro ⟨different, one, two⟩
  obtain ⟨held, holds, allowed⟩ := lawful.holds_at one
  obtain ⟨held', holds', allowed'⟩ := lawful.holds_at two
  obtain ⟨same, some_lock⟩ := apart held held' allowed allowed'
  obtain ⟨name, rfl⟩ := Option.ne_none_iff_exists'.mp some_lock
  have mine := (holds name).mpr rfl
  have its := (holds' name).mpr same.symm
  exact different (Option.some.inj (mine.symm.trans its))

/-- The holder of a lock can always go on. -/
theorem Threads.Lawful.holder_steps {threads : Threads Thread Lock Access Choice}
    (lawful : threads.Lawful may) {name : Lock} (held : threads.holder name = some pick.thread) :
    ∃ after, threads.step? pick = some after := by
  obtain ⟨lock, obeys, holds⟩ := lawful pick.thread
  cases (holds name).mp held
  unfold Threads.step?
  generalize todo : threads.todo pick.thread = codes at obeys
  cases obeys with
  | cons keeps obeys =>
      cases keeps with
      | skip => exact ⟨_, rfl⟩
      | seq one two => exact ⟨_, rfl⟩
      | either one two => exact ⟨_, rfl⟩
      | touch allowed => exact ⟨_, rfl⟩
      | unlock => exact ⟨_, if_pos held⟩

/-- A thread that cannot go on waits for a lock, whose holder can. -/
theorem Threads.Lawful.blocked {threads : Threads Thread Lock Access Choice}
    (lawful : threads.Lawful may) (unfinished : threads.todo pick.thread ≠ [])
    (stuck : threads.step? pick = none) :
    ∃ name other, threads.next? pick.thread = some (.lock name) ∧
      threads.holder name = some other ∧ other ≠ pick.thread ∧
      ∀ yes way, ∃ after, threads.step? ⟨other, yes, way⟩ = some after := by
  obtain ⟨held, obeys, holds⟩ := lawful pick.thread
  unfold Threads.step? at stuck
  cases todo : threads.todo pick.thread with
  | nil => exact absurd todo unfinished
  | cons front rest =>
      rw [todo] at obeys
      cases obeys with
      | cons keeps obeys =>
          cases keeps with
          | lock name =>
              simp only [todo, Threads.act?] at stuck
              have taken : threads.holder name ≠ none := by
                intro free
                rw [if_pos free] at stuck
                cases stuck
              obtain ⟨other, its⟩ := Option.ne_none_iff_exists'.mp taken
              refine ⟨name, other, ?_, its, ?_, fun yes way => lawful.holder_steps its⟩
              · rw [Threads.next?, todo]
              · rintro rfl
                cases (holds name).mp its
          | unlock name =>
              simp only [todo, Threads.act?, if_pos ((holds name).mpr rfl)] at stuck
              cases stuck
          | touch allowed => simp [todo, Threads.act?] at stuck
          | block => simp [todo, Threads.act?] at stuck
          | skip => simp [todo] at stuck
          | seq one two => simp [todo] at stuck
          | either one two => simp [todo] at stuck
          | choose every => simp [todo] at stuck
          | loop turn => simp [todo] at stuck

/-- The steps a code takes at most up to its next loop or free choice. -/
def Code.size : Code Lock Access Choice → Nat
  | .skip => 1
  | .act _ => 1
  | .seq first second => 1 + first.size + second.size
  | .either first second => 1 + max first.size second.size
  | .choose _ => 1
  | .loop _ => 1

def workLeft (todo : List (Code Lock Access Choice)) : Nat := (todo.map Code.size).sum

omit [DecidableEq Thread] [DecidableEq Lock] in
theorem workLeft_cons (code : Code Lock Access Choice) (rest : List (Code Lock Access Choice)) :
    workLeft (code :: rest) = code.size + workLeft rest := rfl

/-- A step of the holder of a lock leaves it less to do. -/
theorem Threads.Lawful.work_lt (lawful : before.Lawful may) {name : Lock}
    (held : before.holder name = some pick.thread) (taken : before.step? pick = some after) :
    workLeft (after.todo pick.thread) < workLeft (before.todo pick.thread) := by
  obtain ⟨lock, obeys, holds⟩ := lawful pick.thread
  cases (holds name).mp held
  unfold Threads.step? at taken
  cases todo : before.todo pick.thread with
  | nil => simp [todo] at taken
  | cons front rest =>
      rw [todo] at obeys
      cases obeys with
      | cons keeps obeys =>
          cases keeps with
          | skip =>
              simp only [todo, Option.some.injEq] at taken
              subst taken
              rw [Threads.goOn_todo_self, workLeft_cons]
              exact Nat.lt_add_of_pos_left Nat.one_pos
          | seq one two =>
              simp only [todo, Option.some.injEq] at taken
              subst taken
              rw [Threads.goOn_todo_self]
              simp only [workLeft_cons, Code.size]
              omega
          | either one two =>
              simp only [todo, Option.some.injEq] at taken
              subst taken
              rw [Threads.goOn_todo_self]
              simp only [workLeft_cons, Code.size]
              split <;> omega
          | touch allowed =>
              simp only [todo, Threads.act?, Option.some.injEq] at taken
              subst taken
              rw [Threads.goOn_todo_self, workLeft_cons]
              exact Nat.lt_add_of_pos_left Nat.one_pos
          | unlock =>
              simp only [todo, Threads.act?, Option.ite_none_right_eq_some,
                Option.some.injEq] at taken
              obtain ⟨_, rfl⟩ := taken
              rw [Threads.goOn_todo_self, workLeft_cons]
              exact Nat.lt_add_of_pos_left Nat.one_pos

omit [DecidableEq Lock] in
theorem todo_of_goOn {threads : Threads Thread Lock Access Choice} {thread other : Thread}
    {rest : List (Code Lock Access Choice)} (different : other ≠ thread)
    (taken : some (threads.goOn thread rest) = some after) :
    after.todo other = threads.todo other := by
  cases taken
  exact threads.goOn_todo_of_ne different rest

/-- A step of one thread leaves what the others have to do. -/
theorem todo_of_step {other : Thread} (different : other ≠ pick.thread)
    (taken : before.step? pick = some after) : after.todo other = before.todo other := by
  unfold Threads.step? at taken
  cases todo : before.todo pick.thread with
  | nil => simp [todo] at taken
  | cons front rest =>
      cases front with
      | act act =>
          cases act with
          | lock name =>
              simp only [todo, Threads.act?, Option.ite_none_right_eq_some] at taken
              have kept := todo_of_goOn different taken.2
              exact kept
          | unlock name =>
              simp only [todo, Threads.act?, Option.ite_none_right_eq_some] at taken
              have kept := todo_of_goOn different taken.2
              exact kept
          | touch access =>
              exact todo_of_goOn different (by simpa only [todo, Threads.act?] using taken)
          | block =>
              exact todo_of_goOn different (by simpa only [todo, Threads.act?] using taken)
      | skip => exact todo_of_goOn different (by simpa only [todo] using taken)
      | seq first second => exact todo_of_goOn different (by simpa only [todo] using taken)
      | either first second => exact todo_of_goOn different (by simpa only [todo] using taken)
      | choose branch => exact todo_of_goOn different (by simpa only [todo] using taken)
      | loop body => exact todo_of_goOn different (by simpa only [todo] using taken)

/-- While a thread keeps a lock, whatever the others do, it takes no more steps of its own than
it had work left when it took it. -/
theorem Threads.Lawful.steps_le (lawful : before.Lawful may) {name : Lock} {thread : Thread}
    {picks : List (Pick Thread Choice)}
    (path : (threadsOf code).Path (fun threads _ => threads.holder name = some thread)
      before picks after) :
    picks.countP (fun pick => pick.thread = thread) + workLeft (after.todo thread) ≤
      workLeft (before.todo thread) := by
  induction path with
  | nil threads => simp
  | cons held taken rest ih =>
      have bound := ih (lawful_step lawful taken)
      rw [List.countP_cons]
      split
      · next mine =>
          have mine := of_decide_eq_true mine
          subst mine
          have less := lawful.work_lt held taken
          omega
      · next other =>
          have different := fun same => other (decide_eq_true (Eq.symm same))
          rw [todo_of_step different taken] at bound
          omega

end Runs

end LibNet.Runs
