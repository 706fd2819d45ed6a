import LibNet.Net.TcpTaskPool
import LibNet.Runs.Lock
import LibNet.Runs.Machine

/-!
# The list of received tasks

`add_recv_task`, called by any number of threads at once.  Under `m_recv_lock` it pushes its
task id to the back of `m_recv_tasks`, has `get_recv_task` take an id from the front, and
makes a message of the id it was given and of the socket of the id it was handed back.  The
threads are followed from one operation of the section to the next, while the rest of the
program changes everything but `m_recv_tasks` as it likes.
-/

namespace LibNet.Net

open LibNet.Runs

variable {ι β γ : Type}

/-- Where a thread stands: outside `add_recv_task`, before its lock, after it, after
`push_back`, with the id that `get_recv_task` has taken, or before the unlock. -/
inductive RecvControl (γ : Type) where
  | outside
  | addRecvTask (taskId : Int) (cause : γ)
  | locked (taskId : Int) (cause : γ)
  | pushed (taskId : Int) (cause : γ)
  | taken (taskId : Int) (cause : γ) (front : Int)
  | queued
  deriving DecidableEq

/-- The threads, the lock with its holder, and the pool. -/
structure RecvState (ι β γ : Type) where
  threads : ι → RecvControl γ
  mRecvLock : Option ι
  pool : TcpTaskPool β γ

/-- A thread calls `add_recv_task` or goes on in it, or something else happens to the pool. -/
inductive RecvLabel (ι β γ : Type) where
  | call (thread : ι) (taskId : Int) (cause : γ)
  | advance (thread : ι)
  | elsewhere (pool : TcpTaskPool β γ)

namespace RecvState

variable [DecidableEq ι]

/-- The thread goes on to a point, with this lock and this pool. -/
def goOn (state : RecvState ι β γ) (thread : ι) (control : RecvControl γ) (mRecvLock : Option ι)
    (pool : TcpTaskPool β γ) : RecvState ι β γ :=
  ⟨Function.update state.threads thread control, mRecvLock, pool⟩

/-- A thread from one point to the next.  `get_recv_task` returns a null pointer if the list is
empty, which `add_undo_task` would follow. -/
def advance? (state : RecvState ι β γ) (thread : ι) : Option (RecvState ι β γ) :=
  match state.threads thread with
  | .outside => none
  | .addRecvTask taskId cause =>
      match state.mRecvLock with
      | some _ => none
      | none => some (state.goOn thread (.locked taskId cause) (some thread) state.pool)
  | .locked taskId cause =>
      some (state.goOn thread (.pushed taskId cause) state.mRecvLock
        { state.pool with mRecvTasks := state.pool.mRecvTasks ++ [taskId] })
  | .pushed taskId cause =>
      match state.pool.getRecvTask with
      | (none, _) => none
      | (some front, rest) =>
          if InRange front then
            some (state.goOn thread (.taken taskId cause front) state.mRecvLock rest)
          else none
  | .taken taskId cause front =>
      match state.pool.addUndoTask? taskId (state.pool.mTcpTasks front) (.task front) cause with
      | none => none
      | some (socket, after) =>
          some (state.goOn thread .queued state.mRecvLock (after.setTask front socket))
  | .queued => some (state.goOn thread .outside none state.pool)

def step? (state : RecvState ι β γ) : RecvLabel ι β γ → Option (RecvState ι β γ)
  | .call thread taskId cause =>
      match state.threads thread with
      | .outside =>
          some (state.goOn thread (.addRecvTask taskId cause) state.mRecvLock state.pool)
      | _ => none
  | .advance thread => state.advance? thread
  | .elsewhere pool =>
      some { state with pool := { pool with mRecvTasks := state.pool.mRecvTasks } }

end RecvState

/-- Runs of the threads, from a pool without received tasks and a free lock. -/
def recvMachine (ι β γ : Type) [DecidableEq ι] :
    Machine (RecvState ι β γ) (RecvLabel ι β γ) where
  Start := fun state => state.threads = (fun _ => .outside) ∧ state.mRecvLock = none ∧
    state.pool.mRecvTasks = []
  step? := RecvState.step?

/-! ## What the lock guards -/

/-- Between the lock and the unlock. -/
def RecvControl.Inside : RecvControl γ → Prop
  | .outside => False
  | .addRecvTask _ _ => False
  | _ => True

/-- What the thread inside finds in `m_recv_tasks`. -/
def RecvControl.Finds : RecvControl γ → List Int → Prop
  | .pushed taskId _, mRecvTasks => mRecvTasks = [taskId]
  | .taken taskId _ front, mRecvTasks => front = taskId ∧ mRecvTasks = []
  | _, mRecvTasks => mRecvTasks = []

/-- The list is empty while the lock is free. -/
def recvRules (γ : Type) : LockRules (RecvControl γ) (List Int) where
  Inside := RecvControl.Inside
  Finds := RecvControl.Finds
  Idle := fun mRecvTasks => mRecvTasks = []

/-- `m_recv_lock` guards `m_recv_tasks`. -/
def RecvState.Sound (state : RecvState ι β γ) : Prop :=
  Guarded (recvRules γ) state.threads state.mRecvLock state.pool.mRecvTasks

section Steps

variable [DecidableEq ι] {state after : RecvState ι β γ} {thread : ι}

theorem sound_advance (sound : state.Sound) (taken : state.advance? thread = some after) :
    after.Sound := by
  have finds := sound.finds thread
  unfold RecvState.advance? at taken
  cases control : state.threads thread with
  | outside =>
      rw [control] at taken
      cases taken
  | addRecvTask taskId cause =>
      simp only [control] at taken
      split at taken
      · cases taken
      · next free =>
          cases taken
          have empty := sound.free free
          unfold RecvState.Sound at sound
          rw [free] at sound
          exact sound.enter empty
  | locked taskId cause =>
      simp only [control] at taken finds
      cases taken
      have empty : state.pool.mRecvTasks = [] := finds trivial
      refine sound.work (by rw [control]; trivial) ?_
      simp only [empty]
      rfl
  | pushed taskId cause =>
      simp only [control] at taken finds
      have single : state.pool.mRecvTasks = [taskId] := finds trivial
      simp only [TcpTaskPool.getRecvTask, single] at taken
      split at taken
      · cases taken
        exact sound.work (by rw [control]; trivial) ⟨rfl, rfl⟩
      · cases taken
  | taken taskId cause front =>
      simp only [control] at taken finds
      have empty : front = taskId ∧ state.pool.mRecvTasks = [] := finds trivial
      split at taken
      · cases taken
      · next socket queued made =>
          cases taken
          obtain ⟨_, _, rfl⟩ := state.pool.addUndoTask?_eq made
          exact sound.work (by rw [control]; trivial) empty.2
  | queued =>
      simp only [control] at taken finds
      cases taken
      exact sound.leave (by rw [control]; trivial) False.elim (finds trivial)

theorem reachable_sound (reached : (recvMachine ι β γ).Reachable state) : state.Sound := by
  refine Machine.Reachable.invariant ?_ ?_ reached
  · rintro first ⟨outside, _, empty⟩
    refine Guarded.start (fun thread inside => ?_) empty
    rw [outside] at inside
    exact inside
  · intro before label after sound taken
    cases label with
    | call thread taskId cause =>
        simp only [recvMachine, RecvState.step?] at taken
        split at taken
        · cases taken
          exact sound.move False.elim
        · cases taken
    | advance thread => exact sound_advance sound taken
    | elsewhere pool =>
        cases taken
        exact sound

/-- A thread that goes on alone. -/
def RecvState.advances? (state : RecvState ι β γ) (thread : ι) :
    Nat → Option (RecvState ι β γ)
  | 0 => some state
  | count + 1 => (state.advance? thread).bind fun next => next.advances? thread count

/-- From the lock to the unlock, a thread does what `add_recv_task` does in one step. -/
theorem advances?_eq_addRecvTask? {taskId : Int} {cause : γ}
    (before : state.threads thread = .addRecvTask taskId cause) (free : state.mRecvLock = none) :
    state.advances? thread 5 =
      (state.pool.addRecvTask? taskId cause).map (state.goOn thread .outside none) := by
  simp only [RecvState.advances?, RecvState.advance?, before, free, Option.bind_some,
    RecvState.goOn, Function.update_self, TcpTaskPool.addRecvTask?]
  generalize TcpTaskPool.getRecvTask
    { state.pool with mRecvTasks := state.pool.mRecvTasks ++ [taskId] } = got
  obtain ⟨front, rest⟩ := got
  cases front with
  | none => rfl
  | some front =>
      by_cases inside : InRange front
      · simp only [if_pos inside, Option.bind_some, Function.update_self]
        cases made : rest.addUndoTask? taskId (rest.mTcpTasks front) (.task front) cause with
        | none => rfl
        | some result =>
            simp only [Option.bind_some, Function.update_self, Function.update_idem,
              Option.map_some, RecvState.goOn]
      · simp only [if_neg inside, Option.bind_none, Option.map_none]

/--
However the calls of `add_recv_task` interleave: `m_recv_tasks` is empty while `m_recv_lock`
is free, the id taken from the front is the one just pushed, and the message queued for a
task has the bytes and the send buffer of that task.
-/
theorem recv_task_paired (reached : (recvMachine ι β γ).Reachable state) :
    (state.mRecvLock = none → state.pool.mRecvTasks = []) ∧
      (∀ thread taskId cause, state.threads thread = .pushed taskId cause →
        state.pool.getRecvTask.1 = some taskId) ∧
      ∀ thread taskId cause front after, state.threads thread = .taken taskId cause front →
        state.advance? thread = some after →
          after.pool.mUndoTasks = state.pool.mUndoTasks ++
            [⟨taskId, (state.pool.mTcpTasks taskId).getMsg, .task taskId, cause⟩] := by
  have sound := reachable_sound reached
  refine ⟨sound.free, ?_, ?_⟩
  · intro thread taskId cause control
    have finds := sound.finds thread
    rw [control] at finds
    have single : state.pool.mRecvTasks = [taskId] := finds trivial
    rw [TcpTaskPool.getRecvTask, single]
  · intro thread taskId cause front after control taken
    have finds := sound.finds thread
    rw [control] at finds
    obtain ⟨rfl, _⟩ : front = taskId ∧ state.pool.mRecvTasks = [] := finds trivial
    simp only [RecvState.advance?, control] at taken
    split at taken
    · cases taken
    · next socket queued made =>
        cases taken
        obtain ⟨_, _, rfl⟩ := state.pool.addUndoTask?_eq made
        rfl

end Steps

/-- Two threads, of which the second one waits for the lock while the first is inside. -/
def twoCalls : List (RecvLabel Bool UInt8 Unit) :=
  [.call false 1 (), .call true 2 (), .advance false, .advance false, .advance false,
    .advance false, .advance false, .advance true, .advance true, .advance true]

/-- Nothing has been received. -/
def idlePool : RecvState Bool UInt8 Unit := ⟨fun _ => .outside, none, .init 3 4 fun _ => 0⟩

theorem recv_task_paired_two_calls :
    ∃ last, (recvMachine Bool UInt8 Unit).Reachable last ∧ last.threads true = .taken 2 () 2 ∧
      last.pool.mUndoTasks.map Message.taskId = [1] ∧
      ∀ after, last.advance? true = some after →
        after.pool.mUndoTasks = last.pool.mUndoTasks ++
          [⟨2, (last.pool.mTcpTasks 2).getMsg, .task 2, ()⟩] := by
  have starts : (recvMachine Bool UInt8 Unit).Start idlePool := ⟨rfl, rfl, rfl⟩
  obtain ⟨last, reached, ended⟩ := Machine.exists_reachableUnder_of_follow
    (recvMachine Bool UInt8 Unit) (fun _ _ => True) twoCalls
    (fun last => decide (last.threads true = .taken 2 () 2 ∧
      last.pool.mUndoTasks.map Message.taskId = [1])) starts (by decide)
  obtain ⟨taken, made⟩ := of_decide_eq_true ended
  exact ⟨last, reached, taken, made, fun after =>
    (recv_task_paired reached).2.2 true 2 () 2 after taken⟩

end LibNet.Net
