import LibNet.Runs.Machine

/-!
# The lock of the message list

`get_undo_task` looks at `m_undo_tasks` and changes it under `m_undo_lock`.
`add_undo_task` changes it too: `recv_msg` comes there under `m_recv_lock` and
`close_connect` under no lock at all.  The event loop and one thread of the
application are followed here from one lock operation to the next, and into and
out of each section that inspects or changes the list.
-/

namespace LibNet.Net

open LibNet.Runs

variable {μ : Type}

/-- The two threads. -/
inductive Party where
  | eventLoop
  | application
  deriving DecidableEq

/-- How the event loop came to `add_undo_task`. -/
inductive Path where
  | recvMsg
  | closeConnect
  deriving DecidableEq

/-- Where the event loop stands: outside both handlers, before the lock in
`add_recv_task`, before `push_back` in `add_undo_task`, inside it, or after it. -/
inductive Producer (μ : Type) where
  | outside
  | addRecvTask (message : μ)
  | addUndoTask (path : Path) (message : μ)
  | pushing (path : Path) (message : μ)
  | pushed (path : Path)
  deriving DecidableEq

/-- Where the application stands: outside `get_undo_task`, before its lock, after
it, inside `is_undo_tasks_empty`, with the list found empty or not, inside
`front` and `pop_front`, or before the last unlock. -/
inductive Consumer where
  | outside
  | getUndoTask
  | locked
  | testing
  | foundEmpty
  | foundMessage
  | taking
  | taken
  deriving DecidableEq

/-- The threads, the two locks with their holders, and the list. -/
structure UndoState (μ : Type) where
  producer : Producer μ
  consumer : Consumer
  mRecvLock : Option Party
  mUndoLock : Option Party
  mUndoTasks : List μ

/-- The event loop starts a handler or goes on in it; the application calls
`pull_msg` or goes on in it. -/
inductive UndoLabel (μ : Type) where
  | recvMsg (message : μ)
  | closeConnect (message : μ)
  | produce
  | pullMsg
  | consume

/-- Inside `push_back`. -/
def Producer.Inside : Producer μ → Prop
  | .pushing _ _ => True
  | _ => False

instance : DecidablePred (@Producer.Inside μ)
  | .outside => instDecidableFalse
  | .addRecvTask _ => instDecidableFalse
  | .addUndoTask _ _ => instDecidableFalse
  | .pushing _ _ => instDecidableTrue
  | .pushed _ => instDecidableFalse

/-- Inside a section that inspects or changes the list. -/
def Consumer.Inside : Consumer → Prop
  | .testing => True
  | .taking => True
  | _ => False

/-- Between the lock and the unlock of `get_undo_task`. -/
def Consumer.Locked : Consumer → Prop
  | .outside => False
  | .getUndoTask => False
  | _ => True

namespace UndoState

/-- The event loop from one point to the next. -/
def produce? (state : UndoState μ) : Option (UndoState μ) :=
  match state.producer with
  | .outside => none
  | .addRecvTask message =>
      if state.mRecvLock = none then
        some { state with
          mRecvLock := some .eventLoop
          producer := .addUndoTask .recvMsg message }
      else none
  | .addUndoTask path message => some { state with producer := .pushing path message }
  | .pushing path message =>
      some { state with
        mUndoTasks := state.mUndoTasks ++ [message]
        producer := .pushed path }
  | .pushed .recvMsg => some { state with mRecvLock := none, producer := .outside }
  | .pushed .closeConnect => some { state with producer := .outside }

/-- The application from one point to the next. -/
def consume? (state : UndoState μ) : Option (UndoState μ) :=
  match state.consumer with
  | .outside => none
  | .getUndoTask =>
      if state.mUndoLock = none then
        some { state with mUndoLock := some .application, consumer := .locked }
      else none
  | .locked => some { state with consumer := .testing }
  | .testing =>
      some { state with
        consumer := if state.mUndoTasks.isEmpty then .foundEmpty else .foundMessage }
  | .foundEmpty => some { state with mUndoLock := none, consumer := .outside }
  | .foundMessage => some { state with consumer := .taking }
  | .taking => some { state with mUndoTasks := state.mUndoTasks.tail, consumer := .taken }
  | .taken => some { state with mUndoLock := none, consumer := .outside }

def step? (state : UndoState μ) : UndoLabel μ → Option (UndoState μ)
  | .recvMsg message =>
      match state.producer with
      | .outside => some { state with producer := .addRecvTask message }
      | _ => none
  | .closeConnect message =>
      match state.producer with
      | .outside => some { state with producer := .addUndoTask .closeConnect message }
      | _ => none
  | .produce => state.produce?
  | .pullMsg =>
      match state.consumer with
      | .outside => some { state with consumer := .getUndoTask }
      | _ => none
  | .consume => state.consume?

end UndoState

/-- Runs of the two threads, from a list without messages and free locks. -/
def undoMachine (μ : Type) : Machine (UndoState μ) (UndoLabel μ) where
  Start := fun state => state = ⟨.outside, .outside, none, none, []⟩
  step? := UndoState.step?

/-! ## What a lock in `add_undo_task` would do -/

/-- The step enters `push_back`. -/
def Producer.AtPush : Producer μ → Prop
  | .addUndoTask _ _ => True
  | _ => False

instance : DecidablePred (@Producer.AtPush μ)
  | .outside => instDecidableFalse
  | .addRecvTask _ => instDecidableFalse
  | .addUndoTask _ _ => instDecidableTrue
  | .pushing _ _ => instDecidableFalse
  | .pushed _ => instDecidableFalse

/-- `push_back` is entered only while `m_undo_lock` is free, and `m_undo_lock` is
taken only while the event loop is not inside `push_back`. -/
def Serialized (state : UndoState μ) : UndoLabel μ → Prop
  | .produce => state.producer.AtPush → state.mUndoLock = none
  | .consume => state.consumer = .getUndoTask → ¬ state.producer.Inside
  | _ => True

instance (state : UndoState μ) : DecidablePred (Serialized state)
  | .recvMsg _ => instDecidableTrue
  | .closeConnect _ => instDecidableTrue
  | .produce => inferInstanceAs (Decidable (_ → _))
  | .pullMsg => instDecidableTrue
  | .consume => inferInstanceAs (Decidable (_ → _))

/-- The application holds `m_undo_lock` inside `get_undo_task`, and nobody does
while the event loop is inside `push_back`. -/
structure LockRespected (state : UndoState μ) : Prop where
  held : state.consumer.Locked → state.mUndoLock = some .application
  free : state.producer.Inside → state.mUndoLock = none

theorem Consumer.Inside.locked {consumer : Consumer} (inside : consumer.Inside) :
    consumer.Locked := by
  cases consumer with
  | testing => trivial
  | taking => trivial
  | _ => exact inside.elim

variable {state after : UndoState μ}

theorem lockRespected_produce (respected : LockRespected state)
    (allowed : state.producer.AtPush → state.mUndoLock = none)
    (taken : state.produce? = some after) : LockRespected after := by
  obtain ⟨producer, consumer, mRecvLock, mUndoLock, mUndoTasks⟩ := state
  cases producer with
  | outside => cases taken
  | addRecvTask message =>
      simp only [UndoState.produce?] at taken
      split at taken
      · cases taken
        exact ⟨respected.held, False.elim⟩
      · cases taken
  | addUndoTask path message =>
      cases taken
      exact ⟨respected.held, fun _ => allowed trivial⟩
  | pushing path message =>
      cases taken
      exact ⟨respected.held, False.elim⟩
  | pushed path =>
      cases path with
      | recvMsg =>
          cases taken
          exact ⟨respected.held, False.elim⟩
      | closeConnect =>
          cases taken
          exact ⟨respected.held, False.elim⟩

theorem lockRespected_consume (respected : LockRespected state)
    (allowed : state.consumer = .getUndoTask → ¬ state.producer.Inside)
    (taken : state.consume? = some after) : LockRespected after := by
  obtain ⟨producer, consumer, mRecvLock, mUndoLock, mUndoTasks⟩ := state
  have free := respected.free
  cases consumer with
  | outside => cases taken
  | getUndoTask =>
      simp only [UndoState.consume?] at taken
      split at taken
      · cases taken
        exact ⟨fun _ => rfl, fun inside => absurd inside (allowed rfl)⟩
      · cases taken
  | foundEmpty =>
      cases taken
      exact ⟨False.elim, fun _ => rfl⟩
  | taken =>
      cases taken
      exact ⟨False.elim, fun _ => rfl⟩
  | _ =>
      cases taken
      exact ⟨fun _ => respected.held trivial, free⟩

theorem reachable_lockRespected
    (reached : (undoMachine μ).ReachableUnder Serialized state) : LockRespected state := by
  refine Machine.ReachableUnder.invariant ?_ ?_ reached
  · rintro first rfl
    exact ⟨False.elim, False.elim⟩
  · intro before label after _ respected allowed taken
    cases label with
    | recvMsg message =>
        simp only [undoMachine, UndoState.step?] at taken
        split at taken
        · cases taken
          exact ⟨respected.held, False.elim⟩
        · cases taken
    | closeConnect message =>
        simp only [undoMachine, UndoState.step?] at taken
        split at taken
        · cases taken
          exact ⟨respected.held, False.elim⟩
        · cases taken
    | produce => exact lockRespected_produce respected allowed taken
    | pullMsg =>
        simp only [undoMachine, UndoState.step?] at taken
        split at taken
        · cases taken
          exact ⟨False.elim, respected.free⟩
        · cases taken
    | consume => exact lockRespected_consume respected allowed taken

/--
In runs in which `push_back` is entered only while `m_undo_lock` is free, and the
lock is taken only while the event loop is not inside `push_back`, the two threads
are never both inside a section that inspects or changes `m_undo_tasks`.
-/
theorem undo_sections_exclusive
    (reached : (undoMachine μ).ReachableUnder Serialized state) :
    ¬ (state.producer.Inside ∧ state.consumer.Inside) := by
  rintro ⟨pushes, takes⟩
  have respected := reachable_lockRespected reached
  have free := respected.free pushes
  rw [respected.held takes.locked] at free
  cases free

/-- The application takes the message of a read event after it was pushed. -/
def takenInTurn : List (UndoLabel Nat) :=
  [.recvMsg 7, .produce, .pullMsg, .produce, .produce, .consume, .consume]

theorem undo_sections_exclusive_in_turn :
    ∃ last, (undoMachine Nat).ReachableUnder Serialized last ∧ last.mUndoTasks = [7] ∧
      last.consumer = .testing ∧ ¬ (last.producer.Inside ∧ last.consumer.Inside) := by
  obtain ⟨last, reached, ended⟩ := Machine.exists_reachableUnder_of_follow (undoMachine Nat)
    Serialized takenInTurn
    (fun last => decide (last.mUndoTasks = [7] ∧ last.consumer = .testing)) rfl (by decide)
  obtain ⟨list, tests⟩ := of_decide_eq_true ended
  exact ⟨last, reached, list, tests, undo_sections_exclusive reached⟩

/-- The application is inside `is_undo_tasks_empty` when `recv_msg` comes to
`push_back`, with `m_recv_lock` in its hands. -/
def pushedMeanwhile : List (UndoLabel Nat) :=
  [.recvMsg 7, .produce, .pullMsg, .consume, .consume, .produce]

/-- Each thread has its own lock, and both are in the list. -/
theorem both_inside :
    ∃ last, (undoMachine Nat).Reachable last ∧ last.producer = .pushing .recvMsg 7 ∧
      last.consumer = .testing ∧ last.mRecvLock = some .eventLoop ∧
      last.mUndoLock = some .application ∧ last.producer.Inside ∧ last.consumer.Inside := by
  obtain ⟨last, reached, ended⟩ := Machine.exists_reachableUnder_of_follow (undoMachine Nat)
    (fun _ _ => True) pushedMeanwhile
    (fun last => decide (last.producer = .pushing .recvMsg 7 ∧ last.consumer = .testing ∧
      last.mRecvLock = some .eventLoop ∧ last.mUndoLock = some .application)) rfl (by decide)
  obtain ⟨pushes, tests, recvLock, undoLock⟩ := of_decide_eq_true ended
  refine ⟨last, reached, pushes, tests, recvLock, undoLock, ?_, ?_⟩
  · rw [pushes]
    trivial
  · rw [tests]
    trivial

end LibNet.Net
