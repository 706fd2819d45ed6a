import LibNet.Net.TcpTaskPool
import LibNet.Runs.Machine

/-!
# Threads on the free stack

`get_free_task` and `push_free_task`, called by any number of threads, from one lock
operation or access to the stack to the next.  `get_free_task` gives `m_free_lock` up after
it has found the stack not empty and takes the top without it.  An id is handed out when
`pop` is done, and handed back when it is pushed.
-/

namespace LibNet.Net

open LibNet.Runs

/-- Where a thread stands: outside both functions; in `get_free_task` before its lock,
before `empty`, with the stack found empty or not, before `top` and before `pop`; or in
`push_free_task` before its lock, before `push` and before the unlock. -/
inductive Caller where
  | outside
  | getFreeTask
  | testing
  | foundEmpty
  | foundTask
  | atTop
  | atPop (taskId : Int)
  | pushFreeTask (taskId : Int)
  | pushing (taskId : Int)
  | pushed
  deriving DecidableEq

namespace Caller

/-- The next step takes `m_free_lock`. -/
def AtLock : Caller → Prop
  | .getFreeTask => True
  | .pushFreeTask _ => True
  | _ => False

/-- The thread has `m_free_lock`. -/
def Locked : Caller → Prop
  | .testing => True
  | .foundEmpty => True
  | .foundTask => True
  | .pushing _ => True
  | .pushed => True
  | _ => False

/-- The next step is `top` or `pop`, for which the thread has no lock any more. -/
def AtStack : Caller → Prop
  | .atTop => True
  | .atPop _ => True
  | _ => False

/-- The thread is going to push the id. -/
def Gives (taskId : Int) : Caller → Prop
  | .pushFreeTask given => given = taskId
  | .pushing given => given = taskId
  | _ => False

/-- The thread has found what is on the stack. -/
def Found (stack : List Int) : Caller → Prop
  | .foundTask => stack ≠ []
  | .atTop => stack ≠ []
  | .atPop taskId => stack.head? = some taskId
  | _ => True

instance : DecidablePred AtLock
  | .getFreeTask => .isTrue trivial
  | .pushFreeTask _ => .isTrue trivial
  | .outside | .testing | .foundEmpty | .foundTask | .atTop | .atPop _ | .pushing _ | .pushed =>
      .isFalse id

instance : DecidablePred AtStack
  | .atTop => .isTrue trivial
  | .atPop _ => .isTrue trivial
  | .outside | .getFreeTask | .testing | .foundEmpty | .foundTask | .pushFreeTask _ | .pushing _
  | .pushed => .isFalse id

end Caller

/-- The threads, the holder of `m_free_lock`, the stack with its top first, and the ids that
were handed out and not handed back, each with the thread that has it. -/
structure FreeState (Thread : Type) where
  callers : Thread → Caller
  mFreeLock : Option Thread
  mFreeTasks : List Int
  held : List (Thread × Int)

/-- A thread calls one of the functions, with an id it holds, or goes on in it. -/
inductive FreeLabel (Thread : Type) where
  | getFreeTask (thread : Thread)
  | pushFreeTask (thread : Thread) (taskId : Int)
  | advance (thread : Thread)

variable {Thread : Type} [DecidableEq Thread]

namespace FreeState

def setCaller (state : FreeState Thread) (thread : Thread) (caller : Caller) :
    FreeState Thread :=
  { state with callers := Function.update state.callers thread caller }

/-- A thread from one point to the next.  `top` and `pop` of an empty stack are undefined. -/
def advance? (state : FreeState Thread) (thread : Thread) : Option (FreeState Thread) :=
  match state.callers thread with
  | .outside => none
  | .getFreeTask =>
      if state.mFreeLock = none then
        some ({ state with mFreeLock := some thread }.setCaller thread .testing)
      else none
  | .testing =>
      some (state.setCaller thread (if state.mFreeTasks.isEmpty then .foundEmpty else .foundTask))
  | .foundEmpty => some ({ state with mFreeLock := none }.setCaller thread .outside)
  | .foundTask => some ({ state with mFreeLock := none }.setCaller thread .atTop)
  | .atTop =>
      match state.mFreeTasks with
      | [] => none
      | taskId :: _ => some (state.setCaller thread (.atPop taskId))
  | .atPop taskId =>
      match state.mFreeTasks with
      | [] => none
      | _ :: rest =>
          some ({ state with
            mFreeTasks := rest
            held := (thread, taskId) :: state.held }.setCaller thread .outside)
  | .pushFreeTask taskId =>
      if state.mFreeLock = none then
        some ({ state with mFreeLock := some thread }.setCaller thread (.pushing taskId))
      else none
  | .pushing taskId =>
      some ({ state with
        mFreeTasks := taskId :: state.mFreeTasks
        held := state.held.erase (thread, taskId) }.setCaller thread .pushed)
  | .pushed => some ({ state with mFreeLock := none }.setCaller thread .outside)

def step? (state : FreeState Thread) : FreeLabel Thread → Option (FreeState Thread)
  | .getFreeTask thread =>
      if state.callers thread = .outside then some (state.setCaller thread .getFreeTask) else none
  | .pushFreeTask thread taskId =>
      if state.callers thread = .outside ∧ (thread, taskId) ∈ state.held then
        some (state.setCaller thread (.pushFreeTask taskId))
      else none
  | .advance thread => state.advance? thread

end FreeState

/-- Runs of the threads, from the stack `init` leaves. -/
def freeStack (Thread : Type) [DecidableEq Thread] :
    Machine (FreeState Thread) (FreeLabel Thread) where
  Start := fun state => state = ⟨fun _ => .outside, none, TcpTaskPool.taskIds.reverse, []⟩
  step? := FreeState.step?

/-- No id is with two callers, and `top` and `pop` find something on the stack. -/
def HandedOutOnce (state : FreeState Thread) : Prop :=
  (state.held.map Prod.snd).Nodup ∧
    ∀ thread, (state.callers thread).AtStack → state.mFreeTasks ≠ []

/-- No thread takes `m_free_lock` while another one is about to take the top it found. -/
def Undisturbed (state : FreeState Thread) : FreeLabel Thread → Prop
  | .advance thread =>
      (state.callers thread).AtLock → ∀ other, ¬ (state.callers other).AtStack
  | _ => True

instance [Fintype Thread] (state : FreeState Thread) : DecidablePred (Undisturbed state)
  | .getFreeTask _ => .isTrue trivial
  | .pushFreeTask _ _ => .isTrue trivial
  | .advance _ => inferInstanceAs (Decidable (_ → _))

section Alone

variable {β γ : Type} {state : FreeState Thread} {thread : Thread}

/-- A call of `get_free_task` during which no other thread moves takes the id the function of
the pool returns. -/
theorem getFreeTask_alone (pool : TcpTaskPool β γ) (same : state.mFreeTasks = pool.mFreeTasks)
    (outside : state.callers thread = .outside) (free : state.mFreeLock = none) :
    ∃ steps, (freeStack Thread).follow (fun _ _ => True) state
        (.getFreeTask thread :: List.replicate steps (.advance thread)) =
      some { state with
        mFreeTasks := pool.getFreeTask.2.mFreeTasks
        held := (pool.mFreeTasks.head?.map (thread, ·)).toList ++ state.held } := by
  have back : Function.update state.callers thread .outside = state.callers :=
    outside ▸ Function.update_eq_self thread state.callers
  cases stack : pool.mFreeTasks with
  | nil =>
      rw [stack] at same
      refine ⟨3, ?_⟩
      simp [List.replicate, Machine.follow, freeStack, FreeState.step?, FreeState.advance?,
        FreeState.setCaller, TcpTaskPool.getFreeTask, outside, free, same, stack, back]
  | cons taskId rest =>
      rw [stack] at same
      refine ⟨5, ?_⟩
      simp [List.replicate, Machine.follow, freeStack, FreeState.step?, FreeState.advance?,
        FreeState.setCaller, TcpTaskPool.getFreeTask, outside, free, same, stack, back]

/-- A call of `push_free_task` during which no other thread moves. -/
theorem pushFreeTask_alone (pool : TcpTaskPool β γ) (same : state.mFreeTasks = pool.mFreeTasks)
    (outside : state.callers thread = .outside) (free : state.mFreeLock = none) {taskId : Int}
    (holds : (thread, taskId) ∈ state.held) :
    (freeStack Thread).follow (fun _ _ => True) state
        (.pushFreeTask thread taskId :: List.replicate 3 (.advance thread)) =
      some { state with
        mFreeTasks := (pool.pushFreeTask taskId).mFreeTasks
        held := state.held.erase (thread, taskId) } := by
  have back : Function.update state.callers thread .outside = state.callers :=
    outside ▸ Function.update_eq_self thread state.callers
  simp [List.replicate, Machine.follow, freeStack, FreeState.step?, FreeState.advance?,
    FreeState.setCaller, TcpTaskPool.pushFreeTask, outside, free, same, holds, back]

end Alone

/-! ## One call at a time -/

/-- The thread is between its lock and its last access to the stack. -/
def Caller.Inside (caller : Caller) : Prop := caller.Locked ∨ caller.AtStack

/-- One thread at a time is inside, the lock is with the thread that has taken it, and no id
is in two places. -/
structure Orderly (state : FreeState Thread) : Prop where
  alone : ∀ thread, (state.callers thread).Inside →
    ∀ other, other ≠ thread → ¬ (state.callers other).Inside
  locked : ∀ thread, (state.callers thread).Locked → state.mFreeLock = some thread
  found : ∀ thread, (state.callers thread).Found state.mFreeTasks
  gives : ∀ thread taskId, (state.callers thread).Gives taskId → (thread, taskId) ∈ state.held
  once : (state.mFreeTasks ++ state.held.map Prod.snd).Nodup

theorem Caller.found_of_not_inside {caller : Caller} (outside : ¬ caller.Inside)
    (stack : List Int) : caller.Found stack := by
  cases caller with
  | foundTask => exact absurd (.inl trivial) outside
  | atTop => exact absurd (.inr trivial) outside
  | atPop taskId => exact absurd (.inr trivial) outside
  | _ => trivial

/-- What is to be shown for a thread that moves; the others stay as they are. -/
theorem Orderly.move {state : FreeState Thread} (orderly : Orderly state) {thread : Thread}
    {caller : Caller} {lock : Option Thread} {stack : List Int} {held : List (Thread × Int)}
    (enters : caller.Inside → ∀ other, other ≠ thread → ¬ (state.callers other).Inside)
    (locks : caller.Locked → lock = some thread)
    (unlocks : lock = state.mFreeLock ∨
      ∀ other, other ≠ thread → ¬ (state.callers other).Locked)
    (finds : caller.Found stack)
    (changes : stack = state.mFreeTasks ∨
      ∀ other, other ≠ thread → ¬ (state.callers other).Inside)
    (gives : ∀ taskId, caller.Gives taskId → (thread, taskId) ∈ held)
    (keeps : ∀ other, other ≠ thread → ∀ taskId, (other, taskId) ∈ state.held →
      (other, taskId) ∈ held)
    (once : (stack ++ held.map Prod.snd).Nodup) :
    Orderly ⟨Function.update state.callers thread caller, lock, stack, held⟩ := by
  refine ⟨?_, ?_, ?_, ?_, once⟩
  · intro first inside second other
    dsimp only at inside ⊢
    by_cases isFirst : first = thread
    · subst isFirst
      rw [Function.update_self] at inside
      rw [Function.update_of_ne other]
      exact enters inside second other
    · rw [Function.update_of_ne isFirst] at inside
      by_cases isSecond : second = thread
      · subst isSecond
        rw [Function.update_self]
        exact fun entered => enters entered first isFirst inside
      · rw [Function.update_of_ne isSecond]
        exact orderly.alone first inside second other
  · refine (Function.forall_update_iff state.callers
      (p := fun other caller => caller.Locked → lock = some other)).mpr ⟨locks, ?_⟩
    intro other same has
    rcases unlocks with unchanged | free
    · exact unchanged.trans (orderly.locked other has)
    · exact absurd has (free other same)
  · refine (Function.forall_update_iff state.callers
      (p := fun _ caller => caller.Found stack)).mpr ⟨finds, ?_⟩
    intro other same
    rcases changes with rfl | quiet
    · exact orderly.found other
    · exact Caller.found_of_not_inside (quiet other same) stack
  · refine (Function.forall_update_iff state.callers
      (p := fun other caller => ∀ taskId, caller.Gives taskId → (other, taskId) ∈ held)).mpr
      ⟨gives, ?_⟩
    intro other same taskId giving
    exact keeps other same taskId (orderly.gives other taskId giving)

section Steps

variable {state after : FreeState Thread} {thread : Thread}

omit [DecidableEq Thread] in
/-- With the lock free and no thread about to take the top, no thread is inside. -/
theorem Orderly.none_inside (orderly : Orderly state) (free : state.mFreeLock = none)
    (undisturbed : ∀ other, ¬ (state.callers other).AtStack) (other : Thread) :
    ¬ (state.callers other).Inside := by
  rintro (has | takes)
  · rw [orderly.locked other has] at free
    cases free
  · exact undisturbed other takes

/-- A thread takes the lock. -/
theorem Orderly.lock (orderly : Orderly state) (free : state.mFreeLock = none)
    (undisturbed : ∀ other, ¬ (state.callers other).AtStack) {caller : Caller}
    (finds : caller.Found state.mFreeTasks)
    (gives : ∀ taskId, caller.Gives taskId → (thread, taskId) ∈ state.held) :
    Orderly ({ state with mFreeLock := some thread }.setCaller thread caller) := by
  have nobody := orderly.none_inside free undisturbed
  exact orderly.move (fun _ other _ => nobody other) (fun _ => rfl)
    (.inr fun other _ has => nobody other (.inl has)) finds (.inl rfl) gives
    (fun _ _ _ member => member) orderly.once

/-- A thread gives the lock up. -/
theorem Orderly.unlock (orderly : Orderly state) (locked : (state.callers thread).Locked)
    {caller : Caller} (gaveUp : ¬ caller.Locked) (finds : caller.Found state.mFreeTasks)
    (gives : ∀ taskId, ¬ caller.Gives taskId) :
    Orderly ({ state with mFreeLock := none }.setCaller thread caller) := by
  have quiet := orderly.alone thread (.inl locked)
  exact orderly.move (fun _ => quiet) (fun has => absurd has gaveUp)
    (.inr fun other different has => quiet other different (.inl has)) finds (.inl rfl)
    (fun taskId giving => absurd giving (gives taskId)) (fun _ _ _ member => member) orderly.once

/-- A thread that is inside goes on without touching the stack or the lock. -/
theorem Orderly.goOn (orderly : Orderly state) (inside : (state.callers thread).Inside)
    {caller : Caller} (locked : caller.Locked → (state.callers thread).Locked)
    (finds : caller.Found state.mFreeTasks) (gives : ∀ taskId, ¬ caller.Gives taskId) :
    Orderly (state.setCaller thread caller) :=
  orderly.move (fun _ => orderly.alone thread inside)
    (fun has => orderly.locked thread (locked has)) (.inl rfl) finds (.inl rfl)
    (fun taskId giving => absurd giving (gives taskId)) (fun _ _ _ member => member) orderly.once

omit [DecidableEq Thread] in
/-- A pop moves an id from the stack to the thread. -/
theorem nodup_pop {taskId : Int} {rest : List Int} {held : List (Thread × Int)}
    (once : (taskId :: rest ++ held.map Prod.snd).Nodup) (thread : Thread) :
    (rest ++ ((thread, taskId) :: held).map Prod.snd).Nodup :=
  List.nodup_middle.mpr once

/-- A push moves an id from the thread to the stack. -/
theorem nodup_push {taskId : Int} {stack : List Int} {held : List (Thread × Int)}
    (once : (stack ++ held.map Prod.snd).Nodup) (member : (thread, taskId) ∈ held) :
    (taskId :: stack ++ (held.erase (thread, taskId)).map Prod.snd).Nodup := by
  have moved : (held.map Prod.snd).Perm
      (taskId :: (held.erase (thread, taskId)).map Prod.snd) :=
    (List.perm_cons_erase member).map Prod.snd
  exact List.nodup_middle.mp ((moved.append_left stack).nodup_iff.mp once)

theorem orderly_pop (orderly : Orderly state) {taskId front : Int} {rest : List Int}
    (pops : state.callers thread = .atPop taskId) (stack : state.mFreeTasks = front :: rest) :
    Orderly ({ state with
      mFreeTasks := rest
      held := (thread, taskId) :: state.held }.setCaller thread .outside) := by
  have quiet := orderly.alone thread
  have found := orderly.found thread
  have once := orderly.once
  rw [pops] at quiet found
  rw [stack] at found once
  cases found
  exact orderly.move (fun inside => inside.elim False.elim False.elim) False.elim (.inl rfl)
    trivial (.inr (quiet (.inr trivial))) (fun _ => False.elim)
    (fun _ _ _ member => List.mem_cons_of_mem _ member) (nodup_pop once thread)

theorem orderly_push (orderly : Orderly state) {taskId : Int}
    (pushes : state.callers thread = .pushing taskId) :
    Orderly ({ state with
      mFreeTasks := taskId :: state.mFreeTasks
      held := state.held.erase (thread, taskId) }.setCaller thread .pushed) := by
  have quiet := orderly.alone thread
  have locked := orderly.locked thread
  have gives := orderly.gives thread taskId
  rw [pushes] at quiet locked gives
  refine orderly.move (fun _ => quiet (.inl trivial)) (fun _ => locked trivial) (.inl rfl) trivial
    (.inr (quiet (.inl trivial))) (fun _ => False.elim) (fun other different id member => ?_)
    (nodup_push orderly.once (gives rfl))
  have apart : (other, id) ≠ (thread, taskId) := fun same => different (Prod.ext_iff.mp same).1
  exact (List.mem_erase_of_ne apart).mpr member

theorem orderly_advance (orderly : Orderly state)
    (allowed : (state.callers thread).AtLock → ∀ other, ¬ (state.callers other).AtStack)
    (taken : state.advance? thread = some after) : Orderly after := by
  have found := orderly.found thread
  have gives := orderly.gives thread
  have locked : ∀ point, state.callers thread = point → point.Locked →
      (state.callers thread).Locked := fun _ stands has => stands ▸ has
  unfold FreeState.advance? at taken
  cases caller : state.callers thread with
  | outside =>
      simp only [caller] at taken
      cases taken
  | getFreeTask =>
      simp only [caller] at taken allowed
      split at taken
      · next free =>
          cases taken
          exact orderly.lock free (allowed trivial) trivial fun _ => False.elim
      · cases taken
  | testing =>
      have locked := locked _ caller trivial
      simp only [caller] at taken
      cases taken
      by_cases empty : state.mFreeTasks = []
      · rw [empty]
        exact orderly.goOn (.inl locked) (fun _ => locked) trivial fun _ => False.elim
      · rw [if_neg (by simpa using empty)]
        exact orderly.goOn (.inl locked) (fun _ => locked) empty fun _ => False.elim
  | foundEmpty =>
      have locked := locked _ caller trivial
      simp only [caller] at taken
      cases taken
      exact orderly.unlock locked False.elim trivial fun _ => False.elim
  | foundTask =>
      have locked := locked _ caller trivial
      simp only [caller] at taken found
      cases taken
      exact orderly.unlock locked False.elim found fun _ => False.elim
  | atTop =>
      have takes : (state.callers thread).AtStack := by
        rw [caller]
        trivial
      simp only [caller] at taken
      split at taken
      · cases taken
      · next taskId rest stack =>
          cases taken
          refine orderly.goOn (.inr takes) False.elim ?_ fun _ => False.elim
          rw [stack]
          rfl
  | atPop taskId =>
      simp only [caller] at taken
      split at taken
      · cases taken
      · next front rest stack =>
          cases taken
          exact orderly_pop orderly caller stack
  | pushFreeTask taskId =>
      simp only [caller] at taken allowed gives
      split at taken
      · next free =>
          cases taken
          exact orderly.lock free (allowed trivial) trivial gives
      · cases taken
  | pushing taskId =>
      simp only [caller] at taken
      cases taken
      exact orderly_push orderly caller
  | pushed =>
      have locked := locked _ caller trivial
      simp only [caller] at taken
      cases taken
      exact orderly.unlock locked False.elim trivial fun _ => False.elim

/-- A thread outside begins a call. -/
theorem Orderly.call (orderly : Orderly state) {caller : Caller} (waits : caller.AtLock)
    (gives : ∀ taskId, caller.Gives taskId → (thread, taskId) ∈ state.held) :
    Orderly (state.setCaller thread caller) := by
  have outside : ¬ caller.Inside := by
    cases caller with
    | getFreeTask => exact fun inside => inside.elim False.elim False.elim
    | pushFreeTask taskId => exact fun inside => inside.elim False.elim False.elim
    | _ => exact waits.elim
  exact orderly.move (fun inside => absurd inside outside)
    (fun has => absurd (.inl has) outside) (.inl rfl)
    (Caller.found_of_not_inside outside _) (.inl rfl) gives (fun _ _ _ member => member)
    orderly.once

theorem orderly_step {label : FreeLabel Thread} (orderly : Orderly state)
    (allowed : Undisturbed state label) (taken : state.step? label = some after) :
    Orderly after := by
  cases label with
  | getFreeTask thread =>
      simp only [FreeState.step?] at taken
      split at taken
      · cases taken
        exact orderly.call trivial fun _ => False.elim
      · cases taken
  | pushFreeTask thread taskId =>
      simp only [FreeState.step?] at taken
      split at taken
      · next holds =>
          cases taken
          refine orderly.call trivial fun other given => ?_
          cases given
          exact holds.2
      · cases taken
  | advance thread => exact orderly_advance orderly allowed taken

end Steps

/-! ## Runs -/

theorem reachable_orderly {state : FreeState Thread}
    (reached : (freeStack Thread).ReachableUnder Undisturbed state) : Orderly state := by
  refine Machine.ReachableUnder.invariant ?_ ?_ reached
  · rintro first rfl
    refine ⟨fun _ inside => inside.elim False.elim False.elim, fun _ => False.elim,
      fun _ => trivial, fun _ _ => False.elim, ?_⟩
    rw [List.map_nil, List.append_nil]
    exact List.nodup_reverse.mpr TcpTaskPool.nodup_taskIds
  · intro before label after _ orderly allowed taken
    exact orderly_step orderly allowed taken

/-- In runs in which no thread takes `m_free_lock` while another one is between its unlock
and its `pop`, no id is with two callers, and `top` and `pop` are applied to stacks that
are not empty. -/
theorem handed_out_once {state : FreeState Thread}
    (reached : (freeStack Thread).ReachableUnder Undisturbed state) : HandedOutOnce state := by
  have orderly := reachable_orderly reached
  refine ⟨orderly.once.of_append_right, fun thread takes empty => ?_⟩
  have found := orderly.found thread
  rw [empty] at found
  cases caller : state.callers thread with
  | atTop =>
      rw [caller] at found
      exact found rfl
  | atPop taskId =>
      rw [caller] at found
      cases found
  | _ =>
      rw [caller] at takes
      exact takes

/-- The threads go on, one step each, in this order. -/
def inOrder (threads : List Thread) : List (FreeLabel Thread) := threads.map .advance

/-- A whole call of `get_free_task` that finds a task. -/
def getCall (thread : Thread) : List (FreeLabel Thread) :=
  .getFreeTask thread :: List.replicate 5 (.advance thread)

/-- A whole call of `push_free_task`. -/
def pushCall (thread : Thread) (taskId : Int) : List (FreeLabel Thread) :=
  .pushFreeTask thread taskId :: List.replicate 3 (.advance thread)

/-- Both threads find the stack not empty before either takes the top. -/
def bothFind (first second : Thread) : List (FreeLabel Thread) :=
  .getFreeTask first :: .getFreeTask second :: List.replicate 3 (.advance first) ++
    List.replicate 3 (.advance second)

/-- Two threads get an id each, one after the other, and one hands its id back. -/
theorem two_threads_in_turn :
    ∃ last, (freeStack (Fin 2)).ReachableUnder Undisturbed last ∧ last.held = [(1, 98)] ∧
      HandedOutOnce last := by
  obtain ⟨last, reached, ended⟩ := Machine.exists_reachableUnder_of_follow (freeStack (Fin 2))
    Undisturbed (getCall 0 ++ getCall 1 ++ pushCall 0 99)
    (fun last => decide (last.held = [(1, 98)])) rfl (by decide +kernel)
  exact ⟨last, reached, of_decide_eq_true ended, handed_out_once reached⟩

/-- Both get 99; and with one id left one of them gets it, and the other applies `top` to an
empty stack. -/
theorem task_handed_out_twice :
    (∃ last, (freeStack (Fin 2)).Reachable last ∧ last.held = [(1, 99), (0, 99)] ∧
        ¬ HandedOutOnce last) ∧
      ∃ last, (freeStack (Fin 2)).Reachable last ∧ last.callers 1 = .atTop ∧
        last.mFreeTasks = [] ∧ ¬ HandedOutOnce last := by
  constructor
  · obtain ⟨last, reached, ended⟩ := Machine.exists_reachableUnder_of_follow
      (freeStack (Fin 2)) (fun _ _ => True) (bothFind 0 1 ++ inOrder [0, 1, 0, 1])
      (fun last => decide (last.held = [(1, 99), (0, 99)])) rfl (by decide +kernel)
    have held := of_decide_eq_true ended
    refine ⟨last, reached, held, fun once => ?_⟩
    rw [HandedOutOnce, held] at once
    exact absurd once.1 (by decide)
  · obtain ⟨last, reached, ended⟩ := Machine.exists_reachableUnder_of_follow
      (freeStack (Fin 2)) (fun _ _ => True)
      ((List.replicate 99 (getCall 0)).flatten ++ bothFind 0 1 ++ inOrder [0, 0])
      (fun last => decide (last.callers 1 = .atTop ∧ last.mFreeTasks = [])) rfl
      (by decide +kernel)
    obtain ⟨takes, empty⟩ := of_decide_eq_true ended
    refine ⟨last, reached, takes, empty, fun once => ?_⟩
    exact once.2 1 (by rw [takes]; trivial) empty

end LibNet.Net
