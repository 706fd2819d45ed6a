import LibNet.Base.ThreadPool

/-!
# The thread pool seen from outside is a bounded queue

What other components see of the pool is the list of queued pointers.  Each
lock-level step of the pool leaves that list alone, puts a pointer at its end
subject to the size test, or takes the pointer at its front.  The size test lets
one request more in than `m_max_requests`.
-/

namespace LibNet.Base

open LibNet.Runs

variable {α : Type}

/-- `append` as one step: the queue takes the item unless it is over its limit. -/
def enqueue (mMaxRequests : Nat) (queue : List α) (item : α) : List α :=
  if queue.length > mMaxRequests then queue else queue ++ [item]

/-- The steps of the queue. -/
inductive QueueStep (mMaxRequests : Nat) (queue : List α) : List α → Prop where
  | stay : QueueStep mMaxRequests queue queue
  | enqueue (item : α) : QueueStep mMaxRequests queue (enqueue mMaxRequests queue item)
  | dequeue (item : α) (rest : List α) (front : queue = item :: rest) :
      QueueStep mMaxRequests queue rest

/-- The pointers in `m_workqueue`. -/
def PoolState.pointers {T : Type} {threadNumber : Nat} (pool : PoolState T threadNumber) :
    List (Option T) :=
  pool.mWorkqueue.map Request.pointer

/-- Every step of the pool is a step of the queue. -/
theorem queueStep_of_poolStep {T : Type} {mMaxRequests threadNumber : Nat}
    {before after : PoolState T threadNumber} (step : PoolStep mMaxRequests before after) :
    QueueStep mMaxRequests before.pointers after.pointers := by
  cases step with
  | pushed request inside room =>
      have grown : (before.mWorkqueue ++ [request]).map Request.pointer =
          enqueue mMaxRequests before.pointers request.pointer := by
        have fits : ¬ before.pointers.length > mMaxRequests := by
          simp only [PoolState.pointers, List.length_map]
          omega
        rw [enqueue, if_neg fits, List.map_append]
        rfl
      change QueueStep mMaxRequests _ ((before.mWorkqueue ++ [request]).map Request.pointer)
      rw [grown]
      exact .enqueue request.pointer
  | popped index request rest inside queued =>
      refine .dequeue request.pointer _ ?_
      rw [PoolState.pointers, queued]
      rfl
  | _ => exact .stay

/-! ## How many requests the queue holds -/

section Limit

variable {T : Type} {mMaxRequests threadNumber : Nat}

/-- The steps `append` has left to take, with no step of another thread in between. -/
def PoolState.finishAppend (mMaxRequests : Nat) :
    Nat → PoolState T threadNumber → PoolState T threadNumber
  | 0, pool => pool
  | steps + 1, pool =>
      match pool.mQueuelocker with
      | .append phase => finishAppend mMaxRequests steps (pool.append mMaxRequests phase)
      | _ => pool

/-- The queue holds `m_max_requests` at most, and an `append` at its size test returns
false exactly when the queue holds that many, leaving queue and semaphore alone. -/
def Limited (mMaxRequests : Nat) (pool : PoolState T threadNumber) : Prop :=
  pool.mWorkqueue.length ≤ mMaxRequests ∧
    ∀ request, pool.mQueuelocker = .append (.test request) →
      ∃ ret, (pool.finishAppend mMaxRequests 3).returned = pool.returned ++ [(request, ret)] ∧
        (ret = false ↔ pool.mWorkqueue.length = mMaxRequests) ∧
        (ret = false → (pool.finishAppend mMaxRequests 3).mWorkqueue = pool.mWorkqueue ∧
          (pool.finishAppend mMaxRequests 3).mQueuestat = pool.mQueuestat)

/-- No `append` takes the mutex while the queue holds exactly `m_max_requests`. -/
def NotAtLimit (mMaxRequests : Nat) (pool : PoolState T threadNumber) :
    PoolLabel T threadNumber → Prop
  | .enter _ => pool.mWorkqueue.length ≠ mMaxRequests
  | _ => True

instance (pool : PoolState T threadNumber) (label : PoolLabel T threadNumber) :
    Decidable (NotAtLimit mMaxRequests pool label) :=
  match label with
  | .enter _ => inferInstanceAs (Decidable (_ ≠ _))
  | .advance => .isTrue trivial
  | .wait _ _ => .isTrue trivial
  | .work _ => .isTrue trivial

/-- The queue is within the limit, and below it for an `append` at its size test. -/
def WithinLimit (mMaxRequests : Nat) (pool : PoolState T threadNumber) : Prop :=
  pool.mWorkqueue.length ≤ mMaxRequests ∧
    ∀ request, pool.mQueuelocker = .append (.test request) →
      pool.mWorkqueue.length < mMaxRequests

/-- A worker or the semaphore never puts `append` at its size test. -/
theorem WithinLimit.of_le {before after : PoolState T threadNumber}
    (within : WithinLimit mMaxRequests before)
    (shrinks : after.mWorkqueue.length ≤ before.mWorkqueue.length)
    (holder : after.mQueuelocker = before.mQueuelocker ∨
      ∀ phase, after.mQueuelocker ≠ .append phase) :
    WithinLimit mMaxRequests after := by
  refine ⟨Nat.le_trans shrinks within.1, fun request inside => ?_⟩
  rcases holder with same | other
  · exact Nat.lt_of_le_of_lt shrinks (within.2 request (same ▸ inside))
  · exact absurd inside (other _)

theorem WithinLimit.wait {before after : PoolState T threadNumber} {index : Fin threadNumber}
    {token : Bool} (within : WithinLimit mMaxRequests before)
    (taken : before.wait? index token = some after) : WithinLimit mMaxRequests after := by
  unfold PoolState.wait? at taken
  split at taken
  · split at taken
    · split at taken
      · cases taken
      · cases taken
        exact within.of_le (Nat.le_refl _) (.inl rfl)
    · cases taken
      exact within.of_le (Nat.le_refl _) (.inl rfl)
  · cases taken

theorem WithinLimit.run {before after : PoolState T threadNumber} {index : Fin threadNumber}
    (within : WithinLimit mMaxRequests before)
    (taken : before.run? index = some after) : WithinLimit mMaxRequests after := by
  unfold PoolState.run? at taken
  split at taken
  · cases taken
  · split at taken
    · cases taken
      exact within.of_le (Nat.le_refl _) (.inr (by simp))
    · cases taken
  · split at taken
    · cases taken
      exact within.of_le (Nat.le_refl _) (.inl rfl)
    · next queued =>
        cases taken
        exact within.of_le (by simp [queued]) (.inl rfl)
  · cases taken
    exact within.of_le (Nat.le_refl _) (.inr (by simp))
  · cases taken
    exact within.of_le (Nat.le_refl _) (.inr (by simp))
  · cases taken
    exact within.of_le (Nat.le_refl _) (.inl rfl)

theorem WithinLimit.append {before : PoolState T threadNumber} {phase : Append T}
    (within : WithinLimit mMaxRequests before) (inside : before.mQueuelocker = .append phase) :
    WithinLimit mMaxRequests (before.append mMaxRequests phase) := by
  cases phase with
  | test request =>
      have room := within.2 request inside
      have fits : ¬ before.mWorkqueue.length > mMaxRequests := by omega
      simp only [PoolState.append, if_neg fits]
      exact ⟨by simpa using room, by simp⟩
  | post request => exact ⟨within.1, by simp [PoolState.append]⟩
  | accept request => exact ⟨within.1, by simp [PoolState.append]⟩
  | refuse request => exact ⟨within.1, by simp [PoolState.append]⟩

theorem WithinLimit.step {before after : PoolState T threadNumber}
    {label : PoolLabel T threadNumber} (within : WithinLimit mMaxRequests before)
    (allowed : NotAtLimit mMaxRequests before label)
    (taken : before.step? mMaxRequests label = some after) : WithinLimit mMaxRequests after := by
  cases label with
  | enter pointer =>
      simp only [PoolState.step?] at taken
      split at taken
      · cases taken
        exact ⟨within.1, fun _ _ => Nat.lt_of_le_of_ne within.1 allowed⟩
      · cases taken
  | advance =>
      simp only [PoolState.step?] at taken
      split at taken
      · next phase inside =>
          cases taken
          exact within.append inside
      · cases taken
  | wait index token => exact within.wait taken
  | work index => exact within.run taken

/-- An `append` below the limit takes its request. -/
theorem finishAppend_of_lt {pool : PoolState T threadNumber} {request : Request T}
    (inside : pool.mQueuelocker = .append (.test request))
    (room : pool.mWorkqueue.length < mMaxRequests) :
    (pool.finishAppend mMaxRequests 3).returned = pool.returned ++ [(request, true)] := by
  have fits : ¬ pool.mWorkqueue.length > mMaxRequests := by omega
  simp [PoolState.finishAppend, inside, PoolState.append, fits]

/--
In every run in which no `append` takes the mutex while the queue holds exactly
`m_max_requests`: the queue never holds more, and no `append` is refused below that.
-/
theorem queue_limited {pool : PoolState T threadNumber}
    (reached : (threadPool T mMaxRequests threadNumber).ReachableUnder
      (NotAtLimit mMaxRequests) pool) :
    Limited mMaxRequests pool := by
  have within : WithinLimit mMaxRequests pool := by
    refine Machine.ReachableUnder.invariant ?_ ?_ reached
    · rintro first rfl
      exact ⟨Nat.zero_le _, by simp [PoolState.new]⟩
    · intro before label after _ within allowed taken
      exact within.step allowed taken
  refine ⟨within.1, fun request inside => ?_⟩
  have room := within.2 request inside
  exact ⟨true, finishAppend_of_lt inside room, by simp [Nat.ne_of_lt room], by simp⟩

/-- One request fills a queue of one. -/
theorem one_request_limited :
    ∃ pool : PoolState Unit 1, (threadPool Unit 1 1).ReachableUnder (NotAtLimit 1) pool ∧
      pool.mWorkqueue.length = 1 ∧ Limited 1 pool := by
  obtain ⟨pool, reached, queued⟩ := Machine.exists_reachableUnder_of_follow
    (threadPool Unit 1 1) (NotAtLimit 1) [.enter none, .advance, .advance, .advance]
    (fun pool => decide (pool.mWorkqueue.length = 1)) rfl (by decide)
  exact ⟨pool, reached, of_decide_eq_true queued, queue_limited reached⟩

/-- A second request gets into a queue of one. -/
theorem two_requests_in_queue_of_one :
    ∃ pool : PoolState Unit 1, (threadPool Unit 1 1).Reachable pool ∧ ¬ Limited 1 pool := by
  obtain ⟨pool, reached, queued⟩ := Machine.exists_reachableUnder_of_follow
    (threadPool Unit 1 1) (fun _ _ => True)
    [.enter none, .advance, .advance, .advance, .enter none, .advance]
    (fun pool => decide (pool.mWorkqueue.length = 2)) rfl (by decide)
  refine ⟨pool, reached, fun limited => ?_⟩
  have bound := limited.1
  rw [of_decide_eq_true queued] at bound
  exact absurd bound (by decide)

end Limit

end LibNet.Base
