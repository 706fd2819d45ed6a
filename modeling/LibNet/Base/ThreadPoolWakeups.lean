import LibNet.Base.ThreadPool

/-!
# No wake-up is lost

`push_back` and `post` are two steps of a producer, `wait` and the pop two steps
of a worker, and an interrupted `wait` lets a worker pop without a token.  The
queue is nevertheless never longer than the tokens plus the workers on their way
to the pop, up to the one step the holder of the mutex still owes.
-/

namespace LibNet.Base

open LibNet.Runs

variable {T : Type} {mMaxRequests threadNumber : Nat}

/-- The worker is inside its locked section. -/
def Worker.Inside : Worker T → Prop
  | .locked | .unlockEmpty | .unlockTaken _ => True
  | _ => False

/-- Counts a worker back from `wait` that has not locked the queue yet. -/
def awake : Worker T → Nat
  | .woken => 1
  | _ => 0

/-- Counts a worker that has locked the queue and not popped yet. -/
def popping : Worker T → Nat
  | .locked => 1
  | _ => 0

/-- The `post` or the pop that the holder of the mutex still owes. -/
def owed (pool : PoolState T threadNumber) : Nat :=
  match pool.mQueuelocker with
  | .append (.post _) => 1
  | .worker index => popping (pool.workers index)
  | _ => 0

/-- A worker inside its locked section holds the mutex. -/
def Exclusive (pool : PoolState T threadNumber) : Prop :=
  ∀ index, (pool.workers index).Inside → pool.mQueuelocker = .worker index

/-- A worker that stays outside, under a lock that stays put. -/
theorem Exclusive.outside {pool : PoolState T threadNumber} (exclusive : Exclusive pool)
    {index : Fin threadNumber} {worker : Worker T} (outside : ¬ worker.Inside) :
    ∀ other, (Function.update pool.workers index worker other).Inside →
      pool.mQueuelocker = .worker other := by
  intro other inside
  by_cases same : other = index
  · subst other
    rw [Function.update_self] at inside
    exact (outside inside).elim
  · rw [Function.update_of_ne same] at inside
    exact exclusive other inside

/-- A worker that stays inside keeps the mutex. -/
theorem Exclusive.within {pool : PoolState T threadNumber} (exclusive : Exclusive pool)
    {index : Fin threadNumber} (inside : (pool.workers index).Inside) (worker : Worker T) :
    ∀ other, (Function.update pool.workers index worker other).Inside →
      pool.mQueuelocker = .worker other := by
  intro other within
  by_cases same : other = index
  · subst other
    exact exclusive index inside
  · rw [Function.update_of_ne same] at within
    exact exclusive other within

/-- The lock passes to `holder` when nobody else is inside. -/
theorem Exclusive.hand {pool : PoolState T threadNumber}
    (exclusive : Exclusive pool) {index : Fin threadNumber} {worker : Worker T}
    {holder : Holder T threadNumber}
    (alone : ∀ other, other ≠ index → pool.mQueuelocker ≠ .worker other)
    (fits : worker.Inside → holder = .worker index) :
    ∀ other, (Function.update pool.workers index worker other).Inside →
      holder = .worker other := by
  intro other inside
  by_cases same : other = index
  · subst other
    rw [Function.update_self] at inside
    exact fits inside
  · rw [Function.update_of_ne same] at inside
    exact (alone other same (exclusive other inside)).elim

/-- When the mutex is held outside `run`, no worker is inside. -/
theorem Exclusive.none_inside {pool : PoolState T threadNumber}
    (exclusive : Exclusive pool) (elsewhere : ∀ index, pool.mQueuelocker ≠ .worker index)
    {holder : Holder T threadNumber} :
    ∀ index, (pool.workers index).Inside → holder = .worker index :=
  fun index inside => (elsewhere index (exclusive index inside)).elim

theorem exclusive_step {before after : PoolState T threadNumber}
    (exclusive : Exclusive before) (step : PoolStep mMaxRequests before after) :
    Exclusive after := by
  cases step with
  | enter pointer free => exact exclusive.none_inside (by rw [free]; intro _ h; cases h)
  | refused request held full => exact exclusive.none_inside (by rw [held]; intro _ h; cases h)
  | pushed request held room => exact exclusive.none_inside (by rw [held]; intro _ h; cases h)
  | posted request held => exact exclusive.none_inside (by rw [held]; intro _ h; cases h)
  | accepted request held => exact exclusive.none_inside (by rw [held]; intro _ h; cases h)
  | rejected request held => exact exclusive.none_inside (by rw [held]; intro _ h; cases h)
  | token index value waits available => exact exclusive.outside id
  | interrupted index waits => exact exclusive.outside id
  | locked index awake free =>
      exact exclusive.hand (by rw [free]; intro _ _ h; cases h) (fun _ => rfl)
  | foundEmpty index inside empty => exact exclusive.within (by rw [inside]; trivial) _
  | popped index request rest inside queued => exact exclusive.within (by rw [inside]; trivial) _
  | leftEmpty index inside =>
      have held := exclusive index (by rw [inside]; trivial)
      refine exclusive.hand ?_ (fun wrong => wrong.elim)
      rw [held]
      intro other different same
      cases same
      exact different rfl
  | leftTaken index request inside =>
      have held := exclusive index (by rw [inside]; trivial)
      refine exclusive.hand ?_ (fun wrong => wrong.elim)
      rw [held]
      intro other different same
      cases same
      exact different rfl
  | finished index request holds => exact exclusive.outside id

/-- Every queued request has a token, a worker on its way, or an owed step. -/
def Covered (pool : PoolState T threadNumber) : Prop :=
  pool.mWorkqueue.length ≤ pool.mQueuestat + total awake pool.workers + owed pool

/-- A worker that does not enter or leave the place before its pop owes the same. -/
theorem owed_setWorker (pool : PoolState T threadNumber) (index : Fin threadNumber)
    (worker : Worker T) (same : popping worker = popping (pool.workers index)) :
    owed (pool.setWorker index worker) = owed pool := by
  unfold owed
  simp only [PoolState.setWorker_mQueuelocker, PoolState.setWorker_workers]
  split
  · rfl
  · next holder held =>
      by_cases atIndex : holder = index
      · subst holder
        rw [Function.update_self, same]
      · rw [Function.update_of_ne atIndex]
  · rfl

/-- A worker away from the queue may wake up, but not fall asleep, for free. -/
theorem Covered.move {pool : PoolState T threadNumber} (covered : Covered pool)
    {index : Fin threadNumber} {worker : Worker T}
    (away : popping worker = popping (pool.workers index))
    (awaker : awake (pool.workers index) ≤ awake worker) :
    Covered (pool.setWorker index worker) := by
  have moved := total_update awake pool.workers index worker
  unfold Covered at covered ⊢
  rw [owed_setWorker pool index worker away]
  simp only [PoolState.setWorker_mWorkqueue, PoolState.setWorker_mQueuestat,
    PoolState.setWorker_workers]
  omega

/-- A worker that has popped, or found nothing, owes nothing when it unlocks. -/
theorem Covered.release {pool : PoolState T threadNumber} (covered : Covered pool)
    {index : Fin threadNumber} {worker : Worker T} (held : pool.mQueuelocker = .worker index)
    (settled : popping (pool.workers index) = 0)
    (same : awake worker = awake (pool.workers index)) :
    Covered ({ pool with mQueuelocker := .free }.setWorker index worker) := by
  have moved := total_update awake pool.workers index worker
  simp only [Covered, owed, held, settled] at covered
  simp only [Covered, owed, PoolState.setWorker_mWorkqueue, PoolState.setWorker_mQueuestat,
    PoolState.setWorker_workers, PoolState.setWorker_mQueuelocker]
  omega

theorem covered_step {before after : PoolState T threadNumber} (exclusive : Exclusive before)
    (covered : Covered before) (step : PoolStep mMaxRequests before after) :
    Covered after := by
  cases step with
  | enter pointer free =>
      simp only [Covered, owed, free] at covered ⊢
      exact covered
  | refused request held full =>
      simp only [Covered, owed, held] at covered ⊢
      exact covered
  | pushed request held room =>
      simp only [Covered, owed, held, List.length_append, List.length_singleton] at covered ⊢
      omega
  | posted request held =>
      simp only [Covered, owed, held] at covered ⊢
      omega
  | accepted request held =>
      simp only [Covered, owed, held] at covered ⊢
      exact covered
  | rejected request held =>
      simp only [Covered, owed, held] at covered ⊢
      exact covered
  | token index value waits available =>
      have moved := total_update awake before.workers index .woken
      have still := owed_setWorker { before with mQueuestat := value } index .woken
        (by rw [waits]; rfl)
      rw [waits] at moved
      unfold Covered at covered ⊢
      rw [still]
      change before.mWorkqueue.length ≤
        value + total awake (Function.update before.workers index .woken) + owed before
      simp only [awake] at moved
      omega
  | interrupted index waits =>
      exact covered.move (by rw [waits]; rfl) (by rw [waits]; exact Nat.zero_le _)
  | locked index woken free =>
      have moved := total_update awake before.workers index .locked
      simp only [woken, awake] at moved
      simp only [Covered, owed, free] at covered
      simp only [Covered, owed, PoolState.setWorker_mWorkqueue, PoolState.setWorker_mQueuestat,
        PoolState.setWorker_workers, PoolState.setWorker_mQueuelocker, Function.update_self,
        popping]
      omega
  | foundEmpty index inside empty =>
      simp only [Covered, PoolState.setWorker_mWorkqueue, empty, List.length_nil]
      exact Nat.zero_le _
  | popped index request rest inside queued =>
      have held := exclusive index (by rw [inside]; trivial)
      have moved := total_update awake before.workers index (.unlockTaken request)
      simp only [inside, awake] at moved
      simp only [Covered, owed, held, inside, popping, queued, List.length_cons] at covered
      simp only [Covered, owed, PoolState.setWorker_mWorkqueue, PoolState.setWorker_mQueuestat,
        PoolState.setWorker_workers, PoolState.setWorker_mQueuelocker, held,
        Function.update_self, popping]
      omega
  | leftEmpty index inside =>
      exact covered.release (exclusive index (by rw [inside]; trivial)) (by rw [inside]; rfl)
        (by rw [inside]; rfl)
  | leftTaken index request inside =>
      exact covered.release (exclusive index (by rw [inside]; trivial)) (by rw [inside]; rfl)
        (by rw [inside]; rfl)
  | finished index request holds =>
      have same : Covered { before with
          processed :=
            if request.pointer.isSome then before.processed ++ [request]
            else before.processed } := covered
      exact same.move (by rw [holds]; rfl) (by rw [holds]; exact Nat.zero_le _)

/-- Both facts together are kept by every step. -/
structure Wakeful (pool : PoolState T threadNumber) : Prop where
  exclusive : Exclusive pool
  covered : Covered pool

theorem reachable_wakeful {pool : PoolState T threadNumber}
    (reached : (threadPool T mMaxRequests threadNumber).Reachable pool) :
    Wakeful pool := by
  refine threadPool_invariant ?_ ?_ reached
  · exact ⟨fun _ inside => inside.elim, Nat.zero_le _⟩
  · intro before after holds step
    exact ⟨exclusive_step holds.1 step, covered_step holds.1 holds.2 step⟩

/--
Whenever the mutex is free, the queue is at most as long as the value of the
semaphore plus the number of workers back from `wait` and not yet inside their
locked section.  So nothing is queued while every worker is blocked in `wait`,
which blocks only at value 0.
-/
theorem queued_le_awake {pool : PoolState T threadNumber}
    (reached : (threadPool T mMaxRequests threadNumber).Reachable pool)
    (free : pool.mQueuelocker = .free) :
    pool.mWorkqueue.length ≤ pool.mQueuestat + total awake pool.workers ∧
    ((∀ index, pool.workers index = .waiting) → pool.mQueuestat = 0 →
      pool.mWorkqueue = []) := by
  have covered := (reachable_wakeful reached).covered
  simp only [Covered, owed, free, Nat.add_zero] at covered
  refine ⟨covered, ?_⟩
  intro blocked drained
  have nobody : total awake pool.workers = 0 :=
    total_eq_zero fun index => by rw [blocked index]; rfl
  rw [nobody, drained] at covered
  exact List.eq_nil_of_length_eq_zero (Nat.le_zero.mp covered)

/-- Two requests, one worker woken by its token: the free mutex leaves a queue
of two against one token and one worker on its way. -/
def half : List (PoolLabel Nat 1) :=
  [.enter (some 7), .advance, .advance, .advance, .enter (some 8), .advance, .advance, .advance,
    .wait (.last 0) true]

theorem queued_le_awake_half :
    ∃ pool : PoolState Nat 1, (threadPool Nat 1 1).Reachable pool ∧
      pool.mQueuelocker = .free ∧ pool.mWorkqueue.length = 2 ∧
      pool.mWorkqueue.length ≤ pool.mQueuestat + total awake pool.workers := by
  obtain ⟨pool, reached, ended⟩ := Machine.exists_reachableUnder_of_follow
    (threadPool Nat 1 1) (fun _ _ => True) half
    (fun pool => decide (pool.mQueuelocker = .free ∧ pool.mWorkqueue.length = 2))
    rfl (by decide)
  obtain ⟨free, two⟩ := of_decide_eq_true ended
  exact ⟨pool, reached, free, two, (queued_le_awake reached free).1⟩

end LibNet.Base
