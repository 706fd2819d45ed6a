import LibNet.Base.ThreadPoolRequests
import LibNet.Base.ThreadPoolWakeups
import LibNet.Runs.Settle

/-!
# The pool finishes what it accepts

Every call of `append` is worth nine steps of the pool, from its `lock` to the worker's
return from `process`, and a `wait` that comes back without a token at most five.  Nothing
else keeps the pool busy, so it comes to rest whenever its callers leave it alone, and at
rest every call has its answer and every accepted request has been processed.
-/

namespace LibNet.Base

open LibNet.Runs

variable {T : Type} {mMaxRequests threadNumber : Nat}

/-- The steps still to come from a call of `append`, those of its token included. -/
def Append.left : Append T → Nat
  | .test _ => 8
  | .post _ => 7
  | .accept _ => 1
  | .refuse _ => 1

/-- The steps a worker may take before it waits again. -/
def Worker.left : Worker T → Nat
  | .waiting => 0
  | .woken => 4
  | .locked => 3
  | .unlockEmpty => 1
  | .unlockTaken _ => 2
  | .handed _ => 1

def Holder.left : Holder T threadNumber → Nat
  | .append phase => phase.left
  | _ => 0

/-- A token stands for the `wait` it ends and for what the worker does then. -/
def PoolState.left (pool : PoolState T threadNumber) : Nat :=
  5 * pool.mQueuestat + pool.mQueuelocker.left + total Worker.left pool.workers

/-- What a label adds to the work: a call of `append` and a `wait` ended by `EINTR`. -/
def PoolLabel.handed : PoolLabel T threadNumber → Nat
  | .enter _ => 9
  | .advance => 0
  | .wait _ token => if token then 0 else 5
  | .work _ => 0

/-- A worker that moves takes its own share of the work with it. -/
theorem PoolState.left_setWorker (pool : PoolState T threadNumber) (index : Fin threadNumber)
    (worker : Worker T) :
    (pool.setWorker index worker).left + (pool.workers index).left = pool.left + worker.left := by
  have moved := total_update Worker.left pool.workers index worker
  simp only [PoolState.left, PoolState.setWorker_mQueuestat, PoolState.setWorker_mQueuelocker,
    PoolState.setWorker_workers]
  omega

theorem left_append_lt {pool : PoolState T threadNumber} {phase : Append T}
    (inside : pool.mQueuelocker = .append phase) :
    (pool.append mMaxRequests phase).left < pool.left := by
  cases phase with
  | test request =>
      simp only [PoolState.append]
      split
      · simp only [PoolState.left, inside, Holder.left, Append.left]
        omega
      · simp only [PoolState.left, inside, Holder.left, Append.left]
        omega
  | post request =>
      simp only [PoolState.append, PoolState.left, inside, Holder.left, Append.left]
      omega
  | accept request =>
      simp only [PoolState.append, PoolState.left, inside, Holder.left, Append.left]
      omega
  | refuse request =>
      simp only [PoolState.append, PoolState.left, inside, Holder.left, Append.left]
      omega

theorem left_wait_lt {pool after : PoolState T threadNumber} {index : Fin threadNumber}
    {token : Bool} (taken : pool.wait? index token = some after) :
    after.left < pool.left + (PoolLabel.wait (T := T) index token).handed := by
  unfold PoolState.wait? at taken
  cases waits : pool.workers index with
  | waiting =>
      simp only [waits] at taken
      cases token with
      | true =>
          cases available : pool.mQueuestat with
          | zero => simp [available] at taken
          | succ value =>
              simp only [if_true, available, Option.some.injEq] at taken
              have moved := PoolState.left_setWorker { pool with mQueuestat := value } index .woken
              rw [taken] at moved
              simp only [PoolState.left, waits, Worker.left, available] at moved ⊢
              simp only [PoolLabel.handed, if_true]
              omega
      | false =>
          simp only [Bool.false_eq_true, if_false, Option.some.injEq] at taken
          have moved := PoolState.left_setWorker pool index .woken
          rw [taken] at moved
          simp only [waits, Worker.left] at moved
          simp only [PoolLabel.handed, Bool.false_eq_true, if_false]
          omega
  | _ => simp [waits] at taken

/-- A worker that moves to a place with less to do, under a lock that is not `append`'s. -/
theorem left_move_lt {pool changed : PoolState T threadNumber} {index : Fin threadNumber}
    {worker : Worker T} (tokens : changed.mQueuestat = pool.mQueuestat)
    (lock : changed.mQueuelocker.left ≤ pool.mQueuelocker.left)
    (others : changed.workers = pool.workers) (less : worker.left < (pool.workers index).left) :
    (changed.setWorker index worker).left < pool.left := by
  have moved := changed.left_setWorker index worker
  rw [others] at moved
  have same : changed.left ≤ pool.left := by
    simp only [PoolState.left, tokens, others]
    omega
  omega

theorem left_run_lt {pool after : PoolState T threadNumber} {index : Fin threadNumber}
    (taken : pool.run? index = some after) : after.left < pool.left := by
  unfold PoolState.run? at taken
  cases place : pool.workers index with
  | waiting => simp [place] at taken
  | woken =>
      cases lock : pool.mQueuelocker with
      | free =>
          simp only [place, lock, Option.some.injEq] at taken
          subst taken
          exact left_move_lt rfl (Nat.zero_le _) rfl (by simp [place, Worker.left])
      | append phase => simp [place, lock] at taken
      | worker holder => simp [place, lock] at taken
  | locked =>
      cases queue : pool.mWorkqueue with
      | nil =>
          simp only [place, queue, Option.some.injEq] at taken
          subst taken
          exact left_move_lt rfl (Nat.le_refl _) rfl (by simp [place, Worker.left])
      | cons request rest =>
          simp only [place, queue, Option.some.injEq] at taken
          subst taken
          exact left_move_lt rfl (Nat.le_refl _) rfl (by simp [place, Worker.left])
  | unlockEmpty =>
      simp only [place, Option.some.injEq] at taken
      subst taken
      exact left_move_lt rfl (Nat.zero_le _) rfl (by simp [place, Worker.left])
  | unlockTaken request =>
      simp only [place, Option.some.injEq] at taken
      subst taken
      exact left_move_lt rfl (Nat.zero_le _) rfl (by simp [place, Worker.left])
  | handed request =>
      simp only [place, Option.some.injEq] at taken
      subst taken
      exact left_move_lt rfl (Nat.le_refl _) rfl (by simp [place, Worker.left])

theorem left_step_lt {before after : PoolState T threadNumber}
    {label : PoolLabel T threadNumber}
    (taken : (threadPool T mMaxRequests threadNumber).step? before label = some after) :
    after.left < before.left + label.handed := by
  change before.step? mMaxRequests label = some after at taken
  cases label with
  | enter pointer =>
      cases lock : before.mQueuelocker with
      | free =>
          simp only [PoolState.step?, lock, Option.some.injEq] at taken
          subst taken
          simp only [PoolState.left, lock, Holder.left, Append.left, PoolLabel.handed]
          omega
      | append phase => simp [PoolState.step?, lock] at taken
      | worker holder => simp [PoolState.step?, lock] at taken
  | advance =>
      cases lock : before.mQueuelocker with
      | free => simp [PoolState.step?, lock] at taken
      | append phase =>
          simp only [PoolState.step?, lock, Option.some.injEq] at taken
          subst taken
          exact left_append_lt lock
      | worker holder => simp [PoolState.step?, lock] at taken
  | wait index token => exact left_wait_lt taken
  | work index => exact left_run_lt taken

/-! ## When nothing can be done -/

/-- The worker that holds the mutex is inside its locked section. -/
def Occupied (pool : PoolState T threadNumber) : Prop :=
  ∀ index, pool.mQueuelocker = .worker index → (pool.workers index).Inside

/-- A worker outside the section may move under a lock that it does not hold. -/
theorem Occupied.move {pool changed : PoolState T threadNumber} (occupied : Occupied pool)
    {index : Fin threadNumber} {worker : Worker T}
    (lock : changed.mQueuelocker = pool.mQueuelocker) (others : changed.workers = pool.workers)
    (fits : (pool.workers index).Inside → worker.Inside) :
    Occupied (changed.setWorker index worker) := by
  intro holder held
  rw [PoolState.setWorker_mQueuelocker, lock] at held
  rw [PoolState.setWorker_workers, others]
  have inside := occupied holder held
  by_cases same : holder = index
  · subst holder
    rw [Function.update_self]
    exact fits inside
  · rw [Function.update_of_ne same]
    exact inside

theorem occupied_step {before after : PoolState T threadNumber} (occupied : Occupied before)
    (step : PoolStep mMaxRequests before after) : Occupied after := by
  cases step with
  | enter pointer free => intro index held; cases held
  | refused request inside full => intro index held; cases held
  | pushed request inside room => intro index held; cases held
  | posted request inside => intro index held; cases held
  | accepted request inside => intro index held; cases held
  | rejected request inside => intro index held; cases held
  | token index value waits available =>
      exact occupied.move rfl rfl (by rw [waits]; exact fun wrong => wrong.elim)
  | interrupted index waits =>
      exact occupied.move rfl rfl (by rw [waits]; exact fun wrong => wrong.elim)
  | locked index awake free =>
      intro holder held
      cases held
      rw [PoolState.setWorker_workers, Function.update_self]
      trivial
  | foundEmpty index inside empty => exact occupied.move rfl rfl fun _ => trivial
  | popped index request rest inside queued => exact occupied.move rfl rfl fun _ => trivial
  | leftEmpty index inside => intro holder held; cases held
  | leftTaken index request inside => intro holder held; cases held
  | finished index request holds =>
      exact occupied.move rfl rfl (by rw [holds]; exact fun wrong => wrong.elim)

/-- The call of `append` that holds the mutex is the only one without an answer. -/
def Answered (pool : PoolState T threadNumber) : Prop :=
  match pool.mQueuelocker with
  | .append _ => pool.returned.length + 1 = pool.calls
  | _ => pool.returned.length = pool.calls

theorem answered_step {before after : PoolState T threadNumber} (exclusive : Exclusive before)
    (answered : Answered before) (step : PoolStep mMaxRequests before after) :
    Answered after := by
  cases step with
  | enter pointer free =>
      simp only [Answered, free] at answered ⊢
      rw [answered]
  | refused request inside full =>
      simp only [Answered, inside] at answered ⊢
      exact answered
  | pushed request inside room =>
      simp only [Answered, inside] at answered ⊢
      exact answered
  | posted request inside =>
      simp only [Answered, inside] at answered ⊢
      exact answered
  | accepted request inside =>
      simp only [Answered, inside] at answered
      simpa [Answered] using answered
  | rejected request inside =>
      simp only [Answered, inside] at answered
      simpa [Answered] using answered
  | token index value waits available => exact answered
  | interrupted index waits => exact answered
  | locked index awake free =>
      simp only [Answered, free] at answered
      exact answered
  | foundEmpty index inside empty => exact answered
  | popped index request rest inside queued => exact answered
  | leftEmpty index inside =>
      have held := exclusive index (by rw [inside]; trivial)
      simp only [Answered, held] at answered
      exact answered
  | leftTaken index request inside =>
      have held := exclusive index (by rw [inside]; trivial)
      simp only [Answered, held] at answered
      exact answered
  | finished index request holds => exact answered

/-- The pool at rest: nobody holds the mutex, every worker waits for a token and there is
none, nothing is queued, every call has its answer, and what was accepted is processed. -/
structure Drained (pool : PoolState T threadNumber) : Prop where
  free : pool.mQueuelocker = .free
  waiting : ∀ index, pool.workers index = .waiting
  tokens : pool.mQueuestat = 0
  empty : pool.mWorkqueue = []
  answered : pool.returned.length = pool.calls
  processed : nonNull pool.appended = ↑pool.processed

section Reached

variable {pool : PoolState T threadNumber}
  (reached : (threadPool T mMaxRequests threadNumber).Reachable pool)

include reached

theorem reachable_occupied : Occupied pool := by
  refine threadPool_invariant ?_ (fun _ _ => occupied_step) reached
  intro index held
  cases held

theorem reachable_answered : Answered pool := by
  refine Machine.ReachableUnder.invariant ?_ ?_ reached
  · intro first starts
    cases starts
    rfl
  · intro before label after there answered _ taken
    exact answered_step (reachable_wakeful there).exclusive answered (poolStep_of_step taken)

/-- Whoever holds the mutex can go on. -/
theorem free_of_stuck
    (inAppend : (threadPool T mMaxRequests threadNumber).step? pool .advance = none)
    (inRun : ∀ index, (threadPool T mMaxRequests threadNumber).step? pool (.work index) = none) :
    pool.mQueuelocker = .free := by
  cases lock : pool.mQueuelocker with
  | free => rfl
  | append phase => simp [threadPool, PoolState.step?, lock] at inAppend
  | worker index =>
      have inside := reachable_occupied reached index lock
      have stays : pool.run? index = none := inRun index
      unfold PoolState.run? at stays
      cases place : pool.workers index with
      | locked => cases queue : pool.mWorkqueue <;> simp [place, queue] at stays
      | unlockEmpty => simp [place] at stays
      | unlockTaken request => simp [place] at stays
      | waiting => rw [place] at inside; exact inside.elim
      | woken => rw [place] at inside; exact inside.elim
      | handed request => rw [place] at inside; exact inside.elim

omit reached in
/-- With the mutex free, a worker anywhere but in `wait` can go on. -/
theorem waiting_of_stuck (free : pool.mQueuelocker = .free)
    (inRun : ∀ index, (threadPool T mMaxRequests threadNumber).step? pool (.work index) = none)
    (index : Fin threadNumber) : pool.workers index = .waiting := by
  have stays : pool.run? index = none := inRun index
  unfold PoolState.run? at stays
  cases place : pool.workers index with
  | waiting => rfl
  | locked => cases queue : pool.mWorkqueue <;> simp [place, queue] at stays
  | woken => simp [place, free] at stays
  | unlockEmpty => simp [place] at stays
  | unlockTaken request => simp [place] at stays
  | handed request => simp [place] at stays

theorem drained_of_stuck (worker : Fin threadNumber)
    (stuck : ∀ label : PoolLabel T threadNumber, label.handed = 0 →
      (threadPool T mMaxRequests threadNumber).step? pool label = none) : Drained pool := by
  have free := free_of_stuck reached (stuck .advance rfl) fun index => stuck (.work index) rfl
  have waiting := waiting_of_stuck free fun index => stuck (.work index) rfl
  have tokens : pool.mQueuestat = 0 := by
    have stays : pool.wait? worker true = none := stuck (.wait worker true) rfl
    cases available : pool.mQueuestat with
    | zero => rfl
    | succ value => simp [PoolState.wait?, waiting worker, available] at stays
  have empty : pool.mWorkqueue = [] := by
    have covered := (reachable_wakeful reached).covered
    have nobody : total awake pool.workers = 0 :=
      total_eq_zero fun index => by rw [waiting index]; rfl
    simp only [Covered, owed, free, tokens, nobody, Nat.add_zero] at covered
    exact List.eq_nil_of_length_eq_zero (Nat.le_zero.mp covered)
  have answered := reachable_answered reached
  simp only [Answered, free] at answered
  refine ⟨free, waiting, tokens, empty, answered, ?_⟩
  have nothing : total hand pool.workers = 0 :=
    total_eq_zero fun index => by rw [waiting index]; rfl
  have conserved := reachable_conserved reached
  rw [empty, nothing] at conserved
  rw [conserved, show nonNull ([] : List (Request T)) = 0 from rfl, zero_add, zero_add]

end Reached

theorem threadPool_settling (worker : Fin threadNumber) :
    Settling (threadPool T mMaxRequests threadNumber) (fun _ _ => True) PoolLabel.handed
      (threadPool T mMaxRequests threadNumber).Reachable PoolState.left Drained where
  kept := fun _ _ _ reached _ taken => .step reached trivial taken
  less := fun _ _ _ _ _ taken => left_step_lt taken
  settled := fun _ reached stuck => drained_of_stuck reached worker fun label => stuck label trivial

end LibNet.Base
