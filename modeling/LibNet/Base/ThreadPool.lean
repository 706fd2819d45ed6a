import LibNet.Runs.Machine
import LibNet.Runs.Threads

/-!
# The thread pool, one lock-level step at a time

`ThreadPool::append` and `ThreadPool::run` of `thread_pool.h`.  Any number of
threads may call `append`; `m_thread_number` workers run the loop of `run`.
Taking a mutex, the size test, `push_back`, `sem_post`, `sem_wait`, the pop and
the release of the mutex are steps of their own.  `wait` ignores the result of
`sem_wait`, so a worker may also come back from it without a token.
-/

namespace LibNet.Base

open LibNet.Runs

/-- The requests of one call of `append`.  The number of the call is history:
the queue of the code holds only the pointer, `none` when it is null. -/
structure Request (T : Type) where
  call : Nat
  pointer : Option T
  deriving DecidableEq

/-- Where a thread stands inside `append` while it holds `m_queuelocker`. -/
inductive Append (T : Type) where
  | test (request : Request T)
  | post (request : Request T)
  | accept (request : Request T)
  | refuse (request : Request T)
  deriving DecidableEq

/-- Where a worker stands in the loop of `run`. -/
inductive Worker (T : Type) where
  | waiting
  | woken
  | locked
  | unlockEmpty
  | unlockTaken (request : Request T)
  | handed (request : Request T)

/-- Who holds `m_queuelocker`. -/
inductive Holder (T : Type) (threadNumber : Nat) where
  | free
  | append (phase : Append T)
  | worker (index : Fin threadNumber)
  deriving DecidableEq

/-- The pool's fields, its workers, and the history of its calls. -/
structure PoolState (T : Type) (threadNumber : Nat) where
  mWorkqueue : List (Request T)
  mQueuestat : Nat
  mQueuelocker : Holder T threadNumber
  workers : Fin threadNumber → Worker T
  calls : Nat
  appended : List (Request T)
  taken : List (Request T)
  processed : List (Request T)
  returned : List (Request T × Bool)

/-- The step a thread takes next: enter `append`, go on inside it, come back
from `wait` with or without a token, or go on in the loop of `run`. -/
inductive PoolLabel (T : Type) (threadNumber : Nat) where
  | enter (pointer : Option T)
  | advance
  | wait (index : Fin threadNumber) (token : Bool)
  | work (index : Fin threadNumber)

namespace PoolState

variable {T : Type} {threadNumber : Nat}

/-- The constructor: `sem_init` with 0, every worker about to wait. -/
def new : PoolState T threadNumber where
  mWorkqueue := []
  mQueuestat := 0
  mQueuelocker := .free
  workers := fun _ => .waiting
  calls := 0
  appended := []
  taken := []
  processed := []
  returned := []

def setWorker (pool : PoolState T threadNumber) (index : Fin threadNumber)
    (worker : Worker T) : PoolState T threadNumber :=
  { pool with workers := Function.update pool.workers index worker }

section SetWorker

variable (pool : PoolState T threadNumber) (index : Fin threadNumber) (worker : Worker T)

@[simp] theorem setWorker_mWorkqueue :
    (pool.setWorker index worker).mWorkqueue = pool.mWorkqueue := rfl

@[simp] theorem setWorker_mQueuestat :
    (pool.setWorker index worker).mQueuestat = pool.mQueuestat := rfl

@[simp] theorem setWorker_mQueuelocker :
    (pool.setWorker index worker).mQueuelocker = pool.mQueuelocker := rfl

@[simp] theorem setWorker_workers :
    (pool.setWorker index worker).workers = Function.update pool.workers index worker := rfl

@[simp] theorem setWorker_taken : (pool.setWorker index worker).taken = pool.taken := rfl

@[simp] theorem setWorker_processed :
    (pool.setWorker index worker).processed = pool.processed := rfl

end SetWorker

/-- `append` after the mutex: the size test, `push_back`, `post`, the release. -/
def append (mMaxRequests : Nat) (pool : PoolState T threadNumber) :
    Append T → PoolState T threadNumber
  | .test request =>
      if pool.mWorkqueue.length > mMaxRequests then
        { pool with mQueuelocker := .append (.refuse request) }
      else
        { pool with
          mWorkqueue := pool.mWorkqueue ++ [request]
          appended := pool.appended ++ [request]
          mQueuelocker := .append (.post request) }
  | .post request =>
      { pool with
        mQueuestat := pool.mQueuestat + 1
        mQueuelocker := .append (.accept request) }
  | .accept request =>
      { pool with
        mQueuelocker := .free
        returned := pool.returned ++ [(request, true)] }
  | .refuse request =>
      { pool with
        mQueuelocker := .free
        returned := pool.returned ++ [(request, false)] }

/-- `run` after `wait`: lock, test for an empty queue, pop, unlock, process. -/
def run? (pool : PoolState T threadNumber) (index : Fin threadNumber) :
    Option (PoolState T threadNumber) :=
  match pool.workers index with
  | .waiting => none
  | .woken =>
      match pool.mQueuelocker with
      | .free => some ({ pool with mQueuelocker := .worker index }.setWorker index .locked)
      | _ => none
  | .locked =>
      match pool.mWorkqueue with
      | [] => some (pool.setWorker index .unlockEmpty)
      | request :: rest =>
          some ({ pool with
            mWorkqueue := rest
            taken := pool.taken ++ [request] }.setWorker index (.unlockTaken request))
  | .unlockEmpty =>
      some ({ pool with mQueuelocker := .free }.setWorker index .waiting)
  | .unlockTaken request =>
      some ({ pool with mQueuelocker := .free }.setWorker index (.handed request))
  | .handed request =>
      some ({ pool with
        processed :=
          if request.pointer.isSome then pool.processed ++ [request]
          else pool.processed }.setWorker index .waiting)

/-- `Sem::wait`: with a token when there is one, without on `EINTR`. -/
def wait? (pool : PoolState T threadNumber) (index : Fin threadNumber) (token : Bool) :
    Option (PoolState T threadNumber) :=
  match pool.workers index with
  | .waiting =>
      if token then
        match pool.mQueuestat with
        | 0 => none
        | value + 1 => some ({ pool with mQueuestat := value }.setWorker index .woken)
      else some (pool.setWorker index .woken)
  | _ => none

def step? (mMaxRequests : Nat) (pool : PoolState T threadNumber) :
    PoolLabel T threadNumber → Option (PoolState T threadNumber)
  | .enter pointer =>
      match pool.mQueuelocker with
      | .free =>
          some { pool with
            mQueuelocker := .append (.test ⟨pool.calls, pointer⟩)
            calls := pool.calls + 1 }
      | _ => none
  | .advance =>
      match pool.mQueuelocker with
      | .append phase => some (pool.append mMaxRequests phase)
      | _ => none
  | .wait index token => pool.wait? index token
  | .work index => pool.run? index

end PoolState

/-- The pool with `m_thread_number` workers and room for `m_max_requests`. -/
def threadPool (T : Type) (mMaxRequests threadNumber : Nat) :
    Machine (PoolState T threadNumber) (PoolLabel T threadNumber) where
  Start := fun pool => pool = .new
  step? := PoolState.step? mMaxRequests

/-! ## What a step can do -/

variable {T : Type} {mMaxRequests threadNumber : Nat}

/-- Every way a step of the pool can go, with what it finds and what it leaves. -/
inductive PoolStep (mMaxRequests : Nat) (pool : PoolState T threadNumber) :
    PoolState T threadNumber → Prop where
  | enter (pointer : Option T) (free : pool.mQueuelocker = .free) :
      PoolStep mMaxRequests pool { pool with
        mQueuelocker := .append (.test ⟨pool.calls, pointer⟩)
        calls := pool.calls + 1 }
  | refused (request : Request T) (inside : pool.mQueuelocker = .append (.test request))
      (full : mMaxRequests < pool.mWorkqueue.length) :
      PoolStep mMaxRequests pool { pool with mQueuelocker := .append (.refuse request) }
  | pushed (request : Request T) (inside : pool.mQueuelocker = .append (.test request))
      (room : pool.mWorkqueue.length ≤ mMaxRequests) :
      PoolStep mMaxRequests pool { pool with
        mWorkqueue := pool.mWorkqueue ++ [request]
        appended := pool.appended ++ [request]
        mQueuelocker := .append (.post request) }
  | posted (request : Request T) (inside : pool.mQueuelocker = .append (.post request)) :
      PoolStep mMaxRequests pool { pool with
        mQueuestat := pool.mQueuestat + 1
        mQueuelocker := .append (.accept request) }
  | accepted (request : Request T) (inside : pool.mQueuelocker = .append (.accept request)) :
      PoolStep mMaxRequests pool { pool with
        mQueuelocker := .free
        returned := pool.returned ++ [(request, true)] }
  | rejected (request : Request T) (inside : pool.mQueuelocker = .append (.refuse request)) :
      PoolStep mMaxRequests pool { pool with
        mQueuelocker := .free
        returned := pool.returned ++ [(request, false)] }
  | token (index : Fin threadNumber) (value : Nat) (waits : pool.workers index = .waiting)
      (available : pool.mQueuestat = value + 1) :
      PoolStep mMaxRequests pool ({ pool with mQueuestat := value }.setWorker index .woken)
  | interrupted (index : Fin threadNumber) (waits : pool.workers index = .waiting) :
      PoolStep mMaxRequests pool (pool.setWorker index .woken)
  | locked (index : Fin threadNumber) (awake : pool.workers index = .woken)
      (free : pool.mQueuelocker = .free) :
      PoolStep mMaxRequests pool
        ({ pool with mQueuelocker := .worker index }.setWorker index .locked)
  | foundEmpty (index : Fin threadNumber) (inside : pool.workers index = .locked)
      (empty : pool.mWorkqueue = []) :
      PoolStep mMaxRequests pool (pool.setWorker index .unlockEmpty)
  | popped (index : Fin threadNumber) (request : Request T) (rest : List (Request T))
      (inside : pool.workers index = .locked)
      (queued : pool.mWorkqueue = request :: rest) :
      PoolStep mMaxRequests pool ({ pool with
        mWorkqueue := rest
        taken := pool.taken ++ [request] }.setWorker index (.unlockTaken request))
  | leftEmpty (index : Fin threadNumber) (inside : pool.workers index = .unlockEmpty) :
      PoolStep mMaxRequests pool
        ({ pool with mQueuelocker := .free }.setWorker index .waiting)
  | leftTaken (index : Fin threadNumber) (request : Request T)
      (inside : pool.workers index = .unlockTaken request) :
      PoolStep mMaxRequests pool
        ({ pool with mQueuelocker := .free }.setWorker index (.handed request))
  | finished (index : Fin threadNumber) (request : Request T)
      (holds : pool.workers index = .handed request) :
      PoolStep mMaxRequests pool ({ pool with
        processed :=
          if request.pointer.isSome then pool.processed ++ [request]
          else pool.processed }.setWorker index .waiting)

theorem poolStep_of_append {pool : PoolState T threadNumber} {phase : Append T}
    (inside : pool.mQueuelocker = .append phase) :
    PoolStep mMaxRequests pool (pool.append mMaxRequests phase) := by
  cases phase with
  | test request =>
      simp only [PoolState.append]
      split
      · next full => exact .refused request inside full
      · next room => exact .pushed request inside (Nat.le_of_not_lt room)
  | post request => exact .posted request inside
  | accept request => exact .accepted request inside
  | refuse request => exact .rejected request inside

theorem poolStep_of_wait {pool after : PoolState T threadNumber}
    {index : Fin threadNumber} {token : Bool}
    (taken : pool.wait? index token = some after) : PoolStep mMaxRequests pool after := by
  unfold PoolState.wait? at taken
  split at taken
  · next waits =>
      split at taken
      · split at taken
        · cases taken
        · next value available =>
            cases taken
            exact .token index value waits available
      · cases taken
        exact .interrupted index waits
  · cases taken

theorem poolStep_of_run {pool after : PoolState T threadNumber} {index : Fin threadNumber}
    (taken : pool.run? index = some after) : PoolStep mMaxRequests pool after := by
  unfold PoolState.run? at taken
  split at taken
  · cases taken
  · next awake =>
      split at taken
      · next free =>
          cases taken
          exact .locked index awake free
      · cases taken
  · next inside =>
      split at taken
      · next empty =>
          cases taken
          exact .foundEmpty index inside empty
      · next request rest queued =>
          cases taken
          exact .popped index request rest inside queued
  · next inside =>
      cases taken
      exact .leftEmpty index inside
  · next request inside =>
      cases taken
      exact .leftTaken index request inside
  · next request holds =>
      cases taken
      exact .finished index request holds

/-- The step function takes only the steps listed by `PoolStep`. -/
theorem poolStep_of_step {pool after : PoolState T threadNumber}
    {label : PoolLabel T threadNumber}
    (taken : (threadPool T mMaxRequests threadNumber).step? pool label = some after) :
    PoolStep mMaxRequests pool after := by
  change pool.step? mMaxRequests label = some after at taken
  cases label with
  | enter pointer =>
      simp only [PoolState.step?] at taken
      split at taken
      · next free =>
          cases taken
          exact .enter pointer free
      · cases taken
  | advance =>
      simp only [PoolState.step?] at taken
      split at taken
      · next phase inside =>
          cases taken
          exact poolStep_of_append inside
      · cases taken
  | wait index token => exact poolStep_of_wait taken
  | work index => exact poolStep_of_run taken

/-- What every step keeps holds of every state the pool reaches. -/
theorem threadPool_invariant {Invariant : PoolState T threadNumber → Prop}
    (initial : Invariant .new)
    (preserved : ∀ before after, Invariant before →
      PoolStep mMaxRequests before after → Invariant after)
    {pool : PoolState T threadNumber}
    (reached : (threadPool T mMaxRequests threadNumber).Reachable pool) :
    Invariant pool := by
  refine Machine.Reachable.invariant ?_ ?_ reached
  · intro first starts
    exact starts ▸ initial
  · intro before label after holds taken
    exact preserved before after holds (poolStep_of_step taken)

end LibNet.Base
