import LibNet.Base.ThreadPool

/-!
# No request is lost, repeated or reordered

Three facts about every state the pool reaches.  The requests popped so far
followed by the queue are the requests pushed so far.  A popped request that is
not null is in the hands of a worker or processed.  The call numbers of the
requests tell accepted and refused calls apart, although one pointer may be
appended many times.
-/

namespace LibNet.Base

open LibNet.Runs

variable {T : Type} {mMaxRequests threadNumber : Nat}

/-- A request as long as it has to be processed: null ones do not. -/
def hold (request : Request T) : Multiset (Request T) :=
  if request.pointer.isSome then {request} else 0

/-- The requests of a list that are not null, with their multiplicity. -/
def nonNull (requests : List (Request T)) : Multiset (Request T) :=
  ↑(requests.filter fun request => request.pointer.isSome)

/-- What a worker has in its hands. -/
def hand : Worker T → Multiset (Request T)
  | .unlockTaken request => hold request
  | .handed request => hold request
  | _ => 0

@[simp] theorem nonNull_append (first second : List (Request T)) :
    nonNull (first ++ second) = nonNull first + nonNull second := by
  simp [nonNull]

@[simp] theorem nonNull_singleton (request : Request T) : nonNull [request] = hold request := by
  unfold nonNull hold
  cases present : request.pointer.isSome <;> simp [present]

theorem count_nonNull [DecidableEq T] (requests : List (Request T)) {request : Request T}
    (present : request.pointer ≠ none) :
    (nonNull requests).count request = requests.count request := by
  unfold nonNull
  rw [Multiset.coe_count]
  exact List.count_filter (p := fun entry : Request T => entry.pointer.isSome)
    (Option.isSome_iff_ne_none.mpr present)

/-- `run` skips a null request and hands any other one to `process`. -/
theorem coe_processed (processed : List (Request T)) (request : Request T) :
    ((if request.pointer.isSome then processed ++ [request] else processed :
      List (Request T)) : Multiset (Request T)) = ↑processed + hold request := by
  unfold hold
  split
  · simp [← Multiset.coe_add]
  · simp

/-- Pops happen at the front and pushes at the back of one queue. -/
def Fifo (pool : PoolState T threadNumber) : Prop :=
  pool.taken ++ pool.mWorkqueue = pool.appended

theorem fifo_step {before after : PoolState T threadNumber} (fifo : Fifo before)
    (step : PoolStep mMaxRequests before after) : Fifo after := by
  cases step with
  | pushed request inside room =>
      change before.taken ++ (before.mWorkqueue ++ [request]) = before.appended ++ [request]
      rw [← List.append_assoc, fifo]
  | popped index request rest inside queued =>
      change (before.taken ++ [request]) ++ rest = before.appended
      rw [List.append_assoc, List.singleton_append, ← queued]
      exact fifo
  | _ => exact fifo

/-- A popped request is with a worker or processed, unless it is null. -/
def Kept (pool : PoolState T threadNumber) : Prop :=
  nonNull pool.taken = total hand pool.workers + ↑pool.processed

/-- A worker that neither takes nor gives up a request keeps `Kept`. -/
theorem kept_setWorker {pool : PoolState T threadNumber} (kept : Kept pool)
    {index : Fin threadNumber} {worker : Worker T}
    (same : hand worker = hand (pool.workers index)) :
    nonNull pool.taken =
      total hand (Function.update pool.workers index worker) + ↑pool.processed := by
  rw [total_update_of_eq same]
  exact kept

theorem kept_step {before after : PoolState T threadNumber} (kept : Kept before)
    (step : PoolStep mMaxRequests before after) : Kept after := by
  cases step with
  | token index value waits available => exact kept_setWorker kept (by rw [waits]; rfl)
  | interrupted index waits => exact kept_setWorker kept (by rw [waits]; rfl)
  | locked index awake free => exact kept_setWorker kept (by rw [awake]; rfl)
  | foundEmpty index inside empty => exact kept_setWorker kept (by rw [inside]; rfl)
  | leftEmpty index inside => exact kept_setWorker kept (by rw [inside]; rfl)
  | leftTaken index request inside => exact kept_setWorker kept (by rw [inside]; rfl)
  | popped index request rest inside queued =>
      have moved := total_update hand before.workers index (.unlockTaken request)
      rw [inside] at moved
      simp only [hand, add_zero] at moved
      simp only [Kept, PoolState.setWorker_taken, PoolState.setWorker_workers,
        PoolState.setWorker_processed, nonNull_append, nonNull_singleton, moved]
      rw [show nonNull before.taken = _ from kept, add_right_comm]
  | finished index request holds =>
      have moved := total_update hand before.workers index .waiting
      rw [holds] at moved
      simp only [hand, add_zero] at moved
      simp only [Kept, PoolState.setWorker_taken, PoolState.setWorker_workers,
        PoolState.setWorker_processed, coe_processed]
      rw [show nonNull before.taken = _ from kept, ← moved, add_right_comm, add_assoc]
  | _ => exact kept

/-- The call whose number was given out last stands where the lock says. -/
def Append.Numbered (calls : Nat) (appended : List (Request T))
    (returned : List (Request T × Bool)) : Append T → Prop
  | .test request | .refuse request =>
      request.call + 1 = calls ∧ (∀ other ∈ appended, other.call < request.call) ∧
        ∀ result ∈ returned, result.1.call < request.call
  | .post request | .accept request =>
      request.call + 1 = calls ∧ request ∈ appended ∧
        ∀ result ∈ returned, result.1.call < request.call

/-- Calls are numbered in the order in which they take the lock. -/
structure Numbered (pool : PoolState T threadNumber) : Prop where
  increasing : pool.appended.Pairwise fun first second => first.call < second.call
  given : ∀ request ∈ pool.appended, request.call < pool.calls
  answered : ∀ result ∈ pool.returned, result.1.call < pool.calls
  accepted : ∀ request, (request, true) ∈ pool.returned → request ∈ pool.appended
  refused : ∀ request, (request, false) ∈ pool.returned →
    ∀ other ∈ pool.appended, other.call ≠ request.call
  inside : ∀ phase, pool.mQueuelocker = .append phase →
    phase.Numbered pool.calls pool.appended pool.returned

theorem numbered_new : Numbered (PoolState.new : PoolState T threadNumber) where
  increasing := .nil
  given := fun _ member => by cases member
  answered := fun _ member => by cases member
  accepted := fun _ member => by cases member
  refused := fun _ member => by cases member
  inside := fun _ held => by cases held

/-- Only the lock moved, and not into `append`. -/
theorem Numbered.transport {before after : PoolState T threadNumber}
    (numbered : Numbered before)
    (calls : after.calls = before.calls) (appended : after.appended = before.appended)
    (returned : after.returned = before.returned)
    (lock : ∀ phase, after.mQueuelocker = .append phase →
      before.mQueuelocker = .append phase) : Numbered after where
  increasing := by rw [appended]; exact numbered.increasing
  given := by rw [appended, calls]; exact numbered.given
  answered := by rw [returned, calls]; exact numbered.answered
  accepted := by rw [returned, appended]; exact numbered.accepted
  refused := by rw [returned, appended]; exact numbered.refused
  inside := by
    intro phase held
    rw [calls, appended, returned]
    exact numbered.inside phase (lock phase held)

/-- Taking the lock gives out the next number, above all earlier ones. -/
theorem numbered_enter {pool : PoolState T threadNumber} (numbered : Numbered pool)
    (pointer : Option T) :
    Numbered { pool with
      mQueuelocker := .append (.test ⟨pool.calls, pointer⟩)
      calls := pool.calls + 1 } where
  increasing := numbered.increasing
  given := fun request member => Nat.lt_succ_of_lt (numbered.given request member)
  answered := fun result member => Nat.lt_succ_of_lt (numbered.answered result member)
  accepted := numbered.accepted
  refused := numbered.refused
  inside := by
    intro phase held
    cases held
    exact ⟨rfl, numbered.given, numbered.answered⟩

theorem numbered_push {pool : PoolState T threadNumber} (numbered : Numbered pool)
    {request : Request T} (held : pool.mQueuelocker = .append (.test request)) :
    Numbered { pool with
      mWorkqueue := pool.mWorkqueue ++ [request]
      appended := pool.appended ++ [request]
      mQueuelocker := .append (.post request) } := by
  obtain ⟨last, above, answers⟩ := numbered.inside _ held
  refine ⟨?_, ?_, numbered.answered, ?_, ?_, ?_⟩
  · refine List.pairwise_append.mpr ⟨numbered.increasing, List.pairwise_singleton _ _, ?_⟩
    intro earlier member latest same
    rw [List.mem_singleton.mp same]
    exact above earlier member
  · intro other member
    rcases List.mem_append.mp member with old | new
    · exact numbered.given other old
    · rw [List.mem_singleton.mp new]
      change request.call < pool.calls
      omega
  · intro other answered
    exact List.mem_append_left _ (numbered.accepted other answered)
  · intro other answered queued member
    rcases List.mem_append.mp member with old | new
    · exact numbered.refused other answered queued old
    · rw [List.mem_singleton.mp new]
      exact Nat.ne_of_gt (answers _ answered)
  · intro phase inside
    cases inside
    exact ⟨last, List.mem_append_right _ (List.mem_singleton_self request), answers⟩

/-- Leaving `append` records an answer that fits what was pushed. -/
theorem numbered_return {pool : PoolState T threadNumber} (numbered : Numbered pool)
    {request : Request T} {answer : Bool} (number : request.call < pool.calls)
    (pushed : answer = true → request ∈ pool.appended)
    (kept : answer = false → ∀ other ∈ pool.appended, other.call ≠ request.call) :
    Numbered { pool with
      mQueuelocker := .free
      returned := pool.returned ++ [(request, answer)] } := by
  refine ⟨numbered.increasing, numbered.given, ?_, ?_, ?_, ?_⟩
  · intro result member
    rcases List.mem_append.mp member with old | new
    · exact numbered.answered result old
    · rw [List.mem_singleton.mp new]
      exact number
  · intro other member
    rcases List.mem_append.mp member with old | new
    · exact numbered.accepted other old
    · cases List.mem_singleton.mp new
      exact pushed rfl
  · intro other member
    rcases List.mem_append.mp member with old | new
    · exact numbered.refused other old
    · cases List.mem_singleton.mp new
      exact kept rfl
  · intro phase held
    cases held

theorem numbered_step {before after : PoolState T threadNumber} (numbered : Numbered before)
    (step : PoolStep mMaxRequests before after) : Numbered after := by
  cases step with
  | enter pointer free => exact numbered_enter numbered pointer
  | refused request held full =>
      have facts := numbered.inside _ held
      refine ⟨numbered.increasing, numbered.given, numbered.answered, numbered.accepted,
        numbered.refused, ?_⟩
      intro phase inside
      cases inside
      exact facts
  | pushed request held room => exact numbered_push numbered held
  | posted request held =>
      have facts := numbered.inside _ held
      refine ⟨numbered.increasing, numbered.given, numbered.answered, numbered.accepted,
        numbered.refused, ?_⟩
      intro phase inside
      cases inside
      exact facts
  | accepted request held =>
      obtain ⟨last, member, _⟩ := numbered.inside _ held
      exact numbered_return numbered (by omega) (fun _ => member) (fun wrong => by cases wrong)
  | rejected request held =>
      obtain ⟨last, below, _⟩ := numbered.inside _ held
      exact numbered_return numbered (by omega) (fun wrong => by cases wrong)
        (fun _ other member => Nat.ne_of_lt (below other member))
  | token => exact numbered.transport rfl rfl rfl (fun _ held => held)
  | interrupted => exact numbered.transport rfl rfl rfl (fun _ held => held)
  | locked => exact numbered.transport rfl rfl rfl (fun _ held => by cases held)
  | foundEmpty => exact numbered.transport rfl rfl rfl (fun _ held => held)
  | popped => exact numbered.transport rfl rfl rfl (fun _ held => held)
  | leftEmpty => exact numbered.transport rfl rfl rfl (fun _ held => by cases held)
  | leftTaken => exact numbered.transport rfl rfl rfl (fun _ held => by cases held)
  | finished => exact numbered.transport rfl rfl rfl (fun _ held => held)

/-! ## Every run -/

section Reached

variable {pool : PoolState T threadNumber}
  (reached : (threadPool T mMaxRequests threadNumber).Reachable pool)

include reached

theorem reachable_fifo : Fifo pool := by
  refine threadPool_invariant ?_ (fun _ _ => fifo_step) reached
  exact List.append_nil []

theorem reachable_kept : Kept pool := by
  refine threadPool_invariant ?_ (fun _ _ => kept_step) reached
  have nothing : total hand (PoolState.new : PoolState T threadNumber).workers = 0 :=
    total_eq_zero fun _ => rfl
  rw [Kept, nothing]
  rfl

theorem reachable_numbered : Numbered pool :=
  threadPool_invariant numbered_new (fun _ _ => numbered_step) reached

/-- What was pushed is queued, held or processed, with multiplicity. -/
theorem reachable_conserved :
    nonNull pool.appended =
      nonNull pool.mWorkqueue + total hand pool.workers + ↑pool.processed := by
  rw [← show _ = pool.appended from reachable_fifo reached, nonNull_append,
    show nonNull pool.taken = _ from reachable_kept reached, add_comm, add_assoc]

theorem reachable_nodup : pool.appended.Nodup := by
  refine (reachable_numbered reached).increasing.imp ?_
  intro first second smaller same
  rw [same] at smaller
  exact Nat.lt_irrefl _ smaller

end Reached

/--
Every accepted request that is not null is in exactly one of the queue, the
hands of one worker and the processed history; requests leave the queue in the
order they entered it; a refused request is never processed.
-/
theorem requests_conserved [DecidableEq T] {pool : PoolState T threadNumber}
    (reached : (threadPool T mMaxRequests threadNumber).Reachable pool) :
    (∀ request, (request, true) ∈ pool.returned → request.pointer ≠ none →
      pool.mWorkqueue.count request + (total hand pool.workers).count request +
        pool.processed.count request = 1) ∧
    nonNull pool.appended =
      nonNull pool.mWorkqueue + total hand pool.workers + ↑pool.processed ∧
    pool.taken ++ pool.mWorkqueue = pool.appended ∧
    (∀ request, (request, false) ∈ pool.returned → request ∉ pool.processed) := by
  have numbered := reachable_numbered reached
  have conserved := reachable_conserved reached
  refine ⟨?_, conserved, reachable_fifo reached, ?_⟩
  · intro request answered present
    have once : pool.appended.count request = 1 :=
      List.count_eq_one_of_mem (reachable_nodup reached) (numbered.accepted request answered)
    have counted := congrArg (Multiset.count request) conserved
    simp only [Multiset.count_add, count_nonNull _ present, Multiset.coe_count, once] at counted
    exact counted.symm
  · intro request answered member
    have inside : request ∈ nonNull pool.appended := by
      rw [conserved]
      exact Multiset.mem_add.mpr (.inr (Multiset.mem_coe.mpr member))
    exact numbered.refused request answered request
      (List.mem_of_mem_filter (Multiset.mem_coe.mp inside)) rfl

/-- One producer and one worker: request 7 is appended, popped without a token
after an interrupted wait, and processed. -/
def drained : List (PoolLabel Nat 1) :=
  [.enter (some 7), .advance, .advance, .advance, .wait 0 false, .work 0, .work 0, .work 0,
    .work 0]

theorem requests_conserved_drained :
    ∃ pool : PoolState Nat 1, (threadPool Nat 1 1).Reachable pool ∧
      pool.returned = [(⟨0, some 7⟩, true)] ∧
      pool.mWorkqueue.count ⟨0, some 7⟩ + (total hand pool.workers).count ⟨0, some 7⟩ +
        pool.processed.count ⟨0, some 7⟩ = 1 := by
  obtain ⟨pool, reached, ended⟩ := Machine.exists_reachableUnder_of_follow
    (threadPool Nat 1 1) (fun _ _ => True) drained
    (fun pool => pool.returned == [(⟨0, some 7⟩, true)]) rfl (by decide)
  have answers : pool.returned = [(⟨0, some 7⟩, true)] := eq_of_beq ended
  exact ⟨pool, reached, answers,
    (requests_conserved reached).1 _ (by rw [answers]; exact List.mem_singleton_self _)
      (Option.some_ne_none _)⟩

end LibNet.Base
