import LibNet.Base.ThreadPoolQueue
import LibNet.Base.ThreadPoolWakeups
import LibNet.Net.EdgeTriggered
import LibNet.Runs.Refine

/-!
# The server with its thread pool as it is

Elsewhere `append` puts a request into the work queue in one step and an idle worker takes it out
in one.  Here the event loop and the workers go through `append` and `run` of `thread_pool.h` with
its mutex and its semaphore, one step at a time, while everything else goes on.  What is seen of
that from outside is the server of the other modules.
-/

namespace LibNet.Base

variable {T : Type} {threadNumber : Nat}

/-- The worker has its request and has released the mutex. -/
def Worker.isHanded : Worker T → Bool
  | .handed _ => true
  | _ => false

/-- The worker has a request that is not processed yet. -/
def Worker.pending : Worker T → Bool
  | .unlockTaken _ => true
  | .handed _ => true
  | _ => false

/-- The pointer a worker has just popped. -/
def Worker.popped? : Worker T → Option T
  | .unlockTaken request => request.pointer
  | _ => none

/-- The request `append` was called with. -/
def Append.request : Append T → Request T
  | .test request => request
  | .post request => request
  | .accept request => request
  | .refuse request => request

/-- `append` has come past its size test, and returns without another look at the queue. -/
def Holder.decided : Holder T threadNumber → Bool
  | .append (.test _) => false
  | .append _ => true
  | _ => false

end LibNet.Base

namespace LibNet.Net

open LibNet.Runs
open LibNet.Base

/-- `m_thread_pool`, and the server without the work queue.  A worker of `net` is at its request
from the pop on, and idle when `process` has returned. -/
structure Pooled where
  mThreadPool : PoolState Int threadNumber
  net : Server

inductive PooledLabel where
  | net (action : Action)
  | pool (label : PoolLabel Int threadNumber)

/-- `append` returns to `recv_msg`, and the event loop goes on. -/
def Loop.returned : Loop → Loop
  | .append _ _ events => .handle events
  | loop => loop

/-- A worker has popped a pointer: it is going to call `process` unless the pointer is null. -/
def Server.handOver (server : Server) (index : Fin threadNumber) : Option Int → Server
  | some taskId => server.setWorker index (.popped taskId)
  | none => server

namespace Pooled

/-- The steps that are not those of the thread pool.  A worker calls `process` when it has released
the mutex. -/
def mayNet (state : Pooled) : Action → Bool
  | .take _ => false
  | .loop => !state.net.loop.appending
  | .enter worker => (state.mThreadPool.workers worker).isHanded
  | _ => true

/-- The event loop calls `append` with the task of its event, and a worker goes back to `wait` when
`process` has returned. -/
def mayPool (state : Pooled) : PoolLabel Int threadNumber → Bool
  | .enter pointer =>
      match state.net.loop with
      | .append taskId _ _ => decide (pointer = some taskId)
      | _ => false
  | .work index =>
      !(state.mThreadPool.workers index).isHanded ||
        decide (state.net.workers index = .idle)
  | _ => true

/-- What a step of the thread pool is for the rest: `append` returns, or a worker has a request. -/
def answer (net : Server) (pool : PoolState Int threadNumber) : PoolLabel Int threadNumber → Server
  | .advance =>
      if pool.mQueuelocker = .free then { net with loop := net.loop.returned } else net
  | .work index => net.handOver index (pool.workers index).popped?
  | _ => net

def step? (state : Pooled) : PooledLabel → Option Pooled
  | .net action =>
      if state.mayNet action then
        (state.net.step? action).map fun net => { state with net := net }
      else none
  | .pool label =>
      if state.mayPool label then
        (state.mThreadPool.step? maxRequests label).map fun pool =>
          ⟨pool, answer state.net pool label⟩
      else none

end Pooled

def pooledServer : Machine Pooled PooledLabel where
  Start := fun state => state.mThreadPool = .new ∧ server.Start state.net
  step? := Pooled.step?

/-- The same server with another queue and another place of the event loop. -/
abbrev Server.shownWith (server : Server) (queue : List Int) (loop : Loop) : Server :=
  { server with mWorkqueue := queue, loop := loop }

namespace Pooled

def requests (state : Pooled) : List Int := state.mThreadPool.mWorkqueue.filterMap Request.pointer

def loop (state : Pooled) : Loop :=
  if state.mThreadPool.mQueuelocker.decided then state.net.loop.returned
  else state.net.loop

/-- `append` is seen at its size test, and taking a request at the pop. -/
def view (state : Pooled) : Server := state.net.shownWith state.requests state.loop

def seen (state : Pooled) : PooledLabel → Option Action
  | .net action => some action
  | .pool .advance =>
      match state.mThreadPool.mQueuelocker with
      | .append (.test _) => some .loop
      | _ => none
  | .pool (.work index) =>
      match state.mThreadPool.workers index, state.mThreadPool.mWorkqueue with
      | .locked, _ :: _ => some (.take index)
      | _, _ => none
  | .pool _ => none

end Pooled

variable {server after : Server} {action : Action}

/-- Peers, the application and workers at their requests look neither at the queue nor at where the
event loop is. -/
def Action.aside : Action → Bool
  | .epollWait _ => false
  | .accept _ => false
  | .loop => false
  | .take _ => false
  | _ => true

theorem kernelRead?_shownWith (fd : Int) (call : ReadCall) (queue : List Int) (loop : Loop) :
    (server.shownWith queue loop).kernelRead? fd call = (server.kernelRead? fd call).map
      fun answer => (answer.1, answer.2.shownWith queue loop) := by
  cases call with
  | data count =>
      simp only [Server.kernelRead?, Option.map_if]
      rfl
  | foreign bytes => simp only [Server.kernelRead?, Option.map_if]
  | eof =>
      simp only [Server.kernelRead?, apply_ite (Option.map _), Option.map_some, Option.map_none]
      rfl
  | eagain =>
      simp only [Server.kernelRead?, apply_ite (Option.map _), Option.map_some, Option.map_none]
  | error => rfl

theorem step?_shownWith (aside : action.aside = true) (queue : List Int) (loop : Loop) :
    (server.shownWith queue loop).step? action =
      (server.step? action).map fun after => after.shownWith queue loop := by
  cases action with
  | epollWait fds => cases aside
  | accept connFd => cases aside
  | loop => cases aside
  | take worker => cases aside
  | connect => rfl
  | arrive conn bytes =>
      simp only [Server.step?, Server.peer?, Option.map_if]
      rfl
  | peerClose conn =>
      simp only [Server.step?, Server.peer?, Option.map_if]
      rfl
  | peerReset conn =>
      simp only [Server.step?, Server.peer?, Option.map_if]
      rfl
  | enter worker =>
      simp only [Server.step?, Server.enter?]
      cases server.workers worker with
      | popped taskId =>
          dsimp only
          cases TcpSocket.process (server.task taskId).getWrFlag with
          | recvBuf => rfl
          | sendBuf => rfl
      | _ => rfl
  | read worker call =>
      simp only [Server.step?, Server.read?]
      cases server.workers worker with
      | reading taskId length =>
          dsimp only
          rw [kernelRead?_shownWith]
          cases server.kernelRead? (server.task taskId).mSocket call with
          | none => rfl
          | some answer =>
              obtain ⟨result, next⟩ := answer
              dsimp only [Option.map_some]
              cases TcpSocket.recvNext length result with
              | again total =>
                  dsimp only
                  rw [Option.map_if]
                  rfl
              | peerClosed => rfl
              | store total bytes =>
                  dsimp only
                  rw [Option.map_if]
                  rfl
      | _ => rfl
  | store worker =>
      simp only [Server.step?, Server.store?]
      cases server.workers worker with
      | holding taskId length bytes =>
          dsimp only
          rw [Option.map_if]
          rfl
      | _ => rfl
  | pull =>
      simp only [Server.step?, Server.pull?]
      obtain ⟨front, pool⟩ := server.pool.getUndoTask
      cases front <;> rfl
  | reply slot bytes =>
      simp only [Server.step?, Server.reply?]
      cases server.slots[slot]? with
      | none => rfl
      | some held =>
          cases held with
          | sending message frame => rfl
          | holding message =>
              dsimp only
              cases message.sendMsg with
              | task taskId =>
                  dsimp only
                  rw [Option.map_if]
                  rfl
              | temporary => rfl
  | discard slot =>
      simp only [Server.step?, Server.discard?]
      cases server.slots[slot]? with
      | none => rfl
      | some held => cases held <;> rfl
  | push slot heap =>
      simp only [Server.step?, Server.push?]
      cases server.slots[slot]? with
      | none => rfl
      | some held =>
          cases held with
          | sending message frame => rfl
          | holding message =>
              dsimp only
              obtain ⟨counted, frame⟩ := (server.task message.taskId).sendStart heap
              cases frame <;> rfl
  | write slot result =>
      simp only [Server.step?, Server.write?]
      cases server.slots[slot]? with
      | none => rfl
      | some held =>
          cases held with
          | holding message => rfl
          | sending message frame =>
              dsimp only
              cases result with
              | wrote count =>
                  cases count with
                  | zero => rfl
                  | succ count =>
                      dsimp only
                      rw [Option.map_if]
                      rfl
              | _ => rfl

/-- The event loop does not look at the queue either, but in `append`. -/
theorem step?_queue (inLoop : action.aside = false) (notTake : ∀ worker, action ≠ .take worker)
    (outside : server.loop.appending = false) (queue : List Int) :
    (server.shownWith queue server.loop).step? action =
      (server.step? action).map fun after => after.shownWith queue after.loop := by
  cases action with
  | epollWait fds =>
      simp only [Server.step?, Server.epollWait?]
      cases server.loop with
      | handle events =>
          cases events with
          | nil =>
              dsimp only
              rw [Option.map_if]
              rfl
          | cons event events => rfl
      | _ => rfl
  | accept connFd =>
      simp only [Server.step?, Server.accept?]
      cases server.loop with
      | handle events =>
          cases events with
          | nil => rfl
          | cons event events =>
              dsimp only
              by_cases listens : event.hup = false ∧ event.fd = server.pool.mListenFd
              · rw [if_pos listens, if_pos listens]
                cases connFd with
                | none => rfl
                | some fd =>
                    dsimp only
                    by_cases allowed : 0 ≤ fd ∧ fd ∉ server.live ∧ fd ∉ server.reserved ∧
                        server.accepted < server.connected
                    · rw [if_pos allowed, if_pos allowed]
                      cases server.pool.addConnect? (some fd) with
                      | none => rfl
                      | some answer => rfl
                    · rw [if_neg allowed, if_neg allowed]
                      rfl
              · rw [if_neg listens, if_neg listens]
                rfl
      | _ => rfl
  | loop =>
      simp only [Server.step?, Server.loop?]
      cases place : server.loop with
      | handle events =>
          cases events with
          | nil => rfl
          | cons event events =>
              dsimp only
              by_cases hup : event.hup = true
              · rw [if_pos hup, if_pos hup]
                cases server.pool.readyTask? event.fd <;> rfl
              · rw [if_neg hup, if_neg hup]
                by_cases listens : event.fd = server.pool.mListenFd
                · rw [if_pos listens, if_pos listens]
                  rfl
                · rw [if_neg listens, if_neg listens]
                  cases server.pool.recvMsg? event.fd (.read (server.connAt event.fd)) <;> rfl
      | append taskId fd events =>
          rw [place] at outside
          cases outside
      | clean delSubscript connFd events => rfl
      | finish delSubscript connFd events =>
          dsimp only
          cases server.pool.addCloseTask? delSubscript (fun _ => Byte.zero)
            (.close (server.connAt connFd)) <;> rfl
  | take worker => exact absurd rfl (notTake worker)
  | _ => cases inLoop

/-! ## What a step of the thread pool can do -/

variable {state next : Pooled} {label : PoolLabel Int threadNumber}

/-- Every way a step of the thread pool can go, and what it is for the rest. -/
inductive PoolMove (state : Pooled) : PoolLabel Int threadNumber → Pooled → Prop where
  | enter (taskId fd : Int) (events : List Event)
      (calls : state.net.loop = .append taskId fd events)
      (free : state.mThreadPool.mQueuelocker = .free) :
      PoolMove state (.enter (some taskId)) { state with
        mThreadPool := { state.mThreadPool with
          mQueuelocker := .append (.test ⟨state.mThreadPool.calls, some taskId⟩)
          calls := state.mThreadPool.calls + 1 } }
  | refused (request : Request Int)
      (inside : state.mThreadPool.mQueuelocker = .append (.test request))
      (full : maxRequests < state.mThreadPool.mWorkqueue.length) :
      PoolMove state .advance { state with
        mThreadPool := { state.mThreadPool with mQueuelocker := .append (.refuse request) } }
  | pushed (request : Request Int)
      (inside : state.mThreadPool.mQueuelocker = .append (.test request))
      (room : state.mThreadPool.mWorkqueue.length ≤ maxRequests) :
      PoolMove state .advance { state with
        mThreadPool := { state.mThreadPool with
          mWorkqueue := state.mThreadPool.mWorkqueue ++ [request]
          appended := state.mThreadPool.appended ++ [request]
          mQueuelocker := .append (.post request) } }
  | posted (request : Request Int)
      (inside : state.mThreadPool.mQueuelocker = .append (.post request)) :
      PoolMove state .advance { state with
        mThreadPool := { state.mThreadPool with
          mQueuestat := state.mThreadPool.mQueuestat + 1
          mQueuelocker := .append (.accept request) } }
  | returned (phase : Base.Append Int) (outcomes : List (Request Int × Bool))
      (inside : state.mThreadPool.mQueuelocker = .append phase)
      (decided : state.mThreadPool.mQueuelocker.decided = true) :
      PoolMove state .advance
        ⟨{ state.mThreadPool with mQueuelocker := .free, returned := outcomes },
          { state.net with loop := state.net.loop.returned }⟩
  | woken (index : Fin threadNumber) (token : Bool) (value : Nat)
      (waits : state.mThreadPool.workers index = .waiting) :
      PoolMove state (.wait index token) { state with
        mThreadPool := { state.mThreadPool with mQueuestat := value }.setWorker index .woken }
  | locked (index : Fin threadNumber) (awake : state.mThreadPool.workers index = .woken)
      (free : state.mThreadPool.mQueuelocker = .free) :
      PoolMove state (.work index) { state with
        mThreadPool := { state.mThreadPool with
          mQueuelocker := .worker index }.setWorker index .locked }
  | foundEmpty (index : Fin threadNumber) (inside : state.mThreadPool.workers index = .locked)
      (empty : state.mThreadPool.mWorkqueue = []) :
      PoolMove state (.work index) { state with
        mThreadPool := state.mThreadPool.setWorker index .unlockEmpty }
  | popped (index : Fin threadNumber) (request : Request Int) (rest : List (Request Int))
      (inside : state.mThreadPool.workers index = .locked)
      (queued : state.mThreadPool.mWorkqueue = request :: rest) :
      PoolMove state (.work index)
        ⟨{ state.mThreadPool with
            mWorkqueue := rest
            taken := state.mThreadPool.taken ++ [request] }.setWorker index (.unlockTaken request),
          state.net.handOver index request.pointer⟩
  | leftEmpty (index : Fin threadNumber)
      (inside : state.mThreadPool.workers index = .unlockEmpty) :
      PoolMove state (.work index) { state with
        mThreadPool := { state.mThreadPool with
          mQueuelocker := .free }.setWorker index .waiting }
  | leftTaken (index : Fin threadNumber) (request : Request Int)
      (inside : state.mThreadPool.workers index = .unlockTaken request) :
      PoolMove state (.work index) { state with
        mThreadPool := { state.mThreadPool with
          mQueuelocker := .free }.setWorker index (.handed request) }
  | finished (index : Fin threadNumber) (request : Request Int) (done : List (Request Int))
      (holds : state.mThreadPool.workers index = .handed request)
      (idle : state.net.workers index = .idle) :
      PoolMove state (.work index) { state with
        mThreadPool := { state.mThreadPool with processed := done }.setWorker index .waiting }

theorem Pooled.step?_pool (taken : state.step? (.pool label) = some next) :
    state.mayPool label = true ∧ ∃ pool,
      state.mThreadPool.step? maxRequests label = some pool ∧
      next = ⟨pool, answer state.net pool label⟩ := by
  simp only [Pooled.step?] at taken
  by_cases may : state.mayPool label = true
  · rw [if_pos may] at taken
    obtain ⟨pool, moved, same⟩ := Option.map_eq_some_iff.mp taken
    exact ⟨may, pool, moved, same.symm⟩
  · rw [if_neg may] at taken
    cases taken

theorem poolMove_of_enter {pointer : Option Int}
    (taken : state.step? (.pool (.enter pointer)) = some next) :
    PoolMove state (.enter pointer) next := by
  obtain ⟨may, pool, moved, rfl⟩ := Pooled.step?_pool taken
  cases calls : state.net.loop with
  | append taskId fd events =>
      simp only [Pooled.mayPool, calls, decide_eq_true_eq] at may
      subst may
      cases lock : state.mThreadPool.mQueuelocker with
      | free =>
          simp only [PoolState.step?, lock, Option.some.injEq] at moved
          subst moved
          exact .enter taskId fd events calls lock
      | append phase => simp [PoolState.step?, lock] at moved
      | worker holder => simp [PoolState.step?, lock] at moved
  | _ => simp [Pooled.mayPool, calls] at may

theorem poolMove_of_advance (taken : state.step? (.pool .advance) = some next) :
    PoolMove state .advance next := by
  obtain ⟨may, pool, moved, rfl⟩ := Pooled.step?_pool taken
  cases lock : state.mThreadPool.mQueuelocker with
  | free => simp [PoolState.step?, lock] at moved
  | worker holder => simp [PoolState.step?, lock] at moved
  | append phase =>
      simp only [PoolState.step?, lock, Option.some.injEq] at moved
      subst moved
      cases phase with
      | test request =>
          by_cases full : state.mThreadPool.mWorkqueue.length > maxRequests
          · simp only [PoolState.append, if_pos full]
            exact .refused request lock full
          · simp only [PoolState.append, if_neg full]
            exact .pushed request lock (Nat.le_of_not_lt full)
      | post request => exact .posted request lock
      | accept request => exact .returned _ _ lock (by rw [lock]; rfl)
      | refuse request => exact .returned _ _ lock (by rw [lock]; rfl)

theorem poolMove_of_wait {index : Fin threadNumber} {token : Bool}
    (taken : state.step? (.pool (.wait index token)) = some next) :
    PoolMove state (.wait index token) next := by
  obtain ⟨may, pool, moved, rfl⟩ := Pooled.step?_pool taken
  simp only [PoolState.step?, PoolState.wait?] at moved
  cases place : state.mThreadPool.workers index with
  | waiting =>
      simp only [place] at moved
      cases token with
      | false =>
          simp only [Bool.false_eq_true, if_false, Option.some.injEq] at moved
          subst moved
          exact .woken index false state.mThreadPool.mQueuestat place
      | true =>
          cases available : state.mThreadPool.mQueuestat with
          | zero => simp [available] at moved
          | succ value =>
              simp only [if_true, available, Option.some.injEq] at moved
              subst moved
              exact .woken index true value place
  | _ => simp [place] at moved

theorem poolMove_of_work {index : Fin threadNumber}
    (taken : state.step? (.pool (.work index)) = some next) :
    PoolMove state (.work index) next := by
  obtain ⟨may, pool, moved, rfl⟩ := Pooled.step?_pool taken
  simp only [PoolState.step?, PoolState.run?] at moved
  -- What the rest gets depends on where the worker is after its step.
  have placed : ∀ (middle : PoolState Int threadNumber) (worker : Worker Int),
      Pooled.answer state.net (middle.setWorker index worker) (.work index) =
        state.net.handOver index worker.popped? := by
    intro middle worker
    simp only [Pooled.answer, PoolState.setWorker_workers, Function.update_self]
  cases place : state.mThreadPool.workers index with
  | waiting => simp [place] at moved
  | woken =>
      cases lock : state.mThreadPool.mQueuelocker with
      | free =>
          simp only [place, lock, Option.some.injEq] at moved
          subst moved
          rw [placed]
          exact .locked index place lock
      | append phase => simp [place, lock] at moved
      | worker holder => simp [place, lock] at moved
  | locked =>
      cases queue : state.mThreadPool.mWorkqueue with
      | nil =>
          simp only [place, queue, Option.some.injEq] at moved
          subst moved
          rw [placed]
          exact .foundEmpty index place queue
      | cons request rest =>
          simp only [place, queue, Option.some.injEq] at moved
          subst moved
          rw [placed]
          exact .popped index request rest place queue
  | unlockEmpty =>
      simp only [place, Option.some.injEq] at moved
      subst moved
      rw [placed]
      exact .leftEmpty index place
  | unlockTaken request =>
      simp only [place, Option.some.injEq] at moved
      subst moved
      rw [placed]
      exact .leftTaken index request place
  | handed request =>
      simp only [place, Option.some.injEq] at moved
      subst moved
      rw [placed]
      refine .finished index request _ place ?_
      simpa [Pooled.mayPool, place, Worker.isHanded] using may

theorem poolMove_of_step? (taken : state.step? (.pool label) = some next) :
    PoolMove state label next := by
  cases label with
  | enter pointer => exact poolMove_of_enter taken
  | advance => exact poolMove_of_advance taken
  | wait index token => exact poolMove_of_wait taken
  | work index => exact poolMove_of_work taken

/-! ## What every step keeps -/

/-- The thread pool is one of its own runs, with no null pointer in its queue; the event loop is in
`append` while `append` has the mutex, for the same task; a worker without a request is idle. -/
structure Coupled (state : Pooled) : Prop where
  reached : (threadPool Int maxRequests threadNumber).Reachable state.mThreadPool
  tables : Tables state.net
  queued : ∀ request ∈ state.mThreadPool.mWorkqueue, ∃ taskId, request.pointer = some taskId
  calling : ∀ phase, state.mThreadPool.mQueuelocker = .append phase →
    ∃ taskId fd events, phase.request.pointer = some taskId ∧
      state.net.loop = .append taskId fd events
  idle : ∀ index, (state.mThreadPool.workers index).pending = false →
    state.net.workers index = .idle

theorem Coupled.appending (coupled : Coupled state) {phase : Base.Append Int}
    (inside : state.mThreadPool.mQueuelocker = .append phase) :
    state.net.loop.appending = true := by
  obtain ⟨taskId, fd, events, _, reached⟩ := coupled.calling phase inside
  rw [reached]
  rfl

/-- The mutex of the queue is with the worker inside its section. -/
theorem Coupled.locker (coupled : Coupled state) {index : Fin threadNumber}
    (inside : (state.mThreadPool.workers index).Inside) :
    state.mThreadPool.mQueuelocker = .worker index :=
  (reachable_wakeful coupled.reached).exclusive index inside

theorem ServerStep.idle (step : ServerStep server action after)
    (notTake : ∀ worker, action ≠ .take worker) {worker : Fin threadNumber}
    (idle : server.workers worker = .idle) : after.workers worker = .idle := by
  have other : ∀ (moved : Fin threadNumber) (reader : Reader), server.workers moved ≠ .idle →
      Function.update server.workers moved reader worker = .idle := by
    intro moved reader busy
    have different : worker ≠ moved := fun same => busy (same ▸ idle)
    rw [Function.update_of_ne different]
    exact idle
  cases step with
  | peer step => cases step <;> exact idle
  | loop step => cases step <;> exact idle
  | app step => cases step <;> exact idle
  | worker step =>
      cases step with
      | take moved taskId rest waits queued => exact absurd rfl (notTake moved)
      | enter moved taskId popped => exact other moved _ (by rw [popped]; simp)
      | data moved count taskId length fd conn reads socket member opened positive available fits
          representable => exact other moved _ (by rw [reads]; simp)
      | foreign moved bytes taskId length reads fits closed representable =>
          exact other moved _ (by rw [reads]; simp)
      | eof moved taskId length fd conn reads socket member opened empty =>
          exact other moved _ (by rw [reads]; simp)
      | foreignEof moved taskId length reads closed => exact other moved _ (by rw [reads]; simp)
      | eagain moved taskId length reads empty representable =>
          exact other moved _ (by rw [reads]; simp)
      | error moved taskId length reads representable =>
          exact other moved _ (by rw [reads]; simp)
      | store moved taskId length bytes holds fits => exact other moved _ (by rw [holds]; simp)

/-- The event loop handles no other event while it is in `append`. -/
theorem not_appending_of_step? (inLoop : action.aside = false)
    (notTake : ∀ worker, action ≠ .take worker)
    (outside : action = .loop → server.loop.appending = false)
    (taken : server.step? action = some after) : server.loop.appending = false := by
  cases action with
  | loop => exact outside rfl
  | take worker => exact absurd rfl (notTake worker)
  | epollWait fds =>
      cases place : server.loop with
      | append taskId fd events => simp [Server.step?, Server.epollWait?, place] at taken
      | _ => rfl
  | accept connFd =>
      cases place : server.loop with
      | append taskId fd events => simp [Server.step?, Server.accept?, place] at taken
      | _ => rfl
  | _ => cases inLoop

/-- Beside the steps of the thread pool, the event loop is not in `append` when it moves. -/
theorem Pooled.step?_net (taken : state.step? (.net action) = some next) :
    ∃ net, state.net.step? action = some net ∧ next = { state with net := net } ∧
      (∀ worker, action ≠ .take worker) ∧
      (action.aside = false → state.net.loop.appending = false) := by
  simp only [Pooled.step?] at taken
  by_cases may : state.mayNet action = true
  · rw [if_pos may] at taken
    obtain ⟨net, moved, same⟩ := Option.map_eq_some_iff.mp taken
    have notTake : ∀ worker, action ≠ .take worker := by
      rintro worker rfl
      cases may
    refine ⟨net, moved, same.symm, notTake, fun inLoop =>
      not_appending_of_step? inLoop notTake ?_ moved⟩
    rintro rfl
    simpa [Pooled.mayNet] using may
  · rw [if_neg may] at taken
    cases taken

theorem loop_of_aside (aside : action.aside = true) (taken : server.step? action = some after) :
    after.loop = server.loop := by
  have shown : server.step? action = _ := step?_shownWith aside server.mWorkqueue server.loop
  rw [taken, Option.map_some] at shown
  have same : after = after.shownWith server.mWorkqueue server.loop := Option.some.inj shown
  rw [same]

theorem Coupled.net (coupled : Coupled state) (taken : state.step? (.net action) = some next) :
    Coupled next := by
  obtain ⟨net, moved, rfl, notTake, outside⟩ := Pooled.step?_net taken
  have step := serverStep_of_step? coupled.tables moved
  refine ⟨coupled.reached, step.tables coupled.tables, coupled.queued, ?_, ?_⟩
  · intro phase inside
    obtain ⟨taskId, fd, events, pointer, reached⟩ := coupled.calling phase inside
    refine ⟨taskId, fd, events, pointer, ?_⟩
    cases aside : action.aside with
    | true => exact (loop_of_aside aside moved).trans reached
    | false =>
        have appending := coupled.appending inside
        rw [outside aside] at appending
        cases appending
  · exact fun index empty => step.idle notTake (coupled.idle index empty)

theorem handOver_of_ne {index other : Fin threadNumber} (different : other ≠ index)
    (pointer : Option Int) : (server.handOver index pointer).workers other =
      server.workers other := by
  cases pointer with
  | none => rfl
  | some taskId => exact Function.update_of_ne different ..

theorem handOver_loop (index : Fin threadNumber) (pointer : Option Int) :
    (server.handOver index pointer).loop = server.loop := by
  cases pointer <;> rfl

theorem Tables.handOver (tables : Tables server) (index : Fin threadNumber)
    (pointer : Option Int) : Tables (server.handOver index pointer) := by
  cases pointer with
  | none => exact tables
  | some taskId => exact tables.transport ⟨rfl, fun _ => rfl, fun _ => rfl⟩ rfl

theorem Tables.returned (tables : Tables server) :
    Tables { server with loop := server.loop.returned } := by
  cases place : server.loop with
  | append taskId fd events =>
      refine tables.proceed ⟨rfl, fun _ => rfl, fun _ => rfl⟩ ?_
        (tables.agenda.rest (by rw [place]; exact List.suffix_refl _))
      rw [place]
      rfl
  | _ => exact tables.transport ⟨rfl, fun _ => rfl, fun _ => rfl⟩ place.symm

/-- One worker of the thread pool moves. -/
theorem Coupled.idle_set (coupled : Coupled state) {index : Fin threadNumber}
    {worker : Worker Int} (empty : worker.pending = false → state.net.workers index = .idle)
    (other : Fin threadNumber)
    (none : (Function.update state.mThreadPool.workers index worker other).pending = false) :
    state.net.workers other = .idle := by
  by_cases same : other = index
  · subst same
    rw [Function.update_self] at none
    exact empty none
  · rw [Function.update_of_ne same] at none
    exact coupled.idle other none

theorem PoolMove.coupled (move : PoolMove state label next) (coupled : Coupled state)
    (reached : (threadPool Int maxRequests threadNumber).Reachable next.mThreadPool) :
    Coupled next := by
  cases move with
  | enter taskId fd events calls free =>
      refine ⟨reached, coupled.tables, coupled.queued, ?_, coupled.idle⟩
      rintro phase ⟨⟩
      exact ⟨taskId, fd, events, rfl, calls⟩
  | refused request inside full =>
      refine ⟨reached, coupled.tables, coupled.queued, ?_, coupled.idle⟩
      rintro phase ⟨⟩
      exact coupled.calling (.test request) inside
  | pushed request inside room =>
      refine ⟨reached, coupled.tables, ?_, ?_, coupled.idle⟩
      · intro other member
        rcases List.mem_append.mp member with earlier | new
        · exact coupled.queued other earlier
        · obtain ⟨taskId, _, _, pointer, _⟩ := coupled.calling _ inside
          exact ⟨taskId, List.mem_singleton.mp new ▸ pointer⟩
      · rintro phase ⟨⟩
        exact coupled.calling (.test request) inside
  | posted request inside =>
      refine ⟨reached, coupled.tables, coupled.queued, ?_, coupled.idle⟩
      rintro phase ⟨⟩
      exact coupled.calling (.post request) inside
  | returned phase outcomes inside decided =>
      exact ⟨reached, coupled.tables.returned, coupled.queued, fun _ none => (by cases none),
        coupled.idle⟩
  | woken index token value waits =>
      exact ⟨reached, coupled.tables, coupled.queued, coupled.calling,
        coupled.idle_set fun _ => coupled.idle index (by rw [waits]; rfl)⟩
  | locked index awake free =>
      exact ⟨reached, coupled.tables, coupled.queued, fun _ none => (by cases none),
        coupled.idle_set fun _ => coupled.idle index (by rw [awake]; rfl)⟩
  | foundEmpty index inside empty =>
      exact ⟨reached, coupled.tables, coupled.queued, coupled.calling,
        coupled.idle_set fun _ => coupled.idle index (by rw [inside]; rfl)⟩
  | popped index request rest inside queued =>
      refine ⟨reached, coupled.tables.handOver index _, ?_, ?_, ?_⟩
      · intro other member
        exact coupled.queued other (by rw [queued]; exact List.mem_cons_of_mem _ member)
      · intro phase held
        obtain ⟨taskId, fd, events, pointer, reached⟩ := coupled.calling phase held
        exact ⟨taskId, fd, events, pointer, (handOver_loop ..).trans reached⟩
      · intro other none
        have different : other ≠ index := by
          rintro rfl
          rw [PoolState.setWorker_workers, Function.update_self] at none
          cases none
        rw [handOver_of_ne different]
        rw [PoolState.setWorker_workers, Function.update_of_ne different] at none
        exact coupled.idle other none
  | leftEmpty index inside =>
      exact ⟨reached, coupled.tables, coupled.queued, fun _ none => (by cases none),
        coupled.idle_set fun _ => coupled.idle index (by rw [inside]; rfl)⟩
  | leftTaken index request inside =>
      exact ⟨reached, coupled.tables, coupled.queued, fun _ none => (by cases none),
        coupled.idle_set fun none => by cases none⟩
  | finished index request done holds idle =>
      exact ⟨reached, coupled.tables, coupled.queued, coupled.calling,
        coupled.idle_set fun _ => idle⟩

/-! ## What is seen moves as the server does -/

theorem Coupled.length_requests (coupled : Coupled state) :
    state.requests.length = state.mThreadPool.mWorkqueue.length := by
  refine List.filterMap_length_eq_length.mpr fun request member => ?_
  obtain ⟨taskId, pointer⟩ := coupled.queued request member
  rw [pointer]
  rfl

/-- The server looks the same when its queue and the place of its event loop do. -/
theorem view_congr (net : next.net = state.net)
    (queue : next.mThreadPool.mWorkqueue = state.mThreadPool.mWorkqueue)
    (decided : next.mThreadPool.mQueuelocker.decided = state.mThreadPool.mQueuelocker.decided) :
    next.view = state.view := by
  simp only [Pooled.view, Pooled.requests, Pooled.loop, net, queue, decided]

theorem PoolMove.hidden (move : PoolMove state label next) (coupled : Coupled state)
    (unseen : state.seen (.pool label) = none) : next.view = state.view := by
  cases move with
  | enter taskId fd events calls free => exact view_congr rfl rfl (by rw [free]; rfl)
  | refused request inside full => simp [Pooled.seen, inside] at unseen
  | pushed request inside room => simp [Pooled.seen, inside] at unseen
  | posted request inside => exact view_congr rfl rfl (by rw [inside]; rfl)
  | returned phase outcomes inside decided =>
      have before : state.loop = state.net.loop.returned := by simp [Pooled.loop, decided]
      simp only [Pooled.view, before]
      rfl
  | woken index token value waits => exact view_congr rfl rfl rfl
  | locked index awake free => exact view_congr rfl rfl (by rw [free]; rfl)
  | foundEmpty index inside empty => exact view_congr rfl rfl rfl
  | popped index request rest inside queued => simp [Pooled.seen, inside, queued] at unseen
  | leftEmpty index inside =>
      exact view_congr rfl rfl (by rw [coupled.locker (by rw [inside]; trivial)]; rfl)
  | leftTaken index request inside =>
      exact view_congr rfl rfl (by rw [coupled.locker (by rw [inside]; trivial)]; rfl)
  | finished index request done holds idle => exact view_congr rfl rfl rfl

/-- At the size test the event loop is seen to come back from `append`. -/
theorem view_decided {request : Request Int} {taskId fd : Int} {events : List Event}
    (inside : state.mThreadPool.mQueuelocker = .append (.test request))
    (calls : state.net.loop = .append taskId fd events) (net : next.net = state.net)
    (decided : next.mThreadPool.mQueuelocker.decided = true)
    (queue : next.requests = enqueue maxRequests state.requests taskId) :
    state.view.step? .loop = some next.view := by
  have before : state.loop = .append taskId fd events := by
    simp [Pooled.loop, inside, Holder.decided, calls]
  have later : next.loop = .handle events := by
    simp [Pooled.loop, decided, net, calls, Loop.returned]
  simp [Server.step?, Server.loop?, Pooled.view, before, later, net, queue]

theorem PoolMove.visible (move : PoolMove state label next) (coupled : Coupled state)
    (shown : state.seen (.pool label) = some action) :
    state.view.step? action = some next.view := by
  cases move with
  | refused request inside full =>
      obtain ⟨taskId, fd, events, pointer, calls⟩ := coupled.calling _ inside
      simp only [Pooled.seen, inside, Option.some.injEq] at shown
      subst shown
      refine view_decided inside calls rfl rfl (Eq.symm (if_pos ?_))
      rw [coupled.length_requests]
      exact full
  | pushed request inside room =>
      obtain ⟨taskId, fd, events, pointer, calls⟩ := coupled.calling _ inside
      have pointer : request.pointer = some taskId := pointer
      simp only [Pooled.seen, inside, Option.some.injEq] at shown
      subst shown
      refine view_decided inside calls rfl rfl ?_
      rw [enqueue, if_neg (by rw [coupled.length_requests]; exact Nat.not_lt.mpr room)]
      simp [Pooled.requests, pointer]
  | popped index request rest inside queued =>
      obtain ⟨taskId, pointer⟩ := coupled.queued request
        (by rw [queued]; exact List.mem_cons_self ..)
      have idle := coupled.idle index (by rw [inside]; rfl)
      have locker := coupled.locker (by rw [inside]; trivial)
      have first : state.requests = taskId :: rest.filterMap Request.pointer := by
        rw [Pooled.requests, queued, List.filterMap_cons_some pointer]
      simp only [Pooled.seen, inside, queued, Option.some.injEq] at shown
      subst shown
      have before : state.loop = state.net.loop := by simp [Pooled.loop, locker, Holder.decided]
      simp only [Server.step?, Server.take?, Pooled.view, first, idle, before, pointer,
        Option.some.injEq]
      simp [Pooled.loop, Pooled.requests, Server.handOver, locker, Holder.decided,
        Server.setWorker]
  | posted request inside => simp [Pooled.seen, inside] at shown
  | returned phase outcomes inside decided =>
      cases phase with
      | test request => simp [inside, Holder.decided] at decided
      | _ => simp [Pooled.seen, inside] at shown
  | enter taskId fd events calls free => cases shown
  | woken index token value waits => cases shown
  | locked index awake free => simp [Pooled.seen, awake] at shown
  | foundEmpty index inside empty => simp [Pooled.seen, inside, empty] at shown
  | leftEmpty index inside => simp [Pooled.seen, inside] at shown
  | leftTaken index request inside => simp [Pooled.seen, inside] at shown
  | finished index request done holds idle => simp [Pooled.seen, holds] at shown

theorem Coupled.visible (coupled : Coupled state) (taken : state.step? (.net action) = some next) :
    state.view.step? action = some next.view := by
  obtain ⟨net, moved, rfl, notTake, outside⟩ := Pooled.step?_net taken
  cases aside : action.aside with
  | true =>
      have loop := loop_of_aside aside moved
      rw [Pooled.view, step?_shownWith aside, moved, Option.map_some]
      simp only [Pooled.view, Pooled.loop, Pooled.requests, loop]
  | false =>
      have undecided : state.mThreadPool.mQueuelocker.decided = false := by
        cases lock : state.mThreadPool.mQueuelocker with
        | append phase =>
            have appending := coupled.appending lock
            rw [outside aside] at appending
            cases appending
        | free => rfl
        | worker index => rfl
      have same : state.loop = state.net.loop := by simp [Pooled.loop, undecided]
      rw [Pooled.view, same, step?_queue aside notTake (outside aside), moved, Option.map_some]
      simp [Pooled.view, Pooled.loop, Pooled.requests, undecided]

theorem coupled_of_start (starts : pooledServer.Start state) :
    Coupled state ∧ Net.server.Start state.view := by
  obtain ⟨fresh, mListenFd, mEpollFd, reserved, block, zeroReserved, listenReserved, epollReserved,
    init⟩ := starts
  refine ⟨⟨?_, ?_, ?_, ?_, ?_⟩, mListenFd, mEpollFd, reserved, block, zeroReserved,
    listenReserved, epollReserved, ?_⟩
  · rw [fresh]
    exact .start rfl
  · rw [init]
    exact tables_init zeroReserved listenReserved
  · rw [fresh]
    exact fun _ none => by cases none
  · rw [fresh]
    exact fun _ none => by cases none
  · rw [init]
    exact fun _ _ => rfl
  · simp only [Pooled.view, Pooled.requests, Pooled.loop, fresh, init]
    rfl

theorem pooledServer_refines : Refines pooledServer Net.server Coupled Pooled.view Pooled.seen where
  starts := fun _ => coupled_of_start
  kept := by
    intro before label after coupled taken
    change before.step? label = some after at taken
    cases label with
    | net action => exact coupled.net taken
    | pool label =>
        obtain ⟨_, pool, moved, same⟩ := Pooled.step?_pool taken
        refine (poolMove_of_step? taken).coupled coupled ?_
        rw [same]
        exact coupled.reached.step trivial moved
  hidden := by
    intro before label after coupled taken unseen
    change before.step? label = some after at taken
    cases label with
    | net action => cases unseen
    | pool label => exact (poolMove_of_step? taken).hidden coupled unseen
  visible := by
    intro before label after action coupled taken shown
    change before.step? label = some after at taken
    cases label with
    | net own =>
        cases shown
        exact coupled.visible taken
    | pool label => exact (poolMove_of_step? taken).visible coupled shown

end LibNet.Net
