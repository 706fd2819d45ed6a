import LibNet.Net.Pooled

/-!
# Nothing is seen of the thread pool

The server with the mutex and the semaphore of its thread pool shows the runs of the server whose
`append` and pop are single steps, and it shows all of them.  So what holds in every run of the
one holds in every run of the other, under any condition on what peers, kernel, threads and
application do.
-/

namespace LibNet.Net

open LibNet.Runs
open LibNet.Base

variable {state next : Pooled} {after net : Server} {action : Action}
  {label : PoolLabel Int threadNumber} {pool : PoolState Int threadNumber}

/-- A worker waits for a token, or is inside `process`. -/
def Pooled.Settled (state : Pooled) (index : Fin threadNumber) : Prop :=
  state.mThreadPool.workers index = .waiting ∧ state.net.workers index = .idle ∨
    (state.mThreadPool.workers index).isHanded = true ∧ state.net.workers index ≠ .idle

/-- Nobody is at the queue, there is a token for each request in it, and the workers wait or are
inside `process`. -/
structure Calm (state : Pooled) : Prop where
  coupled : Coupled state
  free : state.mThreadPool.mQueuelocker = .free
  tokens : state.mThreadPool.mQueuestat = state.mThreadPool.mWorkqueue.length
  workers : ∀ index, state.Settled index

theorem Calm.loop (calm : Calm state) : state.loop = state.net.loop := by
  simp [Pooled.loop, calm.free, Holder.decided]

theorem Calm.waiting (calm : Calm state) {index : Fin threadNumber}
    (idle : state.net.workers index = .idle) : state.mThreadPool.workers index = .waiting := by
  rcases calm.workers index with ⟨waits, _⟩ | ⟨_, busy⟩
  · exact waits
  · exact absurd idle busy

theorem Calm.handed (calm : Calm state) {index : Fin threadNumber}
    (busy : state.net.workers index ≠ .idle) :
    (state.mThreadPool.workers index).isHanded = true := by
  rcases calm.workers index with ⟨_, idle⟩ | ⟨handed, _⟩
  · exact absurd idle busy
  · exact handed

/-! ## Steps that can be taken -/

theorem step_net (may : state.mayNet action = true) (moved : state.net.step? action = some net) :
    pooledServer.step? state (.net action) = some { state with net := net } := by
  simp [pooledServer, Pooled.step?, may, moved]

theorem step_pool (may : state.mayPool label = true)
    (moved : state.mThreadPool.step? maxRequests label = some pool)
    (answers : Pooled.answer state.net pool label = net) :
    pooledServer.step? state (.pool label) = some ⟨pool, net⟩ := by
  simp [pooledServer, Pooled.step?, may, moved, answers]

/-- A step of the thread pool that nobody sees. -/
theorem Coupled.hidden_step (coupled : Coupled state)
    (taken : pooledServer.step? state (.pool label) = some next)
    (unseen : state.seen (.pool label) = none) : Coupled next ∧ next.view = state.view :=
  ⟨pooledServer_refines.kept _ _ _ coupled taken,
    pooledServer_refines.hidden _ _ _ coupled taken unseen⟩

/-- A step that is seen as the action. -/
theorem Coupled.visible_step (coupled : Coupled state) {label : PooledLabel}
    (taken : pooledServer.step? state label = some next)
    (visible : state.seen label = some action) (moved : state.view.step? action = some after) :
    Coupled next ∧ next.view = after := by
  refine ⟨pooledServer_refines.kept _ _ _ coupled taken, ?_⟩
  have shown := pooledServer_refines.visible _ _ _ action coupled taken visible
  change state.view.step? action = _ at shown
  rw [moved] at shown
  exact (Option.some.inj shown).symm

/-- One step of a worker, and everything else is calm: if `process` has returned, the worker goes
back to `wait`. -/
theorem exists_calm {Allowed : Server → Action → Prop} (coupled : Coupled state)
    (free : state.mThreadPool.mQueuelocker = .free)
    (tokens : state.mThreadPool.mQueuestat = state.mThreadPool.mWorkqueue.length)
    (moved : Fin threadNumber) (others : ∀ index, index ≠ moved → state.Settled index)
    (placed : state.Settled moved ∨ (state.mThreadPool.workers moved).isHanded = true) :
    ∃ labels next, pooledServer.Path (Shown Pooled.view Pooled.seen Allowed) state labels next ∧
      Calm next ∧ next.view = state.view := by
  have settled : state.Settled moved → ∀ index, state.Settled index := by
    intro here index
    by_cases same : index = moved
    · exact same ▸ here
    · exact others index same
  rcases placed with here | handed
  · exact ⟨[], state, .nil state, ⟨coupled, free, tokens, settled here⟩, rfl⟩
  by_cases idle : state.net.workers moved = .idle
  · cases place : state.mThreadPool.workers moved with
    | handed request =>
        have taken : pooledServer.step? state (.pool (.work moved)) = some _ :=
          step_pool (by simp [Pooled.mayPool, idle])
            (by simp only [PoolState.step?, PoolState.run?, place]; rfl) rfl
        have unseen : state.seen (.pool (.work moved)) = none := by simp [Pooled.seen, place]
        obtain ⟨coupled', view⟩ := coupled.hidden_step taken unseen
        refine ⟨_, _, .cons (shown_of_hidden unseen) taken (.nil _), ⟨coupled', free, tokens, ?_⟩,
          view⟩
        intro index
        by_cases same : index = moved
        · subst same
          left
          simp [Pooled.answer, Worker.popped?, Server.handOver, idle]
        · have stays := others index same
          simpa [Pooled.Settled, Pooled.answer, Worker.popped?, Server.handOver, same] using stays
    | _ =>
        rw [place] at handed
        cases handed
  · exact ⟨[], state, .nil state, ⟨coupled, free, tokens, settled (.inr ⟨handed, idle⟩)⟩, rfl⟩

/-- A step moves one worker at most, from a request it has. -/
theorem ServerStep.one_worker {server : Server} (step : ServerStep server action after)
    (notTake : ∀ worker, action ≠ .take worker) :
    ∃ moved, (∀ index, index ≠ moved → after.workers index = server.workers index) ∧
      (after.workers moved = server.workers moved ∨ server.workers moved ≠ .idle) := by
  have same : after.workers = server.workers →
      ∃ moved, (∀ index, index ≠ moved → after.workers index = server.workers index) ∧
        (after.workers moved = server.workers moved ∨ server.workers moved ≠ .idle) :=
    fun unchanged => ⟨0, fun index _ => by rw [unchanged], .inl (by rw [unchanged])⟩
  cases step with
  | peer step => exact same (by cases step <;> rfl)
  | loop step => exact same (by cases step <;> rfl)
  | app step => exact same (by cases step <;> rfl)
  | worker step =>
      have others : ∀ (moved : Fin threadNumber) (reader : Reader),
          server.workers moved ≠ .idle →
          after.workers = Function.update server.workers moved reader →
          ∃ moved, (∀ index, index ≠ moved → after.workers index = server.workers index) ∧
            (after.workers moved = server.workers moved ∨ server.workers moved ≠ .idle) := by
        intro moved reader busy changed
        refine ⟨moved, fun index different => ?_, .inr busy⟩
        rw [changed, Function.update_of_ne different]
      cases step with
      | take moved taskId rest waits queued => exact absurd rfl (notTake moved)
      | enter moved taskId popped => exact others moved _ (by rw [popped]; simp) rfl
      | data moved count taskId length fd conn reads socket member opened positive available fits
          representable => exact others moved _ (by rw [reads]; simp) rfl
      | foreign moved bytes taskId length reads fits closed representable =>
          exact others moved _ (by rw [reads]; simp) rfl
      | eof moved taskId length fd conn reads socket member opened empty =>
          exact others moved _ (by rw [reads]; simp) rfl
      | foreignEof moved taskId length reads closed =>
          exact others moved _ (by rw [reads]; simp) rfl
      | eagain moved taskId length reads empty representable =>
          exact others moved _ (by rw [reads]; simp) rfl
      | error moved taskId length reads representable =>
          exact others moved _ (by rw [reads]; simp) rfl
      | store moved taskId length bytes holds fits =>
          exact others moved _ (by rw [holds]; simp) rfl

theorem Calm.beside (calm : Calm state) (may : state.mayNet action = true)
    (moved : state.net.step? action = some net) (shown : state.view.step? action = some after) :
    ∃ labels next, pooledServer.Path
      (Shown Pooled.view Pooled.seen fun shown own => shown = state.view ∧ own = action)
      state labels next ∧ Calm next ∧ next.view = after := by
  have taken := step_net may moved
  obtain ⟨coupled, view⟩ := calm.coupled.visible_step taken rfl shown
  have notTake : ∀ worker, action ≠ .take worker := by
    rintro worker rfl
    cases may
  obtain ⟨worker, others, placed⟩ :=
    (serverStep_of_step? calm.coupled.tables moved).one_worker notTake
  obtain ⟨labels, next, path, calm', same⟩ :=
    exists_calm coupled calm.free calm.tokens worker
      (fun index different => by
        have stays := calm.workers index
        simpa only [Pooled.Settled, others index different] using stays)
      (by
        rcases placed with unchanged | busy
        · left
          have stays := calm.workers worker
          simpa only [Pooled.Settled, unchanged] using stays
        · exact .inr (calm.handed busy))
  exact ⟨_, next, .cons (shown_of_visible rfl ⟨rfl, rfl⟩) taken path, calm', same.trans view⟩

variable {Allowed : Server → Action → Prop}

/-- A worker comes back from `wait` with a token and locks the queue. -/
theorem Coupled.lock (coupled : Coupled state) {index : Fin threadNumber} {value : Nat}
    (waits : state.mThreadPool.workers index = .waiting)
    (available : state.mThreadPool.mQueuestat = value + 1)
    (free : state.mThreadPool.mQueuelocker = .free) :
    ∃ labels next, pooledServer.Path (Shown Pooled.view Pooled.seen Allowed) state labels next ∧
      Coupled next ∧ next.view = state.view ∧ next.net = state.net ∧
      next.mThreadPool = { state.mThreadPool with
        mQueuestat := value
        mQueuelocker := .worker index }.setWorker index .locked := by
  obtain ⟨woken, isWoken⟩ : ∃ woken,
      woken = { state.mThreadPool with mQueuestat := value }.setWorker index .woken := ⟨_, rfl⟩
  have place : woken.workers index = .woken := by rw [isWoken]; exact Function.update_self ..
  have wakes : pooledServer.step? state (.pool (.wait index true)) = some ⟨woken, state.net⟩ :=
    step_pool rfl (by simp [PoolState.step?, PoolState.wait?, waits, available, isWoken]) rfl
  obtain ⟨coupled', view'⟩ := coupled.hidden_step wakes rfl
  have unseen : Pooled.seen ⟨woken, state.net⟩ (.pool (.work index)) = none := by
    simp [Pooled.seen, place]
  have locks : pooledServer.step? ⟨woken, state.net⟩ (.pool (.work index)) =
      some ⟨{ state.mThreadPool with
        mQueuestat := value
        mQueuelocker := .worker index }.setWorker index .locked, state.net⟩ := by
    refine step_pool (by simp [Pooled.mayPool, place, Worker.isHanded]) ?_ ?_
    · simp [PoolState.step?, PoolState.run?, isWoken, free, PoolState.setWorker]
    · simp [Pooled.answer, Worker.popped?, Server.handOver]
  obtain ⟨coupled'', view''⟩ := coupled'.hidden_step locks unseen
  exact ⟨_, _, .cons (shown_of_hidden rfl) wakes (.cons (shown_of_hidden unseen) locks (.nil _)),
    coupled'', view''.trans view', rfl, rfl⟩

theorem exists_request_of_take {index : Fin threadNumber} (coupled : Coupled state)
    (shown : state.view.step? (.take index) = some after) :
    ∃ request rest taskId, state.mThreadPool.mWorkqueue = request :: rest ∧
      request.pointer = some taskId ∧ state.net.workers index = .idle := by
  cases workerStep_of_take? shown with
  | take _ taskId rest idle queued =>
      cases queue : state.mThreadPool.mWorkqueue with
      | nil =>
          have none : state.requests = [] := by rw [Pooled.requests, queue]; rfl
          change state.requests = taskId :: rest at queued
          rw [none] at queued
          cases queued
      | cons request others =>
          obtain ⟨task, pointer⟩ := coupled.queued request
            (by rw [queue]; exact List.mem_cons_self ..)
          exact ⟨request, others, task, rfl, pointer, idle⟩

/-- A worker comes back from `wait` with a token, locks the queue, pops and unlocks. -/
theorem Calm.take (calm : Calm state) {index : Fin threadNumber}
    (shown : state.view.step? (.take index) = some after) :
    ∃ labels next, pooledServer.Path
      (Shown Pooled.view Pooled.seen fun shown own => shown = state.view ∧ own = .take index)
      state labels next ∧ Calm next ∧ next.view = after := by
  obtain ⟨request, rest, taskId, queue, pointer, idle⟩ := exists_request_of_take calm.coupled shown
  have available : state.mThreadPool.mQueuestat = rest.length + 1 := by
    rw [calm.tokens, queue, List.length_cons]
  obtain ⟨labels, ⟨locked, net⟩, path, coupled₁, view₁, isNet, isLocked⟩ :=
    calm.coupled.lock (calm.waiting idle) available calm.free
  dsimp only at isNet isLocked
  subst isNet
  have place₁ : locked.workers index = .locked := by rw [isLocked]; exact Function.update_self ..
  have queue₁ : locked.mWorkqueue = request :: rest := by rw [isLocked]; exact queue
  obtain ⟨popped, isPopped⟩ : ∃ popped, popped = { locked with
      mWorkqueue := rest, taken := locked.taken ++ [request] }.setWorker index
        (.unlockTaken request) := ⟨_, rfl⟩
  have place₂ : popped.workers index = .unlockTaken request := by
    rw [isPopped]
    exact Function.update_self ..
  have seen₁ : Pooled.seen ⟨locked, state.net⟩ (.pool (.work index)) = some (.take index) := by
    simp [Pooled.seen, place₁, queue₁]
  have pops : pooledServer.step? ⟨locked, state.net⟩ (.pool (.work index)) =
      some ⟨popped, state.net.setWorker index (.popped taskId)⟩ := by
    refine step_pool (by simp [Pooled.mayPool, place₁, Worker.isHanded]) ?_ ?_
    · simp only [PoolState.step?, PoolState.run?, place₁, queue₁, isPopped]
    · simp [Pooled.answer, place₂, Worker.popped?, Server.handOver, pointer]
  obtain ⟨coupled₂, view₂⟩ := coupled₁.visible_step pops seen₁ (by rw [view₁]; exact shown)
  have seen₂ : Pooled.seen ⟨popped, state.net.setWorker index (.popped taskId)⟩
      (.pool (.work index)) = none := by
    simp [Pooled.seen, place₂]
  have leaves : pooledServer.step? ⟨popped, state.net.setWorker index (.popped taskId)⟩
      (.pool (.work index)) = some ⟨{ popped with mQueuelocker := .free }.setWorker index
        (.handed request), state.net.setWorker index (.popped taskId)⟩ := by
    refine step_pool (by simp [Pooled.mayPool, place₂, Worker.isHanded]) ?_ ?_
    · simp only [PoolState.step?, PoolState.run?, place₂]
    · simp [Pooled.answer, Worker.popped?, Server.handOver]
  obtain ⟨coupled₃, view₃⟩ := coupled₂.hidden_step leaves seen₂
  refine ⟨_, _, path.append (.cons (shown_of_visible seen₁ ⟨view₁, rfl⟩) pops
    (.cons (shown_of_hidden seen₂) leaves (.nil _))), ⟨coupled₃, rfl, ?_, ?_⟩,
    view₃.trans view₂⟩
  · rw [isPopped, isLocked]
    rfl
  · intro other
    by_cases same : other = index
    · subst same
      right
      simp [Worker.isHanded, Server.setWorker]
    · have stays := calm.workers other
      simpa [Pooled.Settled, isPopped, isLocked, Server.setWorker, same] using stays

/-- `append` unlocks the queue and returns. -/
theorem Coupled.comeBack (coupled : Coupled state) {request : Request Int}
    (inside : state.mThreadPool.mQueuelocker = .append (.accept request) ∨
      state.mThreadPool.mQueuelocker = .append (.refuse request))
    (tokens : state.mThreadPool.mQueuestat = state.mThreadPool.mWorkqueue.length)
    (workers : ∀ index, state.Settled index) :
    ∃ labels next, pooledServer.Path (Shown Pooled.view Pooled.seen Allowed) state labels next ∧
      Calm next ∧ next.view = state.view := by
  have unseen : state.seen (.pool .advance) = none := by
    rcases inside with accepts | refuses
    · simp [Pooled.seen, accepts]
    · simp [Pooled.seen, refuses]
  obtain ⟨outcomes, returns⟩ : ∃ outcomes, pooledServer.step? state (.pool .advance) =
      some ⟨{ state.mThreadPool with mQueuelocker := .free, returned := outcomes },
        { state.net with loop := state.net.loop.returned }⟩ := by
    rcases inside with accepts | refuses
    · exact ⟨_, step_pool rfl (by simp only [PoolState.step?, accepts]; rfl) rfl⟩
    · exact ⟨_, step_pool rfl (by simp only [PoolState.step?, refuses]; rfl) rfl⟩
  obtain ⟨coupled', view'⟩ := coupled.hidden_step returns unseen
  exact ⟨_, _, .cons (shown_of_hidden unseen) returns (.nil _), ⟨coupled', rfl, tokens, workers⟩,
    view'⟩

/-- `append` has pushed its request: it posts, unlocks and returns. -/
theorem Coupled.post (coupled : Coupled state) {request : Request Int}
    (inside : state.mThreadPool.mQueuelocker = .append (.post request))
    (tokens : state.mThreadPool.mQueuestat + 1 = state.mThreadPool.mWorkqueue.length)
    (workers : ∀ index, state.Settled index) :
    ∃ labels next, pooledServer.Path (Shown Pooled.view Pooled.seen Allowed) state labels next ∧
      Calm next ∧ next.view = state.view := by
  have unseen : state.seen (.pool .advance) = none := by simp [Pooled.seen, inside]
  have posts : pooledServer.step? state (.pool .advance) = some { state with
      mThreadPool := { state.mThreadPool with
        mQueuestat := state.mThreadPool.mQueuestat + 1
        mQueuelocker := .append (.accept request) } } :=
    step_pool rfl (by simp only [PoolState.step?, inside]; rfl) rfl
  obtain ⟨coupled', view'⟩ := coupled.hidden_step posts unseen
  obtain ⟨labels, next, path, calm, view⟩ := coupled'.comeBack (.inl rfl) tokens workers
  exact ⟨_, next, .cons (shown_of_hidden unseen) posts path, calm, view.trans view'⟩

/-- `append` locks the queue, tests its size, pushes and posts if there is room, and unlocks. -/
theorem Calm.append (calm : Calm state) {taskId fd : Int} {events : List Event}
    (calls : state.net.loop = .append taskId fd events)
    (shown : state.view.step? .loop = some after) :
    ∃ labels next, pooledServer.Path
      (Shown Pooled.view Pooled.seen fun shown own => shown = state.view ∧ own = .loop)
      state labels next ∧ Calm next ∧ next.view = after := by
  obtain ⟨request, isRequest⟩ : ∃ request : Request Int,
      request = ⟨state.mThreadPool.calls, some taskId⟩ := ⟨_, rfl⟩
  obtain ⟨entered, isEntered⟩ : ∃ entered, entered = { state.mThreadPool with
      mQueuelocker := .append (.test request)
      calls := state.mThreadPool.calls + 1 } := ⟨_, rfl⟩
  have enters : pooledServer.step? state (.pool (.enter (some taskId))) =
      some ⟨entered, state.net⟩ := by
    refine step_pool (by simp [Pooled.mayPool, calls]) ?_ rfl
    simp only [PoolState.step?, calm.free, isEntered, isRequest]
  obtain ⟨coupled₁, view₁⟩ := calm.coupled.hidden_step enters rfl
  have inside : entered.mQueuelocker = .append (.test request) := by rw [isEntered]
  have seen₁ : Pooled.seen ⟨entered, state.net⟩ (.pool .advance) = some .loop := by
    simp [Pooled.seen, inside]
  have shown₁ : (Pooled.view ⟨entered, state.net⟩).step? .loop = some after := by
    rw [view₁]
    exact shown
  have workers : ∀ pool net, pool.workers = state.mThreadPool.workers → net = state.net →
      ∀ index, Pooled.Settled ⟨pool, net⟩ index := by
    rintro pool net same rfl index
    have stays := calm.workers index
    simpa only [Pooled.Settled, same] using stays
  have tokens : entered.mQueuestat = entered.mWorkqueue.length := by
    rw [isEntered]
    exact calm.tokens
  by_cases full : entered.mWorkqueue.length > maxRequests
  · have refuses : pooledServer.step? ⟨entered, state.net⟩ (.pool .advance) =
        some ⟨{ entered with mQueuelocker := .append (.refuse request) }, state.net⟩ := by
      refine step_pool rfl ?_ rfl
      simp only [PoolState.step?, inside, PoolState.append, if_pos full]
    obtain ⟨coupled₂, view₂⟩ := coupled₁.visible_step refuses seen₁ shown₁
    obtain ⟨labels, next, path, calm', view⟩ := coupled₂.comeBack (.inr rfl) tokens
      (workers _ _ (by rw [isEntered]) rfl)
    exact ⟨_, next, .cons (shown_of_hidden rfl) enters
      (.cons (shown_of_visible seen₁ ⟨view₁, rfl⟩) refuses path), calm', view.trans view₂⟩
  · have pushes : pooledServer.step? ⟨entered, state.net⟩ (.pool .advance) =
        some ⟨{ entered with
          mWorkqueue := entered.mWorkqueue ++ [request]
          appended := entered.appended ++ [request]
          mQueuelocker := .append (.post request) }, state.net⟩ := by
      refine step_pool rfl ?_ rfl
      simp only [PoolState.step?, inside, PoolState.append, if_neg full]
    obtain ⟨coupled₂, view₂⟩ := coupled₁.visible_step pushes seen₁ shown₁
    obtain ⟨labels, next, path, calm', view⟩ := coupled₂.post rfl (by simp [tokens])
      (workers _ _ (by rw [isEntered]) rfl)
    exact ⟨_, next, .cons (shown_of_hidden rfl) enters
      (.cons (shown_of_visible seen₁ ⟨view₁, rfl⟩) pushes path), calm', view.trans view₂⟩

/-- What a calm state is seen to do beside the thread pool, it does. -/
theorem Calm.exists_net (calm : Calm state) (notTake : ∀ worker, action ≠ .take worker)
    (outside : action = .loop → state.net.loop.appending = false)
    (shown : state.view.step? action = some after) :
    ∃ net, state.net.step? action = some net ∧ state.mayNet action = true := by
  rw [Pooled.view, calm.loop] at shown
  have moves : (state.net.step? action).isSome = true := by
    cases aside : action.aside with
    | true =>
        rw [step?_shownWith aside] at shown
        exact Option.isSome_map.symm.trans (by rw [shown]; rfl)
    | false =>
        have away : (state.net.shownWith state.requests state.net.loop).loop.appending = false :=
          not_appending_of_step? aside notTake outside shown
        have away : state.net.loop.appending = false := away
        rw [step?_queue aside notTake away] at shown
        exact Option.isSome_map.symm.trans (by rw [shown]; rfl)
  obtain ⟨net, moved⟩ := Option.isSome_iff_exists.mp moves
  refine ⟨net, moved, ?_⟩
  cases action with
  | take worker => exact absurd rfl (notTake worker)
  | loop => simp [Pooled.mayNet, outside rfl]
  | enter worker =>
      refine calm.handed fun idle => ?_
      simp [Server.step?, Server.enter?, idle] at moved
  | _ => rfl

theorem calm_reproduces : Reproduces pooledServer Net.server Calm Pooled.view Pooled.seen where
  starts := by
    intro first starts
    have started : pooledServer.Start ⟨.new, first⟩ := ⟨rfl, starts⟩
    obtain ⟨mListenFd, mEpollFd, reserved, block, _, _, _, rfl⟩ := starts
    refine ⟨_, started, ⟨(coupled_of_start started).1, rfl, rfl, fun _ => .inl ⟨rfl, rfl⟩⟩, rfl⟩
  steps := by
    intro state action after calm taken
    change state.view.step? action = some after at taken
    by_cases takes : ∃ worker, action = .take worker
    · obtain ⟨worker, rfl⟩ := takes
      exact calm.take taken
    · by_cases appends : action = .loop ∧ state.net.loop.appending = true
      · obtain ⟨rfl, appending⟩ := appends
        cases place : state.net.loop with
        | append taskId fd events => exact calm.append place taken
        | _ =>
            rw [place] at appending
            cases appending
      · obtain ⟨net, moved, may⟩ := calm.exists_net (fun worker same => takes ⟨worker, same⟩)
          (fun same => by simpa [same] using appends) taken
        exact calm.beside may moved taken

/--
The server whose `append` and pop are single steps and the server with the mutex and the semaphore
of its thread pool show the same states, whatever is asked of the steps that are seen: a state of
the first is reached under a condition exactly when a run of the second, whose steps meet the
condition where they are seen, comes to a state that looks like it.
-/
theorem thread_pool_unseen (Guard : Server → Action → Prop) (server : Server) :
    Net.server.ReachableUnder Guard server ↔
      ∃ state, pooledServer.ReachableUnder (Shown Pooled.view Pooled.seen Guard) state ∧
        state.view = server := by
  constructor
  · intro reached
    obtain ⟨state, there, _, same⟩ := calm_reproduces.exists_reachableUnder reached
    exact ⟨state, there, same⟩
  · rintro ⟨state, there, rfl⟩
    exact pooledServer_refines.reachableUnder there

end LibNet.Net
