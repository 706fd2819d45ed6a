import LibNet.Net.Server
import LibNet.Runs.Commands

/-!
# The locks of the server

Every function of the server cut down to what it does to the locks and to what the threads share,
in the source's order: which way a test goes and which task a function works on are left open.
The threads are the event loop, the workers of the thread pool, and any number of threads of the
application, which call `pull_msg` and `push_msg` and write replies as they like.

Left out are what a thread does to objects of its own, output to the console, `sem_post`, which
does not wait, and the pointers and addresses that never change after the constructors.
-/

namespace LibNet.Net.Locking

open LibNet.Runs

/-- A task of the pool by its subscript, which the source does not check, or the socket that
`close_connect` makes for its message. -/
inductive Socket where
  | pooled (subscript : Int)
  | temporary
  deriving DecidableEq

inductive Lock where
  | queueLocker
  | freeLock
  | recvLock
  | undoLock
  | socketLock (socket : Socket)
  deriving DecidableEq

inductive Field where
  | socket
  | sendPos
  | referenceCount
  | flag
  | sendBuf
  | recvBuf
  deriving DecidableEq

inductive Var where
  | workqueue
  | readyList
  | freeTasks
  | recvTasks
  | undoTasks
  | field (socket : Socket) (field : Field)
  deriving DecidableEq

/-- A variable and whether it is written. -/
structure Access where
  var : Var
  writes : Bool
  deriving DecidableEq

inductive Thread where
  | eventLoop
  | worker (index : Fin threadNumber)
  | application (index : Nat)
  deriving DecidableEq

abbrev Program := Code Lock Access Int

def lock (name : Lock) : Program := .act (.lock name)

def unlock (name : Lock) : Program := .act (.unlock name)

def read (var : Var) : Program := .act (.touch ⟨var, false⟩)

def write (var : Var) : Program := .act (.touch ⟨var, true⟩)

/-- A system call that may wait. -/
def wait : Program := .act .block

def sendBuf (socket : Socket) : Program :=
  .inOrder [
    lock (.socketLock socket),
    read (.field socket .sendBuf),
    read (.field socket .referenceCount),
    .either
      (.inOrder [
        read (.field socket .sendBuf),
        write (.field socket .sendPos),
        write (.field socket .referenceCount)])
      .skip,
    read (.field socket .sendPos),
    read (.field socket .sendBuf),
    unlock (.socketLock socket),
    .either .skip <| .either .skip <| .inOrder [
      read (.field socket .socket),
      wait,
      .loop (.inOrder [read (.field socket .socket), wait]),
      .either .skip <| .either (write (.field socket .sendPos)) .skip]]

def recvBuf (socket : Socket) : Program :=
  .inOrder [
    write (.field socket .sendPos),
    read (.field socket .socket),
    wait,
    .loop (.inOrder [read (.field socket .socket), wait]),
    .either .skip <| .inOrder [
      lock (.socketLock socket),
      write (.field socket .recvBuf),
      read (.field socket .recvBuf),
      unlock (.socketLock socket)]]

def reset (socket : Socket) : Program :=
  .inOrder [
    write (.field socket .socket),
    lock (.socketLock socket),
    write (.field socket .sendBuf),
    write (.field socket .recvBuf),
    unlock (.socketLock socket)]

def process (socket : Socket) : Program :=
  .either (recvBuf socket) (.either (sendBuf socket) .skip)

def append : Program :=
  .inOrder [
    lock .queueLocker,
    read .workqueue,
    .either
      (unlock .queueLocker)
      (.inOrder [write .workqueue, unlock .queueLocker])]

/-- `ThreadPool::run`. -/
def poolRun : Program :=
  .loop <| .inOrder [
    wait,
    lock .queueLocker,
    read .workqueue,
    .either
      (unlock .queueLocker)
      (.inOrder [
        read .workqueue,
        write .workqueue,
        unlock .queueLocker,
        .either .skip <| .choose fun request => .inOrder [
          read (.field (.pooled request) .flag),
          process (.pooled request)]])]

def pushFreeTask : Program :=
  .inOrder [lock .freeLock, write .freeTasks, unlock .freeLock]

/-- The lock is given back before the id is taken. -/
def getFreeTask : Program :=
  .inOrder [
    lock .freeLock,
    read .freeTasks,
    .either
      (unlock .freeLock)
      (.inOrder [unlock .freeLock, read .freeTasks, write .freeTasks])]

def isFreeTasksEmpty : Program :=
  .inOrder [lock .freeLock, read .freeTasks, .either (unlock .freeLock) (unlock .freeLock)]

def getRecvTask : Program :=
  .inOrder [read .recvTasks, .either .skip (.inOrder [read .recvTasks, write .recvTasks])]

/-- No lock is taken. -/
def addUndoTask (undoTask : Socket) : Program :=
  .inOrder [
    read (.field undoTask .recvBuf),
    write (.field undoTask .referenceCount),
    write .undoTasks]

/-- Which task will stand at the front of the list is guessed before the lock is taken. -/
def addRecvTask : Program :=
  .choose fun front => .inOrder [
    lock .recvLock,
    write .recvTasks,
    getRecvTask,
    addUndoTask (.pooled front),
    unlock .recvLock]

def addConnect : Program :=
  .inOrder [
    wait,
    .either .skip <| .inOrder [
      isFreeTasksEmpty,
      .either .skip <| .inOrder [
        getFreeTask,
        write .readyList,
        read .readyList,
        .either .skip <| .choose fun freeSubscript =>
          write (.field (.pooled freeSubscript) .socket)]]]

def closeConnect : Program :=
  .inOrder [
    read .readyList,
    .choose fun delSubscript => .inOrder [
      reset (.pooled delSubscript),
      .either .skip <| .inOrder [addUndoTask .temporary, pushFreeTask]]]

def recvMsg : Program :=
  .inOrder [
    read .readyList,
    .choose fun readySubscript => write (.field (.pooled readySubscript) .flag),
    addRecvTask,
    append]

def sendNow (taskId : Int) : Program := sendBuf (.pooled taskId)

def getUndoTask : Program :=
  .inOrder [
    lock .undoLock,
    read .undoTasks,
    .either
      (unlock .undoLock)
      (.inOrder [read .undoTasks, write .undoTasks, unlock .undoLock])]

/-- `NetWork::run`. -/
def netRun : Program :=
  .loop <| .inOrder [
    wait,
    .loop <|
      .either closeConnect <|
      .either (.either addConnect (.inOrder [recvMsg, .either closeConnect .skip])) <|
      .skip]

def pullMsg : Program := getUndoTask

def pushMsg (taskId : Int) : Program := sendNow taskId

/-- The application may write a reply where any message points, also one for a close. -/
def applicationRun : Program :=
  .loop <| .choose fun taskId =>
    .either pullMsg <|
    .either (write (.field (.pooled taskId) .sendBuf)) <|
    .either (write (.field .temporary .sendBuf)) <|
    pushMsg taskId

def code : Thread → Program
  | .eventLoop => netRun
  | .worker _ => poolRun
  | .application _ => applicationRun

/-! ## The rules the code keeps -/

/-- Which lock each thread holds for which access. -/
def may : Thread → Option Lock → Access → Prop
  | _, held, ⟨.workqueue, _⟩ => held = some .queueLocker
  | .eventLoop, held, ⟨.field socket field, writes⟩ =>
      match field with
      | .socket | .flag => writes = true
      | .sendPos => False
      | .referenceCount => True
      | .sendBuf => held = some (.socketLock socket)
      | .recvBuf => writes = true → held = some (.socketLock socket)
  | .eventLoop, _, _ => True
  | .worker _, held, ⟨.field socket field, writes⟩ =>
      match field with
      | .socket | .flag => writes = false
      | .sendPos => True
      | .referenceCount | .sendBuf | .recvBuf => held = some (.socketLock socket)
  | .worker _, _, _ => False
  | .application _, held, ⟨.field socket field, writes⟩ =>
      match field with
      | .socket => writes = false
      | .sendPos | .sendBuf => True
      | .referenceCount => held = some (.socketLock socket)
      | .flag | .recvBuf => False
  | .application _, held, ⟨.undoTasks, _⟩ => held = some .undoLock
  | .application _, _, _ => False

section SendBuf

variable {thread : Thread} (other : thread ≠ .eventLoop) (held : Option Lock) (socket : Socket)
  (writes : Bool)

include other

theorem may_read_socket : may thread held ⟨.field socket .socket, false⟩ := by
  cases thread <;> simp_all [may]

theorem may_sendPos : may thread held ⟨.field socket .sendPos, writes⟩ := by
  cases thread <;> simp_all [may]

theorem may_referenceCount :
    may thread (some (.socketLock socket)) ⟨.field socket .referenceCount, writes⟩ := by
  cases thread <;> simp_all [may]

theorem may_sendBuf :
    may thread (some (.socketLock socket)) ⟨.field socket .sendBuf, writes⟩ := by
  cases thread <;> simp_all [may]

/-- One turn of the loops around `read` and `write`. -/
theorem transfer_keeps :
    Keeps (may thread) (.inOrder [read (.field socket .socket), wait]) none none :=
  .cons (.touch (may_read_socket other ..)) <| .cons .block (.nil none)

theorem sendBuf_keeps : Keeps (may thread) (sendBuf socket) none none := by
  have counted : Keeps (may thread)
      (.inOrder [
        read (.field socket .sendBuf),
        write (.field socket .sendPos),
        write (.field socket .referenceCount)])
      (some (.socketLock socket)) (some (.socketLock socket)) :=
    .cons (.touch (may_sendBuf other ..)) <| .cons (.touch (may_sendPos other ..)) <|
      .cons (.touch (may_referenceCount other ..)) (.nil _)
  have again : Keeps (may thread)
      (.either .skip (.either (write (.field socket .sendPos)) .skip)) none none :=
    .either (.skip _) <| .either (.touch (may_sendPos other ..)) (.skip _)
  refine .cons (.lock _) <| .cons (.touch (may_sendBuf other ..)) <|
    .cons (.touch (may_referenceCount other ..)) <| .cons (.either counted (.skip _)) <|
    .cons (.touch (may_sendPos other ..)) <| .cons (.touch (may_sendBuf other ..)) <|
    .cons (.unlock _) <| .cons (.either (.skip _) <| .either (.skip _) ?_) (.nil none)
  exact .cons (.touch (may_read_socket other ..)) <| .cons .block <|
    .cons (.loop (transfer_keeps other socket)) <| .cons again (.nil none)

end SendBuf

theorem recvBuf_keeps (index : Fin threadNumber) (socket : Socket) :
    Keeps (may (.worker index)) (recvBuf socket) none none :=
  .cons (.touch trivial) <| .cons (.touch rfl) <| .cons .block <|
    .cons (.loop (transfer_keeps (by nofun) socket)) <| .cons
      (.either (.skip _) <|
        .cons (.lock _) <| .cons (.touch rfl) <| .cons (.touch rfl) <| .cons (.unlock _) (.nil _))
      (.nil none)

theorem process_keeps (index : Fin threadNumber) (socket : Socket) :
    Keeps (may (.worker index)) (process socket) none none :=
  .either (recvBuf_keeps index socket) (.either (sendBuf_keeps (by nofun) socket) (.skip _))

theorem poolRun_keeps (index : Fin threadNumber) :
    Keeps (may (.worker index)) poolRun none none := by
  have processed (request : Int) : Keeps (may (.worker index))
      (.inOrder [read (.field (.pooled request) .flag), process (.pooled request)]) none none :=
    .cons (.touch rfl) <| .cons (process_keeps index _) (.nil _)
  refine .loop <| .cons .block <| .cons (.lock _) <| .cons (.touch rfl) <|
    .cons (.either (.unlock _) ?_) (.nil _)
  exact .cons (.touch rfl) <| .cons (.touch rfl) <| .cons (.unlock _) <|
    .cons (.either (.skip _) (.choose processed)) (.nil _)

/-! The event loop. -/

theorem reset_keeps (socket : Socket) :
    Keeps (may .eventLoop) (reset socket) none none :=
  .cons (.touch rfl) <| .cons (.lock _) <| .cons (.touch rfl) <|
    .cons (.touch fun _ => rfl) <| .cons (.unlock _) (.nil _)

theorem append_keeps : Keeps (may .eventLoop) append none none :=
  .cons (.lock _) <| .cons (.touch rfl) <| .cons
    (.either (.unlock _) (.cons (.touch rfl) <| .cons (.unlock _) (.nil _)))
    (.nil _)

theorem pushFreeTask_keeps : Keeps (may .eventLoop) pushFreeTask none none :=
  .cons (.lock _) <| .cons (.touch trivial) <| .cons (.unlock _) (.nil _)

theorem getFreeTask_keeps : Keeps (may .eventLoop) getFreeTask none none :=
  .cons (.lock _) <| .cons (.touch trivial) <| .cons
    (.either (.unlock _) <|
      .cons (.unlock _) <| .cons (.touch trivial) <| .cons (.touch trivial) (.nil _))
    (.nil _)

theorem isFreeTasksEmpty_keeps : Keeps (may .eventLoop) isFreeTasksEmpty none none :=
  .cons (.lock _) <| .cons (.touch trivial) <| .cons (.either (.unlock _) (.unlock _)) (.nil _)

theorem getRecvTask_keeps (held : Option Lock) :
    Keeps (may .eventLoop) getRecvTask held held :=
  .cons (.touch trivial) <| .cons
    (.either (.skip _) <| .cons (.touch trivial) <| .cons (.touch trivial) (.nil _))
    (.nil _)

theorem addUndoTask_keeps (undoTask : Socket) (held : Option Lock) :
    Keeps (may .eventLoop) (addUndoTask undoTask) held held :=
  .cons (.touch nofun) <| .cons (.touch trivial) <| .cons (.touch trivial) (.nil _)

theorem addRecvTask_keeps : Keeps (may .eventLoop) addRecvTask none none :=
  .choose fun front =>
    .cons (.lock _) <| .cons (.touch trivial) <| .cons (getRecvTask_keeps _) <|
      .cons (addUndoTask_keeps (.pooled front) _) <| .cons (.unlock _) (.nil _)

theorem addConnect_keeps : Keeps (may .eventLoop) addConnect none none := by
  have assigned : Keeps (may .eventLoop)
      (.inOrder [
        getFreeTask,
        write .readyList,
        read .readyList,
        .either .skip <| .choose fun freeSubscript =>
          write (.field (.pooled freeSubscript) .socket)]) none none :=
    .cons getFreeTask_keeps <| .cons (.touch trivial) <| .cons (.touch trivial) <|
      .cons (.either (.skip _) (.choose fun _ => .touch rfl)) (.nil _)
  exact .cons .block <| .cons
    (.either (.skip _) <|
      .cons isFreeTasksEmpty_keeps <| .cons (.either (.skip _) assigned) (.nil _))
    (.nil _)

theorem closeConnect_keeps : Keeps (may .eventLoop) closeConnect none none := by
  have announced : Keeps (may .eventLoop)
      (.inOrder [addUndoTask .temporary, pushFreeTask]) none none :=
    .cons (addUndoTask_keeps _ _) <| .cons pushFreeTask_keeps (.nil _)
  exact .cons (.touch trivial) <| .cons
    (.choose fun delSubscript =>
      .cons (reset_keeps (.pooled delSubscript)) <| .cons (.either (.skip _) announced) (.nil _))
    (.nil _)

theorem recvMsg_keeps : Keeps (may .eventLoop) recvMsg none none :=
  .cons (.touch trivial) <| .cons (.choose fun _ => .touch rfl) <|
    .cons addRecvTask_keeps <| .cons append_keeps (.nil _)

theorem netRun_keeps : Keeps (may .eventLoop) netRun none none := by
  have received : Keeps (may .eventLoop)
      (.inOrder [recvMsg, .either closeConnect .skip]) none none :=
    .cons recvMsg_keeps <| .cons (.either closeConnect_keeps (.skip _)) (.nil _)
  exact .loop <| .cons .block <| .cons
    (.loop <| .either closeConnect_keeps <| .either (.either addConnect_keeps received) (.skip _))
    (.nil _)

theorem getUndoTask_keeps (index : Nat) :
    Keeps (may (.application index)) getUndoTask none none :=
  .cons (.lock _) <| .cons (.touch rfl) <| .cons
    (.either (.unlock _) <|
      .cons (.touch rfl) <| .cons (.touch rfl) <| .cons (.unlock _) (.nil _))
    (.nil _)

theorem applicationRun_keeps (index : Nat) :
    Keeps (may (.application index)) applicationRun none none :=
  .loop <| .choose fun taskId =>
    .either (getUndoTask_keeps index) <| .either (.touch trivial) <| .either (.touch trivial) <|
      sendBuf_keeps (by nofun) (.pooled taskId)

/-- Every thread keeps the rules. -/
theorem code_keeps (thread : Thread) : Keeps (may thread) (code thread) none none := by
  cases thread with
  | eventLoop => exact netRun_keeps
  | worker index => exact poolRun_keeps index
  | application index => exact applicationRun_keeps index

/-! ## What follows for every interleaving -/

/-- What the locks do not keep apart: which variable a thread may find in use by another one. -/
def Exposed : Thread → Thread → Var → Prop
  | .eventLoop, .worker _, .field _ field =>
      field ∈ [Field.socket, .flag, .referenceCount, .recvBuf]
  | .eventLoop, .application _, .undoTasks => True
  | .eventLoop, .application _, .field _ field =>
      field ∈ [Field.socket, .referenceCount, .sendBuf]
  | .worker _, .worker _, .field _ field => field = .sendPos
  | .worker _, .application _, .field _ field => field ∈ [Field.sendPos, .sendBuf]
  | .application _, .application _, .field _ field => field ∈ [Field.sendPos, .sendBuf]
  | _, _, _ => False

/-- Two threads are about to use the variable, and one of them writes it. -/
def Race (threads : Threads Thread Lock Access Int) (var : Var) (first second : Thread) : Prop :=
  ∃ writes writes', (writes || writes') = true ∧
    threads.Meet first second ⟨var, writes⟩ ⟨var, writes'⟩

theorem apart_of_not_exposed {first second : Thread} {var : Var} {writes writes' : Bool}
    (different : first ≠ second) (write : (writes || writes') = true)
    (one : ¬ Exposed first second var) (two : ¬ Exposed second first var) :
    Apart may first second ⟨var, writes⟩ ⟨var, writes'⟩ := by
  intro held held' allowed allowed'
  cases var with
  | workqueue =>
      obtain rfl : held = some .queueLocker := by cases first <;> exact allowed
      obtain rfl : held' = some .queueLocker := by cases second <;> exact allowed'
      exact ⟨rfl, nofun⟩
  | readyList => cases first <;> cases second <;> simp_all [may]
  | freeTasks => cases first <;> cases second <;> simp_all [may]
  | recvTasks => cases first <;> cases second <;> simp_all [may]
  | undoTasks => cases first <;> cases second <;> simp_all [may, Exposed]
  | field socket field =>
      cases field <;> cases first <;> cases second <;> simp_all [may, Exposed]

/-- In every interleaving of the threads, two of them meet over a variable only where the table
of exposed variables says so; never over the work queue or the tables of the task pool. -/
theorem races_exposed {threads : Threads Thread Lock Access Int}
    (reached : (threadsOf code).Reachable threads) {var : Var} {first second : Thread}
    (race : Race threads var first second) :
    Exposed first second var ∨ Exposed second first var := by
  obtain ⟨writes, writes', write, meet⟩ := race
  by_contra neither
  obtain ⟨one, two⟩ := not_or.mp neither
  exact (reachable_lawful code_keeps reached).not_meet
    (apart_of_not_exposed meet.different write one two) meet

/-- The application's threads come to write a reply for the same task. -/
def twoReplies : List (Pick Thread Int) :=
  [0, 1].flatMap fun index =>
    [true, true, false, true].map fun yes => ⟨.application index, yes, 5⟩

theorem races_exposed_replies :
    ∃ threads, (threadsOf code).Reachable threads ∧
      Race threads (.field (.pooled 5) .sendBuf) (.application 0) (.application 1) ∧
      Exposed (.application 0) (.application 1) (.field (.pooled 5) .sendBuf) := by
  obtain ⟨threads, reached, ended⟩ := Machine.exists_reachableUnder_of_follow
    (threadsOf code) (fun _ _ => True) twoReplies
    (fun threads => [0, 1].all fun index => threads.next? (.application index) =
      some (.touch ⟨.field (.pooled 5) .sendBuf, true⟩))
    rfl (by decide)
  have next (index : Nat) (here : index ∈ [0, 1]) :=
    of_decide_eq_true (List.all_eq_true.mp ended index here)
  have race : Race threads (.field (.pooled 5) .sendBuf) (.application 0) (.application 1) :=
    ⟨true, true, rfl, ⟨by decide, next 0 (by decide), next 1 (by decide)⟩⟩
  exact ⟨threads, reached, race, (races_exposed reached race).elim id id⟩

/-- In every interleaving of the threads a thread holds one lock at most and none when it makes a
system call that may wait.  A thread that cannot go on waits for a lock whose holder can, and a
thread that keeps a lock makes no more steps than it had work left. -/
theorem locks_never_deadlock {threads : Threads Thread Lock Access Int}
    (reached : (threadsOf code).Reachable threads) :
    (∀ thread name name', threads.holder name = some thread →
      threads.holder name' = some thread → name = name') ∧
    (∀ thread, threads.next? thread = some .block → ∀ name, threads.holder name ≠ some thread) ∧
    (∀ pick, threads.todo pick.thread ≠ [] → threads.step? pick = none →
      ∃ name other, threads.next? pick.thread = some (.lock name) ∧
        threads.holder name = some other ∧ other ≠ pick.thread ∧
        ∀ yes way, ∃ after, threads.step? ⟨other, yes, way⟩ = some after) ∧
    (∀ thread name picks last,
      (threadsOf code).Path (fun threads _ => threads.holder name = some thread)
        threads picks last →
      picks.countP (fun pick => pick.thread = thread) + workLeft (last.todo thread) ≤
        workLeft (threads.todo thread)) := by
  have lawful := reachable_lawful code_keeps reached
  refine ⟨?_, ?_, fun pick => lawful.blocked, fun thread name picks last => lawful.steps_le⟩
  · intro thread name name' one two
    obtain ⟨held, _, holds⟩ := lawful thread
    exact Option.some.inj (((holds name).mp one).symm.trans ((holds name').mp two))
  · intro thread waits name its
    cases (lawful.holds_at waits name).mp its

/-- One thread of the application has locked the list of messages, another one asks for it. -/
def twoPulls : List (Pick Thread Int) :=
  [.application 0, .application 1].flatMap (fun thread =>
    [true, true, true, true].map fun yes => ⟨thread, yes, 5⟩) ++ [⟨.application 0, true, 5⟩]

theorem locks_never_deadlock_pulls :
    ∃ threads, (threadsOf code).Reachable threads ∧
      threads.next? (.application 1) = some (.lock .undoLock) ∧
      threads.holder .undoLock = some (.application 0) ∧
      ∀ name, threads.holder name = some (.application 0) → name = .undoLock := by
  obtain ⟨threads, reached, ended⟩ := Machine.exists_reachableUnder_of_follow
    (threadsOf code) (fun _ _ => True) twoPulls
    (fun threads => threads.next? (.application 1) = some (.lock .undoLock) ∧
      threads.holder .undoLock = some (.application 0))
    rfl (by decide)
  obtain ⟨asks, held⟩ := of_decide_eq_true ended
  exact ⟨threads, reached, asks, held,
    fun name its => (locks_never_deadlock reached).1 _ _ _ its held⟩

end LibNet.Net.Locking
