import LibNet.Base.ThreadPoolQueue
import LibNet.Net.TcpTaskPool
import LibNet.Runs.Machine

/-!
# The server

The event loop of `net_work.cpp`, the workers of the thread pool and the
application that calls `pull_msg` and `push_msg`, over the sockets and the epoll
instance of the kernel.  System calls, operations on a list and operations on a
buffer are single steps; `recv_buf` and `send_buf` are cut at their system calls
and `close_connect` where `reset` gives up the socket, where it cleans the
buffers, and where the descriptor is closed and the id freed.  The event loop is
the only thread that touches the tables, so `add_connect` is one step.

Bytes carry their history.  A step whose effect is undefined in the source (an
index out of range, a copy past the end of an array) is refused, so that a run
ends where the source has no meaning.
-/

namespace LibNet.Net

open LibNet.Runs
open LibNet.Base

/-- Where a byte was made: by the program, by a descriptor that is no connection,
or by the peer of a connection as the byte at some position of its stream. -/
inductive Origin where
  | program
  | foreign
  | conn (conn position : Nat)
  deriving DecidableEq

/-- A byte with its history. -/
structure Octet where
  value : UInt8
  origin : Origin
  deriving DecidableEq

instance : Byte Octet where
  zero := ⟨Byte.zero, .program⟩
  digitOne := ⟨Byte.digitOne, .program⟩

/-- What a message was made for: a read event or the close of a connection. -/
inductive Cause where
  | read (conn : Nat)
  | close (conn : Nat)
  deriving DecidableEq

def Cause.conn : Cause → Nat
  | .read conn => conn
  | .close conn => conn

/-- Bytes of a connection, as they stand in its stream from `start` on. -/
def octets (conn start : Nat) (bytes : List UInt8) : List Octet :=
  bytes.mapIdx fun offset value => ⟨value, .conn conn (start + offset)⟩

@[simp] theorem length_octets (conn start : Nat) (bytes : List UInt8) :
    (octets conn start bytes).length = bytes.length :=
  List.length_mapIdx

theorem map_value_octets (conn start : Nat) (bytes : List UInt8) :
    (octets conn start bytes).map Octet.value = bytes := by
  refine List.ext_getElem (by simp) fun index _ _ => ?_
  simp [octets]

/-- The kernel's side of a connection.  `fin` is an orderly close by the peer,
which epoll reports as `EPOLLIN`; `hup` stands for `EPOLLHUP` and `EPOLLERR`;
`edge` is set when something happened that `epoll_wait` has not reported.

The last three fields are history: the bytes `recv_buf` has read, whether it has
seen the end, and the bytes `write` has accepted, each batch with the connection
whose message it answers. -/
structure Conn where
  rcvq : List UInt8
  fin : Bool
  hup : Bool
  edge : Bool
  bytesRead : List UInt8
  sawEof : Bool
  wire : List (Nat × List Octet)

def Conn.new : Conn := ⟨[], false, false, false, [], false, []⟩

/-- There is something to report: bytes, an end or a hang-up. -/
def Conn.ready (conn : Conn) : Bool := !conn.rcvq.isEmpty || conn.fin || conn.hup

/-- An event of the array `epoll_wait` fills.  Only `EPOLLIN` is asked for, so
every event has it; `hup` says whether the event has an error or hang-up too. -/
structure Event where
  fd : Int
  hup : Bool
  deriving DecidableEq

/-- `MAX_EVENTS`. -/
def maxEvents : Nat := 100

/-- The number of workers the pool is made with. -/
def threadNumber : Nat := 9

instance : NeZero threadNumber := ⟨by decide⟩

/-- `m_max_requests`. -/
def maxRequests : Nat := 10000

/-- The least value of an `int`. -/
def intMin : Int := -2 ^ 31

/-- Where the event loop stands: at the next of the events it still has to
handle (in `epoll_wait` when there is none), in `recv_msg` before `append`, or in
`close_connect` before a piece of it. -/
inductive Loop where
  | handle (events : List Event)
  | append (taskId fd : Int) (events : List Event)
  | clean (delSubscript connFd : Int) (events : List Event)
  | finish (delSubscript connFd : Int) (events : List Event)

/-- Where a worker stands: waiting, with a task popped, in the loop of `recv_buf`
before a `read`, or after it with bytes that are not stored yet. -/
inductive Reader where
  | idle
  | popped (taskId : Int)
  | reading (taskId length : Int)
  | holding (taskId length : Int) (bytes : List Octet)
  deriving DecidableEq

/-- A message the application has pulled and not dropped: it may be answering
it, or be inside `push_msg` before a `write`. -/
inductive Slot where
  | holding (message : Message Octet Cause)
  | sending (message : Message Octet Cause) (frame : SendFrame Octet)

def Slot.message : Slot → Message Octet Cause
  | .holding message => message
  | .sending message _ => message

/-- The state of the server.  `reserved` are the open descriptors that are no
connections, `live` those that are; `connAt` names the connection last accepted
at a descriptor.  Connections are numbered as their handshakes complete, and the
accept queue holds those from `accepted` up to `connected`.  `pulled` is history. -/
structure Server where
  pool : TcpTaskPool Octet Cause
  mWorkqueue : List Int
  workers : Fin threadNumber → Reader
  loop : Loop
  slots : List Slot
  pulled : List (Message Octet Cause)
  reserved : List Int
  live : List Int
  connAt : Int → Nat
  conns : Nat → Conn
  connected : Nat
  accepted : Nat
  listenEdge : Bool

/-- What one `read` of a worker meets: so many bytes of a connection, bytes of
another descriptor, the end, nothing yet, or a failure. -/
inductive ReadCall where
  | data (count : Nat)
  | foreign (bytes : List UInt8)
  | eof
  | eagain
  | error

/-- The step taken next: by a peer, by the event loop, by a worker or by the
application. -/
inductive Action where
  | connect
  | arrive (conn : Nat) (bytes : List UInt8)
  | peerClose (conn : Nat)
  | peerReset (conn : Nat)
  | epollWait (fds : List Int)
  | accept (connFd : Option Int)
  | loop
  | take (worker : Fin threadNumber)
  | enter (worker : Fin threadNumber)
  | read (worker : Fin threadNumber) (call : ReadCall)
  | store (worker : Fin threadNumber)
  | pull
  | reply (slot : Nat) (bytes : List UInt8)
  | discard (slot : Nat)
  | push (slot : Nat) (heap : Nat → Octet)
  | write (slot : Nat) (result : WriteResult)

namespace Server

/-- The server before its first event. -/
def init (mListenFd mEpollFd : Int) (reserved : List Int) (block : Nat → Octet) : Server where
  pool := .init mListenFd mEpollFd block
  mWorkqueue := []
  workers := fun _ => .idle
  loop := .handle []
  slots := []
  pulled := []
  reserved := reserved
  live := []
  connAt := fun _ => 0
  conns := fun _ => .new
  connected := 0
  accepted := 0
  listenEdge := false

abbrev task (server : Server) (taskId : Int) : TcpSocket Octet := server.pool.mTcpTasks taskId

def setTask (server : Server) (taskId : Int) (socket : TcpSocket Octet) : Server :=
  { server with pool := server.pool.setTask taskId socket }

def setConn (server : Server) (conn : Nat) (value : Conn) : Server :=
  { server with conns := Function.update server.conns conn value }

def setWorker (server : Server) (worker : Fin threadNumber) (value : Reader) : Server :=
  { server with workers := Function.update server.workers worker value }

/-- A handshake completes, bytes arrive, or the peer closes or resets. -/
def peer? (server : Server) : Action → Option Server
  | .connect => some { server with connected := server.connected + 1, listenEdge := true }
  | .arrive conn bytes =>
      let old := server.conns conn
      if conn < server.connected ∧ old.fin = false ∧ old.hup = false ∧ bytes ≠ [] then
        some (server.setConn conn { old with rcvq := old.rcvq ++ bytes, edge := true })
      else none
  | .peerClose conn =>
      let old := server.conns conn
      if conn < server.connected ∧ old.fin = false ∧ old.hup = false then
        some (server.setConn conn { old with fin := true, edge := true })
      else none
  | .peerReset conn =>
      let old := server.conns conn
      if conn < server.connected ∧ old.hup = false then
        some (server.setConn conn { old with hup := true, edge := true })
      else none
  | _ => none

/-! ## The event loop -/

/-- `epoll_wait` has something to report for the descriptor. -/
def pending (server : Server) (fd : Int) : Bool :=
  if fd = server.pool.mListenFd then
    server.listenEdge && decide (server.accepted < server.connected)
  else
    decide (fd ∈ server.live) && ((server.conns (server.connAt fd)).edge &&
      (server.conns (server.connAt fd)).ready)

/-- The event reported for a descriptor. -/
def event (server : Server) (fd : Int) : Event :=
  ⟨fd, decide (fd ≠ server.pool.mListenFd) && (server.conns (server.connAt fd)).hup⟩

/-- `epoll_wait` takes the edges it reports; nothing is reported when a signal
interrupts it. -/
def epollWait? (server : Server) (fds : List Int) : Option Server :=
  match server.loop with
  | .handle [] =>
      if fds.Nodup ∧ fds.length ≤ maxEvents ∧ ∀ fd ∈ fds, server.pending fd = true then
        some { server with
          loop := .handle (fds.map server.event)
          conns := fun conn =>
            if conn ∈ (fds.filter (· ≠ server.pool.mListenFd)).map server.connAt then
              { server.conns conn with edge := false }
            else server.conns conn
          listenEdge := server.listenEdge && decide (server.pool.mListenFd ∉ fds) }
      else none
  | _ => none

/-- The event of the listening socket: `add_connect`.  The kernel picks any
descriptor that is not open; with an empty accept queue the call blocks. -/
def accept? (server : Server) (connFd : Option Int) : Option Server :=
  match server.loop with
  | .handle (event :: events) =>
      if event.hup = false ∧ event.fd = server.pool.mListenFd then
        match connFd with
        | none => some { server with loop := .handle events }
        | some fd =>
            if 0 ≤ fd ∧ fd ∉ server.live ∧ fd ∉ server.reserved ∧
                server.accepted < server.connected then
              match server.pool.addConnect? (some fd) with
              | none => none
              | some (_, pool) =>
                  some { server with
                    pool := pool
                    loop := .handle events
                    live := fd :: server.live
                    connAt := Function.update server.connAt fd server.accepted
                    conns := Function.update server.conns server.accepted
                      { server.conns server.accepted with edge := true }
                    accepted := server.accepted + 1 }
            else none
      else none
  | _ => none

/-- The other steps of the loop in `run`.  A hang-up is handled before `EPOLLIN`
is looked at; what `recv_msg` returns is never -1. -/
def loop? (server : Server) : Option Server :=
  match server.loop with
  | .handle [] => none
  | .handle (event :: events) =>
      if event.hup then
        match server.pool.readyTask? event.fd with
        | none => none
        | some delSubscript =>
            some { server with
              pool := server.pool.forgetSocket delSubscript
              loop := .clean delSubscript event.fd events }
      else if event.fd = server.pool.mListenFd then none
      else
        match server.pool.recvMsg? event.fd (.read (server.connAt event.fd)) with
        | none => none
        | some (readySubscript, pool) =>
            some { server with
              pool := pool
              loop := .append readySubscript event.fd events }
  | .append taskId _ events =>
      some { server with
        mWorkqueue := enqueue maxRequests server.mWorkqueue taskId
        loop := .handle events }
  | .clean delSubscript connFd events =>
      some { server with
        pool := server.pool.cleanBuffers delSubscript
        loop := .finish delSubscript connFd events }
  | .finish delSubscript connFd events =>
      match server.pool.addCloseTask? delSubscript (fun _ => Byte.zero)
          (.close (server.connAt connFd)) with
      | none => none
      | some pool =>
          some { server with
            pool := pool.pushFreeTask delSubscript
            live := server.live.erase connFd
            loop := .handle events }

/-! ## Workers -/

/-- The loop of `run` in the thread pool hands the front of the queue out. -/
def take? (server : Server) (worker : Fin threadNumber) : Option Server :=
  match server.workers worker, server.mWorkqueue with
  | .idle, taskId :: rest => some ({ server with mWorkqueue := rest }.setWorker worker
      (.popped taskId))
  | _, _ => none

/-- `process` enters `recv_buf`.  No task ever has the flag that would make it
enter `send_buf`. -/
def enter? (server : Server) (worker : Fin threadNumber) : Option Server :=
  match server.workers worker with
  | .popped taskId =>
      match TcpSocket.process (server.task taskId).getWrFlag with
      | .recvBuf =>
          some ((server.setTask taskId (server.task taskId).recvStart).setWorker worker
            (.reading taskId 0))
      | .sendBuf => none
  | _ => none

/-- The kernel's side of `read(fd, buf, BUFFER_SIZE-1)`. -/
def kernelRead? (server : Server) (fd : Int) : ReadCall → Option (ReadResult Octet × Server)
  | .data count =>
      let conn := server.connAt fd
      let old := server.conns conn
      if fd ∈ server.live ∧ 0 < count ∧ count ≤ old.rcvq.length ∧ count ≤ bufferSize - 1 then
        some (.data (octets conn old.bytesRead.length (old.rcvq.take count)),
          server.setConn conn { old with
            rcvq := old.rcvq.drop count
            bytesRead := old.bytesRead ++ old.rcvq.take count })
      else none
  | .foreign bytes =>
      if fd ∈ server.reserved ∧ fd ∉ server.live ∧ bytes ≠ [] ∧ bytes.length ≤ bufferSize - 1 then
        some (.data (bytes.map fun value => ⟨value, .foreign⟩), server)
      else none
  | .eof =>
      let conn := server.connAt fd
      let old := server.conns conn
      if fd ∈ server.live then
        if old.rcvq = [] ∧ (old.fin = true ∨ old.hup = true) then
          some (.eof, server.setConn conn { old with sawEof := true })
        else none
      else if fd ∈ server.reserved then some (.eof, server)
      else none
  | .eagain =>
      let old := server.conns (server.connAt fd)
      if fd ∈ server.live then
        if old.rcvq = [] ∧ old.fin = false ∧ old.hup = false then some (.eagain, server)
        else none
      else if fd ∈ server.reserved then some (.eagain, server)
      else none
  | .error => some (.error, server)

/-- One turn of the loop of `recv_buf`, with the descriptor the task has now. -/
def read? (server : Server) (worker : Fin threadNumber) (call : ReadCall) : Option Server :=
  match server.workers worker with
  | .reading taskId length =>
      match server.kernelRead? (server.task taskId).mSocket call with
      | none => none
      | some (result, after) =>
          match TcpSocket.recvNext length result with
          | .again total =>
              if intMin ≤ total then some (after.setWorker worker (.reading taskId total))
              else none
          | .peerClosed => some (after.setWorker worker .idle)
          | .store total bytes =>
              if intMin ≤ total then some (after.setWorker worker (.holding taskId total bytes))
              else none
  | _ => none

/-- The end of `recv_buf`, under `m_lock`. -/
def store? (server : Server) (worker : Fin threadNumber) : Option Server :=
  match server.workers worker with
  | .holding taskId length bytes =>
      let stored := (server.task taskId).recvStore length bytes
      if stored.copied ≤ bufferSize then
        some ((server.setTask taskId stored.socket).setWorker worker .idle)
      else none
  | _ => none

/-! ## The application -/

/-- `pull_msg` with a message in the list. -/
def pull? (server : Server) : Option Server :=
  match server.pool.getUndoTask with
  | (none, _) => none
  | (some message, pool) =>
      some { server with
        pool := pool
        slots := server.slots ++ [.holding message]
        pulled := server.pulled ++ [message] }

/-- The application writes a reply through the addresses it was given.  Those of
a close event lead to a block that no task uses any more. -/
def reply? (server : Server) (slot : Nat) (bytes : List UInt8) : Option Server :=
  match server.slots[slot]? with
  | some (.holding message) =>
      match message.sendMsg with
      | .task taskId =>
          if bytes.length ≤ bufferSize then
            some (server.setTask taskId ((server.task taskId).writeReply
              (bytes.map fun value => ⟨value, .program⟩)))
          else none
      | .temporary => some server
  | _ => none

/-- The application drops a message without an answer. -/
def discard? (server : Server) (slot : Nat) : Option Server :=
  match server.slots[slot]? with
  | some (.holding _) => some { server with slots := server.slots.eraseIdx slot }
  | _ => none

/-- `push_msg`: `send_now` calls `send_buf` on the task of the id. -/
def push? (server : Server) (slot : Nat) (heap : Nat → Octet) : Option Server :=
  match server.slots[slot]? with
  | some (.holding message) =>
      match (server.task message.taskId).sendStart heap with
      | (counted, none) =>
          some { server.setTask message.taskId counted with
            slots := server.slots.eraseIdx slot }
      | (counted, some frame) =>
          some { server.setTask message.taskId counted with
            slots := server.slots.set slot (.sending message frame) }
  | _ => none

/-- The kernel's side of `write` when it accepts bytes: a connection keeps them
with the connection they answer. -/
def kernelWrite (server : Server) (fd : Int) (answers : Nat) (bytes : List Octet) : Server :=
  let old := server.conns (server.connAt fd)
  { server with
    conns :=
      if fd ∈ server.live then
        Function.update server.conns (server.connAt fd)
          { old with wire := old.wire ++ [(answers, bytes)] }
      else server.conns }

/-- One turn of the loop of `send_buf`, with the descriptor the task has now. -/
def write? (server : Server) (slot : Nat) (result : WriteResult) : Option Server :=
  match server.slots[slot]? with
  | some (.sending message frame) =>
      let fd := (server.task message.taskId).mSocket
      match result with
      | .wrote (count + 1) =>
          if ((count + 1 : Nat) : Int) ≤ frame.left ∧
              (fd ∈ server.live ∨ fd ∈ server.reserved) then
            some { server.kernelWrite fd message.cause.conn (frame.chunk (count + 1)) with
              slots := server.slots.set slot (.sending message (frame.advance (count + 1))) }
          else none
      | last =>
          some { server.setTask message.taskId
              ((server.task message.taskId).sendEnd frame.left last).2 with
            slots := server.slots.eraseIdx slot }
  | _ => none

/-- One step of the server. -/
def step? (server : Server) : Action → Option Server
  | .epollWait fds => server.epollWait? fds
  | .accept connFd => server.accept? connFd
  | .loop => server.loop?
  | .take worker => server.take? worker
  | .enter worker => server.enter? worker
  | .read worker call => server.read? worker call
  | .store worker => server.store? worker
  | .pull => server.pull?
  | .reply slot bytes => server.reply? slot bytes
  | .discard slot => server.discard? slot
  | .push slot heap => server.push? slot heap
  | .write slot result => server.write? slot result
  | action => server.peer? action

end Server

/-- Runs of the server.  The standard input, the listening socket and the epoll
instance are open from the start. -/
def server : Machine Server Action where
  Start := fun first => ∃ mListenFd mEpollFd reserved block,
    0 ∈ reserved ∧ mListenFd ∈ reserved ∧ mEpollFd ∈ reserved ∧
      first = .init mListenFd mEpollFd reserved block
  step? := Server.step?

end LibNet.Net
