import LibNet.Base.Buffer

/-!
# The socket of one task

`TcpSocket` of `tcp_socket.h` and `tcp_socket.cpp`.  `send_buf` and `recv_buf`
are cut at their system calls: what they do before the first call, what they do
with the result of one, and what they do at the end.  The functions as a whole
run over the list of results the calls return.  `m_task_id` is left out, since
nothing reads it.
-/

namespace LibNet.Net

open LibNet.Runs
open LibNet.Base

/-- `READ_OP`. -/
def readOp : Bool := false

/-- `WRITE_OP`. -/
def writeOp : Bool := true

structure TcpSocket (β : Type) where
  mSocket : Int
  mReferenceCount : Int
  mSendPos : Int
  mFlag : Bool
  mSendBuf : Buffer β
  mRecvBuf : Buffer β

/-- What one `write` of at most the offered bytes comes back with. -/
inductive WriteResult where
  | wrote (count : Nat)
  | eagain
  | error
  deriving DecidableEq

/-- What one `read` of at most `BUFFER_SIZE-1` bytes comes back with.  An
interrupted call and a failed one are alike to the code. -/
inductive ReadResult (β : Type) where
  | data (bytes : List β)
  | eof
  | eagain
  | error
  deriving DecidableEq

/-- The local copy of the reply, what is left to send and where it starts. -/
structure SendFrame (β : Type) where
  buf : Nat → β
  left : Int
  sendPos : Nat

/-- How a call of `send_buf` ended: what it returned, the bytes `write` accepted
and, for every `write`, the position and the number of bytes offered. -/
structure SendBuf (β : Type) where
  ret : Int
  socket : TcpSocket β
  wire : List β
  offered : List (Nat × Int)

/-- What `recv_buf` does after one `read`: read again, give up at the end of the
stream, or store `length` bytes of its local array. -/
inductive RecvNext (β : Type) where
  | again (length : Int)
  | peerClosed
  | store (length : Int) (bytes : List β)

/-- How a call of `recv_buf` ended, and how many bytes it copied to `m_recv_buf`. -/
structure RecvBuf (β : Type) where
  ret : Int
  socket : TcpSocket β
  copied : Nat

/-- What `process` calls. -/
inductive Process where
  | recvBuf
  | sendBuf

namespace SendFrame

variable {β : Type}

/-- The bytes a `write` takes when it accepts `count` of those offered. -/
def chunk (frame : SendFrame β) (count : Nat) : List β :=
  window frame.buf frame.sendPos count

/-- `send_pos += ret; left -= ret`. -/
def advance (frame : SendFrame β) (count : Nat) : SendFrame β :=
  { frame with sendPos := frame.sendPos + count, left := frame.left - count }

end SendFrame

namespace TcpSocket

variable {β : Type} [Byte β]

/-- The constructor; the two blocks are what `malloc` found. -/
def new (sendBlock recvBlock : Nat → β) : TcpSocket β where
  mSocket := 0
  mReferenceCount := 1
  mSendPos := 6
  mFlag := readOp
  mSendBuf := .new sendBlock
  mRecvBuf := .new recvBlock

section Fields

omit [Byte β]

def getWrFlag (socket : TcpSocket β) : Bool := socket.mFlag

def setWrFlag (socket : TcpSocket β) (bFlag : Bool) : TcpSocket β :=
  { socket with mFlag := bFlag }

def setFd (socket : TcpSocket β) (connFd : Int) : TcpSocket β :=
  { socket with mSocket := connFd }

def getMsg (socket : TcpSocket β) : List β := socket.mRecvBuf.getBuf

/-- `get_send_buf_len_addr` raises the reference count; the address it returns
is that of the length of `m_send_buf`. -/
def getSendBufLenAddr (socket : TcpSocket β) : TcpSocket β :=
  { socket with mReferenceCount := socket.mReferenceCount + 1 }

/-- What the application does through the two addresses a message carries. -/
def writeReply (socket : TcpSocket β) (reply : List β) : TcpSocket β :=
  { socket with
    mSendBuf := ⟨layout reply socket.mSendBuf.mBuf, reply.length⟩ }

/-- `process` runs one of the two loops; its third branch has no flag left. -/
def process (bFlag : Bool) : Process :=
  if bFlag = readOp then .recvBuf else .sendBuf

end Fields

/-- The first half of `reset`, done without the lock. -/
def resetSocket (socket : TcpSocket β) : TcpSocket β :=
  { socket with mSocket := 0 }

/-- The second half of `reset`, done under `m_lock`. -/
def resetBuffers (socket : TcpSocket β) : TcpSocket β :=
  { socket with mSendBuf := socket.mSendBuf.clean, mRecvBuf := socket.mRecvBuf.clean }

def reset (socket : TcpSocket β) : TcpSocket β :=
  socket.resetSocket.resetBuffers

/-- `send_buf` counts the reply in once per reference. -/
def sendCount (socket : TcpSocket β) : TcpSocket β :=
  if socket.mReferenceCount > 0 then
    { socket with
      mSendPos := socket.mSendPos + socket.mSendBuf.getSize
      mReferenceCount := socket.mReferenceCount - 1 }
  else socket

/-- The zeroed local copy of `BUFFER_SIZE` bytes, with whatever the heap holds
after it. -/
def sendCopy (socket : TcpSocket β) (heap : Nat → β) : Nat → β :=
  memcpy (memcpy heap (fun _ => Byte.zero) bufferSize) socket.mSendBuf.mBuf
    socket.mSendBuf.mLength

/-- `send_buf` up to its loop; it returns at once when there is no reply or
nothing left. -/
def sendStart (socket : TcpSocket β) (heap : Nat → β) :
    TcpSocket β × Option (SendFrame β) :=
  let counted := socket.sendCount
  if socket.mSendBuf.mLength = 0 ∨ counted.mSendPos = 0 then (counted, none)
  else (counted, some ⟨socket.sendCopy heap, counted.mSendPos, 0⟩)

/-- `send_buf` after its loop. -/
def sendEnd (socket : TcpSocket β) (left : Int) (last : WriteResult) : Int × TcpSocket β :=
  if left = 0 then (0, socket)
  else
    match last with
    | .eagain => (-1, { socket with mSendPos := socket.mSendPos - (-1) })
    | _ => (-1, socket)

/-- The loop: write while bytes are accepted.  The list of results may run out
before the call returns. -/
def writeLoop (socket : TcpSocket β) : SendFrame β → List WriteResult → Option (SendBuf β)
  | _, [] => none
  | frame, .wrote (count + 1) :: rest =>
      match writeLoop socket (frame.advance (count + 1)) rest with
      | none => none
      | some ended =>
          some { ended with
            wire := frame.chunk (count + 1) ++ ended.wire
            offered := (frame.sendPos, frame.left) :: ended.offered }
  | frame, last :: _ =>
      let ended := socket.sendEnd frame.left last
      some ⟨ended.1, ended.2, [], [(frame.sendPos, frame.left)]⟩

/-- `send_buf`. -/
def sendBuf (socket : TcpSocket β) (heap : Nat → β) (results : List WriteResult) :
    Option (SendBuf β) :=
  match socket.sendStart heap with
  | (counted, none) => some ⟨0, counted, [], []⟩
  | (counted, some frame) => counted.writeLoop frame results

/-- `recv_buf` up to its loop. -/
def recvStart (socket : TcpSocket β) : TcpSocket β :=
  { socket with mSendPos := 0 }

omit [Byte β] in
/-- One turn of the loop; a failed read is added to the total as -1. -/
def recvNext (length : Int) : ReadResult β → RecvNext β
  | .data bytes => .store (length + bytes.length) bytes
  | .eof => .peerClosed
  | .eagain => .store (length - 1) []
  | .error => .again (length - 1)

/-- The conversion of the `int` total to the `uint32_t` that `put_buf` takes. -/
def storeLength (length : Int) : Nat := (length % 2 ^ 32).toNat

/-- The end of `recv_buf`: `put_buf` of the local array under `m_lock`. -/
def recvStore (socket : TcpSocket β) (length : Int) (bytes : List β) : RecvBuf β :=
  let put := socket.mRecvBuf.putBuf (some (layout bytes fun _ => Byte.zero)) (storeLength length)
  ⟨0, { socket with mRecvBuf := put.buffer }, put.copied⟩

/-- The loop over the results of `read`, and the end it comes to. -/
def readLoop (socket : TcpSocket β) : Int → List (ReadResult β) → Option (RecvBuf β)
  | _, [] => none
  | length, result :: rest =>
      match recvNext length result with
      | .again total => readLoop socket total rest
      | .peerClosed => some ⟨-1, socket, 0⟩
      | .store total bytes => some (socket.recvStore total bytes)

/-- `recv_buf`. -/
def recvBuf (socket : TcpSocket β) (results : List (ReadResult β)) : Option (RecvBuf β) :=
  socket.recvStart.readLoop 0 results

end TcpSocket

end LibNet.Net
