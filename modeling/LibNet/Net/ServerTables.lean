import LibNet.Net.Server
import LibNet.Net.TaskTables

/-!
# The tables of the server

What is to hold of the tables in every run: the books of the task pool are right
for the descriptors of open connections, a task holds the descriptor it is
assigned to and descriptor 0 otherwise, and every event still to be handled is of
an open connection or of the listening socket.
-/

namespace LibNet.Net

open LibNet.Runs
open LibNet.Base

namespace TcpSocket

variable {β : Type} (socket : TcpSocket β)

@[simp] theorem sendCount_mSocket : socket.sendCount.mSocket = socket.mSocket := by
  unfold sendCount; split <;> rfl

@[simp] theorem sendCount_mFlag : socket.sendCount.mFlag = socket.mFlag := by
  unfold sendCount; split <;> rfl

@[simp] theorem sendCount_mRecvBuf : socket.sendCount.mRecvBuf = socket.mRecvBuf := by
  unfold sendCount; split <;> rfl

@[simp] theorem sendCount_mSendBuf : socket.sendCount.mSendBuf = socket.mSendBuf := by
  unfold sendCount; split <;> rfl

/-- `send_buf` up to its loop only counts; it gets to the loop with a reply. -/
theorem sendStart_eq [Byte β] {heap : Nat → β} {counted : TcpSocket β}
    {frame : Option (SendFrame β)} (started : socket.sendStart heap = (counted, frame)) :
    counted = socket.sendCount ∧ (frame.isSome → socket.mSendBuf.mLength ≠ 0) := by
  simp only [sendStart] at started
  split at started
  · cases started
    exact ⟨rfl, fun some => by cases some⟩
  · next goes =>
      cases started
      exact ⟨rfl, fun _ empty => goes (.inl empty)⟩

variable (left : Int) (last : WriteResult)

@[simp] theorem sendEnd_mSocket : (socket.sendEnd left last).2.mSocket = socket.mSocket := by
  unfold sendEnd; split <;> [rfl; (cases last <;> rfl)]

@[simp] theorem sendEnd_mFlag : (socket.sendEnd left last).2.mFlag = socket.mFlag := by
  unfold sendEnd; split <;> [rfl; (cases last <;> rfl)]

@[simp] theorem sendEnd_mRecvBuf : (socket.sendEnd left last).2.mRecvBuf = socket.mRecvBuf := by
  unfold sendEnd; split <;> [rfl; (cases last <;> rfl)]

@[simp] theorem sendEnd_mSendBuf : (socket.sendEnd left last).2.mSendBuf = socket.mSendBuf := by
  unfold sendEnd; split <;> [rfl; (cases last <;> rfl)]

end TcpSocket

/-- A new entry that agrees with the old one in a field changes that field
nowhere. -/
theorem update_field {ι α δ : Type} [DecidableEq ι] {entries : ι → α} {index : ι} {entry : α}
    (field : α → δ) (same : field entry = field (entries index)) (other : ι) :
    field (Function.update entries index entry other) = field (entries other) := by
  by_cases at_index : other = index
  · rw [at_index, Function.update_self, same]
  · rw [Function.update_of_ne at_index]

/-- Only the entry that is written changes. -/
theorem eq_of_update_ne {ι α : Type} [DecidableEq ι] {entries : ι → α} {index other : ι}
    {entry : α} (changed : Function.update entries index entry other ≠ entries other) :
    other = index := by
  by_contra different
  exact changed (Function.update_of_ne different entry entries)

/-! ## The tables -/

namespace Loop

/-- The events that are still to be handled. -/
def events : Loop → List Event
  | .handle events => events
  | .append _ _ events => events
  | .clean _ _ events => events
  | .finish _ _ events => events

/-- The task and the descriptor of the event being handled. -/
def handling : Loop → Option (Int × Int)
  | .handle _ => none
  | .append taskId fd _ => some (taskId, fd)
  | .clean delSubscript connFd _ => some (delSubscript, connFd)
  | .finish delSubscript connFd _ => some (delSubscript, connFd)

/-- The descriptor whose task has forgotten it, while it is still open. -/
def closing : Loop → Option Int
  | .clean _ connFd _ => some connFd
  | .finish _ connFd _ => some connFd
  | _ => none

/-- The event the loop handles next. -/
def nextEvent : Loop → Option Event
  | .handle (event :: _) => some event
  | _ => none

/-- The task whose buffers `reset` is about to clean. -/
def cleaning : Loop → Option Int
  | .clean delSubscript _ _ => some delSubscript
  | _ => none

/-- The task that `close_connect` is about to free. -/
def finishing : Loop → Option Int
  | .finish delSubscript _ _ => some delSubscript
  | _ => none

theorem handling_of_closing {loop : Loop} {fd : Int} (closes : loop.closing = some fd) :
    ∃ taskId, loop.handling = some (taskId, fd) := by
  cases loop with
  | handle events => cases closes
  | append taskId other events => cases closes
  | clean delSubscript connFd events => cases closes; exact ⟨delSubscript, rfl⟩
  | finish delSubscript connFd events => cases closes; exact ⟨delSubscript, rfl⟩

theorem closing_of_finishing {loop : Loop} {taskId : Int}
    (finishes : loop.finishing = some taskId) :
    ∃ fd, loop.handling = some (taskId, fd) ∧ loop.closing = some fd := by
  cases loop with
  | finish delSubscript connFd events => cases finishes; exact ⟨connFd, rfl, rfl⟩
  | handle events => cases finishes
  | append other fd events => cases finishes
  | clean delSubscript connFd events => cases finishes

end Loop

/-- What the event loop has in hand: events of open connections or of the
listening socket, no descriptor twice, and the task listed for the descriptor of
the event being handled. -/
structure Agenda (mListenFd : Int) (mReadyList : Int → Int) (live : List Int) (loop : Loop) :
    Prop where
  reported : ∀ event ∈ loop.events,
    event.fd ∈ live ∨ event.fd = mListenFd ∧ event.hup = false
  distinct : (loop.events.map Event.fd).Nodup
  handled : ∀ taskId fd, loop.handling = some (taskId, fd) →
    fd ∈ live ∧ mReadyList fd = taskId ∧ fd ∉ loop.events.map Event.fd

/-- When an event has been handled, the rest is still in order. -/
theorem Agenda.rest {mListenFd : Int} {mReadyList : Int → Int} {live : List Int} {loop : Loop}
    (agenda : Agenda mListenFd mReadyList live loop) {events : List Event}
    (suffix : events <:+ loop.events) : Agenda mListenFd mReadyList live (.handle events) where
  reported := fun event member => agenda.reported event (suffix.mem member)
  distinct := agenda.distinct.sublist (suffix.sublist.map Event.fd)
  handled := fun _ _ none => by cases none

structure Tables (server : Server) : Prop where
  books : Books server.pool server.live
  zeroReserved : (0 : Int) ∈ server.reserved
  listenReserved : server.pool.mListenFd ∈ server.reserved
  apart : ∀ fd ∈ server.live, fd ∉ server.reserved
  known : ∀ fd ∈ server.live, server.connAt fd < server.accepted
  connInjective : ∀ first ∈ server.live, ∀ second ∈ server.live,
    server.connAt first = server.connAt second → first = second
  assigned : ∀ fd ∈ server.live, server.loop.closing ≠ some fd →
    (server.task (server.pool.mReadyList fd)).mSocket = fd
  unassigned : ∀ taskId, (∀ fd ∈ server.live, server.pool.mReadyList fd = taskId →
    server.loop.closing = some fd) → (server.task taskId).mSocket = 0
  flag : ∀ taskId, (server.task taskId).mFlag = readOp
  noRecvTasks : server.pool.mRecvTasks = []
  agenda : Agenda server.pool.mListenFd server.pool.mReadyList server.live server.loop

namespace Tables

variable {server : Server}

theorem zero_not_live (tables : Tables server) : (0 : Int) ∉ server.live :=
  fun member => tables.apart 0 member tables.zeroReserved

theorem listen_not_live (tables : Tables server) : server.pool.mListenFd ∉ server.live :=
  fun member => tables.apart _ member tables.listenReserved

/-- Descriptor 0 is never a connection, so a task is free whenever a connection
is accepted. -/
theorem exists_free (tables : Tables server) :
    ∃ taskId rest, server.pool.mFreeTasks = taskId :: rest ∧ InRange taskId :=
  tables.books.exists_free (show InRange 0 by decide) tables.zero_not_live

/-- An open descriptor in a task is one that the task is assigned to. -/
theorem owner (tables : Tables server) {taskId : Int}
    (inside : (server.task taskId).mSocket ∈ server.live) :
    server.pool.mReadyList (server.task taskId).mSocket = taskId ∧
      server.loop.closing ≠ some (server.task taskId).mSocket := by
  by_cases owned : ∃ fd ∈ server.live, server.pool.mReadyList fd = taskId ∧
      server.loop.closing ≠ some fd
  · obtain ⟨fd, member, ready, open_⟩ := owned
    have socket := tables.assigned fd member open_
    rw [ready] at socket
    rw [socket]
    exact ⟨ready, open_⟩
  · have zero : (server.task taskId).mSocket = 0 := by
      refine tables.unassigned taskId fun fd member ready => ?_
      by_contra open_
      exact owned ⟨fd, member, ready, open_⟩
    rw [zero] at inside
    exact (tables.zero_not_live inside).elim

end Tables

/-- The fields of the server that the tables are made of, but for the tasks. -/
structure TableFields where
  mReadyList : Int → Int
  mFreeTasks : List Int
  mRecvTasks : List Int
  mListenFd : Int
  reserved : List Int
  live : List Int
  connAt : Int → Nat
  accepted : Nat

def Server.tableFields (server : Server) : TableFields where
  mReadyList := server.pool.mReadyList
  mFreeTasks := server.pool.mFreeTasks
  mRecvTasks := server.pool.mRecvTasks
  mListenFd := server.pool.mListenFd
  reserved := server.reserved
  live := server.live
  connAt := server.connAt
  accepted := server.accepted

/-- Nothing the tables are about has changed, but for what the event loop has in
hand. -/
structure SameTables (before after : Server) : Prop where
  fields : after.tableFields = before.tableFields
  socket : ∀ taskId, (after.task taskId).mSocket = (before.task taskId).mSocket
  flag : ∀ taskId, (after.task taskId).mFlag = (before.task taskId).mFlag

namespace SameTables

variable {before after : Server} (same : SameTables before after)

include same

theorem ready : after.pool.mReadyList = before.pool.mReadyList :=
  congrArg TableFields.mReadyList same.fields

theorem free : after.pool.mFreeTasks = before.pool.mFreeTasks :=
  congrArg TableFields.mFreeTasks same.fields

theorem recvTasks : after.pool.mRecvTasks = before.pool.mRecvTasks :=
  congrArg TableFields.mRecvTasks same.fields

theorem listenFd : after.pool.mListenFd = before.pool.mListenFd :=
  congrArg TableFields.mListenFd same.fields

theorem reserved : after.reserved = before.reserved := congrArg TableFields.reserved same.fields

theorem live : after.live = before.live := congrArg TableFields.live same.fields

theorem connAt : after.connAt = before.connAt := congrArg TableFields.connAt same.fields

theorem accepted : after.accepted = before.accepted := congrArg TableFields.accepted same.fields

end SameTables

/-- The same tables with another agenda that closes the same descriptor. -/
theorem Tables.proceed {before after : Server} (tables : Tables before)
    (same : SameTables before after) (closing : after.loop.closing = before.loop.closing)
    (agenda : Agenda before.pool.mListenFd before.pool.mReadyList before.live after.loop) :
    Tables after where
  books := by
    rw [same.live]
    exact tables.books.transport same.free same.ready
  zeroReserved := same.reserved ▸ tables.zeroReserved
  listenReserved := by
    rw [same.listenFd, same.reserved]
    exact tables.listenReserved
  apart := by
    rw [same.live, same.reserved]
    exact tables.apart
  known := by
    rw [same.live, same.connAt, same.accepted]
    exact tables.known
  connInjective := by
    rw [same.live, same.connAt]
    exact tables.connInjective
  assigned := by
    intro fd member open_
    rw [same.live] at member
    rw [closing] at open_
    rw [same.socket, same.ready]
    exact tables.assigned fd member open_
  unassigned := by
    intro taskId owners
    rw [same.live, same.ready, closing] at owners
    rw [same.socket]
    exact tables.unassigned taskId owners
  flag := fun taskId => (same.flag taskId).trans (tables.flag taskId)
  noRecvTasks := same.recvTasks.trans tables.noRecvTasks
  agenda := by
    rw [same.listenFd, same.ready, same.live]
    exact agenda

/-- The same tables and the same agenda. -/
theorem Tables.transport {before after : Server} (tables : Tables before)
    (same : SameTables before after) (loop : after.loop = before.loop) : Tables after :=
  tables.proceed same (congrArg Loop.closing loop) (loop ▸ tables.agenda)

end LibNet.Net
