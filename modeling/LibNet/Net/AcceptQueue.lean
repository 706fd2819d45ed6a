import LibNet.Net.ServerRuns

/-!
# What becomes of clients that connect at once

The listening socket is registered with `EPOLLET`, so `epoll_wait` reports it
once for all handshakes since the last report; `add_connect` then calls `accept`
once.  Clients that are left in the accept queue wait for the next handshake to
raise the edge again.
-/

namespace LibNet.Net

open LibNet.Runs
open LibNet.Base

variable {server after : Server} {action : Action}

/-- How many clients wait to be accepted. -/
def Server.acceptQueue (server : Server) : Nat := server.connected - server.accepted

/-- The event loop is in `run`, about to block in `epoll_wait`. -/
def Server.Blocks (server : Server) : Prop :=
  server.loop.events = [] ∧ server.loop.handling = none

instance (server : Server) : Decidable server.Blocks := inferInstanceAs (Decidable (_ ∧ _))

/-- How many clients the `accept` of the step takes off the queue. -/
def Action.takes : Action → Option Nat
  | .accept (some _) => some 1
  | .accept none => some 0
  | _ => none

/-- `accept` takes all there are, unless the listening socket has an edge again. -/
def TakesAll (server : Server) (action : Action) : Prop :=
  ∀ count ∈ action.takes, server.acceptQueue ≤ count ∨ server.listenEdge = true

instance (server : Server) (action : Action) : Decidable (TakesAll server action) :=
  inferInstanceAs (Decidable (∀ _ ∈ _, _))

/-- Clients are waiting only while an event of the listening socket is pending or
still to be handled. -/
def ClientsAnnounced (server : Server) : Prop :=
  0 < server.acceptQueue →
    server.listenEdge = true ∨ server.pool.mListenFd ∈ server.loop.events.map Event.fd

theorem PeerStep.clientsAnnounced (step : PeerStep server action after)
    (announced : ClientsAnnounced server) : ClientsAnnounced after := by
  cases step with
  | connect => exact fun _ => .inl rfl
  | _ => exact announced

theorem WorkerStep.clientsAnnounced (step : WorkerStep server action after)
    (announced : ClientsAnnounced server) : ClientsAnnounced after := by
  cases step <;> exact announced

theorem AppStep.clientsAnnounced (step : AppStep server action after)
    (announced : ClientsAnnounced server) : ClientsAnnounced after := by
  cases step <;> exact announced

/-- Handling an event of a connection takes no event of the listening socket. -/
theorem ClientsAnnounced.rest (announced : ClientsAnnounced server) (tables : Tables server)
    {event : Event} {events : List Event} (reached : server.loop = .handle (event :: events))
    (member : event.fd ∈ server.live) (waiting : 0 < server.acceptQueue) :
    server.listenEdge = true ∨ server.pool.mListenFd ∈ events.map Event.fd := by
  refine (announced waiting).imp_right fun listed => ?_
  rw [reached] at listed
  rcases List.mem_cons.mp listed with same | later
  · exact absurd member (same ▸ tables.listen_not_live)
  · exact later

theorem LoopStep.clientsAnnounced (step : LoopStep server action after) (tables : Tables server)
    (announced : ClientsAnnounced server) (allowed : TakesAll server action) :
    ClientsAnnounced after := by
  cases step with
  | epollWait fds waits distinct pending =>
      intro waiting
      have edge : server.listenEdge = true := by
        refine (announced waiting).resolve_right ?_
        rw [waits]
        exact List.not_mem_nil
      by_cases reported : server.pool.mListenFd ∈ fds
      · exact .inr (List.mem_map.mpr
          ⟨server.event server.pool.mListenFd, List.mem_map_of_mem reported, rfl⟩)
      · exact .inl (by simp [edge, reported])
  | acceptFailed event events reached noHup listens =>
      intro waiting
      have few := allowed 0 rfl
      exact .inl (few.resolve_left (Nat.not_le.mpr waiting))
  | accept event events connFd taskId rest reached noHup listens inside fresh unreserved waits
      free =>
      intro waiting
      have few := allowed 1 rfl
      refine .inl (few.resolve_left ?_)
      simp only [Server.acceptQueue] at waiting ⊢
      omega
  | close event events reached hup member => exact announced.rest tables reached member
  | recv event events reached noHup member => exact announced.rest tables reached member
  | append taskId fd events reached =>
      intro waiting
      have listed := announced waiting
      rwa [reached] at listed
  | clean delSubscript connFd events reached =>
      intro waiting
      have listed := announced waiting
      rwa [reached] at listed
  | finish delSubscript connFd events reached =>
      intro waiting
      have listed := announced waiting
      rwa [reached] at listed

theorem reachable_clientsAnnounced (reached : Net.server.ReachableUnder TakesAll server) :
    ClientsAnnounced server := by
  refine server_invariant ?_ ?_ reached
  · intro mListenFd mEpollFd reserved block waiting
    cases waiting
  · intro before action after earlier announced allowed step
    cases step with
    | peer step => exact step.clientsAnnounced announced
    | loop step => exact step.clientsAnnounced (reachable_tables earlier) announced allowed
    | worker step => exact step.clientsAnnounced announced
    | app step => exact step.clientsAnnounced announced

/--
In runs in which every `accept` takes all clients there are, or finds the edge of
the listening socket raised again, no client is waiting when the event loop blocks
in `epoll_wait` with no edge of the listening socket pending.
-/
theorem accept_queue_empty (reached : Net.server.ReachableUnder TakesAll server)
    (blocks : server.Blocks) (quiet : server.listenEdge = false) : server.acceptQueue = 0 := by
  by_contra waiting
  rcases reachable_clientsAnnounced reached (Nat.pos_of_ne_zero waiting) with edge | listed
  · rw [quiet] at edge
    cases edge
  · rw [blocks.1] at listed
    cases listed

/-- Two clients one after the other, the second between the report of the first
and its `accept`. -/
def acceptedInTurn : List Action :=
  [.connect, .epollWait [3], .connect, .accept (some 5), .epollWait [3], .accept (some 6)]

theorem accept_queue_empty_in_turn :
    ∃ last, Net.server.ReachableUnder TakesAll last ∧ last.live = [6, 5] ∧ last.Blocks ∧
      last.listenEdge = false ∧ last.acceptQueue = 0 := by
  obtain ⟨last, reached, ended⟩ := Machine.exists_reachableUnder_of_follow Net.server
    TakesAll acceptedInTurn
    (fun last => decide (last.live = [6, 5] ∧ last.Blocks ∧ last.listenEdge = false))
    start_started (by decide)
  obtain ⟨live, blocks, quiet⟩ := of_decide_eq_true ended
  exact ⟨last, reached, live, blocks, quiet, accept_queue_empty reached blocks quiet⟩

/-- Two handshakes complete before `epoll_wait` reports them. -/
def connectedAtOnce : List Action :=
  [.connect, .connect, .epollWait [3], .accept (some 5)]

/-- The second client is left in the queue with nothing pending. -/
theorem second_client_stranded :
    ∃ last, Net.server.Reachable last ∧ last.Blocks ∧ last.listenEdge = false ∧
      last.acceptQueue = 1 := by
  obtain ⟨last, reached, ended⟩ := Machine.exists_reachableUnder_of_follow Net.server
    (fun _ _ => True) connectedAtOnce
    (fun last => decide (last.Blocks ∧ last.listenEdge = false ∧ last.acceptQueue = 1))
    start_started (by decide)
  exact ⟨last, reached, of_decide_eq_true ended⟩

end LibNet.Net
