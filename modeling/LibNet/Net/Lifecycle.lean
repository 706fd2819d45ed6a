import LibNet.Net.EventOrder

/-!
# A connection is closed once, and then it is over

Every connection that was accepted is at one open descriptor until `close_connect` has
queued its close message and freed its task.  Descriptors and task ids are used again at
once, but no message is made for a connection after its close message.
-/

namespace LibNet.Net

open LibNet.Runs
open LibNet.Base

variable {server after : Server} {action : Action}

def Cause.isClose : Cause → Bool
  | .read _ => false
  | .close _ => true

/-- How connections, descriptors and messages stand to each other. -/
structure Lifecycle (server : Server) : Prop where
  known : ∀ cause ∈ server.made, cause.conn < server.accepted
  unclosed : ∀ fd ∈ server.live, .close (server.connAt fd) ∉ server.made
  final : server.made.Pairwise fun earlier later => earlier ≠ .close later.conn
  somewhere : ∀ conn < server.accepted,
    .close conn ∈ server.made ∨ ∃ fd ∈ server.live, server.connAt fd = conn
  counted : server.live.length + server.made.countP Cause.isClose = server.accepted

/-- Nothing the lifecycle is about has changed. -/
theorem Lifecycle.transport (cycle : Lifecycle server) (made : after.made = server.made)
    (live : after.live = server.live) (connAt : after.connAt = server.connAt)
    (accepted : after.accepted = server.accepted) : Lifecycle after where
  known := by rw [made, accepted]; exact cycle.known
  unclosed := by rw [live, connAt, made]; exact cycle.unclosed
  final := by rw [made]; exact cycle.final
  somewhere := by rw [accepted, made, live, connAt]; exact cycle.somewhere
  counted := by rw [live, made, accepted]; exact cycle.counted

/-- A message for a connection that is open comes after no close message of it. -/
theorem Lifecycle.final_append (cycle : Lifecycle server) {cause : Cause}
    (unclosed : .close cause.conn ∉ server.made) :
    (server.made ++ [cause]).Pairwise fun earlier later => earlier ≠ .close later.conn := by
  refine List.pairwise_append.mpr ⟨cycle.final, List.pairwise_singleton _ _, ?_⟩
  intro earlier member later last same
  rw [List.mem_singleton.mp last] at same
  exact unclosed (same ▸ member)

theorem Lifecycle.recv (cycle : Lifecycle server) (tables : Tables server) {fd : Int}
    (member : fd ∈ server.live)
    (made : after.made = server.made ++ [.read (server.connAt fd)])
    (live : after.live = server.live) (connAt : after.connAt = server.connAt)
    (accepted : after.accepted = server.accepted) : Lifecycle after where
  known := by
    intro cause listed
    rw [accepted]
    rw [made] at listed
    rcases List.mem_append.mp listed with old | new
    · exact cycle.known cause old
    · rw [List.mem_singleton.mp new]
      exact tables.known fd member
  unclosed := by
    intro other open_ closed
    rw [made, connAt] at closed
    rw [live] at open_
    rcases List.mem_append.mp closed with old | new
    · exact cycle.unclosed other open_ old
    · cases List.mem_singleton.mp new
  final := by
    rw [made]
    exact cycle.final_append (cycle.unclosed fd member)
  somewhere := by
    intro conn below
    rw [accepted] at below
    rw [made, live, connAt]
    exact (cycle.somewhere conn below).imp_left (List.mem_append_left _)
  counted := by
    rw [live, made, accepted, List.countP_append]
    exact cycle.counted

theorem Lifecycle.accept (cycle : Lifecycle server) {connFd : Int}
    (fresh : connFd ∉ server.live) (made : after.made = server.made)
    (live : after.live = connFd :: server.live)
    (connAt : after.connAt = Function.update server.connAt connFd server.accepted)
    (accepted : after.accepted = server.accepted + 1) : Lifecycle after := by
  have old : ∀ fd ∈ server.live, after.connAt fd = server.connAt fd := by
    intro fd member
    have other : fd ≠ connFd := fun same => fresh (same ▸ member)
    rw [connAt, Function.update_of_ne other]
  have new : after.connAt connFd = server.accepted := by rw [connAt, Function.update_self]
  constructor
  case known =>
    intro cause listed
    rw [made] at listed
    rw [accepted]
    exact Nat.lt_succ_of_lt (cycle.known cause listed)
  case unclosed =>
    intro fd member
    rw [made]
    rw [live] at member
    rcases List.mem_cons.mp member with rfl | earlier
    · rw [new]
      exact fun closed => Nat.lt_irrefl _ (cycle.known _ closed)
    · rw [old fd earlier]
      exact cycle.unclosed fd earlier
  case final => rw [made]; exact cycle.final
  case somewhere =>
    intro conn below
    rw [accepted] at below
    rw [made, live]
    rcases Nat.lt_succ_iff_lt_or_eq.mp below with earlier | rfl
    · refine (cycle.somewhere conn earlier).imp_right ?_
      rintro ⟨fd, member, opened⟩
      exact ⟨fd, List.mem_cons_of_mem _ member, (old fd member).trans opened⟩
    · exact .inr ⟨connFd, List.mem_cons_self .., new⟩
  case counted =>
    have counted := cycle.counted
    rw [live, made, accepted, List.length_cons]
    omega

theorem Lifecycle.finish (cycle : Lifecycle server) (tables : Tables server) {connFd : Int}
    (member : connFd ∈ server.live)
    (made : after.made = server.made ++ [.close (server.connAt connFd)])
    (live : after.live = server.live.erase connFd) (connAt : after.connAt = server.connAt)
    (accepted : after.accepted = server.accepted) : Lifecycle after := by
  have remain : ∀ fd, fd ∈ server.live.erase connFd ↔ fd ≠ connFd ∧ fd ∈ server.live :=
    fun fd => tables.books.distinct.mem_erase_iff
  constructor
  case known =>
    intro cause listed
    rw [accepted]
    rw [made] at listed
    rcases List.mem_append.mp listed with old | new
    · exact cycle.known cause old
    · rw [List.mem_singleton.mp new]
      exact tables.known connFd member
  case unclosed =>
    intro fd open_ closed
    rw [made, connAt] at closed
    rw [live] at open_
    obtain ⟨different, stays⟩ := (remain fd).mp open_
    rcases List.mem_append.mp closed with old | new
    · exact cycle.unclosed fd stays old
    · have same : server.connAt fd = server.connAt connFd :=
        Cause.close.inj (List.mem_singleton.mp new)
      exact different (tables.connInjective fd stays connFd member same)
  case final =>
    rw [made]
    exact cycle.final_append (cycle.unclosed connFd member)
  case somewhere =>
    intro conn below
    rw [accepted] at below
    rw [made, live, connAt]
    rcases cycle.somewhere conn below with closed | ⟨fd, stays, opened⟩
    · exact .inl (List.mem_append_left _ closed)
    · by_cases same : fd = connFd
      · subst fd
        rw [opened]
        exact .inl (List.mem_append_right _ (List.mem_singleton_self _))
      · exact .inr ⟨fd, (remain fd).mpr ⟨same, stays⟩, opened⟩
  case counted =>
    have counted := cycle.counted
    have some_live : 0 < server.live.length := List.length_pos_of_mem member
    rw [live, made, accepted, List.countP_append, List.length_erase_of_mem member]
    simp only [List.countP_singleton, Cause.isClose, if_true]
    omega

theorem LoopStep.lifecycle (step : LoopStep server action after) (tables : Tables server)
    (cycle : Lifecycle server) : Lifecycle after := by
  cases step with
  | accept event events connFd taskId rest reached noHup listens inside fresh unreserved waits
      free => exact cycle.accept fresh rfl rfl rfl rfl
  | recv event events reached noHup member =>
      refine cycle.recv tables member ?_ rfl rfl rfl
      exact made_append rfl rfl rfl
  | finish delSubscript connFd events reached =>
      obtain ⟨member, _⟩ :=
        tables.agenda.handled delSubscript connFd (by rw [reached]; rfl)
      refine cycle.finish tables member ?_ rfl rfl rfl
      exact made_append rfl rfl rfl
  | _ => exact cycle.transport rfl rfl rfl rfl

theorem ServerStep.lifecycle (step : ServerStep server action after) (tables : Tables server)
    (cycle : Lifecycle server) : Lifecycle after := by
  cases step with
  | loop step => exact step.lifecycle tables cycle
  | peer step =>
      have same := step.sameTables.1
      exact cycle.transport (congrArg (List.map Message.cause) step.queued) same.live same.connAt
        same.accepted
  | worker step =>
      have same := step.sameTables.1
      exact cycle.transport (congrArg (List.map Message.cause) step.queued) same.live same.connAt
        same.accepted
  | app step =>
      have same := step.sameTables.1
      exact cycle.transport (congrArg (List.map Message.cause) step.queued) same.live same.connAt
        same.accepted

theorem reachable_lifecycle (reached : Net.server.Reachable server) : Lifecycle server := by
  refine server_invariant (fun mListenFd mEpollFd reserved block => ?_) ?_ reached
  · exact ⟨fun _ member => (by cases member), fun _ member => (by cases member), .nil,
      fun _ below => absurd below (Nat.not_lt_zero _), rfl⟩
  · intro before action after earlier cycle _ step
    exact step.lifecycle (reachable_tables earlier) cycle

/--
In every state a run reaches, an accepted connection has a close message exactly when it is
at no open descriptor; after its close message no message of either kind is made for it, so it
has one at most; and the connections accepted so far are those at open descriptors and those
with a close message.
-/
theorem connections_close_once (reached : Net.server.Reachable server) :
    (∀ conn < server.accepted, .close conn ∈ server.queued.map Message.cause ↔
      ∀ fd ∈ server.live, server.connAt fd ≠ conn) ∧
    (∀ conn earlier later,
      server.queued.map Message.cause = earlier ++ .close conn :: later →
      ∀ cause ∈ later, cause.conn ≠ conn) ∧
    server.accepted = server.live.length +
      (server.queued.map Message.cause).countP Cause.isClose := by
  have cycle := reachable_lifecycle reached
  refine ⟨?_, ?_, cycle.counted.symm⟩
  · intro conn below
    constructor
    · intro closed fd member same
      exact cycle.unclosed fd member (same ▸ closed)
    · intro nowhere
      refine (cycle.somewhere conn below).resolve_right ?_
      rintro ⟨fd, member, same⟩
      exact nowhere fd member same
  · intro conn earlier later split cause member same
    have final := cycle.final
    rw [Server.made, split] at final
    have after_close := (List.pairwise_cons.mp (List.pairwise_append.mp final).2.1).1 cause member
    exact after_close (by rw [same])

/-- A client is accepted at 5, asks and hangs up, and the next one is accepted at 5 and asks. -/
def acceptedAgain : List Action :=
  letIn 5 ++ ask 0 5 [65] ++ hangUp 0 5 ++ letIn 5 ++ ask 1 5 [66]

theorem connections_close_once_again :
    ∃ server, Net.server.Reachable server ∧
      server.queued.map Message.cause = [.read 0, .close 0, .read 1] ∧
      ∀ cause ∈ [Cause.read 1], cause.conn ≠ 0 := by
  obtain ⟨last, reached, ended⟩ := Machine.exists_reachableUnder_of_follow
    Net.server (fun _ _ => True) acceptedAgain
    (fun server => decide (server.queued.map Message.cause = [.read 0, .close 0, .read 1]))
    start_started (by decide)
  have causes := of_decide_eq_true ended
  exact ⟨last, reached, causes, (connections_close_once reached).2.1 0 [.read 0] _ causes⟩

end LibNet.Net
