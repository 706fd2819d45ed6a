import LibNet.Net.ServerRuns

/-!
# When there is no task for a connection

`add_connect` registers the descriptor `accept` returned before it looks for a free task,
and returns false when there is none.  The server is taken in any state, whether a run
leads there or not: in the runs of this server a free task is left whenever `accept`
returns a descriptor the tables have room for.
-/

namespace LibNet.Net

open LibNet.Runs
open LibNet.Base

variable {server after : Server} {connFd : Int}

/-- The descriptor `accept` returned was refused as `add_connect` should: the tables are as
before, and the descriptor is closed and not registered any more. -/
structure RefusedCleanly (server : Server) (connFd : Int) (after : Server) : Prop where
  freeTasks : after.pool.mFreeTasks = server.pool.mFreeTasks
  readyList : after.pool.mReadyList = server.pool.mReadyList
  tcpTasks : after.pool.mTcpTasks = server.pool.mTcpTasks
  released : connFd ∉ after.live

/-- `add_connect` with a descriptor leaves it open and registered, whatever it returns. -/
theorem accept?_live {pool : TcpTaskPool Octet Cause} {assigned : Bool}
    (called : server.pool.addConnect? (some connFd) = some (assigned, pool))
    (taken : server.accept? (some connFd) = some after) : connFd ∈ after.live := by
  simp only [Server.accept?, called] at taken
  split at taken
  · split at taken
    · split at taken
      · cases taken
        exact List.mem_cons_self ..
      · cases taken
    · cases taken
  · cases taken

/-- In any state, a connection that `add_connect` finds no task for is left open and
registered: no refusal is a clean one. -/
theorem refused_connect_kept (server after : Server) (connFd : Int)
    (pool : TcpTaskPool Octet Cause)
    (refused : server.pool.addConnect? (some connFd) = some (false, pool))
    (taken : server.accept? (some connFd) = some after) : ¬ RefusedCleanly server connFd after :=
  fun clean => clean.released (accept?_live refused taken)

/-- A server without free tasks.  Descriptor 7 has task 42, which descriptor 5 had before,
and the next client waits. -/
def exhausted : Server :=
  { Server.init 3 4 [0, 1, 2, 3, 4] (fun _ => Byte.zero) with
    pool := { (TcpTaskPool.init 3 4 (fun _ => Byte.zero) : TcpTaskPool Octet Cause) with
      mFreeTasks := []
      mReadyList := fun fd => if fd = 5 ∨ fd = 7 then 42 else -1 }
    loop := .handle [⟨3, false⟩]
    live := [7]
    connected := 2
    accepted := 1 }

theorem exhausted_not_clean :
    ∃ after, exhausted.accept? (some 5) = some after ∧ ¬ RefusedCleanly exhausted 5 after :=
  ⟨_, rfl, refused_connect_kept exhausted _ 5 exhausted.pool rfl rfl⟩

/-- The client is refused and sends a byte; `recv_msg` makes a message for task 42, which is
the other client's, and appends that task. -/
theorem refused_client_reads_other :
    (∃ after, exhausted.accept? (some 5) = some after ∧
        exhausted.pool.addConnect? (some 5) = some (false, after.pool) ∧ 5 ∈ after.live ∧
        ¬ RefusedCleanly exhausted 5 after) ∧
      (Net.server.follow (fun _ _ => True) exhausted
          [.accept (some 5), .arrive 1 [66], .epollWait [5], .loop, .loop]).map
        (fun last => (last.mWorkqueue, last.pool.mUndoTasks.map fun message =>
          (message.taskId, message.cause))) = some ([42], [(42, .read 1)]) := by
  refine ⟨⟨_, rfl, rfl, by decide, fun clean => ?_⟩, by decide⟩
  exact absurd clean.released (by decide)

end LibNet.Net
