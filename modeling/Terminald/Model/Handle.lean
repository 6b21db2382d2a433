import Terminald.Machine.System
import Terminald.Model.Pty

namespace Terminald.Pty
open Machine

/-- What comes to a process in any order: calls through its handles, its drop, and its own events. -/
inductive Call where
  | terminate
  | drop
  | wait
  | event (event : Event)
deriving DecidableEq

/-- `Drop` and `terminate` differ only in who waits for the thread. -/
def Process.call (p : Process) : Call → Option Process
  | .terminate | .drop => some p.terminate
  | .wait => some p.wait
  | .event event => p.step event

def system (id : Nat) : System Process Call := ⟨.spawned id,Process.call⟩

/-- What the cleanup sends: the `kill` of the function it is in. -/
def signals (p : Process) : Call → List Sent
  | .event (.signal result) =>
    match p.cleanup with
    | .terminating => [(terminateProcessGroup p.id result).1]
    | .killing _ => [(killProcessGroup p.id result).1]
    | _ => []
  | _ => []

/-- What the cleanup's first `try_wait` finds. -/
def checks (p : Process) : Call → List (Except Error (Option ExitStatus))
  | .event (.tryWait result) => if p.cleanup = .checking then [result] else []
  | _ => []

/-- The child leaves the process table. -/
def reaps (p : Process) (c : Call) : List ExitStatus :=
  match p.child,(p.call c).map Process.child with
  | .exited status,some (.reaped _) => [status]
  | _,_ => []

/-- No system call fails, other than with ESRCH. -/
def unfailing : Call → Bool
  | .event (.tryWait result) => result.isOk
  | .event (.reap result) | .event (.waitReturns _ result) => result.isOk
  | .event (.signal (.error error)) => error.rawOsError == some esrch
  | _ => true

end Terminald.Pty
