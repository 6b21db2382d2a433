import Terminald.Machine.Groups
import Terminald.Model.Handle

namespace Terminald.Pty
open Machine

def Child.isReaped : Child → Bool
  | .reaped _ => true
  | _ => false

/-- The session's process on its machine, with every unreaped process there. -/
structure Host where
  process : Process
  table : Groups.Table
deriving DecidableEq

/-- The other processes when the child is spawned. -/
structure Elsewhere (id : Nat) where
  tasks : Groups.Table
  others : ∀ t ∈ tasks, t.pid ≠ id ∧ t.group ≠ id ∧ t.marked = false
  distinct : (tasks.map Groups.Task.pid).Nodup

inductive HostLabel where
  | call (c : Call)
  | os (op : Groups.Op)
deriving DecidableEq

/-- `kill` of a group fails with ESRCH just if nobody is in it. -/
def Host.answers (s : Host) : Call → Bool
  | .event (.signal result) =>
    (signals s.process (.event (.signal result))).all (fun sent =>
      match result with
      | .ok () => !(Groups.members s.table sent.group).isEmpty
      | .error error => (error.rawOsError == some esrch) == (Groups.members s.table sent.group).isEmpty)
  | _ => true

/-- The child exits and is reaped by the process's own steps; a zombie does nothing. -/
def Host.allows (s : Host) : Groups.Op → Bool
  | .gone pid => pid != s.process.id || s.process.child.isReaped
  | .fork parent _ => parent != s.process.id || s.process.child == .running || s.process.child.isReaped
  | _ => true

def Host.step (s : Host) : HostLabel → Option Host
  | .call c =>
    if s.answers c then
      (s.process.call c).map (fun p =>
        ⟨p,if (reaps s.process c).isEmpty then s.table else Groups.remove s.table s.process.id⟩)
    else none
  | .os op =>
    if s.allows op then (Groups.step s.table op).map (fun table => { s with table := table }) else none

/-- The child has called `setsid` before the spawn returns. -/
def host (id : Nat) (rest : Elsewhere id) : System Host HostLabel :=
  ⟨⟨.spawned id,Groups.leader id :: rest.tasks⟩,Host.step⟩

structure Delivery where
  signal : Signal
  target : Groups.Task
deriving DecidableEq

/-- A signal to a group reaches all who are in it. -/
def deliveries (s : Host) : HostLabel → List Delivery
  | .call (.event (.signal (.ok ()))) =>
    (signals s.process (.event (.signal (.ok ())))).flatMap (fun sent =>
      (Groups.members s.table sent.group).map (fun t => ⟨sent.signal,t⟩))
  | _ => []

end Terminald.Pty
