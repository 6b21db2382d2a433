import Terminald.Machine.Descriptors
import Terminald.Machine.System

namespace Terminald.Spawn
open Machine

/-- What the server has open: the two sides of a session's PTY, or a thing of the
standard library. -/
inductive Object where
  | master (session : Nat)
  | slave (session : Nat)
  | other
deriving DecidableEq

/-- Where a call of `spawn_blocking` is, and then its session. From the fork to the
`exec` the child has a table of its own. -/
inductive Phase where
  | opening
  | opened (master slave : Nat)
  | registered (master slave : Nat)
  | forked (master slave : Nat) (child : Table Object)
  | prepared (master slave : Nat) (child : Table Object)
  | spawned (master slave : Nat)
  | running (master : Nat)
  | failing (left : List Nat)
  | ended
deriving DecidableEq

structure State where
  table : Table Object
  sessions : List Phase
  /-- Each command, by its session, with its descriptors just after `exec`. -/
  commands : List (Nat × Table Object)
deriving DecidableEq

/-- The runtime has the first three descriptors open before `main`. -/
def start : State :=
  ⟨⟨[some ⟨.other,false⟩,some ⟨.other,false⟩,some ⟨.other,false⟩]⟩,[],[]⟩

inductive Label where
  | call
  | openpty (k : Nat) (result : Bool)
  | setNonblocking (k : Nat) (result : Bool)
  | fork (k : Nat) (result : Bool)
  | childSetup (k : Nat) (result : Bool)
  | exec (k : Nat) (result : Bool)
  | drop (k : Nat)
  | terminate (k : Nat)
  | stdOpen
  | stdClose (fd : Nat)
deriving DecidableEq

def State.set (s : State) (k : Nat) (phase : Phase) : State :=
  { s with sessions := s.sessions.set k phase }

/-- The child's copy, with `Stdio::null()` on the first three. -/
def forkTable (t : Table Object) : Table Object :=
  [0,1,2].foldl (fun t fd => t.put fd (some ⟨.other,false⟩)) t

/-- `child_setup`, after `setsid` and the `ioctl`. -/
def childSetup (slave : Nat) (child : Table Object) : Option (Table Object) :=
  [0,1,2].foldlM (fun t fd => t.dup2 slave fd) child

/-- A call that fails lets go of both sides of its PTY, one after the other: the slave
first once the command has it. What the standard library opens is marked to be closed
by `exec`. -/
def step (s : State) : Label → Option State
  | .call => some { s with sessions := s.sessions ++ [.opening] }
  | .openpty k result =>
    match s.sessions[k]? with
    | some .opening =>
      if result then
        let master := s.table.lowest
        let table := s.table.alloc ⟨.master k,false⟩
        let slave := table.lowest
        some ({ s with table := table.alloc ⟨.slave k,false⟩ }.set k (.opened master slave))
      else some (s.set k .ended)
    | _ => none
  | .setNonblocking k result =>
    match s.sessions[k]? with
    | some (.opened master slave) =>
      some (s.set k (if result then .registered master slave else .failing [master,slave]))
    | _ => none
  | .fork k result =>
    match s.sessions[k]? with
    | some (.registered master slave) =>
      some (s.set k (if result then .forked master slave (forkTable s.table)
        else .failing [slave,master]))
    | _ => none
  | .childSetup k result =>
    match s.sessions[k]? with
    | some (.forked master slave child) =>
      some (s.set k (match if result then Spawn.childSetup slave child else none with
        | some child => .prepared master slave child
        | none => .failing [slave,master]))
    | _ => none
  | .exec k result =>
    match s.sessions[k]? with
    | some (.prepared master slave child) =>
      if result then
        some ({ s with commands := s.commands ++ [(k,child.exec)] }.set k (.spawned master slave))
      else some (s.set k (.failing [slave,master]))
    | _ => none
  | .drop k =>
    match s.sessions[k]? with
    | some (.spawned master slave) =>
      some ({ s with table := s.table.close slave }.set k (.running master))
    | some (.failing (fd :: left)) =>
      some ({ s with table := s.table.close fd }.set k (.failing left))
    | some (.failing []) => some (s.set k .ended)
    | _ => none
  | .terminate k =>
    match s.sessions[k]? with
    | some (.running master) => some ({ s with table := s.table.close master }.set k .ended)
    | _ => none
  | .stdOpen => some { s with table := s.table.alloc ⟨.other,true⟩ }
  | .stdClose fd =>
    match s.table.get fd with
    | some d =>
      if d.object = .other ∧ 2 < fd then some { s with table := s.table.close fd } else none
    | none => none

def system : System State Label := ⟨start,step⟩

end Terminald.Spawn
