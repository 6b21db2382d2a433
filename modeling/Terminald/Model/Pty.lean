import Terminald.Model.Protocol

namespace Terminald.Pty

inductive ErrorKind where
  | interrupted
  | wouldBlock
  | unexpectedEof
  | other
deriving DecidableEq, Repr

/-- What the operating system reports for a failed call. -/
structure IoError where
  kind : ErrorKind
  rawOsError : Option Nat
  display : String
deriving DecidableEq, Repr

def eio : Nat := 5
def esrch : Nat := 3

def IoError.eio : IoError := ⟨.other,some Pty.eio,"Input/output error (os error 5)"⟩

def isPtyEof (error : IoError) : Bool :=
  error.kind == .unexpectedEof || error.rawOsError == some eio

/-- One round of the loop around a system call: an interrupted call is made
again (`none`), everything else is handed back. -/
def uninterrupted (result : Except IoError α) : Option (Except IoError α) :=
  match result with
  | .ok count => some (.ok count)
  | .error error => if error.kind ≠ .interrupted then some (.error error) else none

/-- The reader's buffer, `[0_u8; 8192]`. -/
def bufferSize : Nat := 8192

/-- The bytes of one read: no more than the buffer holds, none at end of file. -/
structure Chunk where
  bytes : Bytes
  fits : bytes.length ≤ bufferSize
deriving DecidableEq

def readPty (result : Except IoError Chunk) : Option (Except IoError Chunk) := uninterrupted result

def writePty (result : Except IoError Nat) : Option (Except IoError Nat) := uninterrupted result

/-- The readiness guard takes a would-block for itself (`none`). -/
def tryIo (result : Except IoError α) : Option (Except IoError α) :=
  match result with
  | .error error => if error.kind = .wouldBlock then none else some (.error error)
  | .ok count => some (.ok count)

/-- What one pass of a handle's loop meets: its wait for readiness fails, or
the system call is made and returns. -/
inductive Attempt (α : Type) where
  | notReady (error : IoError)
  | result (result : Except IoError α)
deriving DecidableEq

/-- One pass of `PtyHandle::read`; `none` goes round again. -/
def read : Attempt Chunk → Option (Except Error Bytes)
  | .notReady error => some (.error ⟨["wait for PTY readable",error.display]⟩)
  | .result result =>
    match (readPty result).bind tryIo with
    | none => none
    | some (.ok chunk) => some (.ok chunk.bytes)
    | some (.error error) =>
      if isPtyEof error then some (.ok [])
      else some (.error ⟨["read PTY master",error.display]⟩)

/-- One pass of the loop in `PtyHandle::write_all`: `none` goes round again with
the same offset, a count advances the offset. -/
def writePass : Attempt Nat → Option (Except Error Nat)
  | .notReady error => some (.error ⟨["wait for PTY writable",error.display]⟩)
  | .result result =>
    match (writePty result).bind tryIo with
    | none => none
    | some (.ok 0) => some (.error ⟨["write PTY master returned zero bytes"]⟩)
    | some (.ok count) => some (.ok count)
    | some (.error error) => some (.error ⟨["write PTY master",error.display]⟩)

def resize (result : Except IoError Unit) : Except Error Unit :=
  result.mapError (fun error => ⟨["resize PTY",error.display]⟩)

def sizeDefault : Protocol.Resize := ⟨80,24⟩

inductive ExitStatus where
  | exited (code : Int32)
  | signaled (signal : Nat)
deriving DecidableEq, Repr

def ExitStatus.code : ExitStatus → Option Int32
  | .exited code => some code
  | .signaled _ => none

inductive Child where
  | running
  | exited (status : ExitStatus)
  | reaped (status : ExitStatus)
deriving DecidableEq, Repr

/-- Who has the child mutex. -/
inductive Holder where
  | cleanup
  | wait (caller : Nat)
deriving DecidableEq, Repr

/-- A call of `PtyHandle::wait` on its blocking thread. -/
inductive Waiter where
  | locking
  | waiting
  | returned (result : Except Error ExitStatus)
deriving DecidableEq

/-- The blocking thread of `PtyProcess::terminate` or of `Drop`, through
`terminate_child_process_group_blocking`. -/
inductive Cleanup where
  | idle
  | locking
  | checking
  | terminating
  | polling
  | pausing
  | killing (childExited : Bool)
  | waiting
  | returned (result : Except Error Unit)
deriving DecidableEq

structure Process where
  id : Nat
  child : Child
  lock : Option Holder
  cleanupStarted : Bool
  cleanup : Cleanup
  waiters : List Waiter
deriving DecidableEq

def Process.spawned (id : Nat) : Process := ⟨id,.running,none,false,.idle,[]⟩

/-- `start_cleanup`: only the first caller swaps the flag from false. -/
def Process.startCleanup (p : Process) : Bool × Process :=
  (!p.cleanupStarted,{ p with cleanupStarted := true })

/-- `terminate` and `Drop` alike: the winner of the flag starts a thread. -/
def Process.terminate (p : Process) : Process :=
  match p.startCleanup with
  | (true,p) => { p with cleanup := .locking }
  | (false,p) => p

def Process.wait (p : Process) : Process := { p with waiters := p.waiters ++ [.locking] }

/-- `terminate` is done when its thread is, or at once for a later caller. -/
def Process.terminated (p : Process) : Bool :=
  match p.cleanup with
  | .returned _ => true
  | _ => false

inductive Event where
  | exit (status : ExitStatus)
  | lockWait (caller : Nat)
  | waitReturns (caller : Nat) (result : Except Error ExitStatus)
  | lockCleanup
  | tryWait (result : Except Error (Option ExitStatus))
  | signal (result : Except IoError Unit)
  | clock (expired : Bool)
  | reap (result : Except Error ExitStatus)
deriving DecidableEq

/-- The status a blocking `Child::wait` can return. -/
def Child.status : Child → Option ExitStatus
  | .running => none
  | .exited status | .reaped status => some status

/-- `Child::try_wait` and `Child::wait` reap an exited child and remember it. -/
def Child.reap : Child → Child
  | .exited status => .reaped status
  | child => child

/-- A group that is gone already needs no signal. -/
inductive Signal where
  | sigterm
  | sigkill
deriving DecidableEq, Repr

/-- A `kill` of a whole process group. -/
structure Sent where
  signal : Signal
  group : Nat
deriving DecidableEq, Repr

/-- The `kill`, and what its result is made into. -/
def signalProcessGroup (childId : Nat) (signal : Signal) (action : String) (result : Except IoError Unit) :
    Sent × Except Error Unit :=
  (⟨signal,childId⟩,
    match result with
    | .ok () => .ok ()
    | .error error =>
      if error.rawOsError = some esrch then .ok ()
      else .error ⟨[action ++ " PTY process group " ++ toString childId,error.display]⟩)

def terminateProcessGroup (childId : Nat) (result : Except IoError Unit) : Sent × Except Error Unit :=
  signalProcessGroup childId .sigterm "terminate" result

def killProcessGroup (childId : Nat) (result : Except IoError Unit) : Sent × Except Error Unit :=
  signalProcessGroup childId .sigkill "kill" result

/-- The cleanup thread returns and gives the mutex back. -/
def Process.finish (p : Process) (result : Except Error Unit) : Process :=
  { p with cleanup := .returned result,lock := none }

def Process.step (p : Process) : Event → Option Process
  | .exit status =>
    match p.child with
    | .running => some { p with child := .exited status }
    | _ => none
  | .lockWait caller =>
    match p.lock,p.waiters[caller]? with
    | none,some .locking =>
      some { p with lock := some (.wait caller),waiters := p.waiters.set caller .waiting }
    | _,_ => none
  | .waitReturns caller result =>
    match p.waiters[caller]?,result with
    | some .waiting,.ok status =>
      if p.child.status = some status then
        some { p with child := p.child.reap,lock := none,
                      waiters := p.waiters.set caller (.returned (.ok status)) }
      else none
    | some .waiting,.error error =>
      some { p with lock := none,
                    waiters := p.waiters.set caller
                      (.returned (.error (error.context "wait for PTY child"))) }
    | _,_ => none
  | .lockCleanup =>
    match p.lock,p.cleanup with
    | none,.locking => some { p with lock := some .cleanup,cleanup := .checking }
    | _,_ => none
  | .tryWait (.error error) =>
    match p.cleanup with
    | .checking => some (p.finish (.error (error.context "check PTY child status before terminate")))
    | .polling => some (p.finish (.error (error.context "check PTY child status after terminate")))
    | _ => none
  | .tryWait (.ok found) =>
    if p.child.status = found then
      match p.cleanup,found with
      | .checking,some _ => some ({ p with child := p.child.reap }.finish (.ok ()))
      | .checking,none => some { p with cleanup := .terminating }
      | .polling,some _ => some { p with child := p.child.reap,cleanup := .killing true }
      | .polling,none => some { p with cleanup := .pausing }
      | _,_ => none
    else none
  | .signal result =>
    match p.cleanup with
    | .terminating =>
      match (terminateProcessGroup p.id result).2 with
      | .ok () => some { p with cleanup := .polling }
      | .error error => some (p.finish (.error error))
    | .killing childExited =>
      match (killProcessGroup p.id result).2 with
      | .ok () => if childExited then some (p.finish (.ok ())) else some { p with cleanup := .waiting }
      | .error error => some (p.finish (.error error))
    | _ => none
  | .clock expired =>
    match p.cleanup with
    | .pausing => some { p with cleanup := if expired then .killing false else .polling }
    | _ => none
  | .reap result =>
    match p.cleanup,result with
    | .waiting,.ok status =>
      if p.child.status = some status then
        some ({ p with child := p.child.reap }.finish (.ok ()))
      else none
    | .waiting,.error error =>
      some (p.finish (.error (error.context "wait for PTY child after terminate")))
    | _,_ => none

end Terminald.Pty
