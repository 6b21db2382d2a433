import Terminald.Machine.Queue
import Terminald.Machine.System
import Terminald.Model.Pty

namespace Terminald.Session
open Machine Protocol

/-- A message on the web socket. -/
inductive Message where
  | binary (frame : Bytes)
  | text (text : String)
  | close
  | ping (data : Bytes)
  | pong (data : Bytes)
deriving DecidableEq

/-- The driver's own answer to a frame it refused, or to a ping. -/
inductive Reply where
  | refused (text : String)
  | pong (data : Bytes)
deriving DecidableEq

/-- What the session sends: a message the reader task queued, or a reply. -/
inductive Frame where
  | queued (message : ServerMessage)
  | reply (reply : Reply)
deriving DecidableEq

def Frame.wire : Frame → Message
  | .queued message => .binary message.encode
  | .reply (.refused text) => .binary (ServerMessage.error text).encode
  | .reply (.pong data) => .pong data

/-- The capacity in `mpsc::channel(32)`. -/
def channelCapacity : Nat := 32

/-- Where the reader task is. `posting` waits in `tx.send`, `waiting` in
`PtyHandle::wait`. -/
inductive Reader where
  | unborn
  | reading
  | posting (message : ServerMessage)
  | waiting
  | done
deriving DecidableEq

/-- A call of `write_all` with bytes left to write. -/
structure Writing where
  data : Bytes
  written : Nat
  unfinished : written < data.length
deriving DecidableEq

inductive Failure where
  | spawn (error : Error)
  | send (error : Error)
  | receive (error : Error)
  | write (error : Error)
  | resize (error : Error)
deriving DecidableEq

/-- How `drive_socket` came back: after the exit frame, after a close message,
by the `else` branch, or by one of its question marks. -/
inductive Outcome where
  | exited
  | closed
  | exhausted
  | failed (why : Failure)
deriving DecidableEq

/-- Where `run_socket` is, through the loop of `drive_socket`. -/
inductive Driver where
  | spawning
  | select
  | sending (message : ServerMessage)
  | replying (reply : Reply)
  | writing (call : Writing)
  | resizing (size : Resize)
  | terminating (outcome : Outcome)
  | returned (outcome : Outcome)
  | dropped
deriving DecidableEq

/-- What reaches the PTY master from the session. -/
inductive PtyOp where
  | byte (value : UInt8)
  | resize (size : Resize)
deriving DecidableEq

structure State where
  driver : Driver
  reader : Reader
  channel : Queue ServerMessage channelCapacity
  rxOpen : Bool
  process : Option Pty.Process
  winsize : Resize
  /-- Everything that crossed the session's borders, in order. -/
  reads : List (Pty.Attempt Pty.Chunk)
  received : List Message
  ops : List PtyOp
  sent : List Frame
deriving DecidableEq

def start : State :=
  ⟨.spawning,.unborn,.empty,true,none,Pty.sizeDefault,[],[],[],[]⟩

inductive Label where
  | spawn (result : Except Error Nat)
  | read (attempt : Pty.Attempt Pty.Chunk)
  | post
  | waited
  | recv
  | receive (message : Except Error Message)
  | exhausted
  | send (result : Except Error Unit)
  | write (attempt : Pty.Attempt Nat)
  | ioctl (result : Except Pty.IoError Unit)
  | finish
  | drop
  | process (event : Pty.Event)
deriving DecidableEq

/-- `status.code()` of a wait that worked, or -1. -/
def exitCode (result : Except Error Pty.ExitStatus) : Int32 :=
  (result.toOption.bind Pty.ExitStatus.code).getD (-1)

/-- The reader leaves its loop and calls `wait`. -/
def State.leaveLoop (s : State) : State :=
  { s with reader := .waiting,process := s.process.map Pty.Process.wait }

/-- The reader's own call of `wait`. -/
def State.waiter (s : State) : Option Pty.Waiter := s.process.bind (fun p => p.waiters[0]?)

/-- What the reader does once a message is in the channel, or the channel is
closed under it. -/
def State.posted (s : State) (message : ServerMessage) (accepted : Bool) : State :=
  match message with
  | .output _ => if accepted then { s with reader := .reading } else s.leaveLoop
  | .error _ => s.leaveLoop
  | .exited _ => { s with reader := .done }

/-- `drive_socket` is back and `run_socket` calls `terminate`. -/
def State.leave (s : State) (outcome : Outcome) : State :=
  { s with driver := .terminating outcome,process := s.process.map Pty.Process.terminate }

/-- A queued message is on the wire; the exit frame is the last one. -/
def State.delivered (s : State) (message : ServerMessage) : State :=
  let s : State := { s with sent := s.sent ++ [.queued message] }
  match message with
  | .exited _ => s.leave .exited
  | _ => { s with driver := .select }

/-- The loop condition of `write_all`, with nothing left it is back at once. -/
def writeAll (data : Bytes) (written : Nat) : Driver :=
  if h : written < data.length then .writing ⟨data,written,h⟩ else .select

/-- The client message branch of `drive_socket`. -/
def State.handle (json : Json) (s : State) (message : Message) : State :=
  match message with
  | .binary frame =>
    match ClientMessage.decode json frame with
    | .ok (.input data) => { s with driver := writeAll data 0 }
    | .ok (.resize size) => { s with driver := .resizing size }
    | .error error => { s with driver := .replying (.refused error.alternate) }
  | .text text => { s with driver := writeAll (utf8 text) 0 }
  | .close => s.leave .closed
  | .ping data => { s with driver := .replying (.pong data) }
  | .pong _ => { s with driver := .select }

def step (json : Json) (s : State) : Label → Option State
  | .spawn result =>
    match s.driver,result with
    | .spawning,.ok id =>
      some { s with driver := .select,reader := .reading,process := some (.spawned id) }
    | .spawning,.error error => some { s with driver := .returned (.failed (.spawn error)) }
    | _,_ => none
  | .read attempt =>
    match s.reader with
    | .reading =>
      let s : State := { s with reads := s.reads ++ [attempt] }
      match Pty.read attempt with
      | none => some s
      | some (.ok []) => some s.leaveLoop
      | some (.ok data) => some { s with reader := .posting (.output data) }
      | some (.error error) => some { s with reader := .posting (.error error.alternate) }
    | _ => none
  | .post =>
    match s.reader with
    | .posting message =>
      if s.rxOpen then
        (s.channel.push [message]).map (fun channel => { s with channel := channel }.posted message true)
      else some (s.posted message false)
    | _ => none
  | .waited =>
    match s.reader,s.waiter with
    | .waiting,some (.returned result) =>
      some { s with reader := .posting (.exited (exitCode result)) }
    | _,_ => none
  | .recv =>
    match s.driver,s.channel.items with
    | .select,message :: _ =>
      some { s with driver := .sending message,channel := s.channel.drop 1 }
    | _,_ => none
  | .receive message =>
    match s.driver,message with
    | .select,.ok message => some ({ s with received := s.received ++ [message] }.handle json message)
    | .select,.error error => some (s.leave (.failed (.receive error)))
    | _,_ => none
  | .exhausted =>
    -- every sender is gone once the reader is done
    match s.driver,s.reader,s.channel.items with
    | .select,.done,[] => some (s.leave .exhausted)
    | _,_,_ => none
  | .send result =>
    match s.driver,result with
    | .sending message,.ok () => some (s.delivered message)
    | .replying reply,.ok () => some { s with driver := .select,sent := s.sent ++ [.reply reply] }
    | .sending _,.error error | .replying _,.error error => some (s.leave (.failed (.send error)))
    | _,_ => none
  | .write attempt =>
    match s.driver with
    | .writing call =>
      match Pty.writePass attempt with
      | none => some s
      | some (.ok count) =>
        -- the kernel takes no more than it was offered
        if call.written + count ≤ call.data.length then
          some { s with driver := writeAll call.data (call.written + count),
                        ops := s.ops ++ ((call.data.drop call.written).take count).map .byte }
        else none
      | some (.error error) => some (s.leave (.failed (.write error)))
    | _ => none
  | .ioctl result =>
    match s.driver with
    | .resizing size =>
      match Pty.resize result with
      | .ok () => some { s with driver := .select,winsize := size,ops := s.ops ++ [.resize size] }
      | .error error => some (s.leave (.failed (.resize error)))
    | _ => none
  | .finish =>
    match s.driver,s.process with
    | .terminating outcome,some p =>
      if p.terminated then some { s with driver := .returned outcome,rxOpen := false } else none
    | _,_ => none
  | .drop =>
    match s.driver with
    | .spawning | .returned _ | .dropped => none
    | _ => some { s with driver := .dropped,rxOpen := false,
                         process := s.process.map Pty.Process.terminate }
  | .process event =>
    match s.process with
    | some p => (p.step event).map (fun p => { s with process := some p })
    | none => none

def system (json : Json) : System State Label := ⟨start,step json⟩

end Terminald.Session
