import Terminald.Machine.Queue
import Terminald.Machine.System
import Terminald.Model.Protocol

namespace Terminald.Client
open Machine Protocol

/-- The capacity in `mpsc::channel(8)`. -/
def channelCapacity : Nat := 8

/-- The size of `buf`. -/
def bufferSize : Nat := 4096

/-- Where `run` is, from the connected socket on. -/
inductive Main where
  | connected
  | measuring
  | sending (size : Resize)
  | reading
  | returned
deriving DecidableEq

/-- Where the task of `TerminalEvents` is. It is `done` if it has no signals to wait for. -/
inductive Events where
  | unborn
  | registering
  | waiting
  | measuring
  | posting (size : Resize)
  | done
deriving DecidableEq

/-- Where the writer task is. -/
inductive Writer where
  | unborn
  | select
  | sending (message : ClientMessage)
  | done
deriving DecidableEq

structure State where
  main : Main
  events : Events
  writer : Writer
  channel : Queue Resize channelCapacity
  /-- What `events.current_size()` gave `run`. -/
  initial : Option Resize
  /-- The terminal's size, a signal that is not delivered yet, and one that
  `signal.recv()` has not returned yet. -/
  size : Resize
  raised : Bool
  notified : Bool
  sent : List ClientMessage
deriving DecidableEq

/-- What `run` finds when the socket is there. -/
def start (size : Resize) : State :=
  ⟨.connected,.unborn,.unborn,.empty,none,size,false,false,[]⟩

inductive Label where
  | change (size : Resize)
  | deliver
  | new
  | initial (readable : Bool)
  | first (result : Except Error Unit)
  | register (result : Bool)
  | recv
  | current (readable : Bool)
  | post
  | stdin (read : Except Error Bytes)
  | resize
  | send (result : Except Error Unit)
  | close
deriving DecidableEq

/-- The handler of the signal is there. -/
def Events.registered : Events → Bool
  | .waiting | .measuring | .posting _ => true
  | .unborn | .registering | .done => false

/-- The writer task is over and takes the receiver with it. -/
def State.stop (s : State) : State := { s with writer := .done,channel := .empty }

/-- `run` is back, and its tasks go with it. -/
def State.finish (s : State) : State := { s.stop with main := .returned,events := .done }

/-- The window changes and signals are delivered at any time; signals that are
not received yet become one, and one that nobody handles is lost. -/
def step (s : State) : Label → Option State
  | .change size => if size = s.size then none else some { s with size := size,raised := true }
  | .deliver =>
    if s.raised then
      some { s with raised := false,notified := s.notified || s.events.registered }
    else none
  | .new =>
    match s.main with
    | .connected => some { s with main := .measuring,events := .registering }
    | _ => none
  | .initial readable =>
    match s.main with
    | .measuring =>
      if readable then some { s with main := .sending s.size,initial := some s.size }
      else some { s with main := .reading,writer := .select }
    | _ => none
  | .first result =>
    match s.main,result with
    | .sending size,.ok () =>
      some { s with main := .reading,writer := .select,sent := s.sent ++ [.resize size] }
    | .sending _,.error _ => some s.finish
    | _,_ => none
  | .register result =>
    match s.events with
    | .registering => some { s with events := if result then .waiting else .done,notified := false }
    | _ => none
  | .recv =>
    match s.events with
    | .waiting => if s.notified then some { s with events := .measuring,notified := false } else none
    | _ => none
  | .current readable =>
    match s.events with
    | .measuring => some { s with events := if readable then .posting s.size else .waiting }
    | _ => none
  | .post =>
    match s.events with
    | .posting size =>
      -- the error of a channel without receiver is let go
      if s.writer = .done then some { s with events := .waiting }
      else (s.channel.push [size]).map (fun channel => { s with channel := channel,events := .waiting })
    | _ => none
  | .stdin read =>
    match s.writer,read with
    | .select,.ok [] => some s.stop
    | .select,.ok data =>
      if data.length ≤ bufferSize then some { s with writer := .sending (.input data) } else none
    | .select,.error _ => some s.stop
    | _,_ => none
  | .resize =>
    match s.writer,s.channel.items with
    | .select,size :: _ =>
      some { s with writer := .sending (.resize size),channel := s.channel.drop 1 }
    | _,_ => none
  | .send result =>
    match s.writer,result with
    | .sending message,.ok () => some { s with writer := .select,sent := s.sent ++ [message] }
    | .sending _,.error _ => some s.stop
    | _,_ => none
  | .close =>
    match s.main with
    | .reading => some s.finish
    | _ => none

def system (size : Resize) : System State Label := ⟨start size,step⟩

end Terminald.Client
