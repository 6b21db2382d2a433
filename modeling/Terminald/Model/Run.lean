import Terminald.Model.Args
import Terminald.Model.Client
import Terminald.Model.Session
import Terminald.Model.Urls

namespace Terminald.Run
open Machine Protocol
open Session (Message Writing)

/-- The handshake of `connect_async`. -/
structure Request where
  url : Text
  authorization : Option Bytes
deriving DecidableEq

/-- `HeaderValue::from_str`. -/
def parseHeader (value : Bytes) : Except Error Bytes :=
  if value.all (fun b => 32 ≤ b && b != 127 || b == 9) then .ok value
  else .error ⟨["failed to parse header value"]⟩

/-- `into_client_request` and the header on top of it. -/
def buildRequest {U : Type} (urls : Urls.UrlType U) (config : Args.ClientConfig)
    (intoClientRequest : Except Error Unit) : Except Error Request := do
  let url ← Urls.resolveWsUrl urls config.connect.toList
  intoClientRequest
  match Auth.basicAuthHeader config.credential with
  | some header => return ⟨urls.text url,some (← parseHeader header)⟩
  | none => return ⟨urls.text url,none⟩

/-- Where the loop over `reader.next()` is. After the exit frame's text (`last`) it is left. -/
inductive Reader where
  | next
  | writing (call : Writing) (last : Bool)
  | flushing (last : Bool)
deriving DecidableEq

/-- Where `run` is. It is `leaving` until the guard of the raw mode is dropped. -/
inductive Stage where
  | entering
  | resolving
  | connecting (request : Request)
  | running (reader : Reader)
  | leaving (result : Except Error Unit)
  | returned (result : Except Error Unit)
deriving DecidableEq

structure State where
  stage : Stage
  raw : Bool
  /-- The window, the tasks and what they send, from the connected socket on. -/
  client : Client.State
  /-- What was read from stdin, what came on the socket, and what stdout took. -/
  typed : Bytes
  received : List Message
  stdout : Bytes
  flushed : Nat
deriving DecidableEq

def start (size : Resize) : State := ⟨.entering,false,Client.start size,[],[],[],0⟩

inductive Label where
  | enter (result : Except String Unit)
  | request (intoClientRequest : Except Error Unit)
  | connect (result : Except Error Unit)
  | client (label : Client.Label)
  | next (message : Option (Except Error Message))
  | write (result : Except Error Nat)
  | flush (result : Except Error Unit)
  | drop (disabled : Except String Unit)
deriving DecidableEq

/-- `write_server_output`: `write_all`, then `flush`. -/
def writeServerOutput (data : Bytes) (written : Nat) (last : Bool) : Reader :=
  if h : written < data.length then .writing ⟨data,written,h⟩ last else .flushing last

def exitNotice (code : Int32) : Bytes :=
  utf8 ("\r\nRemote exited with code " ++ toString code.toInt ++ "\r\n")

def handleServerFrame (frame : Bytes) : Stage :=
  match ServerMessage.decode frame with
  | .ok (.output output) => .running (writeServerOutput output 0 false)
  | .ok (.error error) => .leaving (.error ⟨[error]⟩)
  | .ok (.exited code) => .running (writeServerOutput (exitNotice code) 0 true)
  | .error error => .leaving (.error error)

def handle : Message → Stage
  | .binary frame => handleServerFrame frame
  | .text text => .running (writeServerOutput (utf8 text) 0 false)
  | .close => .leaving (.ok ())
  | .ping _ | .pong _ => .running .next

/-- The tasks start with the socket. Without one, only the window can change. -/
def State.turns (s : State) : Client.Label → Bool
  | .change _ | .deliver => true
  | .close => false
  | _ => match s.stage with
    | .running _ => true
    | .leaving _ => s.client.main != .connected
    | _ => false

/-- A step of the client's tasks, or of `run` up to its loop. -/
def State.turn (s : State) (l : Client.Label) : Option State :=
  (Client.step s.client l).map (fun client =>
    let s : State := { s with client := client }
    match l with
    | .stdin (.ok data) => { s with typed := s.typed ++ data }
    | .first (.error error) => { s with stage := .leaving (.error error) }
    | _ => s)

/-- The guard is dropped, the tasks end with the program. -/
def State.finish (s : State) (result : Except Error Unit) (disabled : Except String Unit) : State :=
  { s with
    stage := .returned result,
    raw := match disabled with
      | .ok () => false
      | .error _ => s.raw,
    client := (Client.step s.client .close).getD s.client }

def step {U : Type} (urls : Urls.UrlType U) (config : Args.ClientConfig) (s : State) :
    Label → Option State
  | .enter result =>
    match s.stage,result with
    | .entering,.ok () => some { s with stage := .resolving,raw := true }
    | .entering,.error error =>
      -- there is no guard yet
      some { s with stage := .returned (.error ⟨["enable terminal raw mode",error]⟩) }
    | _,_ => none
  | .request intoClientRequest =>
    match s.stage with
    | .resolving =>
      match buildRequest urls config intoClientRequest with
      | .ok request => some { s with stage := .connecting request }
      | .error error => some { s with stage := .leaving (.error error) }
    | _ => none
  | .connect result =>
    match s.stage,result with
    | .connecting _,.ok () => some { s with stage := .running .next }
    | .connecting _,.error error =>
      some { s with stage := .leaving (.error (error.context "connect to terminald server")) }
    | _,_ => none
  | .client l => if s.turns l then s.turn l else none
  | .next message =>
    match s.stage,s.client.main,message with
    | .running .next,.reading,some (.ok message) =>
      some { s with stage := handle message,received := s.received ++ [message] }
    | .running .next,.reading,some (.error error) => some { s with stage := .leaving (.error error) }
    | .running .next,.reading,none => some { s with stage := .leaving (.ok ()) }
    | _,_,_ => none
  | .write result =>
    match s.stage,result with
    | .running (.writing _ _),.ok 0 =>
      some { s with stage := .leaving (.error ⟨["write zero"]⟩) }
    | .running (.writing call last),.ok count =>
      if call.written + count ≤ call.data.length then
        some { s with stage := .running (writeServerOutput call.data (call.written + count) last),
                      stdout := s.stdout ++ (call.data.drop call.written).take count }
      else none
    | .running (.writing _ _),.error error => some { s with stage := .leaving (.error error) }
    | _,_ => none
  | .flush result =>
    match s.stage,result with
    | .running (.flushing last),.ok () =>
      some { s with stage := if last then .leaving (.ok ()) else .running .next,
                    flushed := s.stdout.length }
    | .running (.flushing _),.error error => some { s with stage := .leaving (.error error) }
    | _,_ => none
  | .drop disabled =>
    match s.stage with
    | .leaving result => some (s.finish result disabled)
    | _ => none

def system {U : Type} (urls : Urls.UrlType U) (config : Args.ClientConfig) (size : Resize) :
    System State Label := ⟨start size,step urls config⟩

end Terminald.Run
