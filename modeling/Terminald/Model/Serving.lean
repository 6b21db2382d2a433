import Terminald.Model.Server
import Terminald.Model.Session

namespace Terminald.Server
open Machine Auth Assets Routes

/-- A web socket from the answer to its request on. `handle_socket` has it once the connection is
handed over, and never if that fails. -/
inductive Socket where
  | upgrading
  | failed
  | handled (session : Session.State)
deriving DecidableEq

structure Connection where
  request : Request
  command : List String
  socket : Socket
deriving DecidableEq

/-- The server at work: its web sockets, what it has looked up, and what it has answered. -/
structure State where
  connections : List Connection
  looked : List Lookup
  answered : List (Request × Response)
deriving DecidableEq

/-- A request comes with the files and the extractor as they are then. -/
inductive Label where
  | request (world : World) (request : Request)
  | upgraded (i : Nat) (result : Except Error Unit)
  | session (i : Nat) (label : Session.Label)

def State.act (request : Request) (s : State) : Action → State
  | .lookup place => { s with looked := s.looked ++ [place] }
  | .handleSocket command => { s with connections := s.connections ++ [⟨request,command,.upgrading⟩] }

def State.answer (s : State) (request : Request) (response : Response) : State :=
  { s with answered := s.answered ++ [(request,response)] }

def Connection.step (json : Protocol.Json) (c : Connection) (l : Session.Label) : Option Connection :=
  match c.socket with
  | .handled session => (Session.step json session l).map (fun session => { c with socket := .handled session })
  | _ => none

def Connection.upgraded (c : Connection) (result : Except Error Unit) : Option Connection :=
  match c.socket,result with
  | .upgrading,.ok () => some { c with socket := .handled Session.start }
  | .upgrading,.error _ => some { c with socket := .failed }
  | _,_ => none

/-- A step of one connection. -/
def State.turn (s : State) (i : Nat) (turn : Connection → Option Connection) : Option State :=
  (s.connections[i]?.bind turn).map (fun c => { s with connections := s.connections.set i c })

def step (json : Protocol.Json) (app : AppState) (s : State) : Label → Option State
  | .request world request =>
    let (response,actions) := dispatch world app request
    some (actions.foldl (State.act request) (s.answer request response))
  | .upgraded i result => s.turn i (fun c => c.upgraded result)
  | .session i l => s.turn i (fun c => c.step json l)

/-- What `serve` starts, wherever it listens. -/
def system (json : Protocol.Json) (config : ServerConfig) : System State Label :=
  ⟨⟨[],[],[]⟩,step json (serve config).2⟩

end Terminald.Server
