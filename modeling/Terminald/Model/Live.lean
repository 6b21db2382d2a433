import Terminald.Model.Session

namespace Terminald.Live
open Machine Protocol

/-- How much the kernel keeps of what is written to either side of the terminal. -/
structure Caps where
  input : Nat
  output : Nat
  input_pos : 0 < input
  output_pos : 0 < output

/-- A session with its terminal, a child that copies its input to its output,
and a client with messages to send. -/
structure State (k : Caps) where
  session : Session.State
  input : Queue UInt8 k.input
  output : Queue UInt8 k.output
  /-- What the child has read and not yet written. -/
  copying : Bytes
  /-- The payloads of the input messages the client has still to send. -/
  pending : List Bytes

variable {k : Caps}

inductive Label where
  | spawn
  | recv
  | receive
  | write (count : Nat)
  | send
  | read (count : Nat)
  | post
  | childRead (count : Nat)
  | childWrite (count : Nat)
deriving DecidableEq

/-- A step of the session alone. -/
def State.turn (json : Json) (s : State k) (l : Session.Label) : Option (State k) :=
  (Session.step json s.session l).map (fun session => { s with session := session })

/-- What a read of `count` bytes finds in the output queue. -/
def State.chunk (s : State k) (count : Nat) (h : count ≤ Pty.bufferSize) : Pty.Chunk :=
  ⟨s.output.items.take count,Nat.le_trans (List.length_take_le _ _) h⟩

/-- Reads and writes move at least one byte. A write to a full queue and a read
from an empty one wait. The client takes every frame. -/
def step (json : Json) (s : State k) : Label → Option (State k)
  | .spawn => s.turn json (.spawn (.ok 1))
  | .recv => s.turn json .recv
  | .send => s.turn json (.send (.ok ()))
  | .post => s.turn json .post
  | .receive =>
    match s.pending with
    | data :: rest =>
      { s with pending := rest }.turn json (.receive (.ok (.binary (clientInput :: data))))
    | [] => none
  | .write count =>
    match s.session.driver with
    | .writing call =>
      if 0 < count then
        (s.input.push ((call.data.drop call.written).take count)).bind (fun input =>
          { s with input := input }.turn json (.write (.result (.ok count))))
      else none
    | _ => none
  | .read count =>
    if h : 0 < count ∧ count ≤ s.output.items.length ∧ count ≤ Pty.bufferSize then
      { s with output := s.output.drop count }.turn json
        (.read (.result (.ok (s.chunk count h.2.2))))
    else none
  | .childRead count =>
    if s.copying = [] ∧ 0 < count ∧ count ≤ s.input.items.length then
      some { s with copying := s.input.items.take count,input := s.input.drop count }
    else none
  | .childWrite count =>
    if 0 < count ∧ count ≤ s.copying.length then
      (s.output.push (s.copying.take count)).map (fun output =>
        { s with output := output,copying := s.copying.drop count })
    else none

def start (k : Caps) (messages : List Bytes) : State k :=
  ⟨Session.start,.empty,.empty,[],messages⟩

def system (k : Caps) (json : Json) (messages : List Bytes) : System (State k) Label :=
  ⟨start k messages,step json⟩

end Terminald.Live
