import Mathlib.Algebra.Group.Int.Defs
import Terminald.Machine.Decimal
import Terminald.Machine.Utf8

namespace Terminald

abbrev Bytes := List UInt8

def utf8 (text : String) : Bytes := text.toUTF8.data.toList

/-- An error with the contexts wrapped around it, outermost first. -/
structure Error where
  chain : List String
deriving DecidableEq, Repr

def Error.context (e : Error) (text : String) : Error := ⟨text :: e.chain⟩

/-- The rendering by `{error:#}`. -/
def Error.alternate (e : Error) : String := String.intercalate ": " e.chain

namespace Protocol

def clientResize : UInt8 := 0
def clientInput : UInt8 := 1
def serverOutput : UInt8 := 2
def serverError : UInt8 := 3
def serverExited : UInt8 := 4

structure Resize where
  cols : UInt16
  rows : UInt16
deriving DecidableEq, Repr

/-- The JSON library, as the resize payload uses it. -/
structure Json where
  fromSlice : Bytes → Except String Resize
  toVec : Resize → Except String Bytes

def Resize.fromPayload (json : Json) (payload : Bytes) : Except Error Resize :=
  (json.fromSlice payload).mapError (fun e => ⟨[e]⟩)

def Resize.toPayload (json : Json) (size : Resize) : Except Error Bytes :=
  (json.toVec size).mapError (fun e => ⟨[e]⟩)

inductive ClientMessage where
  | resize (size : Resize)
  | input (data : Bytes)
deriving DecidableEq, Repr

def ClientMessage.decode (json : Json) : Bytes → Except Error ClientMessage
  | [] => .error ⟨["empty client frame"]⟩
  | kind :: payload =>
    if kind = clientResize then
      match Resize.fromPayload json payload with
      | .ok size => .ok (.resize size)
      | .error e => .error (e.context "invalid resize payload")
    else if kind = clientInput then .ok (.input payload)
    else .error ⟨["unknown client frame prefix " ++ toString kind.toNat]⟩

def ClientMessage.encode (json : Json) : ClientMessage → Except Error Bytes
  | .resize size => (size.toPayload json).map (fun payload => clientResize :: payload)
  | .input data => .ok (clientInput :: data)

inductive ServerMessage where
  | output (data : Bytes)
  | error (message : String)
  | exited (code : Int32)
deriving DecidableEq, Repr

def ServerMessage.encode : ServerMessage → Bytes
  | .output data => serverOutput :: data
  | .error message => serverError :: utf8 message
  | .exited code => serverExited :: utf8 (toString code.toInt)

/-- `String::from_utf8_lossy`. -/
def fromUtf8Lossy (bytes : Bytes) : String := String.ofList (Machine.Utf8.lossy bytes)

/-- `str::parse::<i32>`. -/
def parseI32 (text : String) : Except Error Int32 :=
  match Machine.Decimal.parse (-2 ^ 31) (2 ^ 31 - 1) text.toList with
  | .ok code => .ok (Int32.ofInt code)
  | .error e => .error ⟨[e.text]⟩

def ServerMessage.decode : Bytes → Except Error ServerMessage
  | [] => .error ⟨["empty server frame"]⟩
  | kind :: payload =>
    if kind = serverOutput then .ok (.output payload)
    else if kind = serverError then .ok (.error (fromUtf8Lossy payload))
    else if kind = serverExited then
      match parseI32 (fromUtf8Lossy payload) with
      | .ok code => .ok (.exited code)
      | .error e => .error (e.context "invalid exit code payload")
    else .error ⟨["unknown server frame prefix " ++ toString kind.toNat]⟩

/-- An input frame is taken as it is, whatever its payload looks like. -/
@[simp] theorem decode_input (json : Json) (data : Bytes) :
    ClientMessage.decode json (clientInput :: data) = .ok (.input data) := rfl

end Protocol
end Terminald
