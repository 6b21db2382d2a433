import Terminald.Machine.Number
import Terminald.Model.Protocol

namespace Terminald.Browser
open Protocol

/-- A JavaScript number: an integer, or anything else by the way it is shown. -/
inductive Number where
  | integer (value : Int)
  | other (text : String)
deriving DecidableEq

/-- What the page uses of the language's library: `TextDecoder` and `Number`. -/
structure Js where
  decode : Bytes → String
  number : String → Number

/-- The mark of byte order, as UTF-8 writes it. -/
def mark : Bytes := [0xEF,0xBB,0xBF]

/-- `TextDecoder`: one mark at the beginning is left out. -/
def textDecoder (bytes : Bytes) : String :=
  String.ofList (Machine.Utf8.stream none (if mark <+: bytes then bytes.drop mark.length else bytes))

/-- What is no integer is shown in some way. -/
def ofReading (shown : Bool → Nat → String) : Machine.Number.Reading → Number
  | .integer value => .integer value
  | .fraction negative units => .other (shown negative units)
  | .infinity negative => .other (if negative then "-Infinity" else "Infinity")
  | .nan => .other "NaN"

def standard (shown : Bool → Nat → String) : Js where
  decode := textDecoder
  number := fun text => ofReading shown (Machine.Number.stringToNumber text.toList)

inductive ServerFrame where
  | output (data : Bytes)
  | error (message : String)
  | exited (code : Number)
deriving DecidableEq

def encodeInput (data : Bytes) : Bytes := clientInput :: data

def encodeResize (cols rows : Nat) : Bytes :=
  clientResize :: utf8 ("\x7b\"cols\":" ++ toString cols ++ ",\"rows\":" ++ toString rows ++ "\x7d")

/-- An unknown prefix is thrown, also the missing one of an empty frame. -/
def decodeServerFrame (js : Js) : Bytes → Except String ServerFrame
  | [] => .error "unknown server frame prefix undefined"
  | kind :: payload =>
    if kind = serverOutput then .ok (.output payload)
    else if kind = serverError then .ok (.error (js.decode payload))
    else if kind = serverExited then .ok (.exited (js.number (js.decode payload)))
    else .error ("unknown server frame prefix " ++ toString kind.toNat)

end Terminald.Browser
