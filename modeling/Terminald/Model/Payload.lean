import Terminald.Machine.Json
import Terminald.Model.Protocol

namespace Terminald.Protocol
open Machine Machine.Json

def colsKey : Bytes := [99,111,108,115]
def rowsKey : Bytes := [114,111,119,115]

/-- The fields read so far. -/
structure Fields where
  cols : Option UInt16
  rows : Option UInt16

/-- Both fields have to be there. -/
def Fields.finish (fields : Fields) : Option Resize := do
  return ⟨← fields.cols,← fields.rows⟩

/-- `visit_map`: fields in any order, each once; others are read over. -/
def visitMap : Nat → Bool → Fields → Bytes → Option (Resize × Bytes)
  | 0,_,_,_ => none
  | fuel + 1,first,fields,bytes =>
    match skip bytes with
    | [] => none
    | b :: rest =>
      if b = closeBrace then fields.finish.map (fun size => (size,rest))
      else do
        let rest ← if first then some (b :: rest) else if b = comma then some rest else none
        let (key,rest) ← readString (← expect quote rest)
        let rest ← expect colon rest
        if key = colsKey then
          if fields.cols.isSome then none
          else
            let (cols,rest) ← readU16 rest
            visitMap fuel false { fields with cols := some cols } rest
        else if key = rowsKey then
          if fields.rows.isSome then none
          else
            let (rows,rest) ← readU16 rest
            visitMap fuel false { fields with rows := some rows } rest
        else
          let rest ← ignoreValue (2 * rest.length + 2) rest
          visitMap fuel false fields rest

/-- `visit_seq`: the two numbers in the order of the fields. -/
def visitSeq (bytes : Bytes) : Option (Resize × Bytes) := do
  let (cols,rest) ← readU16 bytes
  let (rows,rest) ← readU16 (← expect comma rest)
  return (⟨cols,rows⟩,← expect closeBracket rest)

/-- Nothing but blanks may follow the value. -/
def deserialize (bytes : Bytes) : Option Resize := do
  let (size,rest) ← match skip bytes with
    | [] => none
    | b :: rest =>
      if b = openBracket then visitSeq rest
      else if b = openBrace then visitMap (rest.length + 1) true ⟨none,none⟩ rest
      else none
  if skip rest = [] then return size else none

def serialize (size : Resize) : Bytes :=
  utf8 ("\x7b\"cols\":" ++ toString size.cols.toNat ++ ",\"rows\":" ++ toString size.rows.toNat ++ "\x7d")

/-- What an error says is left open. -/
def serdeJson (describe : Bytes → String) : Json where
  fromSlice := fun bytes => match deserialize bytes with
    | some size => .ok size
    | none => .error (describe bytes)
  toVec := fun size => .ok (serialize size)

end Terminald.Protocol
