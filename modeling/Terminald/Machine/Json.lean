import Terminald.Machine.Utf8

namespace Terminald.Machine.Json

def quote : UInt8 := 34
def comma : UInt8 := 44
def colon : UInt8 := 58
def openBracket : UInt8 := 91
def closeBracket : UInt8 := 93
def openBrace : UInt8 := 123
def closeBrace : UInt8 := 125

def isSpace (b : UInt8) : Bool := b == 32 || b == 10 || b == 9 || b == 13

def skip (bytes : List UInt8) : List UInt8 := bytes.dropWhile isSpace

/-- The next byte that is no blank has to be this one. -/
def expect (b : UInt8) (bytes : List UInt8) : Option (List UInt8) :=
  match skip bytes with
  | [] => none
  | c :: rest => if c = b then some rest else none

def isDigit (b : UInt8) : Bool := 48 ≤ b && b ≤ 57

/-- Digits, the first of several not zero. -/
def whole (bytes : List UInt8) : Option (List UInt8 × List UInt8) :=
  match bytes.span isDigit with
  | ([],_) => none
  | (48 :: _ :: _,_) => none
  | (digits,rest) => some (digits,rest)

def digits (bytes : List UInt8) : Option (List UInt8) :=
  match bytes.span isDigit with
  | ([],_) => none
  | (_,rest) => some rest

def startsFraction : List UInt8 → Bool
  | [] => false
  | b :: _ => b == 46 || b == 101 || b == 69

/-- An integer of 16 bits without a sign. -/
def readU16 (bytes : List UInt8) : Option (UInt16 × List UInt8) := do
  let (number,rest) ← whole (skip bytes)
  let n := number.foldl (fun n b => 10 * n + (b.toNat - 48)) 0
  if startsFraction rest ∨ 65536 ≤ n then none else return (UInt16.ofNat n,rest)

def hex (b : UInt8) : Option Nat :=
  if isDigit b then some (b.toNat - 48)
  else if 97 ≤ b ∧ b ≤ 102 then some (b.toNat - 87)
  else if 65 ≤ b ∧ b ≤ 70 then some (b.toNat - 55)
  else none

def hexEscape (a b c d : UInt8) : Option Nat := do
  return ((← hex a) * 16 + (← hex b)) * 256 + (← hex c) * 16 + (← hex d)

/-- What a backslash and a letter stand for. -/
def escape (b : UInt8) : Option UInt8 :=
  if b = 34 ∨ b = 92 ∨ b = 47 then some b
  else if b = 98 then some 8
  else if b = 102 then some 12
  else if b = 110 then some 10
  else if b = 114 then some 13
  else if b = 116 then some 9
  else none

def push (n : Nat) (rest : Option (List UInt8 × List UInt8)) : Option (List UInt8 × List UInt8) :=
  rest.map (fun (text,rest) => (String.utf8EncodeChar (Char.ofNat n) ++ text,rest))

/-- From behind a quote to the next one, with the escapes resolved. -/
def string : List UInt8 → Option (List UInt8 × List UInt8)
  | [] => none
  | 34 :: rest => some ([],rest)
  | 92 :: 117 :: a :: b :: c :: d :: rest =>
    match hexEscape a b c d with
    | none => none
    | some n =>
      if 0xDC00 ≤ n ∧ n ≤ 0xDFFF then none
      else if 0xD800 ≤ n ∧ n ≤ 0xDBFF then
        match rest with
        | 92 :: 117 :: e :: f :: g :: h :: rest =>
          match hexEscape e f g h with
          | none => none
          | some m =>
            if 0xDC00 ≤ m ∧ m ≤ 0xDFFF then
              push (0x10000 + (n - 0xD800) * 0x400 + (m - 0xDC00)) (string rest)
            else none
        | _ => none
      else push n (string rest)
  | 92 :: b :: rest => do
    let c ← escape b
    let (text,rest) ← string rest
    return (c :: text,rest)
  | b :: rest =>
    if b < 32 then none else (string rest).map (fun (text,rest) => (b :: text,rest))

/-- A text is taken only if it is UTF-8. -/
def readString (bytes : List UInt8) : Option (List UInt8 × List UInt8) := do
  let (text,rest) ← string bytes
  if (Utf8.lossy text).flatMap String.utf8EncodeChar = text then return (text,rest) else none

def ignoreString : List UInt8 → Option (List UInt8)
  | [] => none
  | 34 :: rest => some rest
  | 92 :: 117 :: a :: b :: c :: d :: rest =>
    if (hexEscape a b c d).isSome then ignoreString rest else none
  | 92 :: b :: rest => if (escape b).isSome then ignoreString rest else none
  | b :: rest => if b < 32 then none else ignoreString rest

def ignoreFraction : List UInt8 → Option (List UInt8)
  | 46 :: rest => digits rest
  | rest => some rest

def ignoreExponent : List UInt8 → Option (List UInt8)
  | [] => some []
  | b :: rest =>
    if b = 101 ∨ b = 69 then
      match rest with
      | 43 :: rest | 45 :: rest => digits rest
      | rest => digits rest
    else some (b :: rest)

def ignoreNumber (bytes : List UInt8) : Option (List UInt8) := do
  let (_,rest) ← whole (match bytes with
    | 45 :: rest => rest
    | rest => rest)
  ignoreExponent (← ignoreFraction rest)

def ignoreWord (word bytes : List UInt8) : Option (List UInt8) :=
  if word <+: bytes then some (bytes.drop word.length) else none

mutual
/-- Any value, read over. Of two calls one takes a byte, so twice the length is fuel enough. -/
def ignoreValue : Nat → List UInt8 → Option (List UInt8)
  | 0,_ => none
  | fuel + 1,bytes =>
    match skip bytes with
    | [] => none
    | b :: rest =>
      if b = quote then ignoreString rest
      else if b = openBracket then
        match expect closeBracket rest with
        | some rest => some rest
        | none => ignoreItems fuel false rest
      else if b = openBrace then
        match expect closeBrace rest with
        | some rest => some rest
        | none => ignoreItems fuel true rest
      else if b = 110 then ignoreWord [117,108,108] rest
      else if b = 116 then ignoreWord [114,117,101] rest
      else if b = 102 then ignoreWord [97,108,115,101] rest
      else ignoreNumber (b :: rest)

/-- The items of an array, or the members of an object. -/
def ignoreItems : Nat → Bool → List UInt8 → Option (List UInt8)
  | 0,_,_ => none
  | fuel + 1,object,bytes => do
    let value ← if object then expect colon (← ignoreString (← expect quote bytes)) else some bytes
    let rest ← ignoreValue fuel value
    match skip rest with
    | [] => none
    | b :: rest =>
      if b = comma then ignoreItems fuel object rest
      else if b = (if object then closeBrace else closeBracket) then some rest
      else none
end

end Terminald.Machine.Json
