import Mathlib.Data.List.Basic
import Terminald.Machine.Strings

namespace Terminald.Machine

inductive Scheme where
  | http
  | https
  | ws
  | wss
deriving DecidableEq

def Scheme.defaultPort : Scheme → Nat
  | .http => 80
  | .https => 443
  | .ws => 80
  | .wss => 443

structure Authority (H : Type) where
  username : List Char
  password : List Char
  host : H
  port : Option Nat
deriving DecidableEq

/-- A URL with a host; no port stands for the scheme's own. -/
structure Url (H : Type) where
  scheme : Scheme
  authority : Authority H
  path : List (List Char)
  query : Option (List Char)
  fragment : Option (List Char)
deriving DecidableEq

namespace Url

def joinPath (path : List (List Char)) : List Char := path.flatMap (fun s => '/' :: s)

def pathText {H : Type} (url : Url H) : List Char := joinPath url.path

/-- A backslash counts as a slash. -/
def isSlash (c : Char) : Bool := c == '/' || c == '\\'

def hexDigit (n : Nat) : Char := if n < 10 then Char.ofNat (48 + n) else Char.ofNat (55 + n)

def percentByte (b : UInt8) : List Char := ['%',hexDigit (b.toNat / 16),hexDigit (b.toNat % 16)]

/-- The members of a set by the hexadecimal digits of their bytes. -/
def encode (set : Char → Bool) (text : List Char) : List Char :=
  text.flatMap (fun c => if set c then (String.utf8EncodeChar c).flatMap percentByte else [c])

def controlSet (c : Char) : Bool := c.val < 0x20 || 0x7E < c.val

def fragmentSet (c : Char) : Bool := controlSet c || " \"<>`".toList.contains c

def querySet (c : Char) : Bool := controlSet c || " \"#<>".toList.contains c

def specialQuerySet (c : Char) : Bool := querySet c || c.val == 0x27

def pathSet (c : Char) : Bool := querySet c || "?^`\x7b\x7d".toList.contains c

def userinfoSet (c : Char) : Bool := pathSet c || "/:;=@[\\]|".toList.contains c

def singleDot (segment : List Char) : Bool :=
  [".".toList,"%2e".toList].contains (segment.map Char.toLower)

def doubleDot (segment : List Char) : Bool :=
  ["..".toList,".%2e".toList,"%2e.".toList,"%2e%2e".toList].contains (segment.map Char.toLower)

def dotSegment (segment : List Char) : Bool := singleDot segment || doubleDot segment

/-- One segment more; a dot segment at the end leaves an empty one. -/
def step (path : List (List Char)) (last : Bool) (segment : List Char) : List (List Char) :=
  if doubleDot segment then path.dropLast ++ (if last then [[]] else [])
  else if singleDot segment then path ++ (if last then [[]] else [])
  else path ++ [encode pathSet segment]

def walk (path : List (List Char)) : List (List Char) → List (List Char)
  | [] => path
  | [segment] => step path true segment
  | segment :: next :: rest => walk (step path false segment) (next :: rest)

/-- What a path, a query and a fragment make of the text after the authority. -/
structure Tail where
  path : List Char
  query : Option (List Char)
  fragment : Option (List Char)

def cut (text : List Char) : Tail :=
  let (text,fragment) := match splitOnce '#' text with
    | some (u,v) => (u,some (encode fragmentSet v))
    | none => (text,none)
  match splitOnce '?' text with
  | some (u,v) => ⟨u,some (encode specialQuerySet v),fragment⟩
  | none => ⟨text,none,fragment⟩

def isBreak (c : Char) : Bool := c == '\t' || c == '\n' || c == '\r'

/-- Without the blanks and controls around it, and without tabs and line ends. -/
def clean (text : List Char) : List Char :=
  let outer : Char → Bool := fun c => c.val ≤ 0x20
  ((text.dropWhile outer).reverse.dropWhile outer).reverse.filter (fun c => !isBreak c)

def parsePort (scheme : Scheme) (text : List Char) : Option (Option Nat) :=
  if text.isEmpty then some none
  else if !text.all Char.isDigit then none
  else
    let port := text.foldl (fun n c => n * 10 + (c.toNat - 48)) 0
    if 65535 < port then none
    else if port = scheme.defaultPort then some none
    else some (some port)

/-- The first colon outside brackets divides the host from the port. -/
def splitPort (inside : Bool) : List Char → List Char × List Char
  | [] => ([],[])
  | c :: cs =>
    if c = ':' && !inside then ([],cs)
    else
      let (host,port) := splitPort (if c = '[' then true else if c = ']' then false else inside) cs
      (c :: host,port)

variable {H : Type} (parseHost : List Char → Option H)

def parseAuthority (scheme : Scheme) (text : List Char) : Option (Authority H) :=
  let hostport := lastPart '@' text
  let userinfo := text.take (text.length - hostport.length - 1)
  let (username,password) := match splitOnce ':' userinfo with
    | some (u,v) => (u,v)
    | none => (userinfo,[])
  let (host,port) := splitPort false hostport
  if host.isEmpty then none
  else do
    let host ← parseHost host
    let port ← parsePort scheme port
    return ⟨encode userinfoSet username,encode userinfoSet password,host,port⟩

/-- The authority that a reference with two slashes in front names, and the rest. -/
def authorityIn : List Char → Option (List Char × List Char)
  | c :: d :: rest =>
    if isSlash c && isSlash d then
      let text := rest.dropWhile isSlash
      some (text.span (fun c => !isSlash c && c != '?' && c != '#'))
    else none
  | _ => none

def dropSlash : List Char → List Char
  | [] => []
  | c :: rest => if isSlash c then rest else c :: rest

/-- A cleaned reference that names no scheme, against a base. -/
def resolveClean (base : Url H) (reference : List Char) : Option (Url H) :=
  match authorityIn reference with
  | some (authority,rest) => do
    let authority ← parseAuthority parseHost base.scheme authority
    let tail := cut (dropSlash rest)
    return ⟨base.scheme,authority,walk [] (tail.path.splitOnP isSlash),tail.query,tail.fragment⟩
  | none =>
    let tail := cut reference
    match tail.path with
    | [] => some { base with query := tail.query.or base.query,fragment := tail.fragment }
    | c :: rest =>
      let path := if isSlash c then walk [] (rest.splitOnP isSlash)
        else walk base.path.dropLast (tail.path.splitOnP isSlash)
      some { base with path := path,query := tail.query,fragment := tail.fragment }

def resolve (base : Url H) (reference : List Char) : Option (Url H) :=
  resolveClean parseHost base (clean reference)

/-- A character that a path has as it was written. -/
def kept (c : Char) : Bool := !pathSet c && c != '\\'

/-- The rules leave the path as it is. -/
def settled (path : List Char) : Bool :=
  path.all kept && !(path.splitOn '/').any dotSegment

end Url
end Terminald.Machine
