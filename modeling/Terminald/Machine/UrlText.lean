import Terminald.Machine.References

/-! URLs of the network schemes as texts. -/

namespace Terminald.Machine

def Scheme.text : Scheme → List Char
  | .http => "http".toList
  | .https => "https".toList
  | .ws => "ws".toList
  | .wss => "wss".toList

def Scheme.ofText (text : List Char) : Option Scheme :=
  [.http,.https,.ws,.wss].find? (fun scheme : Scheme => scheme.text == text)

/-- How hosts are read and written. -/
structure Hosts (H : Type) where
  parse : List Char → Option H
  text : H → List Char

namespace Url

/-- Every colon is in brackets, and they are closed. -/
def enclosed : Bool → List Char → Bool
  | inside, [] => !inside
  | inside, c :: cs =>
    (c != ':' || inside) && enclosed (if c = '[' then true else if c = ']' then false else inside) cs

/-- No blank, no control character and none of the marks that end a host. -/
def hostChar (c : Char) : Bool := 0x20 < c.val && !"/\\?#@".toList.contains c

variable {H : Type}

/-- The scheme in front, in lower case, and what follows its colon. -/
def schemeIn (text : List Char) : Option (List Char × List Char) :=
  match splitOnce ':' text with
  | some (c :: name,rest) =>
    if c.isAlpha && name.all (fun c => c.isAlphanum || "+-.".toList.contains c) then
      some ((c :: name).map Char.toLower,rest)
    else none
  | _ => none

/-- What follows the slashes behind the scheme. -/
def parseAfter (hosts : Hosts H) (scheme : Scheme) (text : List Char) : Option (Url H) :=
  let (authority,rest) := text.span (fun c => !isSlash c && c != '?' && c != '#')
  (parseAuthority hosts.parse scheme authority).map (fun authority =>
    let tail := cut (dropSlash rest)
    ⟨scheme,authority,walk [] (tail.path.splitOnP isSlash),tail.query,tail.fragment⟩)

/-- The parser without a base; it takes the network schemes only. -/
def parse (hosts : Hosts H) (text : List Char) : Option (Url H) :=
  (schemeIn (clean text)).bind (fun (name,rest) =>
    (Scheme.ofText name).bind (fun scheme => parseAfter hosts scheme (rest.dropWhile isSlash)))

/-- The parser with a base: the base's own scheme without two slashes is none at all. -/
def join (hosts : Hosts H) (base : Url H) (reference : List Char) : Option (Url H) :=
  match schemeIn (clean reference) with
  | none => resolve hosts.parse base reference
  | some (name,rest) =>
    (Scheme.ofText name).bind (fun scheme =>
      if scheme = base.scheme && !"//".toList.isPrefixOf rest then resolveClean hosts.parse base rest
      else parseAfter hosts scheme (rest.dropWhile isSlash))

def setPath (url : Url H) (text : List Char) : Url H :=
  { url with path := walk [] ((dropSlash (text.filter (fun c => !isBreak c))).splitOnP isSlash) }

/-- A port that is the new scheme's own is left out. -/
def setScheme (url : Url H) (scheme : Scheme) : Url H :=
  { url with
    scheme := scheme
    authority := { url.authority with
      port := if url.authority.port = some scheme.defaultPort then none else url.authority.port } }

def credentialsText (authority : Authority H) : List Char :=
  if authority.username = [] ∧ authority.password = [] then []
  else authority.username ++ (if authority.password = [] then [] else ':' :: authority.password) ++ ['@']

def portText (port : Option Nat) : List Char :=
  match port with
  | none => []
  | some port => ':' :: Nat.toDigits 10 port

def authorityText (hosts : Hosts H) (authority : Authority H) : List Char :=
  credentialsText authority ++ (hosts.text authority.host ++ portText authority.port)

def partText (mark : Char) (part : Option (List Char)) : List Char :=
  match part with
  | none => []
  | some text => mark :: text

def serialize (hosts : Hosts H) (url : Url H) : List Char :=
  url.scheme.text ++ ':' :: '/' :: '/' :: (authorityText hosts url.authority ++
    (url.pathText ++ (partText '?' url.query ++ partText '#' url.fragment)))

end Url

/-- What the standard promises of hosts: a host read is written as a text that is read as
that host, and that nothing else of a URL is taken for. -/
structure Hosts.Standard {H : Type} (hosts : Hosts H) : Prop where
  back : ∀ {text host}, hosts.parse text = some host → hosts.parse (hosts.text host) = some host
  chars : ∀ {text host}, hosts.parse text = some host → ∀ c ∈ hosts.text host, Url.hostChar c = true
  nonempty : ∀ {text host}, hosts.parse text = some host → hosts.text host ≠ []
  enclosed : ∀ {text host}, hosts.parse text = some host → Url.enclosed false (hosts.text host) = true

namespace Url
variable {H : Type}

/-- A URL in the form that the parser gives it. -/
structure Normal (hosts : Hosts H) (url : Url H) : Prop where
  host : ∃ text, hosts.parse text = some url.authority.host
  username : ∀ c ∈ url.authority.username, userinfoSet c = false
  password : ∀ c ∈ url.authority.password, userinfoSet c = false
  port : ∀ port, url.authority.port = some port → port ≤ 65535 ∧ port ≠ url.scheme.defaultPort
  nonempty : url.path ≠ []
  segments : ∀ s ∈ url.path, (∀ c ∈ s, kept c = true ∧ c ≠ '/') ∧ dotSegment s = false
  query : ∀ query, url.query = some query → ∀ c ∈ query, specialQuerySet c = false
  fragment : ∀ fragment, url.fragment = some fragment → ∀ c ∈ fragment, fragmentSet c = false

end Url
end Terminald.Machine
