import Terminald.Machine.Base64
import Terminald.Machine.Strings
import Terminald.Model.Protocol

namespace Terminald

abbrev Text := List Char

def Text.utf8 (t : Text) : Bytes := Terminald.utf8 (String.ofList t)

/-- Nothing, when the bytes are no text. -/
def Text.ofUtf8 (bytes : Bytes) : Option Text :=
  (ByteArray.utf8Decode? ⟨bytes.toArray⟩).map Array.toList

@[simp] theorem Text.ofUtf8_utf8 (t : Text) : Text.ofUtf8 t.utf8 = some t := by
  have h : ByteArray.mk t.utf8.toArray = t.utf8Encode := by
    simp [Text.utf8,Terminald.utf8,String.toUTF8]
  rw [Text.ofUtf8,h,List.utf8Decode?_utf8Encode]
  rfl

theorem Text.ofUtf8_some {bytes : Bytes} {text : Text} :
    Text.ofUtf8 bytes = some text ↔ bytes = text.utf8 := by
  constructor
  · intro h
    obtain ⟨chars,hd,rfl⟩ := Option.map_eq_some_iff.mp h
    have hs : (ByteArray.utf8Decode? ⟨bytes.toArray⟩).isSome = true := by rw [hd]; rfl
    have he := ByteArray.utf8Encode_get_utf8Decode? (h := hs)
    simp only [hd,Option.get_some] at he
    simp [Text.utf8,Terminald.utf8,String.toUTF8,he]
  · intro h
    rw [h,Text.ofUtf8_utf8]

/-- The names are in small letters, as the HTTP library keeps them. -/
abbrev HeaderMap := List (String × Bytes)

/-- The first value under a name. -/
def HeaderMap.get (headers : HeaderMap) (name : String) : Option Bytes :=
  (headers.find? (fun h => h.1 == name)).map Prod.snd

/-- `HeaderValue::to_str`: only visible ASCII and tabs. -/
def headerText (value : Bytes) : Option Bytes :=
  if value.all (fun b => 32 ≤ b && b < 127 || b == 9) then some value else none

structure Response where
  status : Nat
  headers : HeaderMap
  body : Bytes
deriving DecidableEq

def Response.ofStatus (status : Nat) : Response := ⟨status,[],[]⟩

/-- A status with a text. -/
def Response.ofText (status : Nat) (message : String) : Response :=
  ⟨status,[("content-type",utf8 "text/plain; charset=utf-8")],utf8 message⟩

def Response.isRedirect (response : Response) : Bool :=
  300 ≤ response.status && response.status < 400

/-- Where a client is sent to. -/
def Response.location (response : Response) : Option Text :=
  (response.headers.get "location").bind Text.ofUtf8

namespace Auth
open Machine

def challenge : Bytes := utf8 "Basic realm=\"terminald\""

/-- A user name, up to the first colon, and a password. -/
structure Credential where
  username : Text
  password : Text
  plain : ':' ∉ username
deriving DecidableEq

theorem splitOnce_plain {c : Char} {value u v : Text} (h : splitOnce c value = some (u,v)) :
    c ∉ u := by
  induction value generalizing u with
  | nil => cases h
  | cons x xs ih =>
    simp only [splitOnce] at h
    split at h
    · cases h
      simp
    · rename_i hx
      obtain ⟨⟨a,b⟩,hs,he⟩ := Option.map_eq_some_iff.mp h
      cases he
      exact List.not_mem_cons_of_ne_of_not_mem (Ne.symm hx) (ih hs)

def Credential.new (value : Text) : Option Credential :=
  match h : splitOnce ':' value with
  | some (username,password) => some ⟨username,password,splitOnce_plain h⟩
  | none => none

def Credential.toBasicPair (c : Credential) : Text := c.username ++ ':' :: c.password

def Credential.encoded (c : Credential) : Bytes :=
  Base64.encode (Text.utf8 (c.username ++ ':' :: c.password))

/-- What the command-line client puts into its request. -/
def basicAuthHeader (credential : Option Credential) : Option Bytes :=
  credential.map (fun credential =>
    let pair := credential.toBasicPair
    utf8 "Basic " ++ Base64.encode pair.utf8)

structure AuthConfig where
  credential : Option Credential
deriving DecidableEq

def AuthConfig.disabled : AuthConfig := ⟨none⟩

def AuthConfig.basic (credential : Credential) : AuthConfig := ⟨some credential⟩

def AuthConfig.isEnabled (config : AuthConfig) : Bool := config.credential.isSome

/-- All places of both, the shorter padded with zeros, whatever the first differences say. -/
def constantTimeEq (left right : Bytes) : Bool :=
  let maxLen := max left.length right.length
  let diff := (List.range maxLen).foldl
    (fun diff index => diff ||| (left[index]?.getD 0 ^^^ right[index]?.getD 0).toNat)
    (left.length ^^^ right.length)
  diff == 0

def AuthConfig.validateHeaders (config : AuthConfig) (headers : HeaderMap) : Bool :=
  match config.credential with
  | none => true
  | some credential =>
    match headers.get "authorization" with
    | none => false
    | some value =>
      match headerText value with
      | none => false
      | some value =>
        match stripPrefix (utf8 "Basic ") value with
        | none => false
        | some encoded => constantTimeEq encoded credential.encoded

def rejection : Response := ⟨401,[("www-authenticate",challenge)],[]⟩

def AuthConfig.authorizeRequest (config : AuthConfig) (headers : HeaderMap) : Except Response Unit :=
  if config.validateHeaders headers then .ok () else .error rejection

end Auth
end Terminald
