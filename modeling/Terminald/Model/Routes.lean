import Terminald.Model.Assets

namespace Terminald.Routes
open Machine Auth Assets

inductive Method where
  | get
  | other (name : String)
deriving DecidableEq

structure Request where
  method : Method
  path : Text
  headers : HeaderMap
deriving DecidableEq

structure AppState where
  auth : AuthConfig
  assets : AssetConfig
  command : List String
deriving DecidableEq

/-- What lies outside: the files, and the extractor that turns a request into a
web socket upgrade or rejects it. -/
structure World where
  files : Files
  upgrade : Request → Except Response Response

/-- What a request sets going. -/
inductive Action where
  | lookup (place : Lookup)
  | handleSocket (command : List String)
deriving DecidableEq

/-- `HeaderValue::try_from`, for a redirect's location. -/
def headerValue (text : Text) : Option Bytes :=
  if (Text.utf8 text).all (fun b => 32 ≤ b && b != 127 || b == 9) then some (Text.utf8 text) else none

/-- A location that is no header value becomes an error. -/
def redirectPermanent (location : Text) : Response :=
  match headerValue location with
  | some value => ⟨308,[("location",value)],[]⟩
  | none => .ofText 500 "failed to parse header value"

def pathFinalSegmentHasExtension (path : Text) : Bool := (lastPart '/' path).contains '.'

def isExtensionlessWithoutTrailingSlash (path : Text) (method : Method) : Bool :=
  method == .get && path != "/".toList && !"/".toList.isSuffixOf path &&
    !"/ws".toList.isSuffixOf path && !"/auth/check".toList.isSuffixOf path &&
    !pathFinalSegmentHasExtension path

def authCheck (auth : AuthConfig) (request : Request) : Response :=
  match auth.authorizeRequest request.headers with
  | .ok () => .ofStatus 204
  | .error rejection => rejection

def dispatch (world : World) (state : AppState) (request : Request) : Response × List Action :=
  let path := request.path
  if "/auth/check".toList.isSuffixOf path || path == "/auth/check".toList then
    (authCheck state.auth request,[])
  else if "/ws".toList.isSuffixOf path || path == "/ws".toList then
    match state.auth.authorizeRequest request.headers with
    | .error _ => (rejection,[])
    | .ok () =>
      match world.upgrade request with
      | .error rejection => (rejection,[])
      | .ok response => (response,[.handleSocket state.command])
  else
    match state.auth.authorizeRequest request.headers with
    | .error _ => (rejection,[])
    | .ok () =>
      if isExtensionlessWithoutTrailingSlash path request.method then
        (redirectPermanent (path ++ ['/']),[])
      else
        match state.assets.load world.files path with
        | (.ok (some asset),looked) => (asset.response,looked.map .lookup)
        | (.ok none,looked) => (.ofStatus 404,looked.map .lookup)
        | (.error error,looked) => (.ofText 500 error.alternate,looked.map .lookup)

end Terminald.Routes
