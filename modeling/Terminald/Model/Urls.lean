import Terminald.Machine.UrlText
import Terminald.Model.Auth

namespace Terminald.Urls
open Machine

/-- A URL type, as the `url` crate and the browser's `URL` class have it. The setter of
the scheme may refuse. -/
structure UrlType (U : Type) where
  parse : Text → Except String U
  join : U → Text → Except String U
  scheme : U → Text
  path : U → Text
  setPath : U → Text → U
  setScheme : U → Text → Option U
  text : U → Text

/-- What both are for the network schemes, apart from the words of a refusal. -/
def standard {H : Type} (hosts : Hosts H) (refusal : Text → String) : UrlType (Url H) where
  parse text := (Url.parse hosts text).elim (.error (refusal text)) .ok
  join base reference := (Url.join hosts base reference).elim (.error (refusal reference)) .ok
  scheme url := url.scheme.text
  path url := url.pathText
  setPath := Url.setPath
  setScheme url name := (Scheme.ofText name).map url.setScheme
  text := Url.serialize hosts

variable {U : Type} (urls : UrlType U)

def endsWithSlash (path : Text) : Bool := "/".toList.isSuffixOf path

/-- The command-line client's. -/
def resolveWsUrl (connect : Text) : Except Error U := do
  let base ← (urls.parse connect).mapError (fun error => ⟨["parse connect URL",error]⟩)
  let base := if endsWithSlash (urls.path base) then base else urls.setPath base (urls.path base ++ ['/'])
  let url ← (urls.join base "ws".toList).mapError (fun error => ⟨["resolve websocket URL",error]⟩)
  let scheme := urls.scheme url
  if scheme = "http".toList then
    (urls.setScheme url "ws".toList).elim (.error ⟨["set ws scheme"]⟩) .ok
  else if scheme = "https".toList then
    (urls.setScheme url "wss".toList).elim (.error ⟨["set wss scheme"]⟩) .ok
  else if scheme = "ws".toList || scheme = "wss".toList then .ok url
  else .error ⟨["unsupported connect URL scheme " ++ String.ofList scheme]⟩

/-- The page's functions; an error is thrown. -/
def ensureTrailingSlash (value : Text) : Except String Text := do
  let url ← urls.parse value
  let url := if endsWithSlash (urls.path url) then url else urls.setPath url (urls.path url ++ ['/'])
  return urls.text url

/-- `new URL(reference, base)`. -/
def newUrl (reference base : Text) : Except String U := do
  let base ← urls.parse base
  urls.join base reference

/-- A setter that refuses leaves the URL as it is. -/
def resolveWebSocketUrl (pageUrl : Text) : Except String Text := do
  let url ← newUrl urls "ws".toList (← ensureTrailingSlash urls pageUrl)
  let scheme := if urls.scheme url = "https".toList then "wss".toList else "ws".toList
  return urls.text ((urls.setScheme url scheme).getD url)

def resolveAuthCheckUrl (pageUrl : Text) : Except String Text := do
  let url ← newUrl urls "auth/check".toList (← ensureTrailingSlash urls pageUrl)
  return urls.text url

end Terminald.Urls
