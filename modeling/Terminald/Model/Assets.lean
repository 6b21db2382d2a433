import Terminald.Model.Auth

namespace Terminald.Assets
open Machine

structure AssetConfig where
  externalDist : Option Text
  useEmbeddedDist : Bool
deriving DecidableEq

def AssetConfig.embedded : AssetConfig := ⟨none,true⟩

def AssetConfig.withExternalDist (path : Text) : AssetConfig := ⟨some path,true⟩

/-- What `tokio::fs::read` and the embedded folder answer. -/
structure Files where
  read : Text → Option Bytes
  embedded : Text → Option Bytes

structure Asset where
  bytes : Bytes
  contentType : String
deriving DecidableEq

def Asset.response (asset : Asset) : Response :=
  ⟨200,[("content-type",utf8 asset.contentType)],asset.bytes⟩

/-- A look outside: at a file, or at the embedded folder. -/
inductive Lookup where
  | file (path : Text)
  | embedded (path : Text)
deriving DecidableEq

def pathHasExtension (path : Text) : Bool := (lastPart '/' path).contains '.'

def hasParentSegment (path : Text) : Bool := (path.splitOn '/').any (fun s => s == "..".toList)

def assetsDir : Text := "assets/".toList

def assetRelativePath (requestPath : Text) : Text :=
  let path := requestPath.dropWhile (fun c => c == '/')
  if path.isEmpty || !pathHasExtension path then "index.html".toList
  else
    match find assetsDir path with
    | some index => path.drop index
    | none => path

def contentType (path : Text) : String :=
  let ext := lastPart '.' path
  if ext = "html".toList then "text/html; charset=utf-8"
  else if ext = "css".toList then "text/css; charset=utf-8"
  else if ext = "js".toList then "text/javascript; charset=utf-8"
  else "application/octet-stream"

/-- `Path::join`: an absolute second path takes the place of the first. -/
def join (root path : Text) : Text :=
  if "/".toList.isPrefixOf path || root.isEmpty then path
  else if "/".toList.isSuffixOf root then root ++ path
  else root ++ '/' :: path

def distDir : Text := "dist/".toList

def embeddedLookupCandidates (path : Text) : List Text := [distDir ++ path,path]

def selectEmbeddedCandidate (path : Text) (useDist : Bool) (exist : Text → Bool) : Option Text :=
  ((embeddedLookupCandidates path).filter (fun candidate =>
    useDist || !distDir.isPrefixOf candidate)).find? exist

def embeddedAsset (files : Files) (path : Text) (useDist : Bool) : Except Error (Option Asset) :=
  match selectEmbeddedCandidate path useDist (fun candidate => (files.embedded candidate).isSome) with
  | none => .ok none
  | some candidate =>
    match files.embedded candidate with
    | none => .error ⟨["load embedded asset","embedded asset disappeared"]⟩
    | some data => .ok (some ⟨data,contentType path⟩)

/-- The answer, and where it was looked for. -/
def AssetConfig.load (config : AssetConfig) (files : Files) (requestPath : Text) :
    Except Error (Option Asset) × List Lookup :=
  if hasParentSegment requestPath then (.ok none,[])
  else
    let relative := assetRelativePath requestPath
    let embedded := (embeddedAsset files relative config.useEmbeddedDist,[.embedded relative])
    match config.externalDist with
    | none => embedded
    | some root =>
      match files.read (join root relative) with
      | some bytes => (.ok (some ⟨bytes,contentType relative⟩),[.file (join root relative)])
      | none => (embedded.1,.file (join root relative) :: embedded.2)

end Terminald.Assets
