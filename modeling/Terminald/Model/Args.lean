import Terminald.Model.Server

namespace Terminald.Args
open Machine Auth Server

def defaultPort : UInt16 := 7681

/-- The two ways to give a credential; the parser takes one of them at most. -/
structure CredentialArgs where
  credential : Option Text
  credentialFile : Option Text
  exclusive : credential = none ∨ credentialFile = none
deriving DecidableEq

def CredentialArgs.absent : CredentialArgs := ⟨none,none,.inl rfl⟩

/-- Something was given. -/
def CredentialArgs.given (args : CredentialArgs) : Bool :=
  args.credential.isSome || args.credentialFile.isSome

/-- A socket excludes an explicit host and an explicit port, so both have their defaults. -/
structure ServerArgs where
  port : UInt16
  host : IpAddr
  auth : CredentialArgs
  unixSocket : Option Text
  command : List String
  alone : unixSocket = none ∨ (host = .unspecified ∧ port = defaultPort)
deriving DecidableEq

structure ClientArgs where
  connect : String
  auth : CredentialArgs
deriving DecidableEq

inductive Subcommands where
  | server (args : ServerArgs)
  | client (args : ClientArgs)
  | version
deriving DecidableEq

/-- The top level repeats the options of a server. -/
structure Cli where
  command : Option Subcommands
  port : UInt16
  host : IpAddr
  auth : CredentialArgs
  unixSocket : Option Text
  serverCommand : List String
  alone : unixSocket = none ∨ (host = .unspecified ∧ port = defaultPort)
deriving DecidableEq

structure ClientConfig where
  connect : String
  credential : Option Credential
deriving DecidableEq

inductive CommandMode where
  | server (config : ServerConfig)
  | client (config : ClientConfig)
  | version
deriving DecidableEq

/-- What the operating system answers for a file's contents. -/
abbrev Disk := Text → Except Error Bytes

/-- `read_to_string`. -/
def readToString (disk : Disk) (path : Text) : Except Error Text := do
  let bytes ← disk path
  match Text.ofUtf8 bytes with
  | some text => return text
  | none => throw ⟨["stream did not contain valid UTF-8"]⟩

def stripSuffix (pat text : Text) : Option Text :=
  (stripPrefix pat.reverse text.reverse).map List.reverse

def credentialLine (value : Text) : Text :=
  ((stripSuffix ['\r','\n'] value).or (stripSuffix ['\n'] value)).getD value

def CredentialArgs.value (args : CredentialArgs) (disk : Disk) : Except Error (Option Text) :=
  match args.credentialFile with
  | some path => do
    let value ← (readToString disk path).mapError
      (fun e => e.context ("read credential file " ++ String.ofList path))
    let line := credentialLine value
    if line.any (fun c => c = '\r' || c = '\n' || c = '\x00') then
      throw ⟨["credential file must contain a single user:password line"]⟩
    return some line
  | none => return args.credential

def CredentialArgs.resolve (args : CredentialArgs) (disk : Disk) : Except Error (Option Credential) := do
  match ← args.value disk with
  | none => return none
  | some value =>
    match Credential.new value with
    | some credential => return some credential
    | none => throw ⟨["credential must be user:password"]⟩

def serverConfig (host : IpAddr) (port : UInt16) (auth : CredentialArgs) (unixSocket : Option Text)
    (command : List String) (disk : Disk) : Except Error ServerConfig := do
  if command.isEmpty then throw ⟨["command is required"]⟩
  let config := { ServerConfig.new port command with host := host,unixSocket := unixSocket }
  match ← auth.resolve disk with
  | some credential => return { config with auth := .basic credential }
  | none => return config

def Cli.intoMode (cli : Cli) (disk : Disk) : Except Error CommandMode :=
  match cli.command with
  | some (.server args) =>
    return .server (← serverConfig args.host args.port args.auth args.unixSocket args.command disk)
  | some (.client args) => return .client ⟨args.connect,← args.auth.resolve disk⟩
  | some .version => return .version
  | none =>
    return .server
      (← serverConfig cli.host cli.port cli.auth cli.unixSocket cli.serverCommand disk)

end Terminald.Args
