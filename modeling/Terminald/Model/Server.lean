import Terminald.Model.Routes

namespace Terminald.Server
open Auth Assets

inductive IpAddr where
  | v4 (bits : BitVec 32)
  | v6 (bits : BitVec 128)
deriving DecidableEq

def IpAddr.unspecified : IpAddr := .v4 0

/-- Where connections are taken. -/
inductive Address where
  | unix (path : Text)
  | tcp (host : IpAddr) (port : UInt16)
deriving DecidableEq

structure ServerConfig where
  unixSocket : Option Text
  host : IpAddr
  port : UInt16
  command : List String
  auth : AuthConfig
  assets : AssetConfig
deriving DecidableEq

def ServerConfig.new (port : UInt16) (command : List String) : ServerConfig :=
  ⟨none,.unspecified,port,command,.disabled,.embedded⟩

def app (config : ServerConfig) : Routes.AppState := ⟨config.auth,config.assets,config.command⟩

/-- The addresses that `serve` binds, and what it serves there. -/
def serve (config : ServerConfig) : List Address × Routes.AppState :=
  match config.unixSocket with
  | some path => ([.unix path],app config)
  | none => ([.tcp config.host config.port],app config)

end Terminald.Server
