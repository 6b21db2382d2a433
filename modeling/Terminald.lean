import Terminald.Machine.System
import Terminald.Machine.Link
import Terminald.Machine.Queue
import Terminald.Machine.Strings
import Terminald.Machine.Base64
import Terminald.Machine.Utf8
import Terminald.Machine.Decimal
import Terminald.Machine.Descriptors
import Terminald.Machine.Number
import Terminald.Machine.Numeral
import Terminald.Machine.Utf16
import Terminald.Machine.Regex
import Terminald.Machine.Json
import Terminald.Machine.Url
import Terminald.Machine.Paths
import Terminald.Machine.References
import Terminald.Machine.UrlText
import Terminald.Machine.UrlRoundTrip
import Terminald.Machine.Folders
import Terminald.Machine.Groups
import Terminald.Model.Protocol
import Terminald.Model.Payload
import Terminald.Model.Pty
import Terminald.Model.Handle
import Terminald.Model.Host
import Terminald.Model.Session
import Terminald.Model.Spawn
import Terminald.Model.Live
import Terminald.Model.Browser
import Terminald.Model.Client
import Terminald.Model.App
import Terminald.Model.GhosttyTerminal
import Terminald.Model.Auth
import Terminald.Model.Assets
import Terminald.Model.Routes
import Terminald.Model.Urls
import Terminald.Model.Status
import Terminald.Proofs.Moves
import Terminald.Proofs.Output
import Terminald.Proofs.Backlog
import Terminald.Proofs.Input
import Terminald.Proofs.Ending
import Terminald.Proofs.Locks
import Terminald.Proofs.Cleanup
import Terminald.Proofs.Live
import Terminald.Proofs.Deadlock
import Terminald.Proofs.Events
import Terminald.Proofs.Timers
import Terminald.Proofs.Connection
import Terminald.Proofs.Mounted
import Terminald.Proofs.Traffic
import Terminald.Proofs.Window
import Terminald.Proofs.Display
import Terminald.Proofs.Screen
import Terminald.Proofs.Inert
import Terminald.Proofs.Late
import Terminald.Proofs.Isolation
import Terminald.Proofs.Holders
import Terminald.Proofs.Sizes
import Terminald.Proofs.Retries
import Terminald.Proofs.Admission
import Terminald.Proofs.Course
import Terminald.Proofs.Gate
import Terminald.Proofs.Handshake
import Terminald.Proofs.Line
import Terminald.Proofs.Credentials
import Terminald.Proofs.Frames
import Terminald.Proofs.Payload
import Terminald.Model.Server
import Terminald.Model.Args
import Terminald.Proofs.Options
import Terminald.Proofs.Mounts
import Terminald.Proofs.Redirects
import Terminald.Proofs.CredentialFiles
import Terminald.Proofs.Inside
import Terminald.Proofs.Completion
import Terminald.Proofs.Ownership
import Terminald.Proofs.Endpoints
import Terminald.Proofs.Notice
import Terminald.Proofs.Status
import Terminald.Model.Run
import Terminald.Proofs.Console
import Terminald.Proofs.Typed
import Terminald.Proofs.Peer
import Terminald.Proofs.Wire
import Terminald.Proofs.Sockets
import Terminald.Proofs.Site
import Terminald.Model.Serving
import Terminald.Proofs.Strangers
import Terminald.Proofs.Verdict
import Terminald.Proofs.Windup
import Terminald.Proofs.Goodbye
