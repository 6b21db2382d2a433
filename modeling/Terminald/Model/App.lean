import Terminald.Machine.System
import Terminald.Model.Browser

namespace Terminald.App
open Machine Browser

inductive Phase where
  | connecting
  | connected
  | reconnecting
  | closed
  | error
deriving DecidableEq

inductive Reason where
  | authRequired
  | authCheckFailed
  | network
  | websocketUpgrade
  | websocketError
  | serverError
  | remoteExit
deriving DecidableEq

inductive Notice where
  | newSession
deriving DecidableEq

structure ConnectionState where
  phase : Phase
  reason : Option Reason := none
  detail : Option String := none
  exitCode : Option Number := none
  notice : Option Notice := none
deriving DecidableEq

structure Size where
  cols : Nat
  rows : Nat
deriving DecidableEq

/-- A web socket with the closure its listeners share. `established`, `closing`
and `closed`: its open event, a call of `close`, its close event. `sent`: the
arguments of all calls of `send`. -/
structure Socket where
  run : Nat
  currentAttempt : Nat
  isReconnect : Bool
  opened : Bool
  established : Bool
  closing : Bool
  closed : Bool
  sent : List Bytes
deriving DecidableEq

/-- `readyState === WebSocket.OPEN`. -/
def Socket.ready (x : Socket) : Bool := x.established && !x.closing && !x.closed

/-- An auth check, settled once it is answered or rejected. -/
structure Fetch where
  run : Nat
  currentAttempt : Nat
  isReconnect : Bool
  settled : Bool
deriving DecidableEq

inductive Callback where
  | reconnect
  | notice
deriving DecidableEq

structure Timer where
  run : Nat
  callback : Callback
  pending : Bool
deriving DecidableEq

/-- What outlives a run of the effect: the refs, the shown state, and all that
the browser keeps. Sockets, fetches and timers are named by their place. -/
structure Page where
  sockets : List Socket
  fetches : List Fetch
  timers : List Timer
  socketRef : Option Nat
  reconnectTimerRef : Option Nat
  latestSizeRef : Option Size
  connectionState : ConnectionState
  written : List Bytes
deriving DecidableEq

/-- The variables in the closure of one run of the effect. -/
structure Scope where
  number : Nat
  cancelled : Bool
  attempt : Nat
  remoteExited : Bool
  noticeTimer : Option Nat
deriving DecidableEq

/-- What the functions of one run work on. -/
structure Effect extends Page, Scope
deriving DecidableEq

namespace Page

/-- Every call is noted, also one that the browser would refuse. -/
def send (p : Page) (i : Nat) (frame : Bytes) : Page :=
  { p with sockets := p.sockets.modify i (fun x => { x with sent := x.sent ++ [frame] }) }

def close (p : Page) (i : Nat) : Page :=
  { p with sockets := p.sockets.modify i (fun x => { x with closing := true }) }

def clearTimeout (p : Page) (id : Nat) : Page :=
  { p with timers := p.timers.modify id (fun t => { t with pending := false }) }

def isReady (p : Page) (i : Nat) : Bool := (p.sockets[i]?).any Socket.ready

def sendInput (p : Page) (data : String) : Page :=
  match p.socketRef with
  | some i => if p.isReady i then p.send i (encodeInput (utf8 data)) else p
  | none => p

def sendResize (p : Page) (size : Size) : Page :=
  let p : Page := { p with latestSizeRef := some size }
  match p.socketRef with
  | some i => if p.isReady i then p.send i (encodeResize size.cols size.rows) else p
  | none => p

end Page

namespace Effect

/-- The guard of every asynchronous callback: the run is over, or this is not
its newest attempt. -/
def stale (e : Effect) (currentAttempt : Nat) : Bool :=
  e.cancelled || currentAttempt != e.attempt

def clearReconnectTimer (e : Effect) : Effect :=
  match e.reconnectTimerRef with
  | some id => { e with toPage := { e.toPage.clearTimeout id with reconnectTimerRef := none } }
  | none => e

def clearNoticeTimer (e : Effect) : Effect :=
  match e.noticeTimer with
  | some id => { e with toPage := e.toPage.clearTimeout id,noticeTimer := none }
  | none => e

def setConnectionState (update : ConnectionState → ConnectionState) (e : Effect) : Effect :=
  { e with connectionState := update e.connectionState }

def setState (state : ConnectionState) (e : Effect) : Effect :=
  (if state.notice ≠ some .newSession then e.clearNoticeTimer else e).setConnectionState
    (fun _ => state)

/-- The name of the next timer, and the page with it. -/
def setTimeout (callback : Callback) (e : Effect) : Nat × Effect :=
  (e.timers.length,{ e with timers := e.timers ++ [⟨e.number,callback,true⟩] })

def showConnected (isReconnect : Bool) (e : Effect) : Effect :=
  if !isReconnect then e.setState { phase := .connected }
  else
    let e := e.clearNoticeTimer.setState { phase := .connected,notice := some .newSession }
    let (id,e) := e.setTimeout .notice
    { e with noticeTimer := some id }

def noticeExpired (e : Effect) : Effect :=
  let e : Effect := { e with noticeTimer := none }
  e.setConnectionState (fun current =>
    if current.phase = .connected ∧ current.notice = some .newSession then { phase := .connected }
    else current)

def scheduleReconnect (e : Effect) : Effect :=
  if e.cancelled || e.reconnectTimerRef.isSome then e
  else
    let e := e.clearNoticeTimer.setConnectionState (fun current =>
      if current.phase = .reconnecting ∧ current.reason = some .network then current
      else { phase := .reconnecting })
    let (id,e) := e.setTimeout .reconnect
    { e with reconnectTimerRef := some id }

/-- `connect` up to its `await`. -/
def connect (isReconnect : Bool) (e : Effect) : Effect :=
  let e : Effect := { e with attempt := e.attempt + 1 }
  let e := e.setState { phase := if isReconnect then .reconnecting else .connecting }
  { e with fetches := e.fetches ++ [⟨e.number,e.attempt,isReconnect,false⟩] }

def reconnectExpired (e : Effect) : Effect :=
  ({ e with reconnectTimerRef := none } : Effect).connect true

/-- `connect` from a rejected `fetch` on; `none` is a reason that is no `Error`. -/
def rejected (f : Fetch) (message : Option String) (e : Effect) : Effect :=
  if e.stale f.currentAttempt then e
  else
    let detail := some (message.getD "connection error")
    if f.isReconnect then
      (e.setState { phase := .reconnecting,reason := some .network,detail := detail }).scheduleReconnect
    else e.setState { phase := .error,reason := some .network,detail := detail }

/-- `connect` from an answered `fetch` on. -/
def resolved (f : Fetch) (status : Nat) (e : Effect) : Effect :=
  if e.stale f.currentAttempt then e
  else if status = 401 then e.setState { phase := .error,reason := some .authRequired }
  else if status ≠ 204 then e.setState { phase := .error,reason := some .authCheckFailed }
  else
    { e with
      sockets := e.sockets ++ [⟨e.number,f.currentAttempt,f.isReconnect,false,false,false,false,[]⟩],
      socketRef := some e.sockets.length }

def onOpen (i : Nat) (x : Socket) (e : Effect) : Effect :=
  if e.stale x.currentAttempt then { e with toPage := e.toPage.close i }
  else
    let e : Effect := { e with sockets := e.sockets.modify i (fun x => { x with opened := true }) }
    let e := e.showConnected x.isReconnect
    match e.latestSizeRef with
    | some size => { e with toPage := e.toPage.send i (encodeResize size.cols size.rows) }
    | none => e

def onClose (i : Nat) (x : Socket) (e : Effect) : Effect :=
  let e : Effect := if e.socketRef = some i then { e with socketRef := none } else e
  if e.stale x.currentAttempt then e
  else if e.remoteExited then e
  else if x.opened then e.scheduleReconnect
  else if x.isReconnect then e.scheduleReconnect
  else e.setState { phase := .error,reason := some .websocketUpgrade }

def onError (x : Socket) (e : Effect) : Effect :=
  if e.stale x.currentAttempt then e
  else if !x.opened && !x.isReconnect then
    e.setState { phase := .error,reason := some .websocketError }
  else e

/-- A frame that does not decode is thrown out of the listener. -/
def onMessage (js : Js) (i : Nat) (x : Socket) (data : Bytes) (e : Effect) : Effect :=
  if e.stale x.currentAttempt then e
  else
    match decodeServerFrame js data with
    | .ok (.output data) => { e with written := e.written ++ [data] }
    | .ok (.error message) =>
      e.setState { phase := .error,reason := some .serverError,detail := some message }
    | .ok (.exited code) =>
      let e : Effect := { e with remoteExited := true }
      let e := e.setState { phase := .closed,reason := some .remoteExit,exitCode := some code }
      { e with toPage := e.toPage.close i }
    | .error _ => e

/-- What the effect returns. -/
def cleanup (e : Effect) : Effect :=
  let e : Effect := { e with cancelled := true,attempt := e.attempt + 1 }
  let e := e.clearReconnectTimer.clearNoticeTimer
  match e.socketRef with
  | some i => { e with toPage := { e.toPage.close i with socketRef := none } }
  | none => e

end Effect

/-- The page and every run of the effect so far; of a mounted page the last run
is the live one. -/
structure State where
  page : Page
  scopes : List Scope
  mounted : Bool
deriving DecidableEq

inductive Label where
  | mount
  | unmount
  | fetched (i : Nat) (result : Except (Option String) Nat)
  | timer (i : Nat)
  | opened (i : Nat)
  | errored (i : Nat)
  | message (i : Nat) (data : Bytes)
  | closed (i : Nat)
  | data (text : String)
  | resize (size : Size)
deriving DecidableEq

/-- A callback of run `r` on the page. -/
def State.call (s : State) (r : Nat) (callback : Effect → Effect) : Option State :=
  (s.scopes[r]?).map (fun scope =>
    let e := callback ⟨s.page,scope⟩
    { s with page := e.toPage,scopes := s.scopes.set r e.toScope })

/-- The browser's side: a fetch settles once, a pending timer fires once, a socket
opens at most once, has messages only while it is open and not closing, and
nothing after its close event. -/
def step (js : Js) (s : State) : Label → Option State
  | .mount =>
    if s.mounted then none
    else
      let s : State := { s with
        mounted := true,scopes := s.scopes ++ [⟨s.scopes.length,false,0,false,none⟩] }
      s.call (s.scopes.length - 1) (Effect.connect false)
  | .unmount =>
    if s.mounted then
      (s.call (s.scopes.length - 1) Effect.cleanup).map (fun s => { s with mounted := false })
    else none
  | .fetched i result =>
    match s.page.fetches[i]? with
    | some f =>
      if f.settled then none
      else
        let s : State := { s with page := { s.page with
          fetches := s.page.fetches.modify i (fun f => { f with settled := true }) } }
        match result with
        | .error message => s.call f.run (Effect.rejected f message)
        | .ok status => s.call f.run (Effect.resolved f status)
    | none => none
  | .timer i =>
    match s.page.timers[i]? with
    | some t =>
      if t.pending then
        let s : State := { s with page := s.page.clearTimeout i }
        match t.callback with
        | .reconnect => s.call t.run Effect.reconnectExpired
        | .notice => s.call t.run Effect.noticeExpired
      else none
    | none => none
  | .opened i =>
    match s.page.sockets[i]? with
    | some x =>
      if x.established || x.closed then none
      else
        let s : State := { s with page := { s.page with
          sockets := s.page.sockets.modify i (fun x => { x with established := true }) } }
        s.call x.run (Effect.onOpen i x)
    | none => none
  | .errored i =>
    match s.page.sockets[i]? with
    | some x => if x.closed then none else s.call x.run (Effect.onError x)
    | none => none
  | .message i data =>
    match s.page.sockets[i]? with
    | some x => if x.ready then s.call x.run (Effect.onMessage js i x data) else none
    | none => none
  | .closed i =>
    match s.page.sockets[i]? with
    | some x =>
      if x.closed then none
      else
        let s : State := { s with page := { s.page with
          sockets := s.page.sockets.modify i (fun x => { x with closed := true }) } }
        s.call x.run (Effect.onClose i x)
    | none => none
  | .data text => if s.mounted then some { s with page := s.page.sendInput text } else none
  | .resize size => if s.mounted then some { s with page := s.page.sendResize size } else none

def start : State := ⟨⟨[],[],[],none,none,none,{ phase := .connecting },[]⟩,[],false⟩

def system (js : Js) : System State Label := ⟨start,step js⟩

end Terminald.App
