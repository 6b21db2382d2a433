import Terminald.Proofs.Console
import Terminald.Proofs.CredentialFiles
import Terminald.Proofs.Endpoints
import Terminald.Proofs.Gate

namespace Terminald.Args
open Auth Server

/-- The command named beside the options that the mode reads. -/
def Cli.started (cli : Cli) : List String :=
  match cli.command with
  | some (.server args) => args.command
  | _ => cli.serverCommand

variable {disk : Disk} {cli : Cli}

theorem intoMode_started {config : ServerConfig} (h : cli.intoMode disk = .ok (.server config)) :
    cli.started ≠ [] ∧ config.command = cli.started ∧
    ∃ credential, cli.own.resolve disk = .ok credential ∧ config.auth = ⟨credential⟩ := by
  have named : ∀ {host port auth socket command},
      serverConfig host port auth socket command disk = .ok config → command ≠ [] ∧ config.command = command := by
    intro host port auth socket command hs
    obtain ⟨hc,_,_,rfl⟩ := serverConfig_ok.mp hs
    exact ⟨hc,rfl⟩
  refine and_assoc.mp ⟨?_,intoMode_server h⟩
  cases hc : cli.command with
  | none =>
    simp only [Cli.started,hc]
    cases hs : serverConfig cli.host cli.port cli.auth cli.unixSocket cli.serverCommand disk with
    | error e => simp [Cli.intoMode,hc,hs,bind,Except.bind] at h
    | ok made =>
      simp only [Cli.intoMode,hc,hs,bind,Except.bind,pure,Except.pure,Except.ok.injEq,
        CommandMode.server.injEq] at h
      exact named (h ▸ hs)
  | some command =>
    cases command with
    | version => simp [Cli.intoMode,hc,pure,Except.pure] at h
    | client args =>
      cases hr : args.auth.resolve disk <;>
        simp [Cli.intoMode,hc,hr,bind,Except.bind,pure,Except.pure] at h
    | server args =>
      simp only [Cli.started,hc]
      cases hs : serverConfig args.host args.port args.auth args.unixSocket args.command disk with
      | error e => simp [Cli.intoMode,hc,hs,bind,Except.bind] at h
      | ok made =>
        simp only [Cli.intoMode,hc,hs,bind,Except.bind,pure,Except.pure,Except.ok.injEq,
          CommandMode.server.injEq] at h
        exact named (h ▸ hs)

theorem intoMode_client {config : ClientConfig} (h : cli.intoMode disk = .ok (.client config)) :
    cli.own.resolve disk = .ok config.credential := by
  have hserver : ∀ (r : Except Error ServerConfig),
      (do return CommandMode.server (← r) : Except Error CommandMode) ≠ .ok (.client config) := by
    intro r hr
    cases r <;> simp [bind,Except.bind,pure,Except.pure] at hr
  cases hc : cli.command with
  | none =>
    simp only [Cli.intoMode,hc] at h
    exact absurd h (hserver _)
  | some command =>
    cases command with
    | version => simp [Cli.intoMode,hc,pure,Except.pure] at h
    | server args =>
      simp only [Cli.intoMode,hc] at h
      exact absurd h (hserver _)
    | client args =>
      cases hr : args.auth.resolve disk with
      | error e => simp [Cli.intoMode,hc,hr,bind,Except.bind] at h
      | ok credential =>
        simp only [Cli.intoMode,hc,hr,bind,Except.bind,pure,Except.pure,Except.ok.injEq,
          CommandMode.client.injEq] at h
        simp [Cli.own,hc,Subcommands.auth,hr,← h]

/-- A credential is the text it was given as. -/
theorem resolve_value {args : CredentialArgs} {credential : Option Credential}
    (h : args.resolve disk = .ok credential) :
    args.value disk = .ok (credential.map Credential.toBasicPair) := by
  cases hv : args.value disk with
  | error e => simp [CredentialArgs.resolve,hv,bind,Except.bind] at h
  | ok value =>
    rcases (resolve_some hv).mp h with ⟨rfl,rfl⟩ | ⟨c,rfl,rfl⟩
    · rfl
    · rfl

end Terminald.Args

namespace Terminald.Auth
open Machine

/-- The header that stands for a text. -/
def basicHeader (value : Text) : Bytes := utf8 "Basic " ++ Base64.encode value.utf8

theorem basicAuthHeader_pair (credential : Option Credential) :
    basicAuthHeader credential = (credential.map Credential.toBasicPair).map basicHeader := by
  cases credential <;> rfl

theorem basicHeader_inj {v w : Text} (h : basicHeader v = basicHeader w) : v = w :=
  utf8_inj (Base64.encode_inj (List.append_cancel_left h))

/-- A server asks for nothing, or for the very text. -/
theorem validateHeaders_pair {wanted : Option Credential} {headers : HeaderMap} {given : Option Text}
    (h : headers.get "authorization" = given.map basicHeader) :
    AuthConfig.validateHeaders ⟨wanted⟩ headers = true ↔
      wanted.map Credential.toBasicPair = none ∨ wanted.map Credential.toBasicPair = given := by
  cases wanted with
  | none => simp [AuthConfig.validateHeaders]
  | some c =>
    refine (validateHeaders_iff (v := c.toBasicPair) (Args.new_some.mpr rfl) headers).trans ?_
    rw [h]
    cases given with
    | none => simp
    | some w =>
      simp only [Option.map_some,reduceCtorEq,false_or,Option.some.injEq]
      exact ⟨fun he => (basicHeader_inj he).symm,fun he => congrArg basicHeader he.symm⟩

end Terminald.Auth

namespace Terminald.Urls
open Machine Url

variable {H : Type} {hosts : Hosts H} {url : Url H} {text : Text} {front : List Text} {refusal : Text → String}

/-- A URL of a web socket is taken as it is. -/
theorem resolveWsUrl_at (hp : parse hosts text = some url)
    (hc : (if endsWithSlash url.pathText then url else setPath url (url.pathText ++ ['/'])) =
      { url with path := front ++ [[]] }) :
    resolveWsUrl (standard hosts refusal) text =
      .ok (Url.at url (webSocketScheme url.scheme) front "ws".toList) := by
  cases hs : url.scheme with
  | http => rw [← hs]; exact resolveWsUrl_ok hp (.inl hs) hc
  | https => rw [← hs]; exact resolveWsUrl_ok hp (.inr hs) hc
  | ws | wss =>
    have hparse : (standard hosts refusal).parse text = .ok url := by simp only [standard,hp,Option.elim_some]
    have hbase : (if endsWithSlash ((standard hosts refusal).path url) then url
        else (standard hosts refusal).setPath url ((standard hosts refusal).path url ++ ['/'])) =
        { url with path := front ++ [[]] } := hc
    have hjoin : (standard hosts refusal).join { url with path := front ++ [[]] } "ws".toList =
        .ok (Url.at url url.scheme front "ws".toList) := by
      simp only [standard,join_at url front plain_ws,Option.elim_some]
    simp only [resolveWsUrl,hparse,Except.mapError,bind,Except.bind,hbase,hjoin]
    have htext : (standard hosts refusal).scheme (Url.at url url.scheme front "ws".toList) = url.scheme.text := rfl
    rw [htext,hs]
    rfl

end Terminald.Urls

namespace Terminald.Run
open Machine Auth Url Urls Routes Args

/-- The request that is on its way. -/
def Stage.request : Stage → Option Request
  | .connecting request => some request
  | _ => none

theorem handle_request (m : Session.Message) : (handle m).request = none := by
  cases m with
  | binary frame =>
    simp only [handle,handleServerFrame]
    split <;> rfl
  | text text | close | ping data | pong data => rfl

section Requests
variable {U : Type} {urls : UrlType U} {config : ClientConfig} {s t : State}

/-- What is on its way was built of the options. -/
theorem reachable_request {size : Protocol.Resize} (hr : (system urls config size).Reachable s)
    {request : Request} (hs : s.stage.request = some request) :
    ∃ r, buildRequest urls config r = .ok request := by
  revert request
  refine hr.invariant (I := fun s => ∀ {request}, s.stage.request = some request →
    ∃ r, buildRequest urls config r = .ok request) (fun h => by cases h) ?_
  intro s l t _ ih h request hc
  cases step_move h with
  | requested hg hb =>
    obtain rfl := Option.some.inj hc
    exact ⟨_,hb⟩
  | turned ht hk hd he | typed ht hk => exact ih hc
  | took hg hm => cases (handle_request _).symm.trans hc
  | @flushed last hg => cases last <;> cases hc
  | entered hg | refused hg | unrequested hg hb | connected hg | unconnected hg | unsized ht hk
  | broken hg hm | ended hg hm | wroteNothing hg | unwritten hg | wrote hg hk hc' | unflushed hg
  | dropped hg => cases hc

end Requests

section Requested
variable {H : Type} {hosts : Hosts H} {url : Url H} {front : List Text} {refusal : Text → String}

/-- The encoding is text, so the header is always one. -/
theorem parseHeader_basic (value : Text) : parseHeader (basicHeader value) = .ok (basicHeader value) := by
  have hbasic : (utf8 "Basic ").all (fun b => 32 ≤ b && b != 127 || b == 9) = true := by decide
  unfold parseHeader
  rw [if_pos]
  rw [List.all_eq_true]
  intro b hb
  rcases List.mem_append.mp hb with hb | hb
  · exact List.all_eq_true.mp hbasic b hb
  · obtain ⟨hlow,hhigh⟩ := Base64.encode_visible hb
    have hne : b ≠ 127 := by
      rintro rfl
      exact absurd hhigh (by decide)
    simp [hlow,hne]

theorem buildRequest_ok {config : ClientConfig} {r : Except Error Unit} {request : Request}
    (hp : parse hosts config.connect.toList = some url)
    (hc : (if endsWithSlash url.pathText then url else setPath url (url.pathText ++ ['/'])) =
      { url with path := front ++ [[]] })
    (h : buildRequest (standard hosts refusal) config r = .ok request) :
    request = ⟨serialize hosts (Url.at url (webSocketScheme url.scheme) front "ws".toList),
      (config.credential.map Credential.toBasicPair).map basicHeader⟩ := by
  simp only [buildRequest,resolveWsUrl_at hp hc,bind,Except.bind,basicAuthHeader_pair] at h
  cases r with
  | error e => cases h
  | ok =>
    cases hg : config.credential with
    | none =>
      simp only [hg,Option.map_none] at h
      cases h
      rfl
    | some c =>
      simp only [hg,Option.map_some,parseHeader_basic] at h
      cases h
      rfl

/-- A URL that does not parse, or is of another scheme, makes no request. -/
theorem buildRequest_unparsed {config : ClientConfig} (hp : parse hosts config.connect.toList = none)
    (r : Except Error Unit) (request : Request) :
    buildRequest (standard hosts refusal) config r ≠ .ok request := by
  have hparse : ((standard hosts refusal).parse config.connect.toList) = .error (refusal config.connect.toList) := by
    simp only [standard,hp,Option.elim_none]
  simp [buildRequest,resolveWsUrl,hparse,Except.mapError,bind,Except.bind]

end Requested

section Server
variable {world : World} {request : Routes.Request} {front : Text}

theorem serve_app (config : Server.ServerConfig) : (Server.serve config).2 = Server.app config := by
  unfold Server.serve
  split <;> rfl

theorem webSocket_accepted {state : AppState} {response : Response}
    (h : state.auth.validateHeaders request.headers = true) (hu : world.upgrade request = .ok response) :
    webSocket world state request = (response,[.handleSocket state.command]) := by
  simp only [webSocket,authorize_accepted h,hu]

theorem webSocket_rejected {state : AppState} (h : state.auth.validateHeaders request.headers = false) :
    webSocket world state request = (rejection,[]) := by
  simp only [webSocket,authorize_rejected h]

end Server

/-- The command lines of a server and a client are all that counts. However its run goes, the client
connects with one request only: to the web socket below its URL, with the credential of its own level
of options; and with none if its URL is none. A server whose level asks for nothing or for the very
same has its command started by it; any other answers with the challenge and starts nothing. -/
theorem client_let_in {H : Type} {hosts : Hosts H} {server client : Cli} {disk disk' : Disk}
    {sc : Server.ServerConfig} {cc : ClientConfig} (refusal : Text → String) (size : Protocol.Resize)
    (hserver : server.intoMode disk = .ok (.server sc))
    (hclient : client.intoMode disk' = .ok (.client cc)) :
    ∃ wanted given : Option Text,
      server.own.value disk = .ok wanted ∧ client.own.value disk' = .ok given ∧
      (parse hosts cc.connect.toList = none →
        ∀ s, (system (standard hosts refusal) cc size).Reachable s → s.stage.request = none) ∧
      ∀ url, parse hosts cc.connect.toList = some url → ∃ ws : Url H,
        Endpoint ws (webSocketScheme url.scheme) url.authority (slashed url.pathText ++ "ws".toList) ∧
        (∀ s request, (system (standard hosts refusal) cc size).Reachable s →
          s.stage.request = some request → request = ⟨serialize hosts ws,given.map basicHeader⟩) ∧
        ∀ world request, request.path = ws.pathText →
          request.headers.get "authorization" = given.map basicHeader →
          ((wanted = none ∨ wanted = given) → ∀ response, world.upgrade request = .ok response →
            dispatch world (Server.serve sc).2 request = (response,[.handleSocket server.started])) ∧
          (¬(wanted = none ∨ wanted = given) →
            dispatch world (Server.serve sc).2 request = (rejection,[])) := by
  obtain ⟨_,hcommand,wanted,hwanted,hauth⟩ := intoMode_started hserver
  refine ⟨_,_,resolve_value hwanted,resolve_value (intoMode_client hclient),?_,fun url hp => ?_⟩
  · intro hp s hr
    rw [Option.eq_none_iff_forall_ne_some]
    intro request hs
    obtain ⟨r,hb⟩ := reachable_request hr hs
    exact buildRequest_unparsed hp r request hb
  obtain ⟨front,hc,hf,_⟩ := close_path (parse_normal hp)
  have hws := endpoint_at url (webSocketScheme url.scheme) "ws".toList hf
  refine ⟨_,hws,?_,?_⟩
  · intro s request hr hs
    obtain ⟨r,hb⟩ := reachable_request hr hs
    exact buildRequest_ok hp hc hb
  · intro world request hpath hheader
    have hdispatch : dispatch world (Server.serve sc).2 request = webSocket world (Server.app sc) request := by
      rw [serve_app]
      refine dispatch_webSocket (?_ : _ = joinPath front ++ _)
      rw [hpath,hws.path,← hf]
      simp [joinPath]
    have hvalid := @validateHeaders_pair wanted _ _ hheader
    rw [← hauth] at hvalid
    rw [hdispatch]
    constructor
    · intro hw response hu
      rw [webSocket_accepted (hvalid.mpr hw) hu]
      simp [Server.app,hcommand]
    · intro hw
      exact webSocket_rejected (Bool.eq_false_iff.mpr (fun h => hw (hvalid.mp h)))

theorem no_socket (host : Server.IpAddr) (port : UInt16) :
    (none : Option Text) = none ∨ (host = .unspecified ∧ port = defaultPort) := .inl rfl

/-- `terminald -c user:pass bash`. -/
def guardedShell : Cli :=
  ⟨none,defaultPort,.unspecified,.ofOption "user:pass".toList,none,["bash"],no_socket .unspecified defaultPort⟩

/-- `terminald client --connect` to a page, with a credential file. -/
def visitor (page : String) : Cli :=
  ⟨some (.client ⟨page,.ofFile "key".toList⟩),defaultPort,.unspecified,.absent,none,[],
    no_socket .unspecified defaultPort⟩

/-- A world that takes every web socket. -/
def openWorld : World := ⟨⟨fun _ => none,fun _ => none⟩,fun _ => .ok (.ofStatus 101)⟩

/-- The file ends its line, and the page has an address behind its path. -/
theorem client_let_in_file :
    (dispatch openWorld ⟨.basic user,.embedded,["bash"]⟩
      ⟨.get,"/term/a/ws".toList,[("authorization",utf8 "Basic dXNlcjpwYXNz")]⟩).2 = [.handleSocket ["bash"]] := by
  have hserver : guardedShell.intoMode (fun _ => .error ⟨[]⟩) =
      .ok (.server ⟨none,.unspecified,defaultPort,["bash"],.basic user,.embedded⟩) := rfl
  have hclient : (visitor (String.ofList pageText)).intoMode (fun _ => .ok (utf8 "user:pass\n")) =
      .ok (.client ⟨String.ofList pageText,some user⟩) := by decide
  have hp : parse domains (String.ofList pageText).toList = some ⟨.https,
      ⟨"me".toList,"x".toList,"example.org".toList,some 8443⟩,
      ["term".toList,"a".toList],some "q=1".toList,some "top".toList⟩ := by decide
  obtain ⟨wanted,given,hwanted,hgiven,_,hurl⟩ :=
    @client_let_in _ domains _ _ _ _ _ _ (fun _ => "") ⟨80,24⟩ hserver hclient
  obtain ⟨ws,hws,_,hlet⟩ := hurl _ hp
  obtain rfl : some "user:pass".toList = wanted := Except.ok.inj hwanted
  have hfile : (visitor (String.ofList pageText)).own.value (fun _ => .ok (utf8 "user:pass\n")) =
      .ok (some "user:pass".toList) := by decide
  obtain rfl : some "user:pass".toList = given := Except.ok.inj (hfile.symm.trans hgiven)
  exact congrArg Prod.snd ((hlet openWorld _ hws.path.symm (by decide)).1 (.inr rfl) _ rfl)

end Terminald.Run
