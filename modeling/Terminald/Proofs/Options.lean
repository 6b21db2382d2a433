import Terminald.Model.Args

namespace Terminald.Args
open Auth Server

variable {disk : Disk}

theorem value_given {args : CredentialArgs} {value : Option Text} (hg : args.given = true)
    (h : args.value disk = .ok value) : value.isSome = true := by
  unfold CredentialArgs.value at h
  unfold CredentialArgs.given at hg
  split at h
  · cases hr : readToString disk _ with
    | error e =>
      rw [hr] at h
      cases h
    | ok text =>
      rw [hr] at h
      simp only [Except.mapError,bind,Except.bind] at h
      split at h
      · cases h
      · cases h
        rfl
  · rename_i hf
    cases h
    simpa [hf] using hg

/-- What was given and resolves is a credential. -/
theorem resolve_given {args : CredentialArgs} {credential : Option Credential} (hg : args.given = true)
    (h : args.resolve disk = .ok credential) : ∃ c, credential = some c := by
  unfold CredentialArgs.resolve at h
  cases hv : args.value disk with
  | error e =>
    rw [hv] at h
    cases h
  | ok value =>
    obtain ⟨text,rfl⟩ := Option.isSome_iff_exists.mp (value_given hg hv)
    simp only [hv,bind,Except.bind] at h
    split at h
    · cases h
      exact ⟨_,rfl⟩
    · cases h

theorem resolve_absent {args : CredentialArgs} (hg : args.given = false) :
    args.resolve disk = .ok none := by
  simp only [CredentialArgs.given,Bool.or_eq_false_iff,Option.isSome_eq_false_iff,
    Option.isNone_iff_eq_none] at hg
  simp only [CredentialArgs.resolve,CredentialArgs.value,hg.1,hg.2]
  rfl

/-- A server is configured from all five values, or not at all. -/
theorem serverConfig_ok {host : IpAddr} {port : UInt16} {auth : CredentialArgs}
    {unixSocket : Option Text} {command : List String} {config : ServerConfig} :
    serverConfig host port auth unixSocket command disk = .ok config ↔
      command ≠ [] ∧ ∃ credential, auth.resolve disk = .ok credential ∧
        config = ⟨unixSocket,host,port,command,⟨credential⟩,.embedded⟩ := by
  unfold serverConfig
  cases command with
  | nil => simp [bind,Except.bind,throw,throwThe,MonadExceptOf.throw]
  | cons c cs =>
    cases hr : auth.resolve disk with
    | error e => simp [bind,Except.bind]
    | ok credential =>
      cases credential <;> simp [bind,Except.bind,pure,Except.pure,ServerConfig.new,
        AuthConfig.disabled,AuthConfig.basic,eq_comm]

theorem serverConfig_fails {host : IpAddr} {port : UInt16} {auth : CredentialArgs}
    {unixSocket : Option Text} {command : List String} {error : Error}
    (h : serverConfig host port auth unixSocket command disk = .error error) :
    command = [] ∨ ∃ e, auth.resolve disk = .error e := by
  cases command with
  | nil => exact .inl rfl
  | cons c cs =>
    cases hr : auth.resolve disk with
    | error e => exact .inr ⟨e,rfl⟩
    | ok credential =>
      cases h.symm.trans (serverConfig_ok.mpr ⟨List.cons_ne_nil c cs,credential,hr,rfl⟩)

/-- The levels a subcommand has for itself. -/
def Subcommands.auth : Subcommands → Option CredentialArgs
  | .server args => some args.auth
  | .client args => some args.auth
  | .version => none

def Subcommands.unixSocket : Subcommands → Option Text
  | .server args => args.unixSocket
  | .client _ => none
  | .version => none

def Cli.credentials (cli : Cli) : List CredentialArgs :=
  cli.auth :: (cli.command.bind Subcommands.auth).toList

def Cli.sockets (cli : Cli) : List Text :=
  cli.unixSocket.toList ++ (cli.command.bind Subcommands.unixSocket).toList

/-- The credential comes from one of the options. -/
def Cli.Resolves (cli : Cli) (disk : Disk) (credential : Option Credential) : Prop :=
  ∃ args ∈ cli.credentials, ∃ c, args.resolve disk = .ok (some c) ∧ credential = some c

/-- No credential and no socket given at either level is missing from the outcome. -/
def Cli.Kept (cli : Cli) (disk : Disk) : CommandMode → Prop
  | .server config =>
    ((∃ args ∈ cli.credentials, args.given = true) → cli.Resolves disk config.auth.credential) ∧
    (cli.sockets ≠ [] →
      ∃ path ∈ cli.sockets, config.unixSocket = some path ∧ (serve config).1 = [.unix path])
  | .client config =>
    (∃ args ∈ cli.credentials, args.given = true) → cli.Resolves disk config.credential
  | .version => True

/-- A subcommand that can be obeyed has for itself what the top level has. -/
def Cli.Repeated (cli : Cli) (disk : Disk) : Prop :=
  match cli.command with
  | some (.server args) =>
    args.command = [] ∨ (∃ e, args.auth.resolve disk = .error e) ∨
      ((cli.auth.given = true → args.auth.given = true) ∧
        (cli.unixSocket.isSome = true → args.unixSocket.isSome = true))
  | some (.client args) => cli.auth.given = true → args.auth.given = true
  | some .version => True
  | none => True

/-- The outcome has the credential of the level it was built from. -/
theorem resolves_own {cli : Cli} {own : CredentialArgs} {credential : Option Credential}
    (ho : own ∈ cli.credentials) (hg : own.given = true) (hr : own.resolve disk = .ok credential) :
    cli.Resolves disk credential := by
  obtain ⟨c,rfl⟩ := resolve_given hg hr
  exact ⟨own,ho,c,hr,rfl⟩

theorem credentials_kept_iff {cli : Cli} {own : CredentialArgs} {credential : Option Credential}
    (ho : cli.command.bind Subcommands.auth = some own) (hr : own.resolve disk = .ok credential) :
    ((∃ args ∈ cli.credentials, args.given = true) → cli.Resolves disk credential) ↔
      (cli.auth.given = true → own.given = true) := by
  have hlist : cli.credentials = [cli.auth,own] := by simp [Cli.credentials,ho]
  constructor
  · intro h hg
    by_contra habsent
    have hnone : own.resolve disk = .ok none := resolve_absent (Bool.eq_false_iff.mpr habsent)
    obtain ⟨_,_,c,_,hc⟩ := h ⟨cli.auth,by simp [hlist],hg⟩
    rw [hnone] at hr
    cases hr
    cases hc
  · intro h hex
    obtain ⟨args,ha,hg⟩ := hex
    have hown : own.given = true := by
      rw [hlist] at ha
      simp only [List.mem_cons,List.not_mem_nil,or_false] at ha
      rcases ha with rfl | rfl
      · exact h hg
      · exact hg
    exact resolves_own (by simp [hlist]) hown hr

theorem sockets_kept_iff {cli : Cli} {own : Option Text} {config : ServerConfig}
    (ho : cli.command.bind Subcommands.unixSocket = own) (hc : config.unixSocket = own) :
    (cli.sockets ≠ [] →
      ∃ path ∈ cli.sockets, config.unixSocket = some path ∧ (serve config).1 = [.unix path]) ↔
      (cli.unixSocket.isSome = true → own.isSome = true) := by
  cases own with
  | none => cases hu : cli.unixSocket <;> simp [Cli.sockets,ho,hc,hu]
  | some path => simp [Cli.sockets,ho,hc,serve]

/-- Nothing is dropped where there is no subcommand. -/
theorem default_kept {cli : Cli} {config : ServerConfig} (hc : cli.command = none)
    (hs : serverConfig cli.host cli.port cli.auth cli.unixSocket cli.serverCommand disk = .ok config) :
    cli.Kept disk (.server config) := by
  obtain ⟨_,credential,hr,rfl⟩ := serverConfig_ok.mp hs
  constructor
  · intro hex
    obtain ⟨args,ha,hg⟩ := hex
    have he : args = cli.auth := by simpa [Cli.credentials,hc] using ha
    exact resolves_own (by simp [Cli.credentials]) (he ▸ hg) hr
  · cases hu : cli.unixSocket <;> simp [Cli.sockets,hc,hu,serve]

theorem server_kept_iff {cli : Cli} {args : ServerArgs} {config : ServerConfig}
    (hc : cli.command = some (.server args))
    (hs : serverConfig args.host args.port args.auth args.unixSocket args.command disk = .ok config) :
    cli.Kept disk (.server config) ↔
      (cli.auth.given = true → args.auth.given = true) ∧
        (cli.unixSocket.isSome = true → args.unixSocket.isSome = true) := by
  obtain ⟨_,credential,hr,rfl⟩ := serverConfig_ok.mp hs
  exact and_congr (credentials_kept_iff (by rw [hc]; rfl) hr)
    (sockets_kept_iff (by rw [hc]; rfl) rfl)

theorem client_kept_iff {cli : Cli} {args : ClientArgs} {credential : Option Credential}
    (hc : cli.command = some (.client args)) (hr : args.auth.resolve disk = .ok credential) :
    cli.Kept disk (.client ⟨args.connect,credential⟩) ↔
      (cli.auth.given = true → args.auth.given = true) :=
  credentials_kept_iff (by rw [hc]; rfl) hr

/-- A server that is started keeps what both levels gave exactly when its own level
has whatever the top level has. -/
theorem server_repeated_iff {cli : Cli} {args : ServerArgs} (hc : cli.command = some (.server args)) :
    (∀ mode, cli.intoMode disk = .ok mode → cli.Kept disk mode) ↔ cli.Repeated disk := by
  cases hs : serverConfig args.host args.port args.auth args.unixSocket args.command disk with
  | ok config =>
    have hmode : cli.intoMode disk = .ok (.server config) := by
      simp [Cli.intoMode,hc,hs,bind,Except.bind,pure,Except.pure]
    obtain ⟨hcommand,credential,hr,_⟩ := serverConfig_ok.mp hs
    simp [hmode,server_kept_iff hc hs,Cli.Repeated,hc,hcommand,hr]
  | error e =>
    have hmode : cli.intoMode disk = .error e := by simp [Cli.intoMode,hc,hs,bind,Except.bind]
    simp only [hmode,Cli.Repeated,hc]
    exact iff_of_true (by rintro _ ⟨⟩) ((serverConfig_fails hs).elim .inl (fun h => .inr (.inl h)))

theorem client_repeated_iff {cli : Cli} {args : ClientArgs} (hc : cli.command = some (.client args)) :
    (∀ mode, cli.intoMode disk = .ok mode → cli.Kept disk mode) ↔ cli.Repeated disk := by
  cases hr : args.auth.resolve disk with
  | ok credential =>
    have hmode : cli.intoMode disk = .ok (.client ⟨args.connect,credential⟩) := by
      simp [Cli.intoMode,hc,hr,bind,Except.bind,pure,Except.pure]
    simp [hmode,client_kept_iff hc hr,Cli.Repeated,hc]
  | error e =>
    have hgiven : args.auth.given = true := by
      by_contra h
      rw [resolve_absent (Bool.eq_false_iff.mpr h)] at hr
      cases hr
    have hmode : cli.intoMode disk = .error e := by simp [Cli.intoMode,hc,hr,bind,Except.bind]
    simp [hmode,Cli.Repeated,hc,hgiven]

/-- Whatever the command line and the files: each credential and socket is kept, or no
mode is entered, exactly when a subcommand that can be obeyed repeats the options
of the top level. -/
theorem options_kept_iff (cli : Cli) (disk : Disk) :
    (∀ mode, cli.intoMode disk = .ok mode → cli.Kept disk mode) ↔ cli.Repeated disk := by
  cases hc : cli.command with
  | some command =>
    cases command with
    | server args => exact server_repeated_iff hc
    | client args => exact client_repeated_iff hc
    | version => simp [Cli.intoMode,hc,Cli.Repeated,Cli.Kept,pure,Except.pure]
  | none =>
    simp only [Cli.Repeated,hc,iff_true]
    intro mode hm
    cases hs : serverConfig cli.host cli.port cli.auth cli.unixSocket cli.serverCommand disk with
    | error e => simp [Cli.intoMode,hc,hs,bind,Except.bind] at hm
    | ok config =>
      simp only [Cli.intoMode,hc,hs,bind,Except.bind,pure,Except.pure,Except.ok.injEq] at hm
      exact hm ▸ default_kept hc hs

/-- `terminald -c user:pass server bash`. -/
def protectedShell : Cli :=
  ⟨some (.server ⟨defaultPort,.unspecified,.absent,none,["bash"],.inl rfl⟩),
    defaultPort,.unspecified,⟨some "user:pass".toList,none,.inr rfl⟩,none,[],.inl rfl⟩

/-- The shell is started for everybody. -/
theorem protected_shell_open :
    ∃ config, protectedShell.intoMode (fun _ => .error ⟨["no such file"]⟩) = .ok (.server config) ∧
      config.auth.isEnabled = false ∧
      ¬ protectedShell.Kept (fun _ => .error ⟨["no such file"]⟩) (.server config) := by
  refine ⟨_,rfl,rfl,?_⟩
  intro h
  obtain ⟨_,_,_,_,hc⟩ := h.1 ⟨protectedShell.auth,by simp [Cli.credentials],rfl⟩
  cases hc

end Terminald.Args
