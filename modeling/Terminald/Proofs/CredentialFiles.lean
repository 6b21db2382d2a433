import Terminald.Proofs.Credentials
import Terminald.Proofs.Options

namespace Terminald.Args
open Machine Auth Server

/-- No line end and no NUL. -/
def Plain (text : Text) : Prop := '\r' ∉ text ∧ '\n' ∉ text ∧ '\x00' ∉ text
deriving Decidable

def endings : List Text := [[],['\n'],['\r','\n']]

/-- The file has one line, with a user name and a password. -/
structure OneLine (content : Bytes) (u p : Text) : Prop where
  ending : ∃ e ∈ endings, content = Text.utf8 (u ++ ':' :: p ++ e)
  user : ':' ∉ u
  plain : Plain (u ++ ':' :: p)

/-- The arguments of `-c`. -/
def CredentialArgs.ofOption (value : Text) : CredentialArgs := ⟨some value,none,.inr rfl⟩

/-- The arguments of `--credential-file`. -/
def CredentialArgs.ofFile (path : Text) : CredentialArgs := ⟨none,some path,.inl rfl⟩

/-- The credential options that the mode reads. -/
def Cli.own (cli : Cli) : CredentialArgs := ((cli.command.bind Subcommands.auth).getD cli.auth)

section Lines

theorem stripSuffix_some {pat text front : Text} :
    stripSuffix pat text = some front ↔ text = front ++ pat := by
  simp only [stripSuffix,Option.map_eq_some_iff,stripPrefix_some]
  constructor
  · rintro ⟨rest,hr,rfl⟩
    rw [← List.reverse_reverse text,hr,List.reverse_append,List.reverse_reverse]
  · intro h
    exact ⟨front.reverse,by rw [h,List.reverse_append],List.reverse_reverse front⟩

/-- Only a line ending is taken away. -/
theorem credentialLine_ending (value : Text) : ∃ e ∈ endings, value = credentialLine value ++ e := by
  unfold credentialLine
  cases hc : stripSuffix ['\r','\n'] value with
  | some front => exact ⟨_,by simp [endings],stripSuffix_some.mp hc⟩
  | none =>
    cases hn : stripSuffix ['\n'] value with
    | some front => exact ⟨_,by simp [endings],stripSuffix_some.mp hn⟩
    | none => exact ⟨[],by simp [endings],by simp⟩

theorem credentialLine_plain {line e : Text} (hp : Plain line) (he : e ∈ endings) :
    credentialLine (line ++ e) = line := by
  have none_of : ∀ {pat text : Text}, (∀ front, text ≠ front ++ pat) → stripSuffix pat text = none := by
    intro pat text h
    cases hs : stripSuffix pat text with
    | none => rfl
    | some front => exact absurd (stripSuffix_some.mp hs) (h front)
  simp only [endings,List.mem_cons,List.not_mem_nil,or_false] at he
  unfold credentialLine
  rcases he with rfl | rfl | rfl
  · rw [none_of,none_of]
    · simp
    · intro front h
      exact hp.2.1 (by simpa using congrArg ('\n' ∈ ·) h)
    · intro front h
      exact hp.2.1 (by simpa using congrArg ('\n' ∈ ·) h)
  · have hs : stripSuffix ['\n'] (line ++ ['\n']) = some line := stripSuffix_some.mpr rfl
    rw [none_of,hs]
    · rfl
    · intro front h
      have hl : line = front ++ ['\r'] := by
        have h : line ++ ['\n'] = front ++ ['\r'] ++ ['\n'] := by simpa using h
        exact List.append_cancel_right h
      exact hp.1 (by simp [hl])
  · have hs : stripSuffix ['\r','\n'] (line ++ ['\r','\n']) = some line := stripSuffix_some.mpr rfl
    rw [hs]
    rfl

end Lines

section Files
variable {args : CredentialArgs} {disk : Disk} {path : Text}

theorem value_unreadable {e : Error} (hf : args.credentialFile = some path)
    (hd : disk path = .error e) : ∃ e, args.value disk = .error e := by
  simp only [CredentialArgs.value,hf,readToString,hd,bind,Except.bind,Except.mapError]
  exact ⟨_,rfl⟩

/-- The value of a file is its line, if it is one. -/
theorem value_file {content : Bytes} {value : Option Text} (hf : args.credentialFile = some path)
    (hd : disk path = .ok content) : args.value disk = .ok value ↔
      ∃ line e, Plain line ∧ e ∈ endings ∧ content = Text.utf8 (line ++ e) ∧ value = some line := by
  have hplain : ∀ line : Text,
      line.any (fun c => c = '\r' || c = '\n' || c = '\x00') = false ↔ Plain line := by
    intro line
    simp only [Plain,List.any_eq_false,Bool.or_eq_true,decide_eq_true_eq,not_or]
    exact ⟨fun h => ⟨fun hm => (h _ hm).1.1 rfl,fun hm => (h _ hm).1.2 rfl,fun hm => (h _ hm).2 rfl⟩,
      fun h c hc => ⟨⟨ne_of_mem_of_not_mem hc h.1,ne_of_mem_of_not_mem hc h.2.1⟩,
        ne_of_mem_of_not_mem hc h.2.2⟩⟩
  constructor
  · intro h
    simp only [CredentialArgs.value,hf,readToString,hd,bind,Except.bind] at h
    cases ht : Text.ofUtf8 content with
    | none => simp [ht,Except.mapError,throw,throwThe,MonadExceptOf.throw] at h
    | some text =>
      simp only [ht,pure,Except.pure,Except.mapError] at h
      split at h
      · cases h
      · rename_i hany
        cases h
        obtain ⟨e,he,htext⟩ := credentialLine_ending text
        refine ⟨credentialLine text,e,(hplain _).mp (by simpa using hany),he,?_,rfl⟩
        rw [← htext]
        exact Text.ofUtf8_some.mp ht
  · rintro ⟨line,e,hp,he,rfl,rfl⟩
    have hany := (hplain line).mpr hp
    simp only [CredentialArgs.value,hf,readToString,hd,bind,Except.bind,Text.ofUtf8_utf8,pure,Except.pure,
      Except.mapError,credentialLine_plain hp he,hany]
    rfl

/-- A credential is divided at its first colon. -/
theorem new_some {value : Text} {credential : Credential} :
    Credential.new value = some credential ↔ value = credential.toBasicPair := by
  constructor
  · exact fun h => (Credential.toBasicPair_new h).symm
  · intro h
    have hs : splitOnce ':' value = some (credential.username,credential.password) := by
      rw [h,Credential.toBasicPair,splitOnce_front _ credential.plain]
    unfold Credential.new
    split
    · rename_i u p hu
      rw [hs] at hu
      cases hu
      rfl
    · rename_i hu
      cases hs.symm.trans hu

theorem resolve_some {value : Option Text} {credential : Option Credential}
    (hv : args.value disk = .ok value) : args.resolve disk = .ok credential ↔
      value = none ∧ credential = none ∨
        ∃ c, value = some c.toBasicPair ∧ credential = some c := by
  simp only [CredentialArgs.resolve,hv,bind,Except.bind]
  cases value with
  | none => simp [pure,Except.pure,eq_comm]
  | some text =>
    simp only [reduceCtorEq,false_and,false_or,Option.some.injEq]
    constructor
    · intro h
      split at h
      · rename_i c hc
        cases h
        exact ⟨c,new_some.mp hc,rfl⟩
      · cases h
    · rintro ⟨c,rfl,rfl⟩
      rw [new_some.mpr rfl]
      rfl

theorem resolve_option {value : Text} {c : Credential} :
    (CredentialArgs.ofOption value).resolve disk = .ok (some c) ↔ value = c.toBasicPair := by
  have hv : (CredentialArgs.ofOption value).value disk = .ok (some value) := rfl
  rw [resolve_some hv]
  simp

theorem resolve_file {content : Bytes} {credential : Option Credential}
    (hf : args.credentialFile = some path) (hd : disk path = .ok content) :
    args.resolve disk = .ok credential ↔
      ∃ c : Credential, OneLine content c.username c.password ∧ credential = some c := by
  constructor
  · intro h
    cases hv : args.value disk with
    | error e => simp [CredentialArgs.resolve,hv,bind,Except.bind] at h
    | ok value =>
      obtain ⟨line,e,hp,he,hc,rfl⟩ := (value_file hf hd).mp hv
      rcases (resolve_some hv).mp h with ⟨hn,_⟩ | ⟨c,hline,rfl⟩
      · cases hn
      · obtain rfl := Option.some.inj hline
        exact ⟨c,⟨⟨e,he,hc⟩,c.plain,hp⟩,rfl⟩
  · rintro ⟨c,⟨⟨e,he,hc⟩,_,hp⟩,rfl⟩
    have hv : args.value disk = .ok (some c.toBasicPair) :=
      (value_file hf hd).mpr ⟨c.toBasicPair,e,hp,he,hc,rfl⟩
    exact (resolve_some hv).mpr (.inr ⟨c,rfl,rfl⟩)

theorem resolve_unreadable {e : Error} (hf : args.credentialFile = some path)
    (hd : disk path = .error e) : ∃ e, args.resolve disk = .error e := by
  obtain ⟨e,hv⟩ := value_unreadable hf hd
  exact ⟨e,by simp [CredentialArgs.resolve,hv,bind,Except.bind]⟩

theorem resolve_some_of_file {credential : Option Credential} (hf : args.credentialFile = some path)
    (h : args.resolve disk = .ok credential) : ∃ c, credential = some c :=
  resolve_given (by simp [CredentialArgs.given,hf]) h

/-- Whatever starts a server, it is configured from the options of its own level. -/
theorem intoMode_server {cli : Cli} {config : ServerConfig}
    (h : cli.intoMode disk = .ok (.server config)) :
    ∃ credential, cli.own.resolve disk = .ok credential ∧ config.auth = ⟨credential⟩ := by
  have own : ∀ {host port auth socket command},
      serverConfig host port auth socket command disk = .ok config →
      ∃ credential, auth.resolve disk = .ok credential ∧ config.auth = ⟨credential⟩ := by
    intro host port auth socket command hs
    obtain ⟨_,credential,hr,rfl⟩ := serverConfig_ok.mp hs
    exact ⟨credential,hr,rfl⟩
  unfold Cli.own
  cases hc : cli.command with
  | none =>
    cases hs : serverConfig cli.host cli.port cli.auth cli.unixSocket cli.serverCommand disk with
    | error e => simp [Cli.intoMode,hc,hs,bind,Except.bind] at h
    | ok made =>
      simp only [Cli.intoMode,hc,hs,bind,Except.bind,pure,Except.pure,Except.ok.injEq,
        CommandMode.server.injEq] at h
      exact own (h ▸ hs)
  | some command =>
    cases command with
    | version => simp [Cli.intoMode,hc,pure,Except.pure] at h
    | client args =>
      cases hr : args.auth.resolve disk <;>
        simp [Cli.intoMode,hc,hr,bind,Except.bind,pure,Except.pure] at h
    | server args =>
      cases hs : serverConfig args.host args.port args.auth args.unixSocket args.command disk with
      | error e => simp [Cli.intoMode,hc,hs,bind,Except.bind] at h
      | ok made =>
        simp only [Cli.intoMode,hc,hs,bind,Except.bind,pure,Except.pure,Except.ok.injEq,
          CommandMode.server.injEq] at h
        exact own (h ▸ hs)

end Files

/-- A file of credentials is a user name, a colon, a password and at most one line
ending, and gives what `-c` gives; nothing else is accepted, nor taken for no credential. -/
theorem credential_file_exact {args : CredentialArgs} {path : Text}
    (hf : args.credentialFile = some path) (disk : Disk) :
    (∀ content, disk path = .ok content →
      ((∃ credential, args.resolve disk = .ok credential) ↔ ∃ u p, OneLine content u p) ∧
      ∀ u p, OneLine content u p →
        ∃ c, args.resolve disk = .ok (some c) ∧ Credential.new (u ++ ':' :: p) = some c ∧
          (CredentialArgs.ofOption (u ++ ':' :: p)).resolve disk = .ok (some c)) ∧
    (∀ e, disk path = .error e → ∃ e, args.resolve disk = .error e) ∧
    args.resolve disk ≠ .ok none ∧
    ∀ (cli : Cli) config, cli.own = args → cli.intoMode disk = .ok (.server config) →
      ∃ c, args.resolve disk = .ok (some c) ∧ config.auth = .basic c := by
  refine ⟨?_,fun e hd => resolve_unreadable hf hd,?_,?_⟩
  · intro content hd
    constructor
    · constructor
      · rintro ⟨credential,h⟩
        obtain ⟨c,hc,_⟩ := (resolve_file hf hd).mp h
        exact ⟨_,_,hc⟩
      · rintro ⟨u,p,h⟩
        exact ⟨_,(resolve_file hf hd).mpr ⟨⟨u,p,h.user⟩,h,rfl⟩⟩
    · intro u p h
      exact ⟨⟨u,p,h.user⟩,(resolve_file hf hd).mpr ⟨_,h,rfl⟩,new_some.mpr rfl,resolve_option.mpr rfl⟩
  · intro h
    obtain ⟨c,hc⟩ := resolve_some_of_file hf h
    cases hc
  · intro cli config hown hm
    obtain ⟨credential,hr,hc⟩ := intoMode_server hm
    rw [hown] at hr
    obtain ⟨c,rfl⟩ := resolve_some_of_file hf hr
    exact ⟨c,hr,hc⟩

/-- Spaces and further colons are kept, of the two characters at the end nothing is. -/
theorem credential_file_exact_spaces :
    (CredentialArgs.ofFile "auth".toList).resolve (fun _ => .ok (Text.utf8 "é: a:b \r\n".toList)) =
      .ok (some ⟨"é".toList," a:b ".toList,by decide⟩) := by
  have hf : (CredentialArgs.ofFile "auth".toList).credentialFile = some "auth".toList := rfl
  have hline : OneLine (Text.utf8 "é: a:b \r\n".toList) "é".toList " a:b ".toList :=
    ⟨⟨_,by decide,rfl⟩,by decide,by decide⟩
  obtain ⟨c,hr,hc,_⟩ := ((credential_file_exact hf
    (fun _ => .ok (Text.utf8 "é: a:b \r\n".toList))).1 _ rfl).2 _ _ hline
  rw [hr,← hc]
  decide

end Terminald.Args
