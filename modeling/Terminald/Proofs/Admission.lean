import Terminald.Proofs.Course
import Terminald.Proofs.Endpoints
import Terminald.Proofs.Gate
import Terminald.Proofs.Sockets

namespace Terminald.App
open Machine Browser

namespace Course

/-- Why a page is in error, or through. -/
def reason : Course → Option Reason
  | .failing => some .websocketError
  | .up true => some .serverError
  | .ended reason => some reason
  | _ => none

/-- Where a page comes to that is never let in. -/
inductive Outside : Course → Prop
  | off : Outside .off
  | checking : Outside (.checking false)
  | refused : Outside (.ended .authRequired)
  | unreached : Outside (.ended .network)

theorem outside_next {c d : Course} {k : Signal} (h : Outside c)
    (hk : k ≠ .granted ∧ ∀ status, k = .denied status → status = 401) (hs : c.next k = some d) :
    Outside d := by
  cases h with
  | checking =>
    cases k with
    | leave => cases hs; exact .off
    | unreachable => cases hs; exact .unreached
    | granted => exact absurd rfl hk.1
    | denied status =>
      obtain rfl := hk.2 status rfl
      cases hs
      exact .refused
    | begin | established | broken | fault | exit | lost | due => cases hs
  | off =>
    cases k with
    | begin => cases hs; exact .checking
    | leave | granted | denied status | unreachable | established | broken | fault | exit | lost | due => cases hs
  | refused | unreached =>
    cases k with
    | leave => cases hs; exact .off
    | begin | granted | denied status | unreachable | established | broken | fault | exit | lost | due => cases hs

/-- The reason of a refused check. -/
def Refused (c : Course) : Prop := c = .ended .authRequired ∨ c = .ended .authCheckFailed

theorem refused_next {c d : Course} {k : Signal} (hk : ∀ status, k ≠ .denied status)
    (hs : c.next k = some d) (hd : Refused d) : False := by
  unfold next at hs
  split at hs
  case h_5 => exact hk _ rfl
  all_goals
    rcases hd with rfl | rfl
    · cases hs
    · cases hs

/-- Without a grant nobody comes in, and without a denial nobody is refused. -/
theorem run_outside {c : Course} {ks : List Signal} (hr : system.run .off ks = some c)
    (hk : ∀ k ∈ ks, k ≠ .granted ∧ ∀ status, k = .denied status → status = 401) : Outside c :=
  System.run_within (m := system) .off (fun _ _ _ h hk hs => outside_next h hk hs) hr hk

theorem run_unrefused {c : Course} {ks : List Signal} (hr : system.run .off ks = some c)
    (hk : ∀ k ∈ ks, ∀ status, k ≠ .denied status) : ¬Refused c :=
  System.run_within (m := system) (I := fun c => ¬Refused c) (by simp [Refused,system])
    (fun _ _ _ _ hk hs hd => refused_next hk hs hd) hr hk

end Course

section Reasons
variable {js : Js} {s : State}

/-- The page tells why. -/
theorem good_reason {e : Effect} {r : Reason} (h : Good e) (hs : Shape e.connectionState)
    (hr : e.course.reason = some r) : e.connectionState.reason = some r := by
  have hstands := good_stands h
  generalize e.course = c at hstands hr
  cases hstands with
  | exited hx =>
    obtain rfl : Reason.remoteExit = r := Option.some.inj hr
    have hp : e.connectionState.phase = .closed := by
      rw [good_phase h,stands_course h (.exited hx)]
      rfl
    generalize e.connectionState = state at hs hp ⊢
    cases hs with
    | closed code => rfl
    | connecting | connected | reconnecting | retrying | failed | told => cases hp
  | ended hx hn hreason =>
    obtain rfl := Option.some.inj hr
    exact hreason
  | waiting hx hw => cases hr
  | checking hx hf hset hrun => cases hr
  | @up i x hx hsock hc hrun he =>
    obtain ⟨_,⟨hx',_⟩ | ⟨_,_,hp⟩⟩ := (good_at h hsock hc hrun).2.1
    · exact absurd (hx'.symm.trans hx) (by simp)
    · rw [if_pos he] at hp
      rcases hp with hp | ⟨hp,hreason⟩
      · simp [hp,Course.reason] at hr
      · obtain rfl : Reason.serverError = r := by simpa [hp,Course.reason] using hr
        exact hreason
  | @opening i x hx hsock hc hrun he =>
    obtain ⟨_,⟨hx',_⟩ | ⟨_,_,hp⟩⟩ := (good_at h hsock hc hrun).2.1
    · exact absurd (hx'.symm.trans hx) (by simp)
    · simp only [he,Bool.false_eq_true,if_false] at hp
      unfold unopened at hr
      split at hr
      · cases hr
      · rw [if_neg ‹_›] at hp
        rcases hp with hp | ⟨hp,hreason⟩
        · simp [hp,Course.reason] at hr
        · obtain rfl : Reason.websocketError = r := by simpa [hp,Course.reason] using hr
          exact hreason

theorem course_reason (hr : (system js).Reachable s) (hm : s.mounted = true) {r : Reason}
    (hc : s.course.reason = some r) : s.page.connectionState.reason = some r := by
  have hl : s.live = some (s.scopes.length - 1) := by simp [State.live,hm]
  obtain ⟨sc,hsc,_,hg,_⟩ := live_scope (reachable_orderly hr) hl
  exact good_reason hg (reachable_shape hr) (course_live hl hsc ▸ hc)

/-- A check that was refused, in the eyes of the user, was refused. -/
theorem refused_course (hr : (system js).Reachable s) (hm : s.mounted = true) {r : Reason}
    (hs : s.page.connectionState.reason = some r) (hf : r = .authRequired ∨ r = .authCheckFailed) :
    s.course = .ended r := by
  have hp : s.page.connectionState.phase = .error := by
    have hshape := reachable_shape hr
    generalize s.page.connectionState = state at hshape hs
    cases hshape with
    | failed h | told h d => rfl
    | connecting | connected | reconnecting => cases hs
    | retrying | closed =>
      obtain rfl := Option.some.inj hs
      rcases hf with hf | hf <;> cases hf
  have hcourse := course_phase hr hm
  have hreason := fun {r} => @course_reason js s hr hm r
  rw [hp] at hcourse
  have known : ∀ {q : Reason}, s.course.reason = some q → q = r :=
    fun hq => Option.some.inj ((hreason hq).symm.trans hs)
  generalize s.course = c at hcourse known
  cases c with
  | off => cases hcourse
  | checking again | opening again => cases again <;> cases hcourse
  | waiting => cases hcourse
  | failing =>
    obtain rfl := known rfl
    rcases hf with hf | hf <;> cases hf
  | up faulty =>
    cases faulty with
    | false => cases hcourse
    | true =>
      obtain rfl := known rfl
      rcases hf with hf | hf <;> cases hf
  | ended q => rw [known rfl]

end Reasons

section Sockets
variable {js : Js} {s t : State} {l : Label}

/-- Nothing was ever opened or shown. -/
def Untouched (p : Page) : Prop := p.sockets = [] ∧ p.written = []

theorem step_untouched (h : Untouched s.page) (hl : ∀ i, l ≠ .fetched i (.ok 204))
    (hs : step js s l = some t) : Untouched t.page := by
  have hnone : ∀ i : Nat, s.page.sockets[i]? = none := fun i => by rw [h.1]; rfl
  constructor
  · rcases step_sockets hs with ⟨_,_,_,i,hi⟩ | ⟨hlen,_⟩
    · exact absurd hi (hl i)
    · exact List.eq_nil_of_length_eq_zero (by simpa [h.1] using hlen)
  · have hout : outputs js s l = [] := by
      cases l with
      | message i data => simp [outputs,hnone]
      | mount | unmount | fetched j r | timer j | opened j | errored j | data text | closed j
      | resize size => rfl
    rw [step_written hs,h.2,hout]
    rfl

end Sockets
end Terminald.App

namespace Terminald.Urls
open Machine Auth Url Routes

variable {H : Type} {hosts : Hosts H} {url : Url H} {text : Text} {front : List Text} {refusal : Text → String}

theorem resolveAuthCheckUrl_ok (hs : hosts.Standard) (hp : parse hosts text = some url)
    (hc : (if endsWithSlash url.pathText then url else setPath url (url.pathText ++ ['/'])) =
      { url with path := front ++ [[]] }) (hn : Normal hosts { url with path := front ++ [[]] }) :
    resolveAuthCheckUrl (standard hosts refusal) text =
      .ok (serialize hosts (Url.at url url.scheme front "auth/check".toList)) := by
  simp only [resolveAuthCheckUrl,ensureTrailingSlash_ok hp hc,newUrl_ok hs plain_check hn,bind,Except.bind,
    pure,Except.pure]
  rfl

end Terminald.Urls

namespace Terminald.App
open Machine Browser Auth Url Urls Routes

section Answers
variable {js : Js} {ls : List Label} {s : State}

theorem validateHeaders_get {config : AuthConfig} {headers headers' : HeaderMap}
    (h : headers.get "authorization" = headers'.get "authorization") :
    config.validateHeaders headers = config.validateHeaders headers' := by
  simp only [AuthConfig.validateHeaders,h]

/-- A check that every time ends in the same status. -/
def Answers (ls : List Label) (answer : Nat) : Prop := ∀ i status, .fetched i (.ok status) ∈ ls → status = answer

theorem answers_signals {answer : Nat} (h : Answers ls answer) :
    ∀ k ∈ ls.filterMap (Label.signal js), (k = .granted → answer = 204) ∧
      ∀ status, k = .denied status → status ≠ 204 ∧ status = answer := by
  intro k hk
  obtain ⟨l,hl,hs⟩ := List.mem_filterMap.mp hk
  cases l with
  | fetched i r =>
    cases r with
    | error e => cases hs; exact ⟨by simp,by simp⟩
    | ok status =>
      have hstatus := h i status hl
      simp only [Label.signal,Option.some.injEq] at hs
      subst hs
      by_cases hg : status = 204
      · simp [hg,← hstatus]
      · rw [if_neg hg]
        refine ⟨by simp,fun status' he => ?_⟩
        cases he
        exact ⟨hg,hstatus⟩
  | message i frame =>
    simp only [Label.signal] at hs
    split at hs <;> cases hs <;> exact ⟨by simp,by simp⟩
  | data text | resize size => cases hs
  | mount | unmount | timer j | opened j | errored j | closed j => cases hs; exact ⟨by simp,by simp⟩

theorem granted_shown (hrun : (system js).run (system js).start ls = some s) (h : Answers ls 204)
    (hm : s.mounted = true) : s.page.connectionState.reason ≠ some .authRequired ∧
      s.page.connectionState.reason ≠ some .authCheckFailed := by
  obtain ⟨ks,hks,hcourse⟩ := run_course hrun
  have hno := Course.run_unrefused hcourse (fun k hk status he => by
    obtain ⟨hne,heq⟩ := (answers_signals h k (hks.subset hk)).2 status he
    exact hne heq)
  constructor
  · intro hr
    exact hno (.inl (refused_course ⟨ls,hrun⟩ hm hr (.inl rfl)))
  · intro hr
    exact hno (.inr (refused_course ⟨ls,hrun⟩ hm hr (.inr rfl)))

theorem denied_shown (hrun : (system js).run (system js).start ls = some s) (h : Answers ls 401) :
    Untouched s.page ∧ (s.mounted = true → s.page.connectionState.phase = .connecting ∨
      s.page.connectionState.reason = some .authRequired ∨
      s.page.connectionState.reason = some .network) := by
  constructor
  · refine System.run_within (m := system js) (I := fun s => Untouched s.page)
      (P := fun l => ∀ i, l ≠ .fetched i (.ok 204)) ⟨rfl,rfl⟩ (fun _ _ _ hu hl hs => step_untouched hu hl hs)
      hrun ?_
    rintro l hl i rfl
    cases h i 204 hl
  · intro hm
    obtain ⟨ks,hks,hcourse⟩ := run_course hrun
    have hout := Course.run_outside hcourse (fun k hk => by
      obtain ⟨hg,hd⟩ := answers_signals h k (hks.subset hk)
      exact ⟨fun he => absurd (hg he) (by decide),fun status he => (hd status he).2⟩)
    have hphase := course_phase ⟨ls,hrun⟩ hm
    have hreason := fun {r} => @course_reason js s ⟨ls,hrun⟩ hm r
    generalize s.course = c at hout hphase hreason
    cases hout with
    | off => exact .inl hphase
    | checking => exact .inl hphase
    | refused => exact .inr (.inl (hreason rfl))
    | unreached => exact .inr (.inr (hreason rfl))

end Answers

/-- The check and the web socket of a page are two doors with one lock. A page whose browser has the
right header is never told that its credential is wrong, and its sockets start the command; with
any other, whatever happens, it opens no socket and shows nothing, and is told to authenticate
once the server has answered. -/
theorem page_let_in {H : Type} {hosts : Hosts H} {url : Url H} {page : Text} (hs : hosts.Standard)
    (refusal : Text → String) (hp : parse hosts page = some url)
    (hscheme : url.scheme = .http ∨ url.scheme = .https) :
    ∃ ws check : Url H, resolveWebSocketUrl (standard hosts refusal) page = .ok (serialize hosts ws) ∧
      resolveAuthCheckUrl (standard hosts refusal) page = .ok (serialize hosts check) ∧
      Endpoint ws (webSocketScheme url.scheme) url.authority (slashed url.pathText ++ "ws".toList) ∧
      Endpoint check url.scheme url.authority (slashed url.pathText ++ "auth/check".toList) ∧
      ∀ world state checking opening, checking.path = check.pathText → opening.path = ws.pathText →
        checking.headers.get "authorization" = opening.headers.get "authorization" →
      ∀ js ls s, (system js).run (system js).start ls = some s →
        Answers ls (dispatch world state checking).1.status →
        (state.auth.validateHeaders checking.headers = true ∧
          (∀ response, world.upgrade opening = .ok response →
            dispatch world state opening = (response,[.handleSocket state.command])) ∧
          (s.mounted = true → s.page.connectionState.reason ≠ some .authRequired ∧
            s.page.connectionState.reason ≠ some .authCheckFailed)) ∨
        (state.auth.validateHeaders checking.headers = false ∧
          dispatch world state opening = (rejection,[]) ∧ Untouched s.page ∧
          (s.mounted = true → s.page.connectionState.phase = .connecting ∨
            s.page.connectionState.reason = some .authRequired ∨
            s.page.connectionState.reason = some .network)) := by
  obtain ⟨front,hc,hf,hn⟩ := close_path (parse_normal hp)
  have hfolder : slashed url.pathText = joinPath front ++ ['/'] := by simp [← hf,joinPath]
  have hws := endpoint_at url (webSocketScheme url.scheme) "ws".toList hf
  have hcheck := endpoint_at url url.scheme "auth/check".toList hf
  refine ⟨_,_,resolveWebSocketUrl_ok hs hp hscheme hc hn,resolveAuthCheckUrl_ok hs hp hc hn,hws,
    hcheck,?_⟩
  intro world state checking opening hchecking hopening hheader js ls s hrun hanswers
  have hfirst : dispatch world state checking = (authCheck state.auth checking,[]) := by
    refine dispatch_authCheck (?_ : _ = joinPath front ++ _)
    rw [hchecking,hcheck.path,hfolder,List.append_assoc]
    rfl
  have hsecond : dispatch world state opening = webSocket world state opening := by
    refine dispatch_webSocket (?_ : _ = joinPath front ++ _)
    rw [hopening,hws.path,hfolder,List.append_assoc]
    rfl
  have hsame := @validateHeaders_get state.auth _ _ hheader
  rw [hfirst,authCheck] at hanswers
  rw [hsecond,webSocket]
  cases hv : state.auth.validateHeaders checking.headers with
  | true =>
    rw [authorize_accepted hv] at hanswers
    rw [authorize_accepted (hsame.symm.trans hv)]
    exact .inl ⟨rfl,fun response hu => by rw [hu],granted_shown hrun hanswers⟩
  | false =>
    rw [authorize_rejected hv] at hanswers
    rw [authorize_rejected (hsame.symm.trans hv)]
    exact .inr ⟨rfl,rfl,denied_shown hrun hanswers⟩

/-- No header at all. -/
theorem page_let_in_refused :
    ∃ s, (system ⟨fun _ => "",fun _ => .integer 0⟩).run start [.mount,.fetched 0 (.ok 401)] = some s ∧
      s.page.connectionState.reason = some .authRequired ∧ Untouched s.page ∧
      dispatch bareWorld ⟨.basic user,.embedded,["bash"]⟩ ⟨.get,"/term/a/ws".toList,[]⟩ = (rejection,[]) := by
  have hp : parse domains pageText = some ⟨.https,⟨"me".toList,"x".toList,"example.org".toList,some 8443⟩,
      ["term".toList,"a".toList],some "q=1".toList,some "top".toList⟩ := by decide
  have hrun : (system ⟨fun _ => "",fun _ => .integer 0⟩).run start [.mount,.fetched 0 (.ok 401)] = some _ :=
    (Option.some_get (h := rfl)).symm
  obtain ⟨ws,check,_,_,hws,hcheck,h⟩ := page_let_in domains_standard (fun _ => "") hp (.inr rfl)
  have hanswers : Answers [.mount,.fetched 0 (.ok 401)]
      (dispatch bareWorld ⟨.basic user,.embedded,["bash"]⟩ ⟨.get,"/term/a/auth/check".toList,[]⟩).1.status := by
    intro i status hl
    have h401 : i = 0 ∧ status = 401 := by simpa using hl
    exact h401.2
  rcases h _ _ ⟨.get,"/term/a/auth/check".toList,[]⟩ ⟨.get,"/term/a/ws".toList,[]⟩ hcheck.path.symm
    hws.path.symm rfl _ _ _ hrun hanswers with ⟨hv,_⟩ | ⟨_,hd,hu,_⟩
  · exact absurd hv (by decide)
  · exact ⟨_,hrun,rfl,hu,hd⟩

end Terminald.App
