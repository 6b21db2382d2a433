import Terminald.Proofs.Mounted

namespace Terminald.App
open Machine Browser

def ConnectionState.told (state : ConnectionState) : Prop :=
  state.phase = .connected ∧ state.notice = some .newSession

/-- The timer variable is set while the notice is shown, and names the last notice timer. -/
structure Told (e : Effect) : Prop where
  shown : e.noticeTimer.isSome = true ↔ e.connectionState.told
  phase : e.connectionState.notice = some .newSession → e.connectionState.phase = .connected
  newest : ∀ i, e.noticeTimer = some i →
    ∀ (j : Nat) (t : Timer), e.timers[j]? = some t → t.callback = .notice → j ≤ i

variable {e f : Effect}

theorem Told.keep (h : Told e) (hn : f.noticeTimer = e.noticeTimer)
    (hs : f.connectionState = e.connectionState) (ht : f.timers = e.timers) : Told f := by
  refine ⟨?_,?_,?_⟩
  · rw [hn,hs]
    exact h.shown
  · rw [hs]
    exact h.phase
  · rw [hn,ht]
    exact h.newest

theorem told_none (hn : e.noticeTimer = none) (hs : e.connectionState.notice ≠ some .newSession) : Told e :=
  ⟨⟨fun h => (by simp [hn] at h),fun h => absurd h.2 hs⟩,fun h => absurd h hs,fun i h => (by simp [hn] at h)⟩

/-- Every state but the notice's own takes the timer with it. -/
theorem told_setState (state : ConnectionState) (hs : state.notice = none) (e : Effect) :
    Told (e.setState state) := by
  have hne : state.notice ≠ some .newSession := by simp [hs]
  refine told_none ?_ hne
  simp only [Effect.setState,if_pos hne]
  exact clearNoticeTimer_none e

/-- A reconnect that is scheduled shows another phase than the notice's. -/
theorem told_schedule (h : Told e) : Told e.scheduleReconnect := by
  unfold Effect.scheduleReconnect
  split
  · exact h
  · refine told_none (clearNoticeTimer_none e) ?_
    have hstate : e.clearNoticeTimer.connectionState = e.connectionState := by
      unfold Effect.clearNoticeTimer
      split <;> rfl
    simp only [Effect.setTimeout,Effect.setConnectionState,hstate]
    split
    · rename_i hp
      intro hn
      cases hp.1.symm.trans (h.phase hn)
    · simp

/-- The notice comes with a new timer. -/
theorem told_showConnected (isReconnect : Bool) (e : Effect) : Told (e.showConnected isReconnect) := by
  cases isReconnect with
  | false => exact told_setState _ rfl e
  | true =>
    refine ⟨iff_of_true rfl ⟨rfl,rfl⟩,fun _ => rfl,?_⟩
    intro i hi j t ht _
    have hlen := (List.getElem?_eq_some_iff.mp ht).1
    obtain rfl : (e.clearNoticeTimer.setState { phase := .connected,notice := some .newSession }).timers.length = i :=
      Option.some.inj hi
    have htimers : (e.showConnected true).timers =
        (e.clearNoticeTimer.setState { phase := .connected,notice := some .newSession }).timers ++
          [⟨(e.clearNoticeTimer.setState { phase := .connected,notice := some .newSession }).number,.notice,true⟩] := rfl
    rw [htimers,List.length_append] at hlen
    exact Nat.le_of_lt_succ hlen

theorem told_connect (isReconnect : Bool) (e : Effect) : Told (e.connect isReconnect) := by
  have h := told_setState { phase := if isReconnect then .reconnecting else .connecting } rfl
    { e with attempt := e.attempt + 1 }
  exact h.keep rfl rfl rfl

theorem told_rejected (h : Told e) (f : Fetch) (message : Option String) : Told (e.rejected f message) := by
  unfold Effect.rejected
  split
  · exact h
  · dsimp only
    split
    · exact told_schedule (told_setState _ rfl e)
    · exact told_setState _ rfl e

theorem told_resolved (h : Told e) (f : Fetch) (status : Nat) : Told (e.resolved f status) := by
  unfold Effect.resolved
  split
  · exact h
  · split
    · exact told_setState _ rfl e
    · split
      · exact told_setState _ rfl e
      · exact h.keep rfl rfl rfl

theorem told_open (h : Told e) (i : Nat) (x : Socket) : Told (e.onOpen i x) := by
  unfold Effect.onOpen
  split
  · exact h.keep rfl rfl rfl
  · dsimp only
    have hshown := told_showConnected x.isReconnect
      { e with sockets := e.sockets.modify i (fun x => { x with opened := true }) }
    split
    · exact hshown.keep rfl rfl rfl
    · exact hshown

theorem told_afterClose (h : Told e) (x : Socket) : Told (Effect.afterClose x e) := by
  unfold Effect.afterClose
  split
  · exact h
  · split
    · exact h
    · split
      · exact told_schedule h
      · split
        · exact told_schedule h
        · exact told_setState _ rfl e

theorem told_close (h : Told e) (i : Nat) (x : Socket) : Told (e.onClose i x) := by
  have hkept : Told { e with socketRef := if e.socketRef = some i then none else e.socketRef } := h.keep rfl rfl rfl
  rw [onClose_eq]
  exact told_afterClose hkept x

theorem told_error (h : Told e) (x : Socket) : Told (e.onError x) := by
  unfold Effect.onError
  split
  · exact h
  · split
    · exact told_setState _ rfl e
    · exact h

theorem told_message (h : Told e) (js : Js) (i : Nat) (x : Socket) (data : Bytes) :
    Told (e.onMessage js i x data) := by
  unfold Effect.onMessage
  split
  · exact h
  · split
    · exact h.keep rfl rfl rfl
    · exact told_setState _ rfl e
    · exact (told_setState { phase := .closed,reason := some .remoteExit,exitCode := some _ } rfl
        { e with remoteExited := true }).keep rfl rfl rfl
    · exact h

/-- The notice goes with its timer. -/
theorem told_notice (h : Told e) : Told e.noticeExpired := by
  refine told_none rfl ?_
  simp only [Effect.noticeExpired,Effect.setConnectionState]
  split
  · simp
  · rename_i hn
    exact fun hs => hn ⟨h.phase hs,hs⟩

/-- A timer that is cleared was set all the same. -/
theorem told_clear {p : Page} {sc : Scope} (h : Told ⟨p,sc⟩) (id : Nat) : Told ⟨p.clearTimeout id,sc⟩ := by
  refine ⟨h.shown,h.phase,fun i hi j t ht hc => ?_⟩
  simp only [Page.clearTimeout,List.getElem?_modify] at ht
  obtain ⟨u,hu,he⟩ := Option.map_eq_some_iff.mp ht
  refine h.newest i hi j u hu ?_
  split at he
  · subst he
    exact hc
  · subst he
    exact hc

/-- Of a mounted page, the live run. -/
def State.Told (s : State) : Prop :=
  s.mounted = true → ∀ sc, s.scopes[s.scopes.length - 1]? = some sc → App.Told ⟨s.page,sc⟩

section Calls
variable {s t : State} {page : Page} {r : Nat} {callback : Effect → Effect}

/-- The other runs touch neither the timers nor what is shown. -/
theorem call_told (ho : Orderly s) (h : s.Told)
    (hc : ({ s with page := page } : State).call r callback = some t)
    (hlive : ∀ sc, App.Told ⟨s.page,sc⟩ → App.Told (callback ⟨page,sc⟩))
    (hstale : r ≠ s.scopes.length - 1 → ∀ sc, sc.cancelled = true → ∃ q, callback ⟨page,sc⟩ = ⟨q,sc⟩ ∧
      q.timers = s.page.timers ∧ q.connectionState = s.page.connectionState) : t.Told := by
  obtain ⟨scope,hs,rfl⟩ := Option.map_eq_some_iff.mp hc
  intro hm sc hsc
  have hmounted : s.mounted = true := hm
  simp only [List.length_set,List.getElem?_set] at hsc
  split at hsc
  · rename_i hr
    split at hsc
    · cases hsc
      exact hlive scope (h hmounted scope (hr ▸ hs))
    · cases hsc
  · rename_i hr
    cases ho with
    | unmounted => cases hmounted
    | @mounted past live p hp hn hg ht =>
      have hlt : r < past.length := by
        have := (List.getElem?_eq_some_iff.mp hs).1
        simp only [List.length_append,List.length_singleton,Nat.add_sub_cancel] at this hr
        omega
      have hmem : scope ∈ past := List.mem_of_getElem? (by rwa [List.getElem?_append_left hlt] at hs)
      obtain ⟨q,hq,htimers,hstate⟩ := hstale hr scope (hp scope hmem)
      rw [hq]
      exact (h hmounted sc hsc).keep rfl hstate htimers

theorem timer_run (ho : Orderly s) {i : Nat} {u : Timer} (hu : s.page.timers[i]? = some u)
    (hp : u.pending = true) : u.run = s.scopes.length - 1 := by
  obtain ⟨past,sc,p,rfl,_,_,_,_,hrun⟩ := pending_live ho hu hp
  simp [hrun]

/-- Whatever happens on the page. -/
theorem step_told {js : Js} {l : Label} (ho : Orderly s) (h : s.Told) (hstep : step js s l = some t) : t.Told := by
  cases step_move hstep with
  | mounted hm hc =>
    obtain ⟨scope,hs,rfl⟩ := Option.map_eq_some_iff.mp hc
    intro _ sc hsc
    simp only [List.length_set,List.length_append,List.length_singleton,Nat.add_sub_cancel] at hsc
    rw [List.getElem?_set_self (by simp)] at hsc
    cases hsc
    exact told_connect false _
  | unmounted hm hc => exact fun hm => by cases hm
  | @rejected i f message _ hf hs hc =>
    apply call_told ho h hc
    · intro sc hsc
      have hkept : App.Told ⟨s.page.settle i,sc⟩ := hsc.keep rfl rfl rfl
      exact told_rejected hkept f message
    · exact fun _ sc hsc => ⟨_,rejected_stale hsc f message,rfl,rfl⟩
  | @resolved i f status _ hf hs hc =>
    apply call_told ho h hc
    · intro sc hsc
      have hkept : App.Told ⟨s.page.settle i,sc⟩ := hsc.keep rfl rfl rfl
      exact told_resolved hkept f status
    · exact fun _ sc hsc => ⟨_,resolved_stale hsc f status,rfl,rfl⟩
  | @reconnect i u _ hu hpend hb hc =>
    apply call_told ho h hc
    · exact fun sc hsc => told_connect true _
    · exact fun hne => absurd (timer_run ho hu hpend) hne
  | @notice i u _ hu hpend hb hc =>
    apply call_told ho h hc
    · exact fun sc hsc => told_notice (told_clear hsc i)
    · exact fun hne => absurd (timer_run ho hu hpend) hne
  | @opened i x _ hx he hs hc =>
    apply call_told ho h hc
    · intro sc hsc
      have hkept : App.Told ⟨s.page.establish i,sc⟩ := hsc.keep rfl rfl rfl
      exact told_open hkept i x
    · exact fun _ sc hsc => ⟨_,open_stale hsc i x,rfl,rfl⟩
  | @errored i x _ hx hs hc =>
    apply call_told ho h hc
    · exact fun sc hsc => told_error hsc x
    · exact fun _ sc hsc => ⟨_,error_stale hsc x,rfl,rfl⟩
  | @message i x data _ hx hr hc =>
    apply call_told ho h hc
    · exact fun sc hsc => told_message hsc js i x data
    · exact fun _ sc hsc => ⟨_,message_stale hsc js i x data,rfl,rfl⟩
  | @closed i x _ hx hs hc =>
    apply call_told ho h hc
    · intro sc hsc
      have hkept : App.Told ⟨s.page.shut i,sc⟩ := hsc.keep rfl rfl rfl
      exact told_close hkept i x
    · intro _ sc hsc
      obtain ⟨ref,href⟩ := close_stale (e := ⟨s.page.shut i,sc⟩) hsc i x
      exact ⟨_,href,rfl,rfl⟩
  | @data text hm =>
    exact fun _ sc hsc => sendInput_rule (P := fun q => App.Told ⟨q,sc⟩) (fun _ => h hm sc hsc)
      (fun i _ _ => (h hm sc hsc).keep rfl rfl rfl)
  | @resize size hm =>
    exact fun _ sc hsc => sendResize_rule (P := fun q => App.Told ⟨q,sc⟩)
      (fun _ => (h hm sc hsc).keep rfl rfl rfl) (fun i _ _ => (h hm sc hsc).keep rfl rfl rfl)

end Calls

theorem reachable_told {js : Js} {s : State} (hr : (system js).Reachable s) : s.Told :=
  hr.invariant (fun hm => by cases hm) (fun _ _ _ hr h hstep => step_told (reachable_orderly hr) h hstep)

/-- The new-session notice is shown while its timer runs and no longer; there is one such timer
at most, and it is the last one set. -/
theorem notice_has_timer {js : Js} {s : State} (hr : (system js).Reachable s) (hm : s.mounted = true) :
    ((∃ i, s.page.Pending i .notice) ↔
      s.page.connectionState.phase = .connected ∧ s.page.connectionState.notice = some .newSession) ∧
    (∀ i j, s.page.Pending i .notice → s.page.Pending j .notice → i = j) ∧
    (s.page.connectionState.notice = some .newSession → s.page.connectionState.phase = .connected) ∧
    ∀ i, s.page.Pending i .notice →
      ∀ (j : Nat) (t : Timer), s.page.timers[j]? = some t → t.callback = .notice → j ≤ i := by
  have htold := reachable_told hr hm
  cases reachable_orderly hr with
  | unmounted => cases hm
  | @mounted past sc p hp hn hg ht =>
    have h := htold sc (by simp)
    have hpending := hg.wired.notice
    refine ⟨?_,?_,h.phase,?_⟩
    · rw [← ConnectionState.told,← h.shown,Option.isSome_iff_exists]
      exact exists_congr (fun i => (hpending i).symm)
    · intro i j hi hj
      exact Option.some.inj (((hpending i).mpr hi).symm.trans ((hpending j).mpr hj))
    · exact fun i hi => h.newest i ((hpending i).mpr hi)

/-- The first connection is lost, the second opens. -/
def secondRun : List Label :=
  [.mount,.fetched 0 (.ok 204),.opened 0,.closed 0,.timer 0,.fetched 1 (.ok 204),.opened 1]

theorem notice_has_timer_second :
    ∃ s, (system ⟨fun _ => "",fun _ => .integer 0⟩).Reachable s ∧ s.mounted = true ∧
      ∃ i, s.page.Pending i .notice := by
  have hr := System.reachable_end (m := system ⟨fun _ => "",fun _ => .integer 0⟩) secondRun rfl
  exact ⟨_,hr,rfl,(notice_has_timer hr rfl).1.mpr ⟨rfl,rfl⟩⟩

end Terminald.App
