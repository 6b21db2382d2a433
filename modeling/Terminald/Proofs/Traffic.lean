import Terminald.Proofs.Mounted

namespace Terminald.App
open Machine Browser

/-- What leaves the sockets, the terminal and the noted size alone. -/
structure Aside (p q : Page) : Prop where
  sockets : q.sockets = p.sockets
  socketRef : q.socketRef = p.socketRef
  latestSizeRef : q.latestSizeRef = p.latestSizeRef
  written : q.written = p.written

namespace Aside

theorem refl (p : Page) : Aside p p := ⟨rfl,rfl,rfl,rfl⟩

theorem trans {p q r : Page} (h : Aside p q) (k : Aside q r) : Aside p r :=
  ⟨k.sockets.trans h.sockets,k.socketRef.trans h.socketRef,k.latestSizeRef.trans h.latestSizeRef,
    k.written.trans h.written⟩

theorem close {p q : Page} (h : Aside p q) (i : Nat) : Aside (p.close i) (q.close i) :=
  ⟨congrArg (fun xs => List.modify xs i _) h.sockets,h.socketRef,h.latestSizeRef,h.written⟩

theorem detach {p q : Page} (h : Aside p q) (ref : Option Nat) :
    Aside { p with socketRef := ref } { q with socketRef := ref } :=
  ⟨h.sockets,rfl,h.latestSizeRef,h.written⟩

end Aside

section Callbacks
variable (e : Effect)

theorem aside_clearNoticeTimer : Aside e.toPage e.clearNoticeTimer.toPage := by
  unfold Effect.clearNoticeTimer
  split <;> exact ⟨rfl,rfl,rfl,rfl⟩

theorem aside_clearReconnectTimer : Aside e.toPage e.clearReconnectTimer.toPage := by
  unfold Effect.clearReconnectTimer
  split <;> exact ⟨rfl,rfl,rfl,rfl⟩

theorem aside_setState (state : ConnectionState) : Aside e.toPage (e.setState state).toPage := by
  unfold Effect.setState
  split
  · exact (aside_clearNoticeTimer e).trans ⟨rfl,rfl,rfl,rfl⟩
  · exact ⟨rfl,rfl,rfl,rfl⟩

theorem aside_showConnected (isReconnect : Bool) :
    Aside e.toPage (e.showConnected isReconnect).toPage := by
  cases isReconnect with
  | false => exact aside_setState e _
  | true =>
    have h := (aside_clearNoticeTimer e).trans
      (aside_setState _ { phase := .connected,notice := some .newSession })
    exact h.trans ⟨rfl,rfl,rfl,rfl⟩

theorem aside_schedule : Aside e.toPage e.scheduleReconnect.toPage := by
  unfold Effect.scheduleReconnect
  split
  · exact .refl _
  · exact (aside_clearNoticeTimer e).trans ⟨rfl,rfl,rfl,rfl⟩

theorem aside_connect (isReconnect : Bool) : Aside e.toPage (e.connect isReconnect).toPage := by
  have h := aside_setState { e with attempt := e.attempt + 1 }
    { phase := if isReconnect then .reconnecting else .connecting }
  exact h.trans ⟨rfl,rfl,rfl,rfl⟩

theorem aside_rejected (f : Fetch) (message : Option String) :
    Aside e.toPage (e.rejected f message).toPage := by
  unfold Effect.rejected
  split
  · exact .refl _
  · split
    · exact (aside_setState e _).trans (aside_schedule _)
    · exact aside_setState e _

theorem aside_error (x : Socket) : Aside e.toPage (e.onError x).toPage := by
  unfold Effect.onError
  split
  · exact .refl _
  · split
    · exact aside_setState e _
    · exact .refl _

theorem aside_cleanup :
    Aside (match e.socketRef with
      | some i => { e.toPage.close i with socketRef := none }
      | none => e.toPage) e.cleanup.toPage := by
  have h := (aside_clearReconnectTimer { e with cancelled := true,attempt := e.attempt + 1 }).trans
    (aside_clearNoticeTimer _)
  have hr : _ = e.socketRef := h.socketRef
  unfold Effect.cleanup
  dsimp only
  rw [hr]
  cases e.socketRef with
  | none => exact h
  | some i => exact (h.close i).detach none

theorem aside_close (i : Nat) (x : Socket) :
    Aside { e.toPage with socketRef := if e.socketRef = some i then none else e.socketRef }
      (e.onClose i x).toPage := by
  rw [onClose_eq,Effect.afterClose]
  generalize (if e.socketRef = some i then none else e.socketRef) = ref
  split
  · exact .refl _
  · split
    · exact .refl _
    · split
      · exact aside_schedule { e with socketRef := ref }
      · split
        · exact aside_schedule { e with socketRef := ref }
        · exact aside_setState { e with socketRef := ref } _

end Callbacks

/-- What was passed to `send` of a socket so far. -/
def sentOn (p : Page) (i : Nat) : List Bytes := ((p.sockets[i]?).map Socket.sent).getD []

def reported : Label → Option Size
  | .resize size => some size
  | _ => none

/-- The payload of an output frame for a socket of the newest attempt. -/
def outputs (js : Js) (s : State) : Label → List Bytes
  | .message i data =>
    match s.page.sockets[i]? with
    | some x =>
      match s.scopes[x.run]? with
      | some sc =>
        if Effect.stale ⟨s.page,sc⟩ x.currentAttempt then []
        else
          match decodeServerFrame js data with
          | .ok (.output bytes) => [bytes]
          | _ => []
      | none => []
    | none => []
  | _ => []

/-- An event that neither shows nor notes anything, and is no typing. -/
structure Plain (js : Js) (s : State) (l : Label) : Prop where
  typing : ∀ text, l ≠ .data text
  outputs : outputs js s l = []
  reported : reported l = none

/-- What one event does to the sockets, the terminal and the noted size. -/
inductive Traffic (js : Js) (s : State) : Label → Page → Prop
  | aside (hl : Plain js s l) (h : Aside s.page q) : Traffic js s l q
  | created (hf : s.page.fetches[i]? = some f) (hn : f.settled = false)
      (hsc : s.scopes[f.run]? = some sc) (hl : sc.cancelled = false)
      (hs : q.sockets = s.page.sockets ++
        [⟨sc.number,f.currentAttempt,f.isReconnect,false,false,false,false,[]⟩])
      (hr : q.socketRef = some s.page.sockets.length)
      (hz : q.latestSizeRef = s.page.latestSizeRef) (hw : q.written = s.page.written) :
      Traffic js s (.fetched i (.ok 204)) q
  | refused (hx : s.page.sockets[i]? = some x) (he : x.established = false) (hc : x.closed = false)
      (hsc : s.scopes[x.run]? = some sc) (hl : Effect.stale ⟨s.page,sc⟩ x.currentAttempt = true)
      (h : Aside ((s.page.establish i).close i) q) : Traffic js s (.opened i) q
  | opened (hx : s.page.sockets[i]? = some x) (he : x.established = false) (hc : x.closed = false)
      (hsc : s.scopes[x.run]? = some sc) (hl : Effect.stale ⟨s.page,sc⟩ x.currentAttempt = false)
      (h : Aside { s.page.establish i with
        sockets := (s.page.establish i).sockets.modify i (fun x => { x with opened := true }) } p)
      (hq : q = match s.page.latestSizeRef with
        | some size => p.send i (encodeResize size.cols size.rows)
        | none => p) : Traffic js s (.opened i) q
  | output (hx : s.page.sockets[i]? = some x) (hr : x.ready = true)
      (hsc : s.scopes[x.run]? = some sc) (hl : Effect.stale ⟨s.page,sc⟩ x.currentAttempt = false)
      (hd : decodeServerFrame js data = .ok (.output bytes))
      (h : Aside { s.page with written := s.page.written ++ [bytes] } q) :
      Traffic js s (.message i data) q
  | exited (hx : s.page.sockets[i]? = some x) (hr : x.ready = true)
      (hd : decodeServerFrame js data = .ok (.exited code)) (h : Aside (s.page.close i) q) : Traffic js s (.message i data) q
  | closed (hx : s.page.sockets[i]? = some x) (hc : x.closed = false)
      (h : Aside { s.page.shut i with
        socketRef := if s.page.socketRef = some i then none else s.page.socketRef } q) :
      Traffic js s (.closed i) q
  | unmounted (h : Aside (match s.page.socketRef with
      | some i => { s.page.close i with socketRef := none }
      | none => s.page) q) : Traffic js s .unmount q
  | data (hm : s.mounted = true) : Traffic js s (.data text) (s.page.sendInput text)
  | resize (hm : s.mounted = true) : Traffic js s (.resize size) (s.page.sendResize size)

section Steps
variable {js : Js} {s t : State} {l : Label}

/-- A callback that runs at all runs on the variables of its run. -/
theorem call_page {r : Nat} {callback : Effect → Effect} (h : s.call r callback = some t) :
    ∃ sc, s.scopes[r]? = some sc ∧ t.page = (callback ⟨s.page,sc⟩).toPage := by
  obtain ⟨sc,hsc,he⟩ := Option.map_eq_some_iff.mp h
  exact ⟨sc,hsc,he ▸ rfl⟩

theorem stale_false {e : Effect} {n : Nat} (h : ¬ e.stale n = true) :
    e.cancelled = false ∧ n = e.attempt := by
  simpa [Effect.stale] using h

theorem resolved_traffic {i : Nat} {f : Fetch} {status : Nat} {sc : Scope}
    (hf : s.page.fetches[i]? = some f) (hn : f.settled = false) (hsc : s.scopes[f.run]? = some sc) :
    Traffic js s (.fetched i (.ok status)) (Effect.resolved f status ⟨s.page.settle i,sc⟩).toPage := by
  have ha : Aside s.page (s.page.settle i) := ⟨rfl,rfl,rfl,rfl⟩
  unfold Effect.resolved
  split
  · exact .aside ⟨fun _ => nofun,rfl,rfl⟩ ha
  · rename_i hst
    split
    · exact .aside ⟨fun _ => nofun,rfl,rfl⟩ (ha.trans (aside_setState ⟨s.page.settle i,sc⟩ _))
    · split
      · exact .aside ⟨fun _ => nofun,rfl,rfl⟩ (ha.trans (aside_setState ⟨s.page.settle i,sc⟩ _))
      · rename_i h204
        have h204 : status = 204 := by simpa using h204
        subst h204
        exact .created hf hn hsc (stale_false hst).1 rfl rfl rfl rfl

theorem opened_traffic {i : Nat} {x : Socket} {sc : Scope} (hx : s.page.sockets[i]? = some x)
    (he : x.established = false) (hc : x.closed = false) (hsc : s.scopes[x.run]? = some sc) :
    Traffic js s (.opened i) (Effect.onOpen i x ⟨s.page.establish i,sc⟩).toPage := by
  unfold Effect.onOpen
  split
  · exact .refused hx he hc hsc ‹_› (.refl _)
  · rename_i hst
    let e : Effect := ⟨{ s.page.establish i with
      sockets := (s.page.establish i).sockets.modify i (fun x => { x with opened := true }) },sc⟩
    have h : Aside e.toPage (e.showConnected x.isReconnect).toPage := aside_showConnected e _
    refine .opened hx he hc hsc (Bool.eq_false_iff.mpr hst) h ?_
    dsimp only
    have hz : (e.showConnected x.isReconnect).latestSizeRef = s.page.latestSizeRef := h.latestSizeRef
    rw [hz]
    cases s.page.latestSizeRef <;> rfl

theorem message_traffic {i : Nat} {x : Socket} {data : Bytes} {sc : Scope}
    (hx : s.page.sockets[i]? = some x) (hr : x.ready = true) (hsc : s.scopes[x.run]? = some sc) :
    Traffic js s (.message i data) (Effect.onMessage js i x data ⟨s.page,sc⟩).toPage := by
  have plain : outputs js s (.message i data) = [] → Plain js s (.message i data) :=
    fun h => ⟨fun _ => nofun,h,rfl⟩
  unfold Effect.onMessage
  split
  · rename_i hst
    exact .aside (plain (by simp [outputs,hx,hsc,hst])) (.refl _)
  · rename_i hst
    split
    · rename_i bytes hd
      exact .output hx hr hsc (Bool.eq_false_iff.mpr hst) hd (.refl _)
    · rename_i message hd
      exact .aside (plain (by simp [outputs,hx,hsc,hd])) (aside_setState ⟨s.page,sc⟩ _)
    · rename_i code hd
      refine .exited hx hr hd ?_
      have h := aside_setState ⟨s.page,{ sc with remoteExited := true }⟩
        { phase := .closed,reason := some .remoteExit,exitCode := some code }
      exact h.close i
    · rename_i error hd
      exact .aside (plain (by simp [outputs,hx,hsc,hd])) (.refl _)

theorem step_traffic (h : step js s l = some t) : Traffic js s l t.page := by
  cases step_move h with
  | mounted hm hc =>
    obtain ⟨sc,_,hp⟩ := call_page hc
    exact .aside ⟨fun _ => nofun,rfl,rfl⟩ (hp ▸ aside_connect ⟨s.page,sc⟩ false)
  | unmounted hm hc =>
    obtain ⟨sc,_,hp⟩ := call_page hc
    exact .unmounted (hp ▸ aside_cleanup ⟨s.page,sc⟩)
  | @rejected i f message _ hf hs hc =>
    obtain ⟨sc,_,hp⟩ := call_page hc
    have ha : Aside s.page (s.page.settle i) := ⟨rfl,rfl,rfl,rfl⟩
    exact .aside ⟨fun _ => nofun,rfl,rfl⟩ (hp ▸ ha.trans (aside_rejected ⟨s.page.settle i,sc⟩ f message))
  | @resolved i f status _ hf hs hc =>
    obtain ⟨sc,hsc,hp⟩ := call_page hc
    exact hp ▸ resolved_traffic hf hs hsc
  | @reconnect i u _ hu hpend hb hc =>
    obtain ⟨sc,_,hp⟩ := call_page hc
    have ha : Aside s.page { s.page.clearTimeout i with reconnectTimerRef := none } :=
      ⟨rfl,rfl,rfl,rfl⟩
    exact .aside ⟨fun _ => nofun,rfl,rfl⟩ (hp ▸ ha.trans (aside_connect ⟨_,sc⟩ true))
  | @notice i u _ hu hpend hb hc =>
    obtain ⟨sc,_,hp⟩ := call_page hc
    exact .aside ⟨fun _ => nofun,rfl,rfl⟩ (hp ▸ ⟨rfl,rfl,rfl,rfl⟩)
  | opened hx he hs hc =>
    obtain ⟨sc,hsc,hp⟩ := call_page hc
    exact hp ▸ opened_traffic hx he hs hsc
  | @errored i x _ hx hs hc =>
    obtain ⟨sc,_,hp⟩ := call_page hc
    exact .aside ⟨fun _ => nofun,rfl,rfl⟩ (hp ▸ aside_error ⟨s.page,sc⟩ x)
  | message hx hr hc =>
    obtain ⟨sc,hsc,hp⟩ := call_page hc
    exact hp ▸ message_traffic hx hr hsc
  | @closed i x _ hx hs hc =>
    obtain ⟨sc,hsc,hp⟩ := call_page hc
    exact .closed hx hs (hp ▸ aside_close ⟨s.page.shut i,sc⟩ i x)
  | data hm => exact .data hm
  | resize hm => exact .resize hm

/-- The terminal is given the output, in the order it comes. -/
theorem step_written (h : step js s l = some t) :
    t.page.written = s.page.written ++ outputs js s l := by
  have ht := step_traffic h
  generalize t.page = q at ht ⊢
  have keep : ∀ {q : Page}, outputs js s l = [] → q.written = s.page.written →
      q.written = s.page.written ++ outputs js s l := by
    intro q hn hw
    rw [hn,hw,List.append_nil]
  cases ht with
  | aside hl ha => exact keep hl.outputs ha.written
  | created hf hn hsc hl hs hr hz hw => exact keep rfl hw
  | refused hx he hc hsc hl ha => exact keep rfl ha.written
  | opened hx he hc hsc hl ha hq =>
    rw [hq]
    split
    · exact keep rfl ha.written
    · exact keep rfl ha.written
  | output hx hr hsc hl hd hp => simpa [outputs,hx,hsc,hl,hd] using hp.written
  | exited hx hr hd ha =>
    apply keep _ ha.written
    simp only [outputs,hx,hd]
    split <;> simp
  | closed hx hc ha => exact keep rfl ha.written
  | unmounted ha =>
    apply keep rfl (ha.written.trans _)
    split <;> rfl
  | data hm =>
    apply keep rfl
    exact sendInput_rule (P := fun q => q.written = s.page.written) (fun _ => rfl) (fun _ _ _ => rfl)
  | resize hm =>
    apply keep rfl
    exact sendResize_rule (P := fun q => q.written = s.page.written) (fun _ => rfl) (fun _ _ _ => rfl)

theorem call_mounted {page : Page} {r : Nat} {callback : Effect → Effect}
    (h : ({ s with page := page } : State).call r callback = some t) : t.mounted = s.mounted := by
  obtain ⟨sc,_,he⟩ := Option.map_eq_some_iff.mp h
  exact he ▸ rfl

/-- The page is mounted and unmounted by these two events only. -/
theorem step_mounted (h : step js s l = some t) :
    l = .mount ∧ s.mounted = false ∧ t.mounted = true ∨ l = .unmount ∧ t.mounted = false ∨
      l ≠ .mount ∧ l ≠ .unmount ∧ t.mounted = s.mounted := by
  cases step_move h with
  | mounted hm hc =>
    obtain ⟨sc,_,he⟩ := Option.map_eq_some_iff.mp hc
    exact .inl ⟨rfl,hm,he ▸ rfl⟩
  | unmounted hm hc => exact .inr (.inl ⟨rfl,rfl⟩)
  | rejected hf hs hc | resolved hf hs hc | reconnect hu hp hb hc | notice hu hp hb hc
  | opened hx he hs hc | errored hx hs hc | message hx hr hc | closed hx hs hc =>
    exact .inr (.inr ⟨by simp,by simp,call_mounted hc⟩)
  | data hm | resize hm => exact .inr (.inr ⟨by simp,by simp,rfl⟩)

end Steps
end Terminald.App
