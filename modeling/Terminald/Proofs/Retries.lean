import Terminald.Proofs.Inert

namespace Terminald.App
open Machine Browser

/-- How many reconnect timers have been set so far. -/
def Page.reconnects (p : Page) : Nat := (p.timers.map Timer.callback).count .reconnect

/-- The events after which a run tries once more. -/
def Retrying (s : State) : Label → Prop
  | .closed i => ∃ x, s.page.sockets[i]? = some x ∧ (x.opened = true ∨ x.isReconnect = true)
  | .fetched i (.error _) => ∃ f, s.page.fetches[i]? = some f ∧ f.isReconnect = true
  | _ => False

section Timers
variable (e : Effect)

@[simp] theorem reconnects_clear (p : Page) (id : Nat) : (p.clearTimeout id).reconnects = p.reconnects := by
  have h : (p.clearTimeout id).timers.map Timer.callback = p.timers.map Timer.callback := by
    apply List.ext_getElem?
    intro i
    simp only [Page.clearTimeout,List.getElem?_map,List.getElem?_modify]
    cases p.timers[i]? with
    | none => rfl
    | some u => by_cases hi : id = i <;> simp [hi]
  rw [Page.reconnects,h,Page.reconnects]

theorem reconnects_same {p q : Page} (h : q.timers = p.timers) : q.reconnects = p.reconnects := by
  rw [Page.reconnects,h,Page.reconnects]

@[simp] theorem reconnects_clearNoticeTimer : e.clearNoticeTimer.reconnects = e.reconnects := by
  unfold Effect.clearNoticeTimer
  split
  · exact reconnects_clear e.toPage _
  · rfl

@[simp] theorem reconnects_clearReconnectTimer : e.clearReconnectTimer.reconnects = e.reconnects := by
  unfold Effect.clearReconnectTimer
  split
  · exact reconnects_clear e.toPage _
  · rfl

@[simp] theorem reconnects_setState (state : ConnectionState) :
    (e.setState state).reconnects = e.reconnects := by
  unfold Effect.setState
  split
  · exact reconnects_clearNoticeTimer e
  · rfl

@[simp] theorem reconnects_showConnected (isReconnect : Bool) :
    (e.showConnected isReconnect).reconnects = e.reconnects := by
  cases isReconnect with
  | false => exact reconnects_setState e _
  | true =>
    have h : (e.clearNoticeTimer.setState ⟨.connected,none,none,none,some .newSession⟩).reconnects =
        e.reconnects := by
      simp
    rw [← h]
    simp [Effect.showConnected,Effect.setTimeout,Page.reconnects]

@[simp] theorem reconnects_connect (isReconnect : Bool) :
    (e.connect isReconnect).reconnects = e.reconnects :=
  reconnects_setState { e with attempt := e.attempt + 1 } _

@[simp] theorem reconnects_error (x : Socket) : (e.onError x).reconnects = e.reconnects := by
  unfold Effect.onError
  split
  · rfl
  · split
    · exact reconnects_setState e _
    · rfl

@[simp] theorem reconnects_open (i : Nat) (x : Socket) : (e.onOpen i x).reconnects = e.reconnects := by
  unfold Effect.onOpen
  split
  · rfl
  · dsimp only
    split
    · exact reconnects_showConnected { e with
        sockets := e.sockets.modify i (fun x => { x with opened := true }) } _
    · exact reconnects_showConnected { e with
        sockets := e.sockets.modify i (fun x => { x with opened := true }) } _

@[simp] theorem reconnects_message (js : Js) (i : Nat) (x : Socket) (data : Bytes) :
    (e.onMessage js i x data).reconnects = e.reconnects := by
  unfold Effect.onMessage
  split
  · rfl
  · split
    · rfl
    · exact reconnects_setState e _
    · exact reconnects_setState { e with remoteExited := true } _
    · rfl

@[simp] theorem reconnects_resolved (f : Fetch) (status : Nat) :
    (e.resolved f status).reconnects = e.reconnects := by
  unfold Effect.resolved
  split
  · rfl
  · split
    · exact reconnects_setState e _
    · split
      · exact reconnects_setState e _
      · rfl

@[simp] theorem reconnects_cleanup : e.cleanup.reconnects = e.reconnects := by
  have h : ({ e with cancelled := true,attempt := e.attempt + 1 } : Effect).clearReconnectTimer.clearNoticeTimer.reconnects
      = e.reconnects := by
    rw [reconnects_clearNoticeTimer,reconnects_clearReconnectTimer]
  unfold Effect.cleanup
  dsimp only
  split
  · exact h
  · exact h

/-- A first auth check that fails sets no timer. -/
theorem reconnects_rejected (f : Fetch) (message : Option String) (hf : f.isReconnect = false) :
    (e.rejected f message).reconnects = e.reconnects := by
  unfold Effect.rejected
  rw [hf]
  split
  · rfl
  · exact reconnects_setState e _

/-- Nor does the close of a first socket that was never open. -/
theorem reconnects_close (i : Nat) (x : Socket) (ho : x.opened = false) (hr : x.isReconnect = false) :
    (e.onClose i x).reconnects = e.reconnects := by
  rw [onClose_eq,Effect.afterClose,ho,hr]
  generalize (if e.socketRef = some i then none else e.socketRef) = ref
  split
  · rfl
  · split
    · rfl
    · exact reconnects_setState { e with socketRef := ref } _

end Timers

section Steps
variable {js : Js} {s t : State} {l : Label}

theorem step_reconnects (hstep : step js s l = some t) (hl : ¬ Retrying s l) :
    t.page.reconnects = s.page.reconnects := by
  cases step_move hstep with
  | mounted hm hc =>
    obtain ⟨sc,_,hp⟩ := call_page hc
    rw [hp]
    exact reconnects_connect ⟨s.page,sc⟩ false
  | unmounted hm hc =>
    obtain ⟨sc,_,hp⟩ := call_page hc
    exact (congrArg Page.reconnects hp).trans (reconnects_cleanup ⟨s.page,sc⟩)
  | @rejected i f message _ hf hs hc =>
    obtain ⟨sc,_,hp⟩ := call_page hc
    rw [hp]
    apply reconnects_rejected ⟨s.page.settle i,sc⟩ f message
    by_contra hr
    exact hl ⟨f,hf,by simpa using hr⟩
  | @resolved i f status _ hf hs hc =>
    obtain ⟨sc,_,hp⟩ := call_page hc
    rw [hp]
    exact reconnects_resolved ⟨s.page.settle i,sc⟩ f status
  | @reconnect i u _ hu hpend hb hc =>
    obtain ⟨sc,_,hp⟩ := call_page hc
    rw [hp]
    exact (reconnects_connect ⟨{ s.page.clearTimeout i with reconnectTimerRef := none },sc⟩ true).trans
      (reconnects_clear s.page i)
  | @notice i u _ hu hpend hb hc =>
    obtain ⟨sc,_,hp⟩ := call_page hc
    rw [hp]
    exact reconnects_clear s.page i
  | @opened i x _ hx he hs hc =>
    obtain ⟨sc,_,hp⟩ := call_page hc
    rw [hp]
    exact reconnects_open ⟨s.page.establish i,sc⟩ i x
  | @errored i x _ hx hs hc =>
    obtain ⟨sc,_,hp⟩ := call_page hc
    rw [hp]
    exact reconnects_error ⟨s.page,sc⟩ x
  | @message i x data _ hx hr hc =>
    obtain ⟨sc,_,hp⟩ := call_page hc
    rw [hp]
    exact reconnects_message ⟨s.page,sc⟩ js i x data
  | @closed i x _ hx hs hc =>
    obtain ⟨sc,_,hp⟩ := call_page hc
    rw [hp]
    have hno : ¬(x.opened = true ∨ x.isReconnect = true) := fun h => hl ⟨x,hx,h⟩
    simp only [not_or,Bool.not_eq_true] at hno
    exact reconnects_close ⟨s.page.shut i,sc⟩ i x hno.1 hno.2
  | data hm =>
    apply reconnects_same
    exact sendInput_rule (P := fun q => q.timers = s.page.timers) (fun _ => rfl) (fun _ _ _ => rfl)
  | resize hm =>
    apply reconnects_same
    exact sendResize_rule (P := fun q => q.timers = s.page.timers) (fun _ => rfl) (fun _ _ _ => rfl)

end Steps

/-- The event tells a run of the page to give up. -/
def ends (js : Js) (s : State) : Label → Bool
  | .fetched _ (.ok status) => status != 204
  | .fetched i (.error _) => (s.page.fetches[i]?).any (fun f => !f.isReconnect)
  | .closed i => (s.page.sockets[i]?).any (fun x => !x.isReconnect && !x.opened)
  | .message _ data =>
    match decodeServerFrame js data with
    | .ok (.exited _) => true
    | _ => false
  | _ => false

/-- No reconnect timer is set, nothing is fetched and no socket made. -/
structure Idle (p q : Page) : Prop where
  reconnects : q.reconnects = p.reconnects
  fetches : q.fetches.length = p.fetches.length
  sockets : q.sockets.length = p.sockets.length

theorem Idle.trans {p q r : Page} (h : Idle p q) (k : Idle q r) : Idle p r :=
  ⟨k.reconnects.trans h.reconnects,k.fetches.trans h.fetches,k.sockets.trans h.sockets⟩

/-- The live run waits for nothing, but it may be for the close of a socket after
the remote exit. -/
def Ended (s : State) : Prop :=
  ∃ r sc, s.live = some r ∧ s.scopes[r]? = some sc ∧
    (sc.remoteExited = true ∨ ∀ a, ¬s.page.Present r a)

section Through
variable {js : Js} {s t : State} {l : Label} {r : Nat} {sc : Scope}

theorem live_scope (h : Orderly s) (hl : s.live = some r) :
    ∃ sc, s.scopes[r]? = some sc ∧ sc.number = r ∧ Good ⟨s.page,sc⟩ ∧ r + 1 = s.scopes.length := by
  cases h with
  | unmounted hp hq hr ht => cases hl
  | @mounted past sc p hp hn hg ht =>
    have hr : past.length = r := by simpa [State.live] using hl
    subst hr
    exact ⟨sc,List.getElem?_concat_length,hn,hg,by simp⟩

theorem through_fetch {p : Page} (hg : Good ⟨p,sc⟩) {i : Nat} {f : Fetch} (hf : p.fetches[i]? = some f)
    (hn : f.settled = false) (hr : f.run = sc.number)
    (he : sc.remoteExited = true ∨ ∀ a, ¬p.Present sc.number a) : False := by
  rcases he with hx | ha
  · exact Bool.false_ne_true ((good_settle hg hf hn hr).2.1.symm.trans hx)
  · exact ha (.fetch i) ⟨f,hf,hn,hr⟩

theorem through_timer {p : Page} (hg : Good ⟨p,sc⟩) {i : Nat} (hp : p.Pending i .reconnect)
    (he : sc.remoteExited = true ∨ ∀ a, ¬p.Present sc.number a) : False := by
  rcases he with hx | ha
  · exact Bool.false_ne_true ((good_fired hg hp).2.symm.trans hx)
  · exact ha (.timer i) ((present_timer hg.wired).mpr ((hg.wired.reconnect i).mpr hp))

/-- What is left of a run that is through is a socket it closed itself. -/
theorem through_socket {p : Page} (hg : Good ⟨p,sc⟩) {i : Nat} {x : Socket}
    (hx : p.sockets[i]? = some x) (hc : x.closed = false) (hr : x.run = sc.number)
    (he : sc.remoteExited = true ∨ ∀ a, ¬p.Present sc.number a) :
    sc.remoteExited = true ∧ x.established = true ∧ x.opened = true ∧ x.closing = true := by
  rcases he with he | ha
  · obtain ⟨_,⟨hop,⟨_,hest,hcl,_⟩ | ⟨hno,_⟩⟩,_⟩ := good_at hg hx hc hr
    · exact ⟨he,hest,hop.trans hest,hcl⟩
    · exact absurd (hno.symm.trans he) Bool.false_ne_true
  · exact absurd ⟨x,hx,hc,hr⟩ (ha (.socket i))

theorem through_phase {p : Page} (hg : Good ⟨p,sc⟩)
    (he : sc.remoteExited = true ∨ ∀ a, ¬p.Present sc.number a) :
    p.connectionState.phase ≠ .connected := by
  intro hp
  obtain ⟨i,x,hx,hest,y,hy,hc,hr⟩ := good_connected hg (.inl hp)
  obtain rfl := Option.some.inj (hx.symm.trans hy)
  obtain ⟨hre,_⟩ := through_socket hg hx hc hr he
  obtain ⟨_,⟨_,⟨_,_,_,hph⟩ | ⟨hno,_⟩⟩,_⟩ := good_at hg hx hc hr
  · exact nomatch hph.symm.trans hp
  · exact absurd (hno.symm.trans hre) Bool.false_ne_true

/-- A callback that keeps the run's number of things, or makes it fewer. -/
theorem call_ended {page : Page} {callback : Effect → Effect}
    (hc : ({ s with page := page } : State).call r callback = some t) (hl : s.live = some r)
    (hsc : s.scopes[r]? = some sc)
    (he : (callback ⟨page,sc⟩).remoteExited = true ∨ ∀ a, ¬(callback ⟨page,sc⟩).Present r a) :
    Ended t ∧ t.page = (callback ⟨page,sc⟩).toPage := by
  obtain ⟨sc',hsc',ht⟩ := Option.map_eq_some_iff.mp hc
  obtain rfl := Option.some.inj (hsc.symm.trans hsc')
  have hlive := (call_live_same hc).trans hl
  subst ht
  refine ⟨⟨r,_,hlive,?_,he⟩,rfl⟩
  rw [List.getElem?_set_self (List.getElem?_eq_some_iff.mp hsc).1]

theorem present_fewer {p : Page} {i n : Nat} {a : Thing} (h : (p.clearTimeout i).Present n a) :
    p.Present n a := by
  cases a with
  | fetch j | socket j => exact h
  | timer j =>
    obtain ⟨u,hu,hpend,hb,hrun⟩ := h
    simp only [Page.clearTimeout,List.getElem?_modify] at hu
    cases hv : p.timers[j]? with
    | none => simp [hv] at hu
    | some v =>
      simp only [hv,Option.map_eq_map,Option.map_some,Option.some.injEq] at hu
      subst hu
      split at hpend
      · cases hpend
      · rw [if_neg ‹_›] at hb hrun
        exact ⟨v,hv,hpend,hb,hrun⟩

theorem noticeExpired_shown {e : Effect} (h : e.connectionState.phase ≠ .connected) :
    e.noticeExpired.connectionState = e.connectionState := by
  have hno : ¬(e.connectionState.phase = .connected ∧
      e.connectionState.notice = some .newSession) := fun hp => h hp.1
  exact if_neg hno

/-- The run's own events, once it is through. -/
theorem own_ended (ho : Orderly s) (hl : s.live = some r) (hsc : s.scopes[r]? = some sc)
    (he : sc.remoteExited = true ∨ ∀ a, ¬s.page.Present r a) (hw : s.owner l = some r)
    (hstep : step js s l = some t) :
    Ended t ∧ Idle s.page t.page ∧ t.page.connectionState = s.page.connectionState := by
  obtain ⟨sc',hsc',hn,hg,_⟩ := live_scope ho hl
  obtain rfl := Option.some.inj (hsc.symm.trans hsc')
  subst hn
  cases step_move hstep with
  | mounted hm hc | unmounted hm hc | data hm | resize hm => cases hw
  | rejected hf hs hc | resolved hf hs hc =>
    simp only [State.owner,hf,Option.map_some,Option.some.injEq] at hw
    exact (through_fetch hg hf hs hw he).elim
  | reconnect hu hp hb hc => exact (through_timer hg ⟨_,hu,hp,hb⟩ he).elim
  | @notice i u _ hu hp hb hc =>
    simp only [State.owner,hu,Option.map_some,Option.some.injEq] at hw
    rw [hw] at hc
    obtain ⟨hend,hpage⟩ := call_ended hc hl hsc (he.imp id fun hno a ha => hno a (present_fewer ha))
    have hph := through_phase hg he
    rw [hpage]
    exact ⟨hend,⟨reconnects_clear s.page i,rfl,rfl⟩,noticeExpired_shown hph⟩
  | opened hx hest hs hc =>
    simp only [State.owner,hx,Option.map_some,Option.some.injEq] at hw
    obtain ⟨_,ht,_⟩ := through_socket hg hx hs hw he
    exact absurd (hest.symm.trans ht) Bool.false_ne_true
  | message hx hr hc =>
    simp only [State.owner,hx,Option.map_some,Option.some.injEq] at hw
    simp only [Socket.ready,Bool.and_eq_true,Bool.not_eq_true'] at hr
    obtain ⟨_,_,_,hcl⟩ := through_socket hg hx hr.2 hw he
    exact absurd (hr.1.2.symm.trans hcl) Bool.false_ne_true
  | @errored i x _ hx hs hc =>
    simp only [State.owner,hx,Option.map_some,Option.some.injEq] at hw
    obtain ⟨hre,_,hop,_⟩ := through_socket hg hx hs hw he
    have hsame : Effect.onError x ⟨s.page,sc⟩ = ⟨s.page,sc⟩ := by simp [Effect.onError,hop]
    rw [hw] at hc
    obtain ⟨hend,hpage⟩ := call_ended hc hl hsc (.inl (by rw [hsame]; exact hre))
    rw [hpage,hsame]
    exact ⟨hend,⟨rfl,rfl,rfl⟩,rfl⟩
  | @closed i x _ hx hs hc =>
    simp only [State.owner,hx,Option.map_some,Option.some.injEq] at hw
    obtain ⟨hre,_⟩ := through_socket hg hx hs hw he
    have hsame : ∃ ref, Effect.onClose i x ⟨s.page.shut i,sc⟩ =
        ⟨{ s.page.shut i with socketRef := ref },sc⟩ := by
      rw [onClose_eq]
      exact ⟨_,by simp [Effect.afterClose,hre]; rfl⟩
    obtain ⟨ref,hsame⟩ := hsame
    rw [hw] at hc
    obtain ⟨hend,hpage⟩ := call_ended hc hl hsc (.inl (by rw [hsame]; exact hre))
    rw [hpage,hsame]
    exact ⟨hend,⟨rfl,rfl,List.length_modify ..⟩,rfl⟩

theorem owner_known (hw : s.owner l = some r) (hstep : step js s l = some t) :
    r < s.scopes.length := by
  have known : ∀ {page : Page} {callback : Effect → Effect} {k : Nat},
      ({ s with page := page } : State).call k callback = some t → k < s.scopes.length := by
    intro page callback k hc
    obtain ⟨sc,hsc,_⟩ := Option.map_eq_some_iff.mp hc
    exact (List.getElem?_eq_some_iff.mp hsc).1
  cases step_move hstep with
  | mounted hm hc | unmounted hm hc | data hm | resize hm => cases hw
  | rejected hf hs hc | resolved hf hs hc =>
    simp only [State.owner,hf,Option.map_some,Option.some.injEq] at hw
    exact hw ▸ known hc
  | reconnect hu hp hb hc | notice hu hp hb hc =>
    simp only [State.owner,hu,Option.map_some,Option.some.injEq] at hw
    exact hw ▸ known hc
  | opened hx he hs hc | errored hx hs hc | message hx hr hc | closed hx hs hc =>
    simp only [State.owner,hx,Option.map_some,Option.some.injEq] at hw
    exact hw ▸ known hc

/-- Sending is nothing to what the run waits for. -/
structure Unminded (p q : Page) : Prop where
  idle : Idle p q
  shown : q.connectionState = p.connectionState
  present : ∀ n a, q.Present n a → p.Present n a

theorem unminded_same {p q : Page} (hs : q.sockets = p.sockets) (hf : q.fetches = p.fetches)
    (ht : q.timers = p.timers) (hc : q.connectionState = p.connectionState) : Unminded p q := by
  refine ⟨⟨reconnects_same ht,congrArg _ hf,congrArg _ hs⟩,hc,?_⟩
  intro n a ha
  cases a <;> simpa only [Page.Present,hs,hf,ht] using ha

theorem unminded_send (p : Page) (i : Nat) (frame : Bytes) : Unminded p (p.send i frame) := by
  refine ⟨⟨rfl,rfl,List.length_modify ..⟩,rfl,?_⟩
  intro n a ha
  refine (present_touch ?_ ?_).mp ha
  · exact fun _ => rfl
  · exact fun _ => rfl

theorem unminded_input (p : Page) (text : String) : Unminded p (p.sendInput text) :=
  sendInput_rule (fun _ => unminded_same rfl rfl rfl rfl) (fun i _ _ => unminded_send p i _)

theorem unminded_resize (p : Page) (size : Size) : Unminded p (p.sendResize size) := by
  have hz : Unminded p { p with latestSizeRef := some size } := unminded_same rfl rfl rfl rfl
  apply sendResize_rule (fun _ => hz)
  intro i _ _
  have h := unminded_send { p with latestSizeRef := some size } i (encodeResize size.cols size.rows)
  exact ⟨hz.idle.trans h.idle,h.shown,fun n a ha => hz.present n a (h.present n a ha)⟩

/-- Other runs' events, and what the reader of the page does. -/
theorem ended_step (ho : Orderly s) (hh : Held s.live s.page) (he : Ended s) (hu : l ≠ .unmount)
    (hstep : step js s l = some t) :
    Ended t ∧ Idle s.page t.page ∧ t.page.connectionState = s.page.connectionState := by
  obtain ⟨r,sc,hl,hsc,hthrough⟩ := he
  cases hw : s.owner l with
  | some k =>
    by_cases hk : k = r
    · exact own_ended ho hl hsc hthrough (hk ▸ hw) hstep
    · have hlive : t.live = s.live := by
        apply step_live hstep _ hu
        intro hm
        rw [hm] at hw
        cases hw
      have hover : s.Over k := ⟨owner_known hw hstep,fun hs => hk (Option.some.inj (hs.symm.trans hl))⟩
      obtain ⟨hpage,hscopes,_⟩ := over_inert ho hh hw hover hstep
      refine ⟨⟨r,sc,hlive.trans hl,hscopes ▸ hsc,?_⟩,?_,hpage.connectionState⟩
      · exact hthrough.imp id fun hno a ha => hno a (present_foreign (hpage.foreign r (Ne.symm hk)) ha)
      · exact ⟨reconnects_same hpage.timers,hpage.fetches,hpage.sockets⟩
  | none =>
    cases step_move hstep with
    | mounted hm hc => simp [State.live,hm] at hl
    | unmounted hm hc => exact absurd rfl hu
    | rejected hf hs hc | resolved hf hs hc => simp [State.owner,hf] at hw
    | reconnect ht hp hb hc | notice ht hp hb hc => simp [State.owner,ht] at hw
    | opened hx he hs hc | errored hx hs hc | message hx hr hc | closed hx hs hc =>
      simp [State.owner,hx] at hw
    | @data text hm =>
      obtain ⟨hidle,hshown,hpres⟩ := unminded_input s.page text
      exact ⟨⟨r,sc,hl,hsc,hthrough.imp id fun hno a ha => hno a (hpres r a ha)⟩,hidle,hshown⟩
    | @resize size hm =>
      obtain ⟨hidle,hshown,hpres⟩ := unminded_resize s.page size
      exact ⟨⟨r,sc,hl,hsc,hthrough.imp id fun hno a ha => hno a (hpres r a ha)⟩,hidle,hshown⟩

theorem ended_run (hr : (system js).Reachable s) (he : Ended s) {ls : List Label}
    (hu : .unmount ∉ ls) (hrun : (system js).run s ls = some t) :
    Idle s.page t.page ∧ t.page.connectionState = s.page.connectionState := by
  induction ls generalizing s with
  | nil =>
    obtain rfl := Option.some.inj hrun
    exact ⟨⟨rfl,rfl,rfl⟩,rfl⟩
  | cons l ls ih =>
    obtain ⟨u,hstep,hrest⟩ := Option.bind_eq_some_iff.mp hrun
    simp only [List.mem_cons,not_or] at hu
    obtain ⟨hend,hidle,hshown⟩ := ended_step (reachable_orderly hr) (reachable_held hr) he
      (Ne.symm hu.1) hstep
    obtain ⟨hidle',hshown'⟩ := ih (hr.step hstep) hend hu.2 hrest
    exact ⟨hidle.trans hidle',hshown'.trans hshown⟩

theorem quiet_idle {e f : Effect} (q : Quiet e f) (hr : f.reconnects = e.reconnects) :
    Idle e.toPage f.toPage :=
  ⟨hr,congrArg _ q.fetches,congrArg _ q.sockets⟩

theorem not_stale {p : Page} (hl : sc.cancelled = false) {n : Nat} (hn : n = sc.attempt) :
    ¬ Effect.stale ⟨p,sc⟩ n = true := by
  simp [Effect.stale,hl,hn]

theorem rejected_first {p : Page} {f : Fetch} (message : Option String)
    (hl : sc.cancelled = false) (hat : f.currentAttempt = sc.attempt) (hre : f.isReconnect = false) :
    Effect.rejected f message ⟨p,sc⟩ = Effect.setState
      ⟨.error,some .network,some (message.getD "connection error"),none,none⟩ ⟨p,sc⟩ := by
  unfold Effect.rejected
  rw [if_neg (not_stale hl hat),if_neg (by simp [hre])]

theorem resolved_refused {p : Page} {f : Fetch} {status : Nat} (hl : sc.cancelled = false)
    (hat : f.currentAttempt = sc.attempt) (hne : status ≠ 204) :
    ∃ state, Effect.resolved f status ⟨p,sc⟩ = Effect.setState state ⟨p,sc⟩ := by
  unfold Effect.resolved
  rw [if_neg (not_stale hl hat),if_pos hne]
  split
  · exact ⟨_,rfl⟩
  · exact ⟨_,rfl⟩

/-- A first socket that closes before it opened. -/
theorem onClose_first {p : Page} {i : Nat} {x : Socket} (hl : sc.cancelled = false)
    (hat : x.currentAttempt = sc.attempt) (hre : sc.remoteExited = false) (ho : x.opened = false)
    (hr : x.isReconnect = false) :
    ∃ ref, Effect.onClose i x ⟨p,sc⟩ = Effect.setState
      ⟨.error,some .websocketUpgrade,none,none,none⟩ ⟨{ p with socketRef := ref },sc⟩ := by
  rw [onClose_eq,Effect.afterClose,if_neg (not_stale hl hat),hre,ho,hr]
  exact ⟨_,rfl⟩

theorem onMessage_exited {p : Page} {i : Nat} {x : Socket} {data : Bytes} {code : Number}
    (hl : sc.cancelled = false) (hat : x.currentAttempt = sc.attempt)
    (hd : decodeServerFrame js data = .ok (.exited code)) :
    Effect.onMessage js i x data ⟨p,sc⟩ =
      let e := Effect.setState ⟨.closed,some .remoteExit,none,some code,none⟩
        ⟨p,{ sc with remoteExited := true }⟩
      { e with toPage := e.toPage.close i } := by
  unfold Effect.onMessage
  rw [if_neg (not_stale hl hat),hd]

/-- The run gives up with nothing of its own left. -/
theorem gave_up {page : Page} {callback : Effect → Effect} {e : Effect} {state : ConnectionState}
    (hc : ({ s with page := page } : State).call r callback = some t) (hl : s.live = some r)
    (hsc : s.scopes[r]? = some sc) (hcb : callback ⟨page,sc⟩ = e.setState state) (hb : Bare e)
    (hn : e.number = r) (hi : Idle s.page e.toPage) : Ended t ∧ Idle s.page t.page := by
  have q := quiet_setState state e
  have hnone : ∀ a, ¬(callback ⟨page,sc⟩).Present r a := by
    rw [hcb,← hn,← q.number]
    exact (hb.quiet q).idle
  obtain ⟨hend,hpage⟩ := call_ended hc hl hsc (.inr hnone)
  rw [hpage,hcb]
  exact ⟨hend,hi.trans (quiet_idle q (reconnects_setState e state))⟩

theorem exit_ended (ho : Orderly s) {i : Nat} {data : Bytes} {code : Number}
    (hd : decodeServerFrame js data = .ok (.exited code)) (hw : s.owner (.message i data) = some r)
    (hl : s.live = some r) (hstep : step js s (.message i data) = some t) :
    Ended t ∧ Idle s.page t.page ∧ t.page.connectionState =
      { phase := .closed,reason := some .remoteExit,exitCode := some code } := by
  obtain ⟨sc,hsc,hn,hg,_⟩ := live_scope ho hl
  subst hn
  cases step_move hstep with
  | @message _ x _ _ hx hr hc =>
    simp only [State.owner,hx,Option.map_some,Option.some.injEq] at hw
    simp only [Socket.ready,Bool.and_eq_true,Bool.not_eq_true'] at hr
    obtain ⟨hat,_⟩ := good_at hg hx hr.2 hw
    have hcb := onMessage_exited (p := s.page) (i := i) hg.live hat hd
    have q := quiet_setState ⟨.closed,some .remoteExit,none,some code,none⟩
      ⟨s.page,{ sc with remoteExited := true }⟩
    rw [hw] at hc
    obtain ⟨hend,hpage⟩ := call_ended hc hl hsc (.inl (by rw [hcb]; exact q.remoteExited))
    rw [hpage,hcb]
    have hidle := quiet_idle q (reconnects_setState _ _)
    exact ⟨hend,hidle.trans ⟨rfl,rfl,List.length_modify ..⟩,rfl⟩

theorem ending_step (ho : Orderly s) (hw : s.owner l = some r) (hl : s.live = some r)
    (he : ends js s l = true) (hstep : step js s l = some t) :
    Ended t ∧ Idle s.page t.page := by
  obtain ⟨sc,hsc,hn,hg,_⟩ := live_scope ho hl
  have hsettle : ∀ i, Idle s.page (s.page.settle i) := fun i => ⟨rfl,List.length_modify ..,rfl⟩
  cases step_move hstep with
  | mounted hm hc | unmounted hm hc | data hm | resize hm => cases hw
  | reconnect hu hp hb hc | notice hu hp hb hc | opened hx hest hs hc | errored hx hs hc => cases he
  | @rejected i f message _ hf hs hc =>
    simp only [State.owner,hf,Option.map_some,Option.some.injEq] at hw
    obtain ⟨hb,_,hat,_⟩ := good_settle hg hf hs (hw.trans hn.symm)
    have hre : f.isReconnect = false := by simpa [ends,hf] using he
    rw [hw] at hc
    exact gave_up hc hl hsc (rejected_first message hg.live hat hre) hb hn (hsettle i)
  | @resolved i f status _ hf hs hc =>
    simp only [State.owner,hf,Option.map_some,Option.some.injEq] at hw
    obtain ⟨hb,_,hat,_⟩ := good_settle hg hf hs (hw.trans hn.symm)
    have hne : status ≠ 204 := by simpa [ends] using he
    obtain ⟨state,hcb⟩ := resolved_refused (p := s.page.settle i) hg.live hat hne
    rw [hw] at hc
    exact gave_up hc hl hsc hcb hb hn (hsettle i)
  | @message i x data _ hx hr hc =>
    simp only [ends] at he
    split at he
    · obtain ⟨hend,hidle,_⟩ := exit_ended ho ‹_› hw hl hstep
      exact ⟨hend,hidle⟩
    · cases he
  | @closed i x _ hx hs hc =>
    simp only [State.owner,hx,Option.map_some,Option.some.injEq] at hw
    simp only [ends,hx,Option.any_some,Bool.and_eq_true,Bool.not_eq_true'] at he
    obtain ⟨hat,⟨hop,hfit⟩,_⟩ := good_at hg hx hs (hw.trans hn.symm)
    have hre : sc.remoteExited = false := by
      rcases hfit with ⟨_,hest,_⟩ | ⟨hno,_⟩
      · exact absurd (he.2.symm.trans (hop.trans hest)) Bool.false_ne_true
      · exact hno
    obtain ⟨ref,hcb⟩ := onClose_first (p := s.page.shut i) (i := i) hg.live hat hre he.2 he.1
    obtain ⟨hb,_⟩ := good_closed hg hx hs (hw.trans hn.symm) ref
    rw [hw] at hc
    exact gave_up hc hl hsc hcb hb hn ⟨rfl,rfl,List.length_modify ..⟩

end Through

/-- A run tries again only after the events that call for it, and once it was told to
give up it makes nothing more until it is unmounted, and goes on showing a remote exit. -/
theorem retry_policy {js : Js} {s : State} (hr : (system js).Reachable s) :
    (∀ l t, step js s l = some t → s.page.reconnects < t.page.reconnects → Retrying s l) ∧
    ∀ l t ls u, s.mounted = true → s.owner l = s.live → ends js s l = true →
      step js s l = some t → .unmount ∉ ls → (system js).run t ls = some u →
      Idle s.page u.page ∧
      ∀ i data code, l = .message i data → decodeServerFrame js data = .ok (.exited code) →
        u.page.connectionState =
          { phase := .closed,reason := some .remoteExit,exitCode := some code } := by
  refine ⟨?_,?_⟩
  · intro l t hstep hlt
    by_contra hno
    exact Nat.ne_of_gt hlt (step_reconnects hstep hno)
  · intro l t ls u hm hw he hstep hu hrun
    have hl : s.live = some (s.scopes.length - 1) := by simp [State.live,hm]
    have ho := reachable_orderly hr
    obtain ⟨hend,hidle⟩ := ending_step ho (hw.trans hl) hl he hstep
    obtain ⟨hidle',hshown⟩ := ended_run (hr.step hstep) hend hu hrun
    refine ⟨hidle.trans hidle',?_⟩
    intro i data code hm hd
    subst hm
    obtain ⟨_,_,hexit⟩ := exit_ended ho hd (hw.trans hl) hl hstep
    exact hshown.trans hexit

/-- The command is gone before the socket is, which then closes. -/
def exitRun : List Label := [.mount,.fetched 0 (.ok 204),.opened 0]

theorem retry_policy_exit :
    ∃ s t u, (system ⟨fun _ => "",fun _ => .integer 0⟩).Reachable s ∧
      step ⟨fun _ => "",fun _ => .integer 0⟩ s (.message 0 [4,48]) = some t ∧
      (system ⟨fun _ => "",fun _ => .integer 0⟩).run t [.errored 0,.closed 0,.resize ⟨80,24⟩] =
        some u ∧
      Idle s.page u.page ∧ u.page.connectionState.exitCode = some (.integer 0) := by
  have hr := System.reachable_end (m := system ⟨fun _ => "",fun _ => .integer 0⟩) exitRun rfl
  obtain ⟨hidle,hshown⟩ := (retry_policy hr).2 (.message 0 [4,48]) _
    [.errored 0,.closed 0,.resize ⟨80,24⟩] _ rfl rfl rfl rfl (by decide) rfl
  exact ⟨_,_,_,hr,rfl,rfl,hidle,congrArg _ (hshown 0 [4,48] _ rfl rfl)⟩

end Terminald.App
