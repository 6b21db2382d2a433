import Mathlib.Data.List.Forall2
import Terminald.Proofs.Inert

namespace Terminald.App
open Machine Browser

/-- The event is one for a run that was cleaned up. -/
def State.late (s : State) (l : Label) : Bool :=
  (s.owner l).any (fun r => decide (r < s.scopes.length) && s.live != some r)

/-- A socket beside the same one after fewer events: once its run is over, they may differ in what
the browser has told of it. -/
structure SocketLike (live : Option Nat) (x y : Socket) : Prop where
  same : some x.run = live → y = x
  rest : y = { x with established := y.established,closing := y.closing,closed := y.closed }

structure FetchLike (live : Option Nat) (f g : Fetch) : Prop where
  same : some f.run = live → g = f
  rest : g = { f with settled := g.settled }

structure PageLike (live : Option Nat) (p q : Page) : Prop where
  rest : q = { p with sockets := q.sockets,fetches := q.fetches }
  sockets : List.Forall₂ (SocketLike live) p.sockets q.sockets
  fetches : List.Forall₂ (FetchLike live) p.fetches q.fetches

/-- All that the user, the live run and the servers have of a page is the same. -/
structure Alike (s t : State) : Prop where
  page : PageLike s.live s.page t.page
  scopes : t.scopes = s.scopes
  mounted : t.mounted = s.mounted

structure EffectLike (live : Option Nat) (e f : Effect) : Prop where
  page : PageLike live e.toPage f.toPage
  scope : f.toScope = e.toScope

section Lists
variable {α β : Type*} {R : α → β → Prop} {xs : List α} {ys : List β} {f : α → α} {g : β → β} {i : Nat}

theorem pairs_get (h : List.Forall₂ R xs ys) {x : α} (hx : xs[i]? = some x) : ∃ y, ys[i]? = some y ∧ R x y := by
  induction h generalizing i with
  | nil => cases hx
  | cons hr hs ih =>
    cases i with
    | zero => exact ⟨_,rfl,Option.some.inj hx ▸ hr⟩
    | succ i => exact ih hx

theorem pairs_modify (h : List.Forall₂ R xs ys) (hf : ∀ x y, xs[i]? = some x → R x y → R (f x) (g y)) :
    List.Forall₂ R (xs.modify i f) (ys.modify i g) := by
  induction h generalizing i with
  | nil => cases i <;> exact .nil
  | cons hr hs ih =>
    cases i with
    | zero => exact .cons (hf _ _ rfl hr) hs
    | succ i => exact .cons hr (ih hf)

theorem pairs_left (h : List.Forall₂ R xs ys) (hf : ∀ x y, xs[i]? = some x → R x y → R (f x) y) :
    List.Forall₂ R (xs.modify i f) ys := by
  have := pairs_modify (g := id) h hf
  rwa [List.modify_id] at this

theorem pairs_snoc (h : List.Forall₂ R xs ys) {x : α} {y : β} (hr : R x y) :
    List.Forall₂ R (xs ++ [x]) (ys ++ [y]) :=
  List.rel_append h (.cons hr .nil)

end Lists

section Pages
variable {live : Option Nat} {p q : Page} {x y : Socket} {f g : Fetch} {i : Nat}

theorem socket_refl (x : Socket) : SocketLike live x x := ⟨fun _ => rfl,rfl⟩

theorem fetch_refl (f : Fetch) : FetchLike live f f := ⟨fun _ => rfl,rfl⟩

theorem SocketLike.run (h : SocketLike live x y) : y.run = x.run := by rw [h.rest]

theorem FetchLike.run (h : FetchLike live f g) : g.run = f.run := by rw [h.rest]

theorem SocketLike.close (h : SocketLike live x y) :
    SocketLike live { x with closing := true } { y with closing := true } :=
  ⟨fun hr => by rw [h.same hr],by rw [h.rest]⟩

theorem PageLike.refl (p : Page) : PageLike live p p :=
  ⟨rfl,List.forall₂_same.mpr (fun x _ => socket_refl x),List.forall₂_same.mpr (fun f _ => fetch_refl f)⟩

/-- A run that comes or goes has no sockets and fetches of an earlier one. -/
theorem PageLike.other {now : Option Nat} (h : PageLike live p q)
    (hs : ∀ (i : Nat) (x : Socket), p.sockets[i]? = some x → some x.run = now → some x.run = live)
    (hf : ∀ (i : Nat) (f : Fetch), p.fetches[i]? = some f → some f.run = now → some f.run = live) :
    PageLike now p q := by
  refine ⟨h.rest,?_,?_⟩
  · rw [List.forall₂_iff_zip]
    refine ⟨h.sockets.length_eq,fun {x y} hm => ?_⟩
    have hr := (List.forall₂_iff_zip.mp h.sockets).2 hm
    obtain ⟨i,hi⟩ := List.mem_iff_getElem?.mp (List.of_mem_zip hm).1
    exact ⟨fun he => hr.same (hs i x hi he),hr.rest⟩
  · rw [List.forall₂_iff_zip]
    refine ⟨h.fetches.length_eq,fun {f g} hm => ?_⟩
    have hr := (List.forall₂_iff_zip.mp h.fetches).2 hm
    obtain ⟨i,hi⟩ := List.mem_iff_getElem?.mp (List.of_mem_zip hm).1
    exact ⟨fun he => hr.same (hf i f hi he),hr.rest⟩

theorem PageLike.socketRef (h : PageLike live p q) : q.socketRef = p.socketRef := by rw [h.rest]

theorem PageLike.modify (h : PageLike live p q) {u : Socket → Socket}
    (hu : ∀ x y, p.sockets[i]? = some x → SocketLike live x y → SocketLike live (u x) (u y)) :
    PageLike live { p with sockets := p.sockets.modify i u } { q with sockets := q.sockets.modify i u } :=
  ⟨by rw [h.rest],pairs_modify h.sockets hu,h.fetches⟩

theorem PageLike.close (h : PageLike live p q) (i : Nat) : PageLike live (p.close i) (q.close i) :=
  h.modify (fun _ _ _ => SocketLike.close)

theorem PageLike.detach (h : PageLike live p q) (ref : Option Nat) :
    PageLike live { p with socketRef := ref } { q with socketRef := ref } :=
  ⟨by rw [h.rest],h.sockets,h.fetches⟩

/-- What the live run does to one of its own sockets. -/
theorem PageLike.own (h : PageLike live p q) (hx : p.sockets[i]? = some x) (hr : some x.run = live)
    (u : Socket → Socket) :
    PageLike live { p with sockets := p.sockets.modify i u } { q with sockets := q.sockets.modify i u } := by
  refine h.modify (fun x' y hx' hxy => ?_)
  obtain rfl := Option.some.inj (hx.symm.trans hx')
  rw [hxy.same hr]
  exact socket_refl _

theorem PageLike.send (h : PageLike live p q) (hx : p.sockets[i]? = some x) (hr : some x.run = live)
    (frame : Bytes) : PageLike live (p.send i frame) (q.send i frame) :=
  h.own hx hr _

theorem PageLike.settle (h : PageLike live p q) (hf : p.fetches[i]? = some f) (hr : some f.run = live) :
    PageLike live (p.settle i) (q.settle i) := by
  refine ⟨by rw [Page.settle,h.rest]; rfl,h.sockets,pairs_modify h.fetches (fun f' g hf' hfg => ?_)⟩
  obtain rfl := Option.some.inj (hf.symm.trans hf')
  rw [hfg.same hr]
  exact fetch_refl _

theorem PageLike.isReady (h : PageLike live p q) (hx : p.sockets[i]? = some x) (hr : some x.run = live) :
    q.isReady i = p.isReady i := by
  obtain ⟨y,hy,hxy⟩ := pairs_get h.sockets hx
  rw [Page.isReady,Page.isReady,hx,hy,hxy.same hr]

/-- The current socket is one of the live run. -/
theorem current_own (hh : Held live p) (hi : p.socketRef = some i) :
    ∃ x, p.sockets[i]? = some x ∧ some x.run = live := by
  obtain ⟨x,hx,_,hr⟩ := (hh.current i).mp hi
  exact ⟨x,hx,hr⟩

/-- A frame for the current socket, if that is open. -/
def Page.offer (p : Page) (frame : Bytes) : Page :=
  p.socketRef.elim p (fun i => if p.isReady i then p.send i frame else p)

theorem sendInput_offer (p : Page) (text : String) : p.sendInput text = p.offer (encodeInput (utf8 text)) := by
  unfold Page.sendInput Page.offer
  cases p.socketRef <;> rfl

theorem sendResize_offer (p : Page) (size : Size) :
    p.sendResize size = Page.offer { p with latestSizeRef := some size } (encodeResize size.cols size.rows) := by
  unfold Page.sendResize Page.offer
  dsimp only
  split <;> rename_i hi <;> rw [hi] <;> rfl

theorem PageLike.offer (h : PageLike live p q) (hh : Held live p) (frame : Bytes) :
    PageLike live (p.offer frame) (q.offer frame) := by
  unfold Page.offer
  rw [h.socketRef]
  cases hi : p.socketRef with
  | none => exact h
  | some i =>
    obtain ⟨x,hx,hr⟩ := current_own hh hi
    simp only [Option.elim_some]
    rw [h.isReady hx hr]
    split
    · exact h.send hx hr _
    · exact h

end Pages

/-- The same with other sockets and fetches. -/
def Effect.swap (e : Effect) (xs : List Socket) (fs : List Fetch) : Effect := { e with sockets := xs,fetches := fs }

/-- A part of a callback that does not know of sockets and fetches. -/
def Deaf (k : Effect → Effect) : Prop := ∀ e xs fs, k (e.swap xs fs) = (k e).swap xs fs

section Deaf

theorem deaf_id : Deaf (fun e => e) := fun _ _ _ => rfl

theorem deaf_comp {a b : Effect → Effect} (ha : Deaf a) (hb : Deaf b) : Deaf (fun e => b (a e)) := by
  intro e xs fs
  dsimp only
  rw [ha e xs fs,hb]

theorem deaf_ite {c : Effect → Bool} {a b : Effect → Effect} (hc : ∀ e xs fs, c (e.swap xs fs) = c e)
    (ha : Deaf a) (hb : Deaf b) : Deaf (fun e => if c e then a e else b e) := by
  intro e xs fs
  dsimp only
  rw [hc]
  split
  · exact ha e xs fs
  · exact hb e xs fs

theorem deaf_clearReconnectTimer : Deaf Effect.clearReconnectTimer := by
  intro e xs fs
  have hr : (e.swap xs fs).reconnectTimerRef = e.reconnectTimerRef := rfl
  unfold Effect.clearReconnectTimer
  rw [hr]
  split <;> rfl

theorem deaf_clearNoticeTimer : Deaf Effect.clearNoticeTimer := by
  intro e xs fs
  have hr : (e.swap xs fs).noticeTimer = e.noticeTimer := rfl
  unfold Effect.clearNoticeTimer
  rw [hr]
  split <;> rfl

theorem deaf_setConnectionState (update : ConnectionState → ConnectionState) :
    Deaf (Effect.setConnectionState update) := fun _ _ _ => rfl

theorem deaf_setState (state : ConnectionState) : Deaf (Effect.setState state) := by
  intro e xs fs
  unfold Effect.setState
  split
  · exact deaf_comp deaf_clearNoticeTimer (deaf_setConnectionState _) e xs fs
  · rfl

theorem deaf_schedule : Deaf Effect.scheduleReconnect := by
  refine deaf_ite (c := fun e => e.cancelled || e.reconnectTimerRef.isSome) (fun _ _ _ => rfl) deaf_id ?_
  exact deaf_comp (b := fun e => { e with
    timers := e.timers ++ [⟨e.number,.reconnect,true⟩],reconnectTimerRef := some e.timers.length })
    (deaf_comp deaf_clearNoticeTimer (deaf_setConnectionState _)) (fun _ _ _ => rfl)

theorem deaf_showConnected (isReconnect : Bool) : Deaf (Effect.showConnected isReconnect) := by
  cases isReconnect with
  | false => exact deaf_setState _
  | true =>
    exact deaf_comp (b := fun e => { e with
      timers := e.timers ++ [⟨e.number,.notice,true⟩],noticeTimer := some e.timers.length })
      (deaf_comp deaf_clearNoticeTimer (deaf_setState _)) (fun _ _ _ => rfl)

theorem deaf_noticeExpired : Deaf Effect.noticeExpired := fun _ _ _ => rfl

theorem deaf_rejected (f : Fetch) (message : Option String) : Deaf (Effect.rejected f message) := by
  refine deaf_ite (c := fun e => e.stale f.currentAttempt) (fun _ _ _ => rfl) deaf_id ?_
  cases f.isReconnect with
  | true => exact deaf_comp (deaf_setState _) deaf_schedule
  | false => exact deaf_setState _

theorem deaf_error (x : Socket) : Deaf (Effect.onError x) :=
  deaf_ite (c := fun e => e.stale x.currentAttempt) (fun _ _ _ => rfl) deaf_id
    (deaf_ite (c := fun _ => !x.opened && !x.isReconnect) (fun _ _ _ => rfl) (deaf_setState _) deaf_id)

theorem deaf_close (i : Nat) (x : Socket) : Deaf (Effect.onClose i x) := by
  have hafter : Deaf (Effect.afterClose x) :=
    deaf_ite (c := fun e => e.stale x.currentAttempt) (fun _ _ _ => rfl) deaf_id
      (deaf_ite (c := fun e => e.remoteExited) (fun _ _ _ => rfl) deaf_id
        (deaf_ite (c := fun _ => x.opened) (fun _ _ _ => rfl) deaf_schedule
          (deaf_ite (c := fun _ => x.isReconnect) (fun _ _ _ => rfl) deaf_schedule (deaf_setState _))))
  intro e xs fs
  rw [onClose_eq,onClose_eq]
  exact hafter { e with socketRef := if e.socketRef = some i then none else e.socketRef } xs fs

end Deaf

section Callbacks
variable {live : Option Nat} {e f : Effect} {i : Nat} {x : Socket}

theorem EffectLike.swap (h : EffectLike live e f) : f = e.swap f.sockets f.fetches := by
  obtain ⟨⟨hrest,_,_⟩,hscope⟩ := h
  obtain ⟨p,sc⟩ := e
  obtain ⟨q,sd⟩ := f
  dsimp only at hrest hscope
  subst hscope
  exact congrArg (fun page => Effect.mk page sd) hrest

theorem like_swap {xs : List Socket} {fs : List Fetch} (hs : List.Forall₂ (SocketLike live) e.sockets xs)
    (hf : List.Forall₂ (FetchLike live) e.fetches fs) : EffectLike live e (e.swap xs fs) :=
  ⟨⟨rfl,hs,hf⟩,rfl⟩

theorem deaf_same {k : Effect → Effect} (hd : Deaf k) (e : Effect) :
    (k e).sockets = e.sockets ∧ (k e).fetches = e.fetches := by
  have hkeep : k e = (k e).swap e.sockets e.fetches := hd e e.sockets e.fetches
  exact ⟨congrArg (fun e => e.sockets) hkeep,congrArg (fun e => e.fetches) hkeep⟩

theorem EffectLike.deaf (h : EffectLike live e f) {k : Effect → Effect} (hd : Deaf k) :
    EffectLike live (k e) (k f) := by
  obtain ⟨hsockets,hfetches⟩ := deaf_same hd e
  rw [h.swap,hd]
  exact like_swap (hsockets ▸ h.page.sockets) (hfetches ▸ h.page.fetches)

theorem EffectLike.stale (h : EffectLike live e f) (n : Nat) : f.stale n = e.stale n := by
  rw [h.swap]
  rfl

theorem EffectLike.latestSizeRef (h : EffectLike live e f) : f.latestSizeRef = e.latestSizeRef := by
  rw [h.swap]
  rfl

theorem EffectLike.page' (h : EffectLike live e f) {p q : Page} (hp : PageLike live p q) :
    EffectLike live { e with toPage := p } { f with toPage := q } := ⟨hp,h.scope⟩

theorem EffectLike.fetch (h : EffectLike live e f) (isReconnect : Bool) :
    EffectLike live { e with fetches := e.fetches ++ [⟨e.number,e.attempt,isReconnect,false⟩] }
      { f with fetches := f.fetches ++ [⟨f.number,f.attempt,isReconnect,false⟩] } := by
  rw [h.swap]
  exact like_swap h.page.sockets (pairs_snoc h.page.fetches (fetch_refl _))

theorem like_connect (h : EffectLike live e f) (isReconnect : Bool) :
    EffectLike live (e.connect isReconnect) (f.connect isReconnect) := by
  have hnext := h.deaf (k := fun e => { e with attempt := e.attempt + 1 }) (fun _ _ _ => rfl)
  exact (hnext.deaf (deaf_setState { phase := if isReconnect then .reconnecting else .connecting })).fetch isReconnect

theorem like_resolved (h : EffectLike live e f) (g : Fetch) (status : Nat) :
    EffectLike live (e.resolved g status) (f.resolved g status) := by
  unfold Effect.resolved
  rw [h.stale]
  split
  · exact h
  · split
    · exact h.deaf (deaf_setState _)
    · split
      · exact h.deaf (deaf_setState _)
      · have hlen := h.page.sockets.length_eq
        rw [h.swap]
        refine ⟨⟨?_,?_,h.page.fetches⟩,rfl⟩
        · rw [hlen]
          rfl
        · exact pairs_snoc h.page.sockets (socket_refl _)

theorem like_onOpen (h : EffectLike live e f) (hx : e.sockets[i]? = some x) (hr : some x.run = live)
    (y : Socket) : EffectLike live (e.onOpen i y) (f.onOpen i y) := by
  unfold Effect.onOpen
  rw [h.stale]
  split
  · exact h.page' (h.page.close i)
  · have hopen := h.page' (h.page.own hx hr (fun x => { x with opened := true }))
    have hshown := hopen.deaf (deaf_showConnected y.isReconnect)
    have hsockets := (deaf_same (deaf_showConnected y.isReconnect)
      { e with sockets := e.sockets.modify i (fun x => { x with opened := true }) }).1
    have hown := (congrArg (fun xs => xs[i]?) hsockets).trans
      (by simp [hx] : _ = some { x with opened := true })
    have hsize := hshown.latestSizeRef
    dsimp only at hshown hown hsize ⊢
    generalize Effect.showConnected y.isReconnect _ = e' at hshown hown hsize ⊢
    generalize Effect.showConnected y.isReconnect _ = f' at hshown hsize ⊢
    rw [hsize]
    split
    · exact hshown.page' (hshown.page.send hown hr _)
    · exact hshown

theorem like_onMessage (h : EffectLike live e f) (js : Js) (i : Nat) (y : Socket) (data : Bytes) :
    EffectLike live (e.onMessage js i y data) (f.onMessage js i y data) := by
  unfold Effect.onMessage
  rw [h.stale]
  split
  · exact h
  · cases decodeServerFrame js data with
    | error why => exact h
    | ok frame =>
      cases frame with
      | output data => exact h.deaf (k := fun e => { e with written := e.written ++ [data] }) (fun _ _ _ => rfl)
      | error message => exact h.deaf (deaf_setState _)
      | exited code =>
        have hexit := (h.deaf (k := fun e => { e with remoteExited := true }) (fun _ _ _ => rfl)).deaf
          (deaf_setState { phase := .closed,reason := some .remoteExit,exitCode := some code })
        exact hexit.page' (hexit.page.close i)

theorem like_cleanup (h : EffectLike live e f) : EffectLike live e.cleanup f.cleanup := by
  have hover := (h.deaf (k := fun e => { e with cancelled := true,attempt := e.attempt + 1 })
    (fun _ _ _ => rfl)).deaf (deaf_comp deaf_clearReconnectTimer deaf_clearNoticeTimer)
  unfold Effect.cleanup
  dsimp only at hover ⊢
  generalize Effect.clearNoticeTimer _ = e' at hover ⊢
  generalize Effect.clearNoticeTimer _ = f' at hover ⊢
  rw [hover.page.socketRef]
  split
  · exact hover.page' ((hover.page.close _).detach none)
  · exact hover

end Callbacks

section Late
variable {js : Js} {s t s' : State} {l : Label} {live : Option Nat} {p q : Page} {i r : Nat}

/-- What the browser tells of a socket whose run is over is not seen. -/
theorem PageLike.stray (h : PageLike live p q) {x : Socket} (hx : p.sockets[i]? = some x) (hr : some x.run ≠ live)
    {u : Socket → Socket} (hu : ∀ x, u x = { x with
      established := (u x).established,closing := (u x).closing,closed := (u x).closed }) :
    PageLike live { p with sockets := p.sockets.modify i u } q := by
  refine ⟨h.rest,pairs_left h.sockets (fun x' y hx' hxy => ?_),h.fetches⟩
  obtain rfl := Option.some.inj (hx.symm.trans hx')
  refine ⟨fun he => ?_,?_⟩
  · rw [hu x] at he
    exact absurd he hr
  · rw [hu x]
    exact hxy.rest

theorem PageLike.strayFetch (h : PageLike live p q) {f : Fetch} (hf : p.fetches[i]? = some f)
    (hr : some f.run ≠ live) : PageLike live (p.settle i) q := by
  refine ⟨h.rest,h.sockets,pairs_left h.fetches (fun f' g hf' hfg => ?_)⟩
  obtain rfl := Option.some.inj (hf.symm.trans hf')
  exact ⟨fun he => absurd he hr,hfg.rest⟩

/-- The callback of a run that is over does what it does without the variables of its run. -/
theorem call_over (h : Orderly s) (ho : s.Over r) {page : Page} {callback : Effect → Effect}
    (hc : ({ s with page := page } : State).call r callback = some t)
    (hcb : ∀ sc : Scope, sc.cancelled = true → callback ⟨page,sc⟩ = ⟨q,sc⟩) : t = { s with page := q } := by
  obtain ⟨sc,hsc,he⟩ := Option.map_eq_some_iff.mp hc
  rw [hcb sc (over_cancelled h ho hsc)] at he
  simp only [set_same hsc] at he
  exact he.symm

theorem late_over (hl : s.late l = true) : ∃ r, s.owner l = some r ∧ s.Over r := by
  obtain ⟨r,hr,ho⟩ := (Option.any_eq_true _ _).mp hl
  simp only [Bool.and_eq_true,decide_eq_true_eq,bne_iff_ne] at ho
  exact ⟨r,hr,ho⟩

/-- And an event that is not late is one for the live run. -/
theorem owner_live (hl : s.late l = false) (hw : s.owner l = some r) {sc : Scope} (hsc : s.scopes[r]? = some sc) :
    some r = s.live := by
  rw [State.late,hw,Option.any_some,Bool.and_eq_false_iff] at hl
  rcases hl with hl | hl
  · exact absurd (List.getElem?_eq_some_iff.mp hsc).1 (of_decide_eq_false hl)
  · exact (by simpa using hl : s.live = some r).symm

theorem close_detached {sc : Scope} (hc : sc.cancelled = true) (hne : p.socketRef ≠ some i) (x : Socket) :
    Effect.onClose i x ⟨p.shut i,sc⟩ = ⟨p.shut i,sc⟩ := by
  simp only [Effect.onClose,Page.shut,hne,if_false]
  exact if_pos (stale_cancelled hc x.currentAttempt)

theorem late_alike (ho : Orderly s) (hh : Held s.live s.page) (h : Alike s s') (hl : s.late l = true)
    (hstep : step js s l = some t) : Alike t s' := by
  obtain ⟨r,hw,hover⟩ := late_over hl
  have done : ∀ {q : Page}, PageLike s.live q s'.page → Alike { s with page := q } s' :=
    fun hq => ⟨hq,h.scopes,h.mounted⟩
  cases step_move hstep with
  | mounted hm hc | unmounted hm hc => cases hw
  | data hm | resize hm => cases hw
  | @rejected i f message _ hf hs hc =>
    obtain rfl : f.run = r := by simpa [State.owner,hf] using hw
    rw [call_over ho hover hc (fun sc hsc => rejected_stale hsc f message)]
    exact done (h.page.strayFetch hf hover.2.symm)
  | @resolved i f status _ hf hs hc =>
    obtain rfl : f.run = r := by simpa [State.owner,hf] using hw
    rw [call_over ho hover hc (fun sc hsc => resolved_stale hsc f status)]
    exact done (h.page.strayFetch hf hover.2.symm)
  | reconnect hu hp hb hc | notice hu hp hb hc =>
    have hr := pending_run ho hu hp
    simp only [State.owner,hu,Option.map_some] at hw
    exact absurd (hr.trans hw) hover.2
  | @opened i x _ hx he hs hc =>
    obtain rfl : x.run = r := by simpa [State.owner,hx] using hw
    rw [@call_over _ _ ((s.page.establish i).close i) _ ho hover _ _ hc (fun sc hsc => open_stale hsc i x)]
    have hy : (s.page.establish i).sockets[i]? = some { x with established := true } := by
      simp [Page.establish,hx]
    exact done ((h.page.stray hx hover.2.symm (fun _ => rfl)).stray hy hover.2.symm (fun _ => rfl))
  | @errored i x _ hx hs hc =>
    obtain rfl : x.run = r := by simpa [State.owner,hx] using hw
    rw [call_over ho hover hc (fun sc hsc => error_stale hsc x)]
    exact done h.page
  | @message i x data _ hx hr hc =>
    obtain rfl : x.run = r := by simpa [State.owner,hx] using hw
    rw [call_over ho hover hc (fun sc hsc => message_stale hsc js i x data)]
    exact done h.page
  | @closed i x _ hx hs hc =>
    obtain rfl : x.run = r := by simpa [State.owner,hx] using hw
    have hne : s.page.socketRef ≠ some i := over_detached hh hx hover
    rw [call_over ho hover hc (fun sc hsc => close_detached hsc hne x)]
    exact done (h.page.stray hx hover.2.symm (fun _ => rfl))

end Late

section Kept
variable {js : Js} {s t s' : State} {l : Label} {live : Option Nat} {p q : Page} {i r : Nat}

/-- A callback on the variables of its run, on two pages that look alike. -/
theorem call_like {callback : Effect → Effect} (hpage : PageLike live p q) (hscopes : s'.scopes = s.scopes)
    (hmounted : s'.mounted = s.mounted)
    (hcb : ∀ sc, EffectLike live ⟨p,sc⟩ ⟨q,sc⟩ → EffectLike live (callback ⟨p,sc⟩) (callback ⟨q,sc⟩))
    (hc : ({ s with page := p } : State).call r callback = some t) :
    ∃ t', ({ s' with page := q } : State).call r callback = some t' ∧ PageLike live t.page t'.page ∧
      t'.scopes = t.scopes ∧ t'.mounted = t.mounted := by
  obtain ⟨sc,hsc,rfl⟩ := Option.map_eq_some_iff.mp hc
  have hlike := hcb sc ⟨hpage,rfl⟩
  have hsc' : s'.scopes[r]? = some sc := hscopes ▸ hsc
  refine ⟨_,Option.map_eq_some_iff.mpr ⟨sc,hsc',rfl⟩,hlike.page,?_,hmounted⟩
  simp only [hlike.scope,hscopes]

theorem call_alike {callback : Effect → Effect} (h : Alike s s') (hpage : PageLike s.live p q)
    (hcb : ∀ sc, EffectLike s.live ⟨p,sc⟩ ⟨q,sc⟩ → EffectLike s.live (callback ⟨p,sc⟩) (callback ⟨q,sc⟩))
    (hc : ({ s with page := p } : State).call r callback = some t) :
    ∃ t', ({ s' with page := q } : State).call r callback = some t' ∧ Alike t t' := by
  obtain ⟨t',hc',hp,hs,hm⟩ := call_like hpage h.scopes h.mounted hcb hc
  exact ⟨t',hc',(call_live_same hc).symm ▸ hp,hs,hm⟩

theorem call_scope {callback : Effect → Effect} (hc : s.call r callback = some t) : ∃ sc, s.scopes[r]? = some sc := by
  obtain ⟨sc,hsc,_⟩ := Option.map_eq_some_iff.mp hc
  exact ⟨sc,hsc⟩

theorem PageLike.timeout (h : PageLike live p q) (i : Nat) : PageLike live (p.clearTimeout i) (q.clearTimeout i) := by
  refine ⟨?_,h.sockets,h.fetches⟩
  rw [Page.clearTimeout,h.rest]
  rfl

theorem PageLike.timers (h : PageLike live p q) : q.timers = p.timers := by rw [h.rest]

/-- Every move is a step. -/
theorem move_step (h : Move js s l t) : step js s l = some t := by
  cases h with
  | mounted hm hc => simpa [step,hm,freshScope] using hc
  | unmounted hm hc => simp [step,hm,hc]
  | rejected hf hs hc | resolved hf hs hc => simp only [step,hf,hs]; exact hc
  | reconnect hu hp hb hc | notice hu hp hb hc => simp only [step,hu,hp,hb]; exact hc
  | opened hx he hs hc => simp only [step,hx,he,hs]; exact hc
  | errored hx hs hc => simp only [step,hx,hs]; exact hc
  | message hx hr hc => simp only [step,hx,hr]; exact hc
  | closed hx hs hc => simp only [step,hx,hs]; exact hc
  | data hm | resize hm => simp [step,hm]

theorem unmounted_tagged (h : Orderly s) (hm : s.mounted = false) : Tagged s.scopes.length s.page := by
  cases h with
  | mounted hp hn hg ht => cases hm
  | unmounted hp hq hr ht => exact ht

theorem kept_alike (ho : Orderly s) (hh : Held s.live s.page) (h : Alike s s') (hl : s.late l = false)
    (hstep : step js s l = some t) : ∃ t', step js s' l = some t' ∧ Alike t t' := by
  have owned : ∀ {i : Nat} {x : Socket}, s.page.sockets[i]? = some x → some x.run = s.live →
      s'.page.sockets[i]? = some x := by
    intro i x hx hr
    obtain ⟨y,hy,hxy⟩ := pairs_get h.page.sockets hx
    exact hxy.same hr ▸ hy
  have fetched : ∀ {i : Nat} {f : Fetch}, s.page.fetches[i]? = some f → some f.run = s.live →
      s'.page.fetches[i]? = some f := by
    intro i f hf hr
    obtain ⟨g,hg,hfg⟩ := pairs_get h.page.fetches hf
    exact hfg.same hr ▸ hg
  cases step_move hstep with
  | mounted hm hc =>
    have hpage : PageLike (some s.scopes.length) s.page s'.page := by
      have ht := unmounted_tagged ho hm
      refine h.page.other (fun i x hx he => ?_) (fun i f hf he => ?_)
      · exact absurd (Option.some.inj he) (Nat.ne_of_lt (ht.sockets i x hx))
      · exact absurd (Option.some.inj he) (Nat.ne_of_lt (ht.fetches i f hf))
    obtain ⟨t',hc',hp,hs,hmount⟩ := @call_like ⟨s.page,s.scopes ++ [freshScope s.scopes.length],true⟩ t
      ⟨s'.page,s.scopes ++ [freshScope s.scopes.length],true⟩ _ s.page s'.page _ _ hpage rfl rfl
      (fun _ he => like_connect he false) hc
    have hlive : t.live = some s.scopes.length := by
      rw [@call_live_same ⟨s.page,s.scopes ++ [freshScope s.scopes.length],true⟩ t _ s.page _ hc]
      simp [State.live]
    refine ⟨t',move_step (.mounted (h.mounted.trans hm) ?_),hlive ▸ hp,hs,hmount⟩
    rw [h.scopes]
    exact hc'
  | @unmounted u hm hc =>
    obtain ⟨u',hc',hp,hs,_⟩ := @call_like s u s' _ s.page s'.page _ _ h.page h.scopes h.mounted
      (fun _ he => like_cleanup he) hc
    refine ⟨{ u' with mounted := false },move_step (.unmounted (h.mounted.trans hm) ?_),?_,hs,rfl⟩
    · rw [h.scopes]
      exact hc'
    · exact hp.other (fun _ _ _ he => by cases he) (fun _ _ _ he => by cases he)
  | @rejected i f message _ hf hs hc =>
    obtain ⟨sc,hsc⟩ := call_scope hc
    have hr : some f.run = s.live := owner_live hl (by simp [State.owner,hf]) hsc
    obtain ⟨t',hc',ht⟩ := call_alike h (h.page.settle hf hr) (fun _ he => he.deaf (deaf_rejected f message)) hc
    exact ⟨t',move_step (.rejected (fetched hf hr) hs hc'),ht⟩
  | @resolved i f status _ hf hs hc =>
    obtain ⟨sc,hsc⟩ := call_scope hc
    have hr : some f.run = s.live := owner_live hl (by simp [State.owner,hf]) hsc
    obtain ⟨t',hc',ht⟩ := call_alike h (h.page.settle hf hr) (fun _ he => like_resolved he f status) hc
    exact ⟨t',move_step (.resolved (fetched hf hr) hs hc'),ht⟩
  | @reconnect i u _ hu hp hb hc =>
    obtain ⟨t',hc',ht⟩ := call_alike h (h.page.timeout i) (fun _ he =>
      like_connect (he.deaf (k := fun e => { e with reconnectTimerRef := none }) (fun _ _ _ => rfl)) true) hc
    exact ⟨t',move_step (.reconnect (h.page.timers ▸ hu) hp hb hc'),ht⟩
  | @notice i u _ hu hp hb hc =>
    obtain ⟨t',hc',ht⟩ := call_alike h (h.page.timeout i) (fun _ he => he.deaf deaf_noticeExpired) hc
    exact ⟨t',move_step (.notice (h.page.timers ▸ hu) hp hb hc'),ht⟩
  | @opened i x _ hx he hs hc =>
    obtain ⟨sc,hsc⟩ := call_scope hc
    have hr : some x.run = s.live := owner_live hl (by simp [State.owner,hx]) hsc
    have hy : (s.page.establish i).sockets[i]? = some { x with established := true } := by
      simp [Page.establish,hx]
    obtain ⟨t',hc',ht⟩ := call_alike h (h.page.own hx hr _) (fun _ he => like_onOpen he hy hr x) hc
    exact ⟨t',move_step (.opened (owned hx hr) he hs hc'),ht⟩
  | @errored i x _ hx hs hc =>
    obtain ⟨sc,hsc⟩ := call_scope hc
    have hr : some x.run = s.live := owner_live hl (by simp [State.owner,hx]) hsc
    obtain ⟨t',hc',ht⟩ := call_alike h h.page (fun _ he => he.deaf (deaf_error x)) hc
    exact ⟨t',move_step (.errored (owned hx hr) hs hc'),ht⟩
  | @message i x data _ hx hready hc =>
    obtain ⟨sc,hsc⟩ := call_scope hc
    have hr : some x.run = s.live := owner_live hl (by simp [State.owner,hx]) hsc
    obtain ⟨t',hc',ht⟩ := call_alike h h.page (fun _ he => like_onMessage he js i x data) hc
    exact ⟨t',move_step (.message (owned hx hr) hready hc'),ht⟩
  | @closed i x _ hx hs hc =>
    obtain ⟨sc,hsc⟩ := call_scope hc
    have hr : some x.run = s.live := owner_live hl (by simp [State.owner,hx]) hsc
    obtain ⟨t',hc',ht⟩ := call_alike h (h.page.own hx hr _) (fun _ he => he.deaf (deaf_close i x)) hc
    exact ⟨t',move_step (.closed (owned hx hr) hs hc'),ht⟩
  | @data text hm =>
    refine ⟨_,move_step (.data (h.mounted.trans hm)),?_,h.scopes,h.mounted⟩
    simp only [sendInput_offer]
    exact h.page.offer hh _
  | @resize size hm =>
    refine ⟨_,move_step (.resize (h.mounted.trans hm)),?_,h.scopes,h.mounted⟩
    simp only [sendResize_offer]
    have hsize : PageLike s.live { s.page with latestSizeRef := some size }
        { s'.page with latestSizeRef := some size } := ⟨by rw [h.page.rest],h.page.sockets,h.page.fetches⟩
    exact hsize.offer ⟨hh.current,hh.released⟩ _

end Kept

/-- Without the late events of runs that were cleaned up a run of the page is one, and it ends in the
same page for its user, for its live run and for the servers: the same is shown, written and sent. -/
theorem late_traceless {js : Js} {ls : List Label} {s : State} (hr : (system js).run (system js).start ls = some s) :
    ∃ t, (system js).run (system js).start ((system js).sift (fun s l => !s.late l) (system js).start ls) = some t ∧
      Alike s t := by
  refine System.run_sift ⟨.refl _,rfl,rfl⟩ ?_ ?_ hr
  · intro s s' l t hs h hl hstep
    exact late_alike (reachable_orderly hs) (reachable_held hs) h (by simpa using hl) hstep
  · intro s s' l t hs h hl hstep
    exact kept_alike (reachable_orderly hs) (reachable_held hs) h (by simpa using hl) hstep

/-- The first run's socket opens and closes in the second run. -/
def lateRun : List Label :=
  [.mount,.fetched 0 (.ok 204),.unmount,.mount,.opened 0,.fetched 1 (.ok 204),.closed 0,.opened 1,
   .message 1 [2,104]]

theorem late_traceless_socket :
    ∃ s t, (system ⟨fun _ => "",fun _ => .integer 0⟩).run start lateRun = some s ∧
      (system ⟨fun _ => "",fun _ => .integer 0⟩).run start [.mount,.fetched 0 (.ok 204),.unmount,.mount,
        .fetched 1 (.ok 204),.opened 1,.message 1 [2,104]] = some t ∧
      Alike s t ∧ s.page.written = [[104]] := by
  have hr : (system ⟨fun _ => "",fun _ => .integer 0⟩).run start lateRun = some _ :=
    (Option.some_get (h := rfl)).symm
  obtain ⟨t,ht,halike⟩ := late_traceless hr
  exact ⟨_,t,hr,ht,halike,rfl⟩

end Terminald.App
