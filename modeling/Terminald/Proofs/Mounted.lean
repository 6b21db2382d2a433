import Terminald.Proofs.Connection
import Terminald.Proofs.Events

namespace Terminald.App
open Machine Browser

/-- Every object belongs to one of the first `k` runs. -/
structure Tagged (k : Nat) (p : Page) : Prop where
  sockets : ∀ (i : Nat) (x : Socket), p.sockets[i]? = some x → x.run < k
  fetches : ∀ (i : Nat) (f : Fetch), p.fetches[i]? = some f → f.run < k

/-- A callback keeps its run's number and makes objects of that run only. -/
structure Keeps (e f : Effect) : Prop where
  number : f.number = e.number
  tagged : ∀ k, e.number < k → Tagged k e.toPage → Tagged k f.toPage

namespace Keeps

theorem trans {e f g : Effect} (h : Keeps e f) (k : Keeps f g) : Keeps e g :=
  ⟨k.number.trans h.number,fun n hn ht => k.tagged n (h.number ▸ hn) (h.tagged n hn ht)⟩

theorem same {e f : Effect} (hn : f.number = e.number) (hs : f.sockets = e.sockets)
    (hf : f.fetches = e.fetches) : Keeps e f :=
  ⟨hn,fun _ _ ht => ⟨fun i x hx => ht.sockets i x (hs ▸ hx),fun i g hg => ht.fetches i g (hf ▸ hg)⟩⟩

theorem quiet {e f : Effect} (q : Quiet e f) : Keeps e f := same q.number q.sockets q.fetches

end Keeps

theorem tagged_modify {k : Nat} {p : Page} (h : Tagged k p) (i : Nat) (g : Socket → Socket)
    (hg : ∀ x, (g x).run = x.run) : Tagged k { p with sockets := p.sockets.modify i g } := by
  refine ⟨?_,h.fetches⟩
  intro j x hx
  rw [List.getElem?_modify] at hx
  cases hy : p.sockets[j]? with
  | none => simp [hy] at hx
  | some y =>
    have hrun := h.sockets j y hy
    simp only [hy,Option.map_eq_map,Option.map_some,Option.some.injEq] at hx
    subst hx
    split
    · rw [hg]; exact hrun
    · exact hrun

theorem tagged_ref {k : Nat} {p : Page} (h : Tagged k p) (ref : Option Nat) :
    Tagged k { p with socketRef := ref } := ⟨h.sockets,h.fetches⟩

theorem tagged_settle {k : Nat} {p : Page} (h : Tagged k p) (i : Nat) :
    Tagged k { p with fetches := p.fetches.modify i (fun f => { f with settled := true }) } := by
  refine ⟨h.sockets,?_⟩
  intro j f hf
  rw [List.getElem?_modify] at hf
  cases hg : p.fetches[j]? with
  | none => simp [hg] at hf
  | some g =>
    have hrun := h.fetches j g hg
    simp only [hg,Option.map_eq_map,Option.map_some,Option.some.injEq] at hf
    subst hf
    split <;> exact hrun

theorem keeps_modify (e : Effect) (i : Nat) (g : Socket → Socket) (hg : ∀ x, (g x).run = x.run) :
    Keeps e { e with sockets := e.sockets.modify i g } :=
  ⟨rfl,fun _ _ ht => tagged_modify ht i g hg⟩

theorem keeps_send (e : Effect) (i : Nat) (frame : Bytes) :
    Keeps e { e with toPage := e.toPage.send i frame } :=
  keeps_modify e i _ (fun _ => rfl)

theorem keeps_schedule (e : Effect) : Keeps e e.scheduleReconnect := by
  unfold Effect.scheduleReconnect
  split
  · exact .same rfl rfl rfl
  · exact (Keeps.quiet (quiet_clearNoticeTimer e)).trans (.same rfl rfl rfl)

theorem keeps_connect (e : Effect) (isReconnect : Bool) : Keeps e (e.connect isReconnect) := by
  have q := quiet_setState { phase := if isReconnect then .reconnecting else .connecting }
    { e with attempt := e.attempt + 1 }
  refine ⟨q.number,fun k hk ht => ⟨?_,?_⟩⟩
  · intro i x hx
    exact ht.sockets i x (by simpa [Effect.connect,q.sockets] using hx)
  · intro i f hf
    simp only [Effect.connect,q.fetches,List.getElem?_append] at hf
    split at hf
    · exact ht.fetches i f hf
    · rw [List.getElem?_singleton] at hf
      split at hf <;> cases hf
      exact Nat.lt_of_le_of_lt (Nat.le_of_eq q.number) hk

theorem keeps_reconnect (e : Effect) : Keeps e e.reconnectExpired := by
  have h : Keeps e { e with reconnectTimerRef := none } := .same rfl rfl rfl
  exact h.trans (keeps_connect _ true)

theorem keeps_rejected (e : Effect) (f : Fetch) (message : Option String) :
    Keeps e (e.rejected f message) := by
  unfold Effect.rejected
  split
  · exact .same rfl rfl rfl
  · split
    · exact (Keeps.quiet (quiet_setState _ e)).trans (keeps_schedule _)
    · exact .quiet (quiet_setState _ e)

theorem keeps_resolved (e : Effect) (f : Fetch) (status : Nat) : Keeps e (e.resolved f status) := by
  unfold Effect.resolved
  split
  · exact .same rfl rfl rfl
  · split
    · exact .quiet (quiet_setState _ e)
    · split
      · exact .quiet (quiet_setState _ e)
      · refine ⟨rfl,fun k hk ht => ⟨?_,ht.fetches⟩⟩
        intro i x hx
        rw [List.getElem?_append] at hx
        split at hx
        · exact ht.sockets i x hx
        · rw [List.getElem?_singleton] at hx
          split at hx <;> cases hx
          exact hk

theorem keeps_open (e : Effect) (i : Nat) (x : Socket) : Keeps e (e.onOpen i x) := by
  unfold Effect.onOpen
  split
  · exact keeps_modify e i _ (fun _ => rfl)
  · have h := (keeps_modify e i (fun x => { x with opened := true }) (fun _ => rfl)).trans
      (.quiet (quiet_showConnected x.isReconnect _))
    dsimp only
    split
    · exact h.trans (keeps_send _ _ _)
    · exact h

theorem keeps_close (e : Effect) (i : Nat) (x : Socket) : Keeps e (e.onClose i x) := by
  rw [onClose_eq,Effect.afterClose]
  generalize (if e.socketRef = some i then none else e.socketRef) = ref
  have h : Keeps e { e with socketRef := ref } := .same rfl rfl rfl
  split
  · exact h
  · split
    · exact h
    · split
      · exact h.trans (keeps_schedule _)
      · split
        · exact h.trans (keeps_schedule _)
        · exact h.trans (.quiet (quiet_setState _ _))

theorem keeps_error (e : Effect) (x : Socket) : Keeps e (e.onError x) := by
  unfold Effect.onError
  split
  · exact .same rfl rfl rfl
  · split
    · exact .quiet (quiet_setState _ e)
    · exact .same rfl rfl rfl

theorem keeps_message (e : Effect) (js : Js) (i : Nat) (x : Socket) (data : Bytes) :
    Keeps e (e.onMessage js i x data) := by
  unfold Effect.onMessage
  split
  · exact .same rfl rfl rfl
  · split
    · exact .same rfl rfl rfl
    · exact .quiet (quiet_setState _ e)
    · rename_i code _
      have h : Keeps e { e with remoteExited := true } := .same rfl rfl rfl
      exact (h.trans (.quiet (quiet_setState _ _))).trans (keeps_modify _ i _ (fun _ => rfl))
    · exact .same rfl rfl rfl

section Stale
variable {e : Effect}

theorem rejected_stale (h : e.cancelled = true) (f : Fetch) (message : Option String) : e.rejected f message = e := by
  simp [Effect.rejected,stale_cancelled h]

theorem resolved_stale (h : e.cancelled = true) (f : Fetch) (status : Nat) : e.resolved f status = e := by
  simp [Effect.resolved,stale_cancelled h]

theorem open_stale (h : e.cancelled = true) (i : Nat) (x : Socket) :
    e.onOpen i x = { e with toPage := e.toPage.close i } := by
  simp [Effect.onOpen,stale_cancelled h]

theorem error_stale (h : e.cancelled = true) (x : Socket) : e.onError x = e := by
  simp [Effect.onError,stale_cancelled h]

theorem message_stale (h : e.cancelled = true) (js : Js) (i : Nat) (x : Socket) (data : Bytes) :
    e.onMessage js i x data = e := by
  simp [Effect.onMessage,stale_cancelled h]

theorem close_stale (h : e.cancelled = true) (i : Nat) (x : Socket) :
    ∃ ref, e.onClose i x = { e with socketRef := ref } := by
  rw [onClose_eq]
  exact ⟨_,if_pos (stale_cancelled h _)⟩

end Stale

theorem quiet_notice {e : Effect} {i : Nat} (hp : e.Pending i .notice) :
    Quiet e ({ e with toPage := e.toPage.clearTimeout i } : Effect).noticeExpired := by
  refine ⟨rfl,rfl,rfl,rfl,rfl,rfl,rfl,rfl,rfl,fun h => ⟨own_clear h i,?_,?_⟩⟩
  · intro j
    change e.reconnectTimerRef = some j ↔ (e.toPage.clearTimeout i).Pending j .reconnect
    rw [pending_clear,← h.reconnect j,and_iff_left_of_imp]
    intro hj heq
    subst heq
    cases pending_one hp ((h.reconnect j).mp hj)
  · intro j
    change none = some j ↔ (e.toPage.clearTimeout i).Pending j .notice
    rw [pending_clear,← h.notice j,(h.notice i).mpr hp]
    simp [eq_comm]

theorem fits_shown {e f : Effect} {x : Socket} (h : Fits e x)
    (hx : f.remoteExited = e.remoteExited)
    (hp : f.connectionState.phase = e.connectionState.phase)
    (hr : e.connectionState.phase = .error → f.connectionState.reason = e.connectionState.reason) :
    Fits f x := by
  have herr : ∀ r, e.connectionState.phase = .error ∧ e.connectionState.reason = some r →
      f.connectionState.phase = .error ∧ f.connectionState.reason = some r :=
    fun r he => ⟨hp.trans he.1,(hr he.1).trans he.2⟩
  obtain ⟨hop,⟨hre,hest,hcl,hph⟩ | ⟨hre,hcl,hph⟩⟩ := h
  · exact ⟨hop,.inl ⟨hx.trans hre,hest,hcl,hp.trans hph⟩⟩
  · refine ⟨hop,.inr ⟨hx.trans hre,hcl,?_⟩⟩
    split
    · rename_i hest
      rw [if_pos hest] at hph
      exact hph.imp hp.trans (herr _)
    · rename_i hest
      rw [if_neg hest] at hph
      split
      · rename_i hrec
        rw [if_pos hrec] at hph
        exact hp.trans hph
      · rename_i hrec
        rw [if_neg hrec] at hph
        exact hph.imp hp.trans (herr _)

/-- A change of the shown state that keeps its phase, and the reason of an error. -/
theorem good_shown {e f : Effect} (h : Good e) (q : Quiet e f)
    (hp : f.connectionState.phase = e.connectionState.phase)
    (hr : e.connectionState.phase = .error → f.connectionState.reason = e.connectionState.reason) :
    Good f := by
  obtain ⟨only,hu,ha⟩ := h.one
  refine ⟨q.cancelled.trans h.live,q.wired h.wired,only,
    fun a ht => hu a ((quiet_present q h.wired).mp ht),?_⟩
  cases only with
  | none =>
    rcases ha with ⟨hx,hph⟩ | ⟨hx,hph,r,hre,hfin⟩
    · exact .inl ⟨q.remoteExited.trans hx,hp.trans hph⟩
    · exact .inr ⟨q.remoteExited.trans hx,hp.trans hph,r,(hr hph).trans hre,hfin⟩
  | some a =>
    cases a with
    | timer i =>
      exact ⟨q.reconnectTimerRef.trans ha.1,q.remoteExited.trans ha.2.1,hp.trans ha.2.2⟩
    | fetch i =>
      obtain ⟨hx,g,hg,hs,hn,hat,hph⟩ := ha
      exact ⟨q.remoteExited.trans hx,g,by rw [q.fetches,hg],hs,hn.trans q.number.symm,
        hat.trans q.attempt.symm,hp.trans hph⟩
    | socket i =>
      obtain ⟨x,hx,hc,hn,hat,hf⟩ := ha
      exact ⟨x,by rw [q.sockets,hx],hc,hn.trans q.number.symm,hat.trans q.attempt.symm,
        fits_shown hf q.remoteExited hp hr⟩

theorem good_notice {e : Effect} (h : Good e) {i : Nat} (hp : e.Pending i .notice) :
    Good ({ e with toPage := e.toPage.clearTimeout i } : Effect).noticeExpired := by
  apply good_shown h (quiet_notice hp)
  · simp only [Effect.noticeExpired,Effect.setConnectionState]
    split
    · rename_i hs; exact hs.1.symm
    · rfl
  · intro he
    simp only [Effect.noticeExpired,Effect.setConnectionState]
    have hother : ¬(e.connectionState.phase = .connected ∧
        e.connectionState.notice = some .newSession) := by simp [he]
    exact congrArg _ (if_neg hother)

/-- What other runs' callbacks leave as it is. -/
structure Foreign (n : Nat) (p q : Page) : Prop where
  sockets : ∀ (i : Nat) (x : Socket), x.run = n → (q.sockets[i]? = some x ↔ p.sockets[i]? = some x)
  fetches : ∀ (i : Nat) (f : Fetch), f.run = n → (q.fetches[i]? = some f ↔ p.fetches[i]? = some f)
  timers : q.timers = p.timers
  reconnectTimerRef : q.reconnectTimerRef = p.reconnectTimerRef
  connectionState : q.connectionState = p.connectionState

theorem present_foreign {p q : Page} {n : Nat} (h : Foreign n p q) {a : Thing}
    (ha : q.Present n a) : p.Present n a := by
  cases a with
  | timer i =>
    obtain ⟨u,hu,hrest⟩ := ha
    exact ⟨u,h.timers ▸ hu,hrest⟩
  | fetch i =>
    obtain ⟨f,hf,hs,hn⟩ := ha
    exact ⟨f,(h.fetches i f hn).mp hf,hs,hn⟩
  | socket i =>
    obtain ⟨x,hx,hc,hn⟩ := ha
    exact ⟨x,(h.sockets i x hn).mp hx,hc,hn⟩

theorem good_foreign {p q : Page} {sc : Scope} (h : Good ⟨p,sc⟩) (hf : Foreign sc.number p q) :
    Good ⟨q,sc⟩ := by
  obtain ⟨only,hu,ha⟩ := h.one
  have hw := h.wired
  refine ⟨h.live,⟨?_,?_,?_⟩,only,?_,?_⟩
  · intro i t ht
    exact hw.own i t (by rw [← hf.timers]; exact ht)
  · intro i
    exact (hf.reconnectTimerRef ▸ hw.reconnect i).trans (pending_same hf.timers).symm
  · intro i
    exact (hw.notice i).trans (pending_same hf.timers).symm
  · exact fun a ht => hu a (present_foreign hf ht)
  · have hs : q.connectionState = p.connectionState := hf.connectionState
    cases only with
    | none => simpa only [Agrees,hs] using ha
    | some a =>
      cases a with
      | timer i => simpa only [Agrees,hs,hf.reconnectTimerRef] using ha
      | fetch i =>
        obtain ⟨hx,g,hg,hset,hn,hat,hph⟩ := ha
        exact ⟨hx,g,(hf.fetches i g hn).mpr hg,hset,hn,hat,hs ▸ hph⟩
      | socket i =>
        obtain ⟨x,hx,hc,hn,hat,hfit⟩ := ha
        exact ⟨x,(hf.sockets i x hn).mpr hx,hc,hn,hat,
          fits_shown hfit rfl (congrArg _ hs) (fun _ => congrArg _ hs)⟩

theorem wired_clearReconnectTimer {e : Effect} (h : Wired e) :
    Wired e.clearReconnectTimer ∧ e.clearReconnectTimer.reconnectTimerRef = none ∧
      e.clearReconnectTimer.cancelled = e.cancelled := by
  unfold Effect.clearReconnectTimer
  split
  · rename_i id hid
    refine ⟨⟨own_clear h id,?_,?_⟩,rfl,rfl⟩
    · intro j
      change none = some j ↔ (e.toPage.clearTimeout id).Pending j .reconnect
      rw [pending_clear,← h.reconnect j,hid]
      simp [eq_comm]
    · intro j
      change e.noticeTimer = some j ↔ (e.toPage.clearTimeout id).Pending j .notice
      rw [pending_clear,← h.notice j,and_iff_left_of_imp]
      intro hj heq
      subst heq
      cases pending_one ((h.reconnect j).mp hid) ((h.notice j).mp hj)
  · exact ⟨h,by assumption,rfl⟩

/-- A run whose two timer variables are empty has no timer pending. -/
theorem wired_none {e : Effect} (h : Wired e) (hr : e.reconnectTimerRef = none)
    (hn : e.noticeTimer = none) {i : Nat} {t : Timer} (ht : e.timers[i]? = some t) :
    t.pending = false := by
  by_contra hp
  have hp : t.pending = true := by simpa using hp
  cases hc : t.callback with
  | reconnect => simp [(h.reconnect i).mpr ⟨t,ht,hp,hc⟩] at hr
  | notice => simp [(h.notice i).mpr ⟨t,ht,hp,hc⟩] at hn

theorem cleanup_wired {e : Effect} (h : Wired e) :
    e.cleanup.cancelled = true ∧ e.cleanup.reconnectTimerRef = none ∧
      ∀ (i : Nat) (t : Timer), e.cleanup.timers[i]? = some t → t.pending = false := by
  obtain ⟨hw,hr,hc⟩ := wired_clearReconnectTimer
    (e := { e with cancelled := true,attempt := e.attempt + 1 }) ⟨h.own,h.reconnect,h.notice⟩
  have q := quiet_clearNoticeTimer
    ({ e with cancelled := true,attempt := e.attempt + 1 } : Effect).clearReconnectTimer
  have hnone := fun (i : Nat) (t : Timer) => wired_none (i := i) (t := t) (q.wired hw)
    (q.reconnectTimerRef.trans hr) (clearNoticeTimer_none _)
  unfold Effect.cleanup
  dsimp only
  split
  · exact ⟨q.cancelled.trans hc,q.reconnectTimerRef.trans hr,hnone⟩
  · exact ⟨q.cancelled.trans hc,q.reconnectTimerRef.trans hr,hnone⟩

/-- All runs but the live one are over, and the live one is in good order. -/
inductive Orderly : State → Prop
  | mounted {past : List Scope} {sc : Scope} {page : Page} (hp : ∀ o ∈ past, o.cancelled = true)
      (hn : sc.number = past.length) (hg : Good ⟨page,sc⟩) (ht : Tagged (past.length + 1) page) :
      Orderly ⟨page,past ++ [sc],true⟩
  | unmounted {scopes : List Scope} {page : Page} (hp : ∀ o ∈ scopes, o.cancelled = true)
      (hq : ∀ (i : Nat) (t : Timer), page.timers[i]? = some t → t.pending = false)
      (hr : page.reconnectTimerRef = none) (ht : Tagged scopes.length page) :
      Orderly ⟨page,scopes,false⟩

theorem set_same {α : Type*} {xs : List α} {i : Nat} {a : α} (h : xs[i]? = some a) :
    xs.set i a = xs := by
  obtain ⟨hlt,rfl⟩ := List.getElem?_eq_some_iff.mp h
  exact List.set_getElem_self hlt

/-- A callback of the live run, after a change of the page by the browser. -/
theorem call_live {past : List Scope} {sc : Scope} {p page : Page} {t : State} {cb : Effect → Effect}
    (hp : ∀ o ∈ past, o.cancelled = true) (hn : sc.number = past.length)
    (hc : State.call ⟨page,past ++ [sc],true⟩ past.length cb = some t) (ht : Tagged (past.length + 1) p)
    (hlive : Good (cb ⟨page,sc⟩)) (hkeep : Keeps ⟨page,sc⟩ (cb ⟨page,sc⟩))
    (htag : ∀ k, Tagged k p → Tagged k page) : Orderly t := by
  simp only [State.call,List.getElem?_concat_length,Option.map_some,Option.some.injEq] at hc
  subst hc
  rw [List.set_append_right _ _ (Nat.le_refl _),Nat.sub_self,List.set_cons_zero]
  exact .mounted hp (hkeep.number.trans hn) hlive
    (hkeep.tagged _ (hn ▸ Nat.lt_succ_self _) (htag _ ht))

/-- A callback of run `r` after a change of the page by the browser: what it has to
do for a live run, and what for a run that is over. -/
theorem call_orderly {s t : State} (h : Orderly s) {page : Page} {r : Nat} {cb : Effect → Effect}
    (hc : ({ s with page := page } : State).call r cb = some t)
    (hlive : ∀ sc, sc.number = r → Good ⟨s.page,sc⟩ → Good (cb ⟨page,sc⟩))
    (hkeep : ∀ sc, Keeps ⟨page,sc⟩ (cb ⟨page,sc⟩)) (htag : ∀ k, Tagged k s.page → Tagged k page)
    (hstale : ∀ sc, sc.cancelled = true → ∃ q, cb ⟨page,sc⟩ = ⟨q,sc⟩ ∧
      (∀ n, n ≠ r → Foreign n s.page q) ∧ ∀ k, Tagged k s.page → Tagged k q) : Orderly t := by
  cases h with
  | @mounted past sc p hp hn hg ht =>
    by_cases hr : r = past.length
    · subst hr
      exact call_live hp hn hc ht (hlive sc hn hg) (hkeep sc) htag
    · obtain ⟨scope,hs,rfl⟩ := Option.map_eq_some_iff.mp hc
      have hlt : r < past.length := by
        have := (List.getElem?_eq_some_iff.mp hs).1
        simp only [List.length_append,List.length_singleton] at this
        omega
      have hmem : scope ∈ past := List.mem_of_getElem? (by rwa [List.getElem?_append_left hlt] at hs)
      obtain ⟨q,hq,hf,htq⟩ := hstale scope (hp scope hmem)
      simp only [hq,set_same hs]
      exact .mounted hp hn (good_foreign hg (hf _ (hn ▸ Ne.symm hr))) (htq _ ht)
  | @unmounted scopes p hp hq hr ht =>
    obtain ⟨scope,hs,rfl⟩ := Option.map_eq_some_iff.mp hc
    obtain ⟨q,hcb,hf,htq⟩ := hstale scope (hp scope (List.mem_of_getElem? hs))
    have hforeign := hf (r + 1) (by omega)
    simp only [hcb,set_same hs]
    exact .unmounted hp (fun i t hi => hq i t (hforeign.timers ▸ hi))
      (hforeign.reconnectTimerRef.trans hr) (htq _ ht)

/-- A pending timer belongs to the live run. -/
theorem pending_live {s : State} (h : Orderly s) {i : Nat} {t : Timer}
    (ht : s.page.timers[i]? = some t) (hp : t.pending = true) :
    ∃ past sc p, s = ⟨p,past ++ [sc],true⟩ ∧ (∀ o ∈ past, o.cancelled = true) ∧
      sc.number = past.length ∧ Good ⟨p,sc⟩ ∧ Tagged (past.length + 1) p ∧
      t.run = past.length := by
  cases h with
  | @mounted past sc p hc hn hg htag =>
    exact ⟨past,sc,p,rfl,hc,hn,hg,htag,(hg.wired.own i t ht hp).trans hn⟩
  | unmounted hc hq hr htag => simp [hq i t ht] at hp

section Strangers

theorem foreign_same (n : Nat) (p : Page) : Foreign n p p :=
  ⟨fun _ _ _ => Iff.rfl,fun _ _ _ => Iff.rfl,rfl,rfl,rfl⟩

theorem Foreign.trans {n : Nat} {p q r : Page} (h : Foreign n p q) (k : Foreign n q r) :
    Foreign n p r :=
  ⟨fun i x hx => (k.sockets i x hx).trans (h.sockets i x hx),
    fun i f hf => (k.fetches i f hf).trans (h.fetches i f hf),k.timers.trans h.timers,
    k.reconnectTimerRef.trans h.reconnectTimerRef,k.connectionState.trans h.connectionState⟩

theorem foreign_modify {p : Page} {i : Nat} {x : Socket} (hx : p.sockets[i]? = some x) {n : Nat}
    (hn : n ≠ x.run) (g : Socket → Socket) (hg : (g x).run = x.run) (ref : Option Nat) :
    Foreign n p { p with sockets := p.sockets.modify i g,socketRef := ref } := by
  refine ⟨?_,fun _ _ _ => Iff.rfl,rfl,rfl,rfl⟩
  intro j y hy
  rw [List.getElem?_modify]
  by_cases he : i = j
  · subst he
    simp only [hx,if_true,Option.map_eq_map,Option.map_some,Option.some.injEq]
    constructor
    · intro heq
      subst heq
      exact absurd (hg ▸ hy).symm hn
    · intro heq
      subst heq
      exact absurd hy.symm hn
  · simp [he]

theorem foreign_settle {p : Page} {i : Nat} {f : Fetch} (hf : p.fetches[i]? = some f) {n : Nat}
    (hn : n ≠ f.run) :
    Foreign n p { p with fetches := p.fetches.modify i (fun f => { f with settled := true }) } := by
  refine ⟨fun _ _ _ => Iff.rfl,?_,rfl,rfl,rfl⟩
  intro j g hg
  rw [List.getElem?_modify]
  by_cases he : i = j
  · subst he
    simp only [hf,if_true,Option.map_eq_map,Option.map_some,Option.some.injEq]
    constructor
    · intro heq
      subst heq
      exact absurd hg.symm hn
    · intro heq
      subst heq
      exact absurd hg.symm hn
  · simp [he]

end Strangers

theorem keeps_cleanup (e : Effect) : Keeps e e.cleanup := by
  have hclear : ∀ e : Effect, Keeps e e.clearReconnectTimer := by
    intro e
    unfold Effect.clearReconnectTimer
    split <;> exact .same rfl rfl rfl
  have h : Keeps e { e with cancelled := true,attempt := e.attempt + 1 } := .same rfl rfl rfl
  have hq := (h.trans (hclear _)).trans (.quiet (quiet_clearNoticeTimer _))
  unfold Effect.cleanup
  dsimp only
  split
  · exact (hq.trans (keeps_modify _ _ (fun x => { x with closing := true }) (fun _ => rfl))).trans
      (.same rfl rfl rfl)
  · exact hq

theorem mount_orderly {scopes : List Scope} {p : Page} {t : State}
    (hp : ∀ o ∈ scopes, o.cancelled = true)
    (hq : ∀ (i : Nat) (u : Timer), p.timers[i]? = some u → u.pending = false)
    (hr : p.reconnectTimerRef = none) (ht : Tagged scopes.length p)
    (hc : State.call ⟨p,scopes ++ [freshScope scopes.length],true⟩ scopes.length
      (Effect.connect false) = some t) : Orderly t := by
  have hnone : ∀ i c, ¬p.Pending i c := by
    intro i c hex
    obtain ⟨u,hu,hpend,_⟩ := hex
    simp [hq i u hu] at hpend
  have hw : Wired ⟨p,freshScope scopes.length⟩ := by
    refine ⟨?_,?_,?_⟩
    · intro i u hu hpend
      simp [hq i u hu] at hpend
    · intro i
      exact iff_of_false (by simp [hr]) (hnone i _)
    · intro i
      exact iff_of_false (fun he => nomatch he) (hnone i _)
  have hb : Bare ⟨p,freshScope scopes.length⟩ := by
    refine ⟨rfl,hw,?_⟩
    intro a ha
    cases a with
    | timer i => exact nomatch hr.symm.trans ((present_timer hw).mp ha)
    | fetch i =>
      obtain ⟨f,hf,_,hn⟩ := ha
      exact absurd (ht.fetches i f hf) (by simp [hn,freshScope])
    | socket i =>
      obtain ⟨x,hx,_,hn⟩ := ha
      exact absurd (ht.sockets i x hx) (by simp [hn,freshScope])
  have htag : Tagged (scopes.length + 1) p :=
    ⟨fun i x hx => Nat.lt_succ_of_lt (ht.sockets i x hx),
      fun i f hf => Nat.lt_succ_of_lt (ht.fetches i f hf)⟩
  exact call_live hp rfl hc htag (bare_connect hb rfl false) (keeps_connect _ _) (fun _ => id)

theorem sendInput_good {p : Page} {sc : Scope} (h : Good ⟨p,sc⟩) (data : String) :
    Good ⟨p.sendInput data,sc⟩ :=
  sendInput_rule (P := fun q => Good ⟨q,sc⟩) (fun _ => h) (fun i _ _ => good_send h i _)

theorem sendResize_good {p : Page} {sc : Scope} (h : Good ⟨p,sc⟩) (size : Size) :
    Good ⟨p.sendResize size,sc⟩ := by
  have hl : Good ⟨{ p with latestSizeRef := some size },sc⟩ :=
    ⟨h.live,⟨h.wired.own,h.wired.reconnect,h.wired.notice⟩,h.one⟩
  exact sendResize_rule (P := fun q => Good ⟨q,sc⟩) (fun _ => hl) (fun i _ _ => good_send hl i _)

theorem tagged_send {k : Nat} {p : Page} (h : Tagged k p) (i : Nat) (frame : Bytes) :
    Tagged k (p.send i frame) :=
  tagged_modify h i _ (fun _ => rfl)

theorem sendInput_tagged {k : Nat} {p : Page} (h : Tagged k p) (data : String) :
    Tagged k (p.sendInput data) :=
  sendInput_rule (fun _ => h) (fun i _ _ => tagged_send h i _)

theorem sendResize_tagged {k : Nat} {p : Page} (h : Tagged k p) (size : Size) :
    Tagged k (p.sendResize size) := by
  have hl : Tagged k { p with latestSizeRef := some size } := ⟨h.sockets,h.fetches⟩
  exact sendResize_rule (fun _ => hl) (fun i _ _ => tagged_send hl i _)

theorem unmount_orderly (h : Orderly s) (hm : s.mounted = true)
    (hc : s.call (s.scopes.length - 1) Effect.cleanup = some t) :
    Orderly { t with mounted := false } := by
  cases h with
  | unmounted hp hq hr ht => cases hm
  | @mounted past sc p hp hn hg ht =>
    simp only [State.call,List.length_append,List.length_singleton,Nat.add_sub_cancel,
      List.getElem?_concat_length,Option.map_some,Option.some.injEq] at hc
    subst hc
    obtain ⟨hcan,href,hnone⟩ := cleanup_wired hg.wired
    rw [List.set_append_right _ _ (Nat.le_refl _),Nat.sub_self,List.set_cons_zero]
    refine .unmounted ?_ hnone href ?_
    · intro o ho
      rcases List.mem_append.mp ho with ho | ho
      · exact hp o ho
      · exact List.mem_singleton.mp ho ▸ hcan
    · rw [List.length_append,List.length_singleton]
      exact (keeps_cleanup _).tagged _ (hn ▸ Nat.lt_succ_self _) ht

theorem step_orderly {js : Js} {l : Label} (h : Orderly s) (hstep : step js s l = some t) :
    Orderly t := by
  cases step_move hstep with
  | mounted hm hc =>
    cases h with
    | mounted hp hn hg ht => cases hm
    | unmounted hp hq hr ht => exact mount_orderly hp hq hr ht hc
  | unmounted hm hc => exact unmount_orderly h hm hc
  | @rejected i f message _ hf hs hc =>
    apply call_orderly h hc
    · exact fun sc hn hg => good_rejected hg hf hs hn.symm message
    · exact fun sc => keeps_rejected _ f message
    · exact fun k hk => tagged_settle hk i
    · exact fun sc hsc => ⟨_,rejected_stale hsc f message,
        fun n hn => foreign_settle hf hn,fun k hk => tagged_settle hk i⟩
  | @resolved i f status _ hf hs hc =>
    apply call_orderly h hc
    · exact fun sc hn hg => good_resolved hg hf hs hn.symm status
    · exact fun sc => keeps_resolved _ f status
    · exact fun k hk => tagged_settle hk i
    · exact fun sc hsc => ⟨_,resolved_stale hsc f status,
        fun n hn => foreign_settle hf hn,fun k hk => tagged_settle hk i⟩
  | @reconnect i u _ hu hpend hb hc =>
    obtain ⟨past,sc,p,rfl,hp,hn,hg,htag,hrun⟩ := pending_live h hu hpend
    rw [hrun] at hc
    exact call_live hp hn hc htag (good_reconnect hg ⟨u,hu,hpend,hb⟩) (keeps_reconnect _)
      (fun k hk => ⟨hk.sockets,hk.fetches⟩)
  | @notice i u _ hu hpend hb hc =>
    obtain ⟨past,sc,p,rfl,hp,hn,hg,htag,hrun⟩ := pending_live h hu hpend
    rw [hrun] at hc
    exact call_live hp hn hc htag (good_notice hg ⟨u,hu,hpend,hb⟩) (.same rfl rfl rfl)
      (fun k hk => ⟨hk.sockets,hk.fetches⟩)
  | @opened i x _ hx he hs hc =>
    apply call_orderly h hc
    · exact fun sc hn hg => good_open hg hx hs he hn.symm
    · exact fun sc => keeps_open _ i x
    · exact fun k hk => tagged_modify hk i _ (fun _ => rfl)
    · intro sc hsc
      refine ⟨_,open_stale hsc i x,fun n hn => ?_,fun k hk => ?_⟩
      · exact (foreign_modify hx hn _ rfl s.page.socketRef).trans
          (foreign_modify (x := { x with established := true }) (by simp [hx]) hn _ rfl _)
      · exact tagged_modify (tagged_modify hk i (fun x => { x with established := true })
          (fun _ => rfl)) i (fun x => { x with closing := true }) (fun _ => rfl)
  | @errored i x _ hx hs hc =>
    apply call_orderly h hc
    · exact fun sc hn hg => good_error hg hx hs hn.symm
    · exact fun sc => keeps_error _ x
    · exact fun _ => id
    · exact fun sc hsc => ⟨_,error_stale hsc x,fun n _ => foreign_same n _,fun _ => id⟩
  | @message i x data _ hx hr hc =>
    apply call_orderly h hc
    · exact fun sc hn hg => good_message hg js hx hr hn.symm data
    · exact fun sc => keeps_message _ js i x data
    · exact fun _ => id
    · exact fun sc hsc => ⟨_,message_stale hsc js i x data,fun n _ => foreign_same n _,fun _ => id⟩
  | @closed i x _ hx hs hc =>
    apply call_orderly h hc
    · exact fun sc hn hg => good_close hg hx hs hn.symm
    · exact fun sc => keeps_close _ i x
    · exact fun k hk => tagged_modify hk i _ (fun _ => rfl)
    · intro sc hsc
      obtain ⟨ref,href⟩ := close_stale (e := ⟨s.page.shut i,sc⟩) hsc i x
      exact ⟨_,href,fun n hn => foreign_modify hx hn _ rfl ref,
        fun k hk => tagged_ref (tagged_modify hk i (fun x => { x with closed := true })
          (fun _ => rfl)) ref⟩
  | @data text hm =>
    cases h with
    | mounted hp hn hg ht => exact .mounted hp hn (sendInput_good hg text) (sendInput_tagged ht text)
    | unmounted hp hq hr ht => cases hm
  | @resize size hm =>
    cases h with
    | mounted hp hn hg ht => exact .mounted hp hn (sendResize_good hg size) (sendResize_tagged ht size)
    | unmounted hp hq hr ht => cases hm

theorem reachable_orderly {js : Js} {s : State} (hr : (system js).Reachable s) : Orderly s := by
  refine hr.invariant (.unmounted ?_ ?_ rfl ⟨?_,?_⟩) (fun _ _ _ _ h hstep => step_orderly h hstep)
  all_goals simp

section Shown

theorem agrees_present {e : Effect} (hw : Wired e) {a : Thing} (h : Agrees e (some a)) :
    e.Present e.number a := by
  cases a with
  | timer i => exact (present_timer hw).mpr h.1
  | fetch i =>
    obtain ⟨_,f,hf,hs,hn,_⟩ := h
    exact ⟨f,hf,hs,hn⟩
  | socket i =>
    obtain ⟨x,hx,hc,hn,_⟩ := h
    exact ⟨x,hx,hc,hn⟩

theorem good_unique {e : Effect} (h : Good e) {a b : Thing} (ha : e.Present e.number a)
    (hb : e.Present e.number b) : a = b := by
  obtain ⟨only,hu,_⟩ := h.one
  exact Option.some.inj ((hu a ha).symm.trans (hu b hb))

/-- A run that waits for nothing is through. -/
theorem good_waiting {e : Effect} (h : Good e)
    (hp : e.connectionState.phase = .connecting ∨ e.connectionState.phase = .reconnecting) :
    ∃ a, e.Present e.number a := by
  obtain ⟨only,_,ha⟩ := h.one
  cases only with
  | some a => exact ⟨a,agrees_present h.wired ha⟩
  | none => rcases ha with ⟨_,hc⟩ | ⟨_,hc,_⟩ <;> simp [hc] at hp

/-- What is only shown of an open socket. -/
theorem good_connected {e : Effect} (h : Good e)
    (hp : e.connectionState.phase = .connected ∨ e.connectionState.phase = .error ∧
      e.connectionState.reason = some .serverError) :
    ∃ i x, e.sockets[i]? = some x ∧ x.established = true ∧ e.Present e.number (.socket i) := by
  obtain ⟨only,_,ha⟩ := h.one
  cases only with
  | none =>
    rcases ha with ⟨_,hc⟩ | ⟨_,hc,r,hr,hf⟩
    · simp [hc] at hp
    · have hs : r = .serverError := by simpa [hc,hr] using hp
      subst hs
      cases hf
  | some a =>
    have hpres := agrees_present h.wired ha
    cases a with
    | timer i => simp [ha.2.2] at hp
    | fetch i =>
      obtain ⟨_,f,_,_,_,_,hc⟩ := ha
      cases hre : f.isReconnect <;> simp [hre] at hc <;> simp [hc] at hp
    | socket i =>
      obtain ⟨x,hx,_,_,_,_,⟨_,_,_,hc⟩ | ⟨_,_,hc⟩⟩ := ha
      · simp [hc] at hp
      · refine ⟨i,x,hx,?_,hpres⟩
        by_contra hn
        rw [if_neg hn] at hc
        split at hc
        · simp [hc] at hp
        · rcases hc with hc | ⟨hc,hr⟩
          · simp [hc] at hp
          · simp [hc,hr] at hp

theorem good_failing {e : Effect} (h : Good e)
    (hp : e.connectionState.phase = .error ∧ e.connectionState.reason = some .websocketError) :
    ∃ i, e.Present e.number (.socket i) := by
  obtain ⟨only,_,ha⟩ := h.one
  cases only with
  | none =>
    rcases ha with ⟨_,hc⟩ | ⟨_,_,r,hr,hf⟩
    · simp [hc] at hp
    · have hs : r = .websocketError := by simpa [hr] using hp.2
      subst hs
      cases hf
  | some a =>
    have hpres := agrees_present h.wired ha
    cases a with
    | timer i => simp [ha.2.2] at hp
    | fetch i =>
      obtain ⟨_,f,_,_,_,_,hc⟩ := ha
      cases hre : f.isReconnect <;> simp [hre] at hc <;> simp [hc] at hp
    | socket i => exact ⟨i,hpres⟩

theorem good_final {e : Effect} (h : Good e) {r : Reason}
    (hp : e.connectionState.phase = .error ∧ e.connectionState.reason = some r)
    (hf : r.final = true) (a : Thing) : ¬e.Present e.number a := by
  obtain ⟨only,hu,ha⟩ := h.one
  intro hpres
  have honly := hu a hpres
  subst honly
  cases a with
  | timer i => simp [ha.2.2] at hp
  | fetch i =>
    obtain ⟨_,f,_,_,_,_,hc⟩ := ha
    cases hre : f.isReconnect <;> simp [hre] at hc <;> simp [hc] at hp
  | socket i =>
    obtain ⟨x,_,_,_,_,_,⟨_,_,_,hc⟩ | ⟨_,_,hc⟩⟩ := ha
    · simp [hc] at hp
    · split at hc
      · rcases hc with hc | ⟨_,hr⟩
        · simp [hc] at hp
        · obtain rfl : r = .serverError := by simpa [hr] using hp.2.symm
          cases hf
      · split at hc
        · simp [hc] at hp
        · rcases hc with hc | ⟨_,hr⟩
          · simp [hc] at hp
          · obtain rfl : r = .websocketError := by simpa [hr] using hp.2.symm
            cases hf

end Shown

/-- Of a mounted page the live run waits for one thing at most, and the shown
phase says which. -/
theorem one_connection {js : Js} {s : State} (hr : (system js).Reachable s)
    (hm : s.mounted = true) :
    (∀ a b, s.page.Present (s.scopes.length - 1) a → s.page.Present (s.scopes.length - 1) b →
      a = b) ∧
    (s.page.connectionState.phase = .connecting ∨ s.page.connectionState.phase = .reconnecting →
      ∃ a, s.page.Present (s.scopes.length - 1) a) ∧
    (s.page.connectionState.phase = .connected ∨ s.page.connectionState.phase = .error ∧
        s.page.connectionState.reason = some .serverError →
      ∃ i x, s.page.sockets[i]? = some x ∧ x.established = true ∧
        s.page.Present (s.scopes.length - 1) (.socket i)) ∧
    (s.page.connectionState.phase = .error ∧
        s.page.connectionState.reason = some .websocketError →
      ∃ i, s.page.Present (s.scopes.length - 1) (.socket i)) ∧
    (∀ r, s.page.connectionState.phase = .error ∧ s.page.connectionState.reason = some r →
      r.final = true → ∀ a, ¬s.page.Present (s.scopes.length - 1) a) := by
  cases reachable_orderly hr with
  | unmounted hp hq href ht => cases hm
  | @mounted past sc p hp hn hg ht =>
    have hlen : (past ++ [sc]).length - 1 = sc.number := by simp [hn]
    simp only [hlen]
    exact ⟨fun _ _ => good_unique hg,good_waiting hg,good_connected hg,good_failing hg,
      fun _ => good_final hg⟩

/-- The first socket opens, is lost, and the second attempt is refused for want
of credentials. -/
def lostRun : List Label :=
  [.mount,.fetched 0 (.ok 204),.resize ⟨80,24⟩,.opened 0,.message 0 [2,104,105],.closed 0,.timer 0,
   .fetched 1 (.error none),.timer 1,.fetched 2 (.ok 401)]

theorem one_connection_lost :
    ∃ s, (system ⟨fun _ => "",fun _ => .integer 0⟩).Reachable s ∧
      s.page.connectionState = { phase := .error,reason := some .authRequired } ∧
      ∀ a, ¬s.page.Present (s.scopes.length - 1) a := by
  have hr := System.reachable_end (m := system ⟨fun _ => "",fun _ => .integer 0⟩) lostRun rfl
  exact ⟨_,hr,rfl,(one_connection hr rfl).2.2.2.2 .authRequired ⟨rfl,rfl⟩ rfl⟩

end Terminald.App
