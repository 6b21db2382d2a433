import Terminald.Model.App

namespace Terminald.App
open Machine Browser

/-- The timer is set, has not fired and has not been cleared. -/
def Page.Pending (p : Page) (i : Nat) (callback : Callback) : Prop :=
  ∃ t, p.timers[i]? = some t ∧ t.pending = true ∧ t.callback = callback

theorem pending_clear {p : Page} {id i : Nat} {c : Callback} :
    (p.clearTimeout id).Pending i c ↔ p.Pending i c ∧ i ≠ id := by
  simp only [Page.Pending,Page.clearTimeout,List.getElem?_modify]
  by_cases h : id = i
  · subst h
    cases ht : p.timers[id]? <;> simp
  · simp [h,Ne.symm h]

theorem pending_append {p q : Page} {t : Timer} (ht : t.pending = true)
    (h : q.timers = p.timers ++ [t]) {i : Nat} {c : Callback} :
    q.Pending i c ↔ p.Pending i c ∨ i = p.timers.length ∧ t.callback = c := by
  simp only [Page.Pending,h,List.getElem?_append]
  split
  · rename_i hi
    simp [Nat.ne_of_lt hi]
  · rename_i hi
    rw [List.getElem?_eq_none (Nat.le_of_not_lt hi)]
    by_cases he : i = p.timers.length
    · subst he
      simp [ht]
    · have : i - p.timers.length ≠ 0 := by omega
      simp [he,this]

theorem pending_same {p q : Page} (h : q.timers = p.timers) {i : Nat} {c : Callback} :
    q.Pending i c ↔ p.Pending i c := by
  simp [Page.Pending,h]

theorem pending_one {p : Page} {i : Nat} {c d : Callback} (h : p.Pending i c)
    (k : p.Pending i d) : c = d := by
  obtain ⟨t,ht,_,hc⟩ := h
  obtain ⟨u,hu,_,hd⟩ := k
  obtain rfl := Option.some.inj (ht.symm.trans hu)
  exact hc.symm.trans hd

/-- The run's two timer variables name the timers that are pending, and there
are no others. -/
structure Wired (e : Effect) : Prop where
  own : ∀ (i : Nat) (t : Timer), e.timers[i]? = some t → t.pending = true → t.run = e.number
  reconnect : ∀ i, e.reconnectTimerRef = some i ↔ e.Pending i .reconnect
  notice : ∀ i, e.noticeTimer = some i ↔ e.Pending i .notice

/-- From one effect state to the next only the notice and the shown state change. -/
structure Quiet (e f : Effect) : Prop where
  number : f.number = e.number
  cancelled : f.cancelled = e.cancelled
  attempt : f.attempt = e.attempt
  remoteExited : f.remoteExited = e.remoteExited
  sockets : f.sockets = e.sockets
  fetches : f.fetches = e.fetches
  socketRef : f.socketRef = e.socketRef
  latestSizeRef : f.latestSizeRef = e.latestSizeRef
  reconnectTimerRef : f.reconnectTimerRef = e.reconnectTimerRef
  wired : Wired e → Wired f

namespace Quiet

theorem trans {e f g : Effect} (h : Quiet e f) (k : Quiet f g) : Quiet e g :=
  ⟨k.number.trans h.number,k.cancelled.trans h.cancelled,k.attempt.trans h.attempt,
    k.remoteExited.trans h.remoteExited,k.sockets.trans h.sockets,k.fetches.trans h.fetches,
    k.socketRef.trans h.socketRef,k.latestSizeRef.trans h.latestSizeRef,
    k.reconnectTimerRef.trans h.reconnectTimerRef,fun hw => k.wired (h.wired hw)⟩

end Quiet

theorem own_clear {e : Effect} (h : Wired e) (id : Nat) :
    ∀ (i : Nat) (t : Timer), (e.toPage.clearTimeout id).timers[i]? = some t → t.pending = true →
      t.run = e.number := by
  intro i t ht hp
  simp only [Page.clearTimeout,List.getElem?_modify] at ht
  by_cases hi : id = i
  · subst hi
    cases hx : e.timers[id]? with
    | none => simp [hx] at ht
    | some x =>
      simp only [hx,if_true,Option.map_eq_map,Option.map_some,Option.some.injEq] at ht
      subst ht
      simp at hp
  · simp only [hi,if_false,Option.map_eq_map,Option.map_id'] at ht
    exact h.own i t ht hp

theorem quiet_clearNoticeTimer (e : Effect) : Quiet e e.clearNoticeTimer := by
  unfold Effect.clearNoticeTimer
  split
  · rename_i id hid
    refine ⟨rfl,rfl,rfl,rfl,rfl,rfl,rfl,rfl,rfl,?_⟩
    intro h
    refine ⟨own_clear h id,?_,?_⟩
    · intro i
      apply (h.reconnect i).trans
      rw [pending_clear,and_iff_left_of_imp]
      intro hp heq
      subst heq
      cases pending_one hp ((h.notice i).mp hid)
    · intro i
      rw [pending_clear,← h.notice i,hid]
      constructor
      · intro he; cases he
      · intro hex
        obtain ⟨he,hn⟩ := hex
        exact absurd (Option.some.inj he).symm hn
  · exact ⟨rfl,rfl,rfl,rfl,rfl,rfl,rfl,rfl,rfl,id⟩

theorem clearNoticeTimer_none (e : Effect) : e.clearNoticeTimer.noticeTimer = none := by
  unfold Effect.clearNoticeTimer
  split
  · rfl
  · assumption

theorem quiet_setConnectionState (update : ConnectionState → ConnectionState) (e : Effect) :
    Quiet e (e.setConnectionState update) :=
  ⟨rfl,rfl,rfl,rfl,rfl,rfl,rfl,rfl,rfl,fun h => ⟨h.own,h.reconnect,h.notice⟩⟩

theorem quiet_setState (state : ConnectionState) (e : Effect) : Quiet e (e.setState state) := by
  unfold Effect.setState
  split
  · exact (quiet_clearNoticeTimer e).trans (quiet_setConnectionState _ _)
  · exact quiet_setConnectionState _ _

@[simp] theorem setState_state (state : ConnectionState) (e : Effect) :
    (e.setState state).connectionState = state := rfl

theorem setState_notice (state : ConnectionState) (e : Effect) (h : e.noticeTimer = none) :
    (e.setState state).noticeTimer = none := by
  unfold Effect.setState
  split
  · exact clearNoticeTimer_none e
  · exact h

theorem own_append {e : Effect} (h : Wired e) (c : Callback) :
    ∀ (i : Nat) (t : Timer), (e.timers ++ [⟨e.number,c,true⟩])[i]? = some t → t.pending = true →
      t.run = e.number := by
  intro i t ht hp
  rw [List.getElem?_append] at ht
  split at ht
  · exact h.own i t ht hp
  · rw [List.getElem?_singleton] at ht
    split at ht <;> cases ht
    rfl

theorem wired_notice {e : Effect} (h : Wired e) (hn : e.noticeTimer = none) :
    Wired { e with timers := e.timers ++ [⟨e.number,.notice,true⟩],
                   noticeTimer := some e.timers.length } := by
  refine ⟨own_append h _,?_,?_⟩
  · intro i
    rw [pending_append (p := e.toPage) (t := ⟨e.number,.notice,true⟩) rfl rfl,← h.reconnect i]
    simp
  · intro i
    rw [pending_append (p := e.toPage) (t := ⟨e.number,.notice,true⟩) rfl rfl,← h.notice i,hn]
    simp [eq_comm]

theorem wired_reconnect {e : Effect} (h : Wired e) (hr : e.reconnectTimerRef = none) :
    Wired { e with timers := e.timers ++ [⟨e.number,.reconnect,true⟩],
                   reconnectTimerRef := some e.timers.length } := by
  refine ⟨own_append h _,?_,?_⟩
  · intro i
    rw [pending_append (p := e.toPage) (t := ⟨e.number,.reconnect,true⟩) rfl rfl,
      ← h.reconnect i,hr]
    simp [eq_comm]
  · intro i
    rw [pending_append (p := e.toPage) (t := ⟨e.number,.reconnect,true⟩) rfl rfl,← h.notice i]
    simp

theorem quiet_showConnected (isReconnect : Bool) (e : Effect) :
    Quiet e (e.showConnected isReconnect) := by
  cases isReconnect with
  | false => exact quiet_setState _ e
  | true =>
    have hq := (quiet_clearNoticeTimer e).trans
      (quiet_setState { phase := .connected,notice := some .newSession } _)
    have hn := setState_notice { phase := .connected,notice := some .newSession } _
      (clearNoticeTimer_none e)
    exact hq.trans ⟨rfl,rfl,rfl,rfl,rfl,rfl,rfl,rfl,rfl,fun h => wired_notice h hn⟩

@[simp] theorem showConnected_phase (isReconnect : Bool) (e : Effect) :
    (e.showConnected isReconnect).connectionState.phase = .connected := by
  cases isReconnect <;> rfl

/-- What `scheduleReconnect` does when there is no reconnect timer yet. -/
structure Scheduled (e f : Effect) : Prop where
  number : f.number = e.number
  cancelled : f.cancelled = e.cancelled
  attempt : f.attempt = e.attempt
  remoteExited : f.remoteExited = e.remoteExited
  sockets : f.sockets = e.sockets
  fetches : f.fetches = e.fetches
  timer : ∃ i, f.reconnectTimerRef = some i
  phase : f.connectionState.phase = .reconnecting
  wired : Wired f

/-- `onClose` once `socketRef` is let go. -/
def Effect.afterClose (x : Socket) (e : Effect) : Effect :=
  if e.stale x.currentAttempt then e
  else if e.remoteExited then e
  else if x.opened then e.scheduleReconnect
  else if x.isReconnect then e.scheduleReconnect
  else e.setState { phase := .error,reason := some .websocketUpgrade }

theorem onClose_eq (i : Nat) (x : Socket) (e : Effect) : e.onClose i x =
    Effect.afterClose x { e with socketRef := if e.socketRef = some i then none else e.socketRef } := by
  unfold Effect.onClose
  by_cases h : e.socketRef = some i
  · rw [if_pos h,if_pos h]
    rfl
  · rw [if_neg h,if_neg h]
    rfl

theorem scheduled {e : Effect} (h : Wired e) (hc : e.cancelled = false)
    (hr : e.reconnectTimerRef = none) : Scheduled e e.scheduleReconnect := by
  have hq := (quiet_clearNoticeTimer e).trans (quiet_setConnectionState (fun current =>
      if current.phase = .reconnecting ∧ current.reason = some .network then current
      else { phase := .reconnecting }) _)
  have hw := hq.wired h
  have hnone := hq.reconnectTimerRef.trans hr
  simp only [Effect.scheduleReconnect,hc,hr,Option.isSome_none,Bool.or_self,Bool.false_eq_true,
    if_false]
  refine ⟨hq.number,hq.cancelled,hq.attempt,hq.remoteExited,hq.sockets,hq.fetches,⟨_,rfl⟩,?_,
    wired_reconnect hw hnone⟩
  simp only [Effect.setTimeout,Effect.setConnectionState]
  split
  · rename_i hp; exact hp.1
  · rfl

end Terminald.App
