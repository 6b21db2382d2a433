import Terminald.Proofs.Timers

namespace Terminald.App
open Machine Browser

/-- What a run can be waiting for. -/
inductive Thing where
  | timer (i : Nat)
  | fetch (i : Nat)
  | socket (i : Nat)
deriving DecidableEq

/-- A pending reconnect timer, an auth check in flight or a socket not yet closed,
of the run with this number. -/
def Page.Present (p : Page) (number : Nat) : Thing → Prop
  | .timer i => ∃ t, p.timers[i]? = some t ∧ t.pending = true ∧ t.callback = .reconnect ∧
      t.run = number
  | .fetch i => ∃ f, p.fetches[i]? = some f ∧ f.settled = false ∧ f.run = number
  | .socket i => ∃ x, p.sockets[i]? = some x ∧ x.closed = false ∧ x.run = number

/-- The reasons a run stops with for good. -/
def Reason.final : Reason → Bool
  | .authRequired | .authCheckFailed | .websocketUpgrade | .network => true
  | _ => false

/-- The shown state fits the newest socket, which is not yet closed. -/
def Fits (e : Effect) (x : Socket) : Prop :=
  x.opened = x.established ∧
    ((e.remoteExited = true ∧ x.established = true ∧ x.closing = true ∧
        e.connectionState.phase = .closed) ∨
      (e.remoteExited = false ∧ x.closing = false ∧
        if x.established then e.connectionState.phase = .connected ∨
          e.connectionState.phase = .error ∧ e.connectionState.reason = some .serverError
        else if x.isReconnect then e.connectionState.phase = .reconnecting
        else e.connectionState.phase = .connecting ∨
          e.connectionState.phase = .error ∧ e.connectionState.reason = some .websocketError))

/-- The shown state fits the one thing the run waits for. -/
def Agrees (e : Effect) : Option Thing → Prop
  | some (.timer i) => e.reconnectTimerRef = some i ∧ e.remoteExited = false ∧
      e.connectionState.phase = .reconnecting
  | some (.fetch i) => e.remoteExited = false ∧ ∃ f, e.fetches[i]? = some f ∧
      f.settled = false ∧ f.run = e.number ∧ f.currentAttempt = e.attempt ∧
      e.connectionState.phase = if f.isReconnect then .reconnecting else .connecting
  | some (.socket i) => ∃ x, e.sockets[i]? = some x ∧ x.closed = false ∧ x.run = e.number ∧
      x.currentAttempt = e.attempt ∧ Fits e x
  | none => (e.remoteExited = true ∧ e.connectionState.phase = .closed) ∨
      e.remoteExited = false ∧ e.connectionState.phase = .error ∧
        ∃ r, e.connectionState.reason = some r ∧ r.final = true

/-- A live run between two of its callbacks. -/
structure Good (e : Effect) : Prop where
  live : e.cancelled = false
  wired : Wired e
  one : ∃ only, (∀ a, e.Present e.number a → only = some a) ∧ Agrees e only

/-- A live run that waits for nothing, inside one of its callbacks. -/
structure Bare (e : Effect) : Prop where
  live : e.cancelled = false
  wired : Wired e
  idle : ∀ a, ¬e.Present e.number a

section Presence

theorem present_timer {e : Effect} (h : Wired e) {i : Nat} :
    e.Present e.number (.timer i) ↔ e.reconnectTimerRef = some i := by
  rw [h.reconnect i]
  constructor
  · intro hex
    obtain ⟨t,ht,hp,hc,_⟩ := hex
    exact ⟨t,ht,hp,hc⟩
  · intro hex
    obtain ⟨t,ht,hp,hc⟩ := hex
    exact ⟨t,ht,hp,hc,h.own i t ht hp⟩

/-- Changing a socket in neither its run nor its being closed. -/
theorem present_touch {p : Page} {i : Nat} {g : Socket → Socket}
    (hr : ∀ x, (g x).run = x.run) (hc : ∀ x, (g x).closed = x.closed) {n : Nat} {a : Thing} :
    Page.Present { p with sockets := p.sockets.modify i g } n a ↔ p.Present n a := by
  cases a with
  | timer j | fetch j => rfl
  | socket j =>
    simp only [Page.Present,List.getElem?_modify]
    by_cases h : i = j
    · subst h
      cases hx : p.sockets[i]? <;> simp [hr,hc]
    · simp [h]

theorem touch_only {p : Page} {n : Nat} {only : Option Thing} (i : Nat) (g : Socket → Socket)
    (hr : ∀ x, (g x).run = x.run) (hc : ∀ x, (g x).closed = x.closed)
    (hu : ∀ a, p.Present n a → only = some a) :
    ∀ a, Page.Present { p with sockets := p.sockets.modify i g } n a → only = some a :=
  fun a ha => hu a ((present_touch hr hc).mp ha)

theorem quiet_present {e f : Effect} (q : Quiet e f) (hw : Wired e) {a : Thing} :
    f.Present f.number a ↔ e.Present e.number a := by
  cases a with
  | timer i => rw [present_timer hw,present_timer (q.wired hw),q.reconnectTimerRef]
  | fetch i => simp only [Page.Present,q.fetches,q.number]
  | socket i => simp only [Page.Present,q.sockets,q.number]

end Presence

theorem Bare.quiet {e f : Effect} (h : Bare e) (q : Quiet e f) : Bare f :=
  ⟨q.cancelled.trans h.live,q.wired h.wired,fun a ha => h.idle a ((quiet_present q h.wired).mp ha)⟩

theorem Bare.noTimer {e : Effect} (h : Bare e) : e.reconnectTimerRef = none := by
  cases hr : e.reconnectTimerRef with
  | none => rfl
  | some i => exact absurd ((present_timer h.wired).mpr hr) (h.idle _)

theorem stale_live {e : Effect} (h : e.cancelled = false) : e.stale e.attempt = false := by
  simp [Effect.stale,h]

theorem stale_cancelled {e : Effect} (h : e.cancelled = true) (n : Nat) : e.stale n = true := by
  simp [Effect.stale,h]

section Starts

/-- The run gives up with a final reason. -/
theorem bare_error {e : Effect} (h : Bare e) (hx : e.remoteExited = false) {st : ConnectionState}
    {r : Reason} (hp : st.phase = .error) (hr : st.reason = some r) (hf : r.final = true) :
    Good (e.setState st) := by
  have q := quiet_setState st e
  have hb := h.quiet q
  exact ⟨hb.live,hb.wired,none,fun a ha => absurd ha (hb.idle a),
    .inr ⟨q.remoteExited.trans hx,hp,r,hr,hf⟩⟩

theorem bare_schedule {e : Effect} (h : Bare e) (hx : e.remoteExited = false) :
    Good e.scheduleReconnect := by
  have hs := scheduled h.wired h.live h.noTimer
  obtain ⟨i,hi⟩ := hs.timer
  refine ⟨hs.cancelled.trans h.live,hs.wired,some (.timer i),?_,hi,hs.remoteExited.trans hx,hs.phase⟩
  intro a ha
  cases a with
  | timer j => rw [present_timer hs.wired,hi] at ha; exact congrArg _ (by simpa using ha)
  | fetch j =>
    simp only [Page.Present,hs.fetches,hs.number] at ha
    exact absurd ha (h.idle (.fetch j))
  | socket j =>
    simp only [Page.Present,hs.sockets,hs.number] at ha
    exact absurd ha (h.idle (.socket j))

/-- The one auth check of a new attempt. -/
theorem bare_fetch {e : Effect} (h : Bare e) (hx : e.remoteExited = false) {f : Fetch}
    (hs : f.settled = false) (hr : f.run = e.number) (ha : f.currentAttempt = e.attempt)
    (hp : e.connectionState.phase = if f.isReconnect then .reconnecting else .connecting) :
    Good { e with fetches := e.fetches ++ [f] } := by
  refine ⟨h.live,⟨h.wired.own,h.wired.reconnect,h.wired.notice⟩,some (.fetch e.fetches.length),?_,
    hx,f,by simp,hs,hr,ha,hp⟩
  intro a ht
  cases a with
  | timer j => exact absurd ht (h.idle (.timer j))
  | socket j => exact absurd ht (h.idle (.socket j))
  | fetch j =>
    obtain ⟨g,hg,hgs,hgr⟩ := ht
    rw [List.getElem?_append] at hg
    split at hg
    · exact absurd ⟨g,hg,hgs,hgr⟩ (h.idle (.fetch j))
    · rw [List.getElem?_singleton] at hg
      split at hg
      · have : j = e.fetches.length := by omega
        rw [this]
      · cases hg

theorem bare_connect {e : Effect} (h : Bare e) (hx : e.remoteExited = false) (isReconnect : Bool) :
    Good (e.connect isReconnect) := by
  have hn : Bare { e with attempt := e.attempt + 1 } :=
    ⟨h.live,⟨h.wired.own,h.wired.reconnect,h.wired.notice⟩,h.idle⟩
  have q := quiet_setState { phase := if isReconnect then .reconnecting else .connecting }
    { e with attempt := e.attempt + 1 }
  exact bare_fetch (hn.quiet q) (q.remoteExited.trans hx) rfl rfl rfl rfl

/-- The one socket of an accepted attempt. -/
theorem bare_socket {e : Effect} (h : Bare e) {x : Socket} (hc : x.closed = false)
    (hr : x.run = e.number) (ha : x.currentAttempt = e.attempt) (hf : Fits e x) :
    Good { e with sockets := e.sockets ++ [x],socketRef := some e.sockets.length } := by
  refine ⟨h.live,⟨h.wired.own,h.wired.reconnect,h.wired.notice⟩,some (.socket e.sockets.length),?_,
    x,by simp,hc,hr,ha,hf⟩
  intro a ht
  cases a with
  | timer j => exact absurd ht (h.idle (.timer j))
  | fetch j => exact absurd ht (h.idle (.fetch j))
  | socket j =>
    obtain ⟨y,hy,hyc,hyr⟩ := ht
    rw [List.getElem?_append] at hy
    split at hy
    · exact absurd ⟨y,hy,hyc,hyr⟩ (h.idle (.socket j))
    · rw [List.getElem?_singleton] at hy
      split at hy
      · have : j = e.sockets.length := by omega
        rw [this]
      · cases hy

end Starts

section Ends

/-- The only auth check settles. -/
theorem good_settle {e : Effect} (h : Good e) {i : Nat} {f : Fetch} (hf : e.fetches[i]? = some f)
    (hs : f.settled = false) (hr : f.run = e.number) :
    Bare { e with fetches := e.fetches.modify i (fun f => { f with settled := true }) } ∧
      e.remoteExited = false ∧ f.currentAttempt = e.attempt ∧
      e.connectionState.phase = if f.isReconnect then .reconnecting else .connecting := by
  obtain ⟨only,hu,ha⟩ := h.one
  have honly := hu (.fetch i) ⟨f,hf,hs,hr⟩
  subst honly
  obtain ⟨hx,g,hg,_,_,hat,hp⟩ := ha
  obtain rfl := Option.some.inj (hf.symm.trans hg)
  refine ⟨⟨h.live,⟨h.wired.own,h.wired.reconnect,h.wired.notice⟩,?_⟩,hx,hat,hp⟩
  intro a ht
  cases a with
  | timer j => exact absurd (hu (.timer j) ht) (by simp)
  | socket j => exact absurd (hu (.socket j) ht) (by simp)
  | fetch j =>
    obtain ⟨g,hg,hgs,hgr⟩ := ht
    rw [List.getElem?_modify] at hg
    by_cases he : i = j
    · subst he
      simp only [hf,if_true,Option.map_eq_map,Option.map_some,Option.some.injEq] at hg
      simp [← hg] at hgs
    · simp only [he,if_false,Option.map_eq_map,Option.map_id'] at hg
      have := hu (.fetch j) ⟨g,hg,hgs,hgr⟩
      exact he (by simpa using this)

/-- The only socket closes. -/
theorem good_closed {e : Effect} (h : Good e) {i : Nat} {x : Socket} (hx : e.sockets[i]? = some x)
    (hc : x.closed = false) (hr : x.run = e.number) (ref : Option Nat) :
    Bare { e with sockets := e.sockets.modify i (fun x => { x with closed := true }),
                  socketRef := ref } ∧
      x.currentAttempt = e.attempt ∧ Fits e x := by
  obtain ⟨only,hu,ha⟩ := h.one
  have honly := hu (.socket i) ⟨x,hx,hc,hr⟩
  subst honly
  obtain ⟨y,hy,_,_,hat,hf⟩ := ha
  obtain rfl := Option.some.inj (hx.symm.trans hy)
  refine ⟨⟨h.live,⟨h.wired.own,h.wired.reconnect,h.wired.notice⟩,?_⟩,hat,hf⟩
  intro a ht
  cases a with
  | timer j => exact absurd (hu (.timer j) ht) (by simp)
  | fetch j => exact absurd (hu (.fetch j) ht) (by simp)
  | socket j =>
    obtain ⟨y,hy,hyc,hyr⟩ := ht
    rw [List.getElem?_modify] at hy
    by_cases he : i = j
    · subst he
      simp only [hx,if_true,Option.map_eq_map,Option.map_some,Option.some.injEq] at hy
      simp [← hy] at hyc
    · simp only [he,if_false,Option.map_eq_map,Option.map_id'] at hy
      have := hu (.socket j) ⟨y,hy,hyc,hyr⟩
      exact he (by simpa using this)

/-- The only reconnect timer fires. -/
theorem good_fired {e : Effect} (h : Good e) {i : Nat} (hp : e.Pending i .reconnect) :
    Bare { e with toPage := { e.toPage.clearTimeout i with reconnectTimerRef := none } } ∧
      e.remoteExited = false := by
  obtain ⟨only,hu,ha⟩ := h.one
  have href := (h.wired.reconnect i).mpr hp
  have honly := hu (.timer i) ((present_timer h.wired).mpr href)
  subst honly
  have hw : Wired { e with toPage := { e.toPage.clearTimeout i with reconnectTimerRef := none } } := by
    refine ⟨own_clear h.wired i,?_,?_⟩
    · intro j
      change none = some j ↔ (e.toPage.clearTimeout i).Pending j .reconnect
      rw [pending_clear,← h.wired.reconnect j,href]
      simp [eq_comm]
    · intro j
      change e.noticeTimer = some j ↔ (e.toPage.clearTimeout i).Pending j .notice
      rw [pending_clear,← h.wired.notice j,and_iff_left_of_imp]
      intro hj heq
      subst heq
      cases pending_one hp ((h.wired.notice j).mp hj)
  refine ⟨⟨h.live,hw,?_⟩,ha.2.1⟩
  intro a ht
  cases a with
  | timer j => exact absurd ((present_timer hw).mp ht) (by simp)
  | fetch j => exact absurd (hu (.fetch j) ht) (by simp)
  | socket j => exact absurd (hu (.socket j) ht) (by simp)

end Ends

/-- What a live run knows of a socket of its own that is not closed. -/
theorem good_at {e : Effect} (h : Good e) {i : Nat} {x : Socket} (hx : e.sockets[i]? = some x)
    (hc : x.closed = false) (hr : x.run = e.number) :
    x.currentAttempt = e.attempt ∧ Fits e x ∧ ∀ a, e.Present e.number a → some (.socket i) = some a := by
  obtain ⟨only,hu,ha⟩ := h.one
  have honly := hu (.socket i) ⟨x,hx,hc,hr⟩
  subst honly
  obtain ⟨y,hy,_,_,hat,hf⟩ := ha
  obtain rfl := Option.some.inj (hx.symm.trans hy)
  exact ⟨hat,hf,hu⟩

/-- A frame sent changes no socket the run could mind. -/
theorem good_send {e : Effect} (h : Good e) (i : Nat) (frame : Bytes) :
    Good { e with toPage := e.toPage.send i frame } := by
  obtain ⟨only,hu,ha⟩ := h.one
  refine ⟨h.live,⟨h.wired.own,h.wired.reconnect,h.wired.notice⟩,only,?_,?_⟩
  · intro a ht
    refine hu a ((present_touch ?_ ?_).mp ht)
    · exact fun _ => rfl
    · exact fun _ => rfl
  · cases only with
    | none => exact ha
    | some a =>
      cases a with
      | timer j | fetch j => exact ha
      | socket j =>
        obtain ⟨x,hx,hc,hr,hat,hf⟩ := ha
        by_cases he : i = j
        · subst he
          exact ⟨{ x with sent := x.sent ++ [frame] },by simp [Page.send,hx],hc,hr,hat,hf⟩
        · exact ⟨x,by simp [Page.send,he,hx],hc,hr,hat,hf⟩

/-- The run's socket changes with the shown state, in what the run minds. -/
theorem good_swap {e f : Effect} (q : Quiet e f) (hl : e.cancelled = false) (hw : Wired e) {i : Nat}
    {x : Socket} (hu : ∀ a, e.Present e.number a → some (.socket i) = some a)
    (hx : e.sockets[i]? = some x) (hc : x.closed = false) (hr : x.run = e.number)
    (hat : x.currentAttempt = e.attempt) (hf : Fits f x) : Good f := by
  refine ⟨q.cancelled.trans hl,q.wired hw,some (.socket i),?_,x,?_,hc,hr.trans q.number.symm,
    hat.trans q.attempt.symm,hf⟩
  · exact fun a ha => hu a ((quiet_present q hw).mp ha)
  · rw [q.sockets,hx]

theorem good_open {e : Effect} (h : Good e) {i : Nat} {x : Socket} (hx : e.sockets[i]? = some x)
    (hc : x.closed = false) (ho : x.established = false) (hr : x.run = e.number) :
    Good (({ e with sockets := e.sockets.modify i (fun x => { x with established := true }) }
      : Effect).onOpen i x) := by
  obtain ⟨hat,⟨_,hf⟩,hu⟩ := good_at h hx hc hr
  have hlive : e.remoteExited = false ∧ x.closing = false := by
    rcases hf with ⟨_,hest,_⟩ | ⟨hre,hcl,_⟩
    · simp [ho] at hest
    · exact ⟨hre,hcl⟩
  have hs : e.stale x.currentAttempt = false := hat ▸ stale_live h.live
  unfold Effect.onOpen
  rw [if_neg (by simpa [Effect.stale] using hs)]
  have q := quiet_showConnected x.isReconnect { e with
    sockets := (e.sockets.modify i (fun x => { x with established := true })).modify i
      (fun x => { x with opened := true }) }
  have hg := good_swap (x := { x with established := true,opened := true }) q h.live
    ⟨h.wired.own,h.wired.reconnect,h.wired.notice⟩
    (touch_only i (fun x => { x with opened := true }) (fun _ => rfl) (fun _ => rfl)
      (touch_only i (fun x => { x with established := true }) (fun _ => rfl) (fun _ => rfl) hu))
    (by simp [hx]) hc hr hat ⟨rfl,.inr ⟨q.remoteExited.trans hlive.1,hlive.2,by simp⟩⟩
  dsimp only
  split
  · exact good_send hg _ _
  · exact hg

theorem good_error {e : Effect} (h : Good e) {i : Nat} {x : Socket} (hx : e.sockets[i]? = some x)
    (hc : x.closed = false) (hr : x.run = e.number) : Good (e.onError x) := by
  obtain ⟨hat,⟨hop,hf⟩,hu⟩ := good_at h hx hc hr
  unfold Effect.onError
  rw [hat,if_neg (by simp [stale_live h.live])]
  split
  · rename_i hg
    simp only [Bool.and_eq_true,Bool.not_eq_true'] at hg
    have hest : x.established = false := hop ▸ hg.1
    rcases hf with ⟨_,ht,_⟩ | ⟨hre,hcl,_⟩
    · simp [hest] at ht
    · have q := quiet_setState { phase := .error,reason := some .websocketError } e
      exact good_swap q h.live h.wired hu hx hc hr hat
        ⟨hop,.inr ⟨q.remoteExited.trans hre,hcl,by simp [hest,hg.2]⟩⟩
  · exact h

theorem good_message {e : Effect} (h : Good e) (js : Js) {i : Nat} {x : Socket}
    (hx : e.sockets[i]? = some x) (hready : x.ready = true) (hr : x.run = e.number) (data : Bytes) :
    Good (e.onMessage js i x data) := by
  simp only [Socket.ready,Bool.and_eq_true,Bool.not_eq_true'] at hready
  obtain ⟨⟨hest,hclosing⟩,hc⟩ := hready
  obtain ⟨hat,⟨hop,hf⟩,hu⟩ := good_at h hx hc hr
  have hre : e.remoteExited = false := by
    rcases hf with ⟨_,_,hcl,_⟩ | ⟨hre,_,_⟩
    · simp [hclosing] at hcl
    · exact hre
  unfold Effect.onMessage
  rw [hat,if_neg (by simp [stale_live h.live])]
  split
  · exact ⟨h.live,⟨h.wired.own,h.wired.reconnect,h.wired.notice⟩,h.one⟩
  · rename_i message _
    have q := quiet_setState { phase := .error,reason := some .serverError,detail := some message } e
    exact good_swap q h.live h.wired hu hx hc hr hat
      ⟨hop,.inr ⟨q.remoteExited.trans hre,hclosing,by simp [hest]⟩⟩
  · rename_i code _
    have q := quiet_setState { phase := .closed,reason := some .remoteExit,exitCode := some code }
      { e with remoteExited := true }
    have hw := q.wired ⟨h.wired.own,h.wired.reconnect,h.wired.notice⟩
    refine ⟨q.cancelled.trans h.live,⟨hw.own,hw.reconnect,hw.notice⟩,some (.socket i),?_,
      { x with closing := true },?_,hc,hr.trans q.number.symm,hat.trans q.attempt.symm,hop,
      .inl ⟨q.remoteExited,hest,rfl,rfl⟩⟩
    · exact touch_only i _ (fun _ => rfl) (fun _ => rfl)
        (fun a ha => hu a ((quiet_present q ⟨h.wired.own,h.wired.reconnect,h.wired.notice⟩).mp ha))
    · simp [Page.close,q.sockets,hx]
  · exact h

theorem good_close {e : Effect} (h : Good e) {i : Nat} {x : Socket} (hx : e.sockets[i]? = some x)
    (hc : x.closed = false) (hr : x.run = e.number) :
    Good (({ e with sockets := e.sockets.modify i (fun x => { x with closed := true }) }
      : Effect).onClose i x) := by
  rw [onClose_eq]
  dsimp only
  generalize (if e.socketRef = some i then none else e.socketRef) = ref
  obtain ⟨hb,hat,_,hf⟩ := good_closed h hx hc hr ref
  rw [Effect.afterClose,hat,if_neg (by simp [Effect.stale,h.live])]
  split
  · rename_i hre
    rcases hf with ⟨_,_,_,hp⟩ | ⟨hn,_⟩
    · exact ⟨hb.live,hb.wired,none,fun a ha => absurd ha (hb.idle a),.inl ⟨hre,hp⟩⟩
    · simp [hn] at hre
  · rename_i hre
    have hre : e.remoteExited = false := by simpa using hre
    split
    · exact bare_schedule hb hre
    · split
      · exact bare_schedule hb hre
      · exact bare_error hb hre rfl rfl rfl

theorem good_rejected {e : Effect} (h : Good e) {i : Nat} {f : Fetch} (hf : e.fetches[i]? = some f)
    (hs : f.settled = false) (hr : f.run = e.number) (message : Option String) :
    Good (({ e with fetches := e.fetches.modify i (fun f => { f with settled := true }) }
      : Effect).rejected f message) := by
  obtain ⟨hb,hx,hat,_⟩ := good_settle h hf hs hr
  unfold Effect.rejected
  rw [hat,if_neg (by simp [Effect.stale,h.live])]
  split
  · have q := fun detail => quiet_setState ⟨.reconnecting,some .network,detail,none,none⟩
      { e with fetches := e.fetches.modify i (fun f => { f with settled := true }) }
    exact bare_schedule (hb.quiet (q _)) ((q _).remoteExited.trans hx)
  · exact bare_error hb hx rfl rfl rfl

theorem good_resolved {e : Effect} (h : Good e) {i : Nat} {f : Fetch} (hf : e.fetches[i]? = some f)
    (hs : f.settled = false) (hr : f.run = e.number) (status : Nat) :
    Good (({ e with fetches := e.fetches.modify i (fun f => { f with settled := true }) }
      : Effect).resolved f status) := by
  obtain ⟨hb,hx,hat,hp⟩ := good_settle h hf hs hr
  unfold Effect.resolved
  rw [hat,if_neg (by simp [Effect.stale,h.live])]
  split
  · exact bare_error hb hx rfl rfl rfl
  · split
    · exact bare_error hb hx rfl rfl rfl
    · refine bare_socket hb rfl rfl rfl ⟨rfl,.inr ⟨hx,rfl,?_⟩⟩
      cases hre : f.isReconnect <;> simp [hp,hre]

theorem good_reconnect {e : Effect} (h : Good e) {i : Nat} (hp : e.Pending i .reconnect) :
    Good (({ e with toPage := e.toPage.clearTimeout i } : Effect).reconnectExpired) := by
  obtain ⟨hb,hx⟩ := good_fired h hp
  exact bare_connect hb hx true

end Terminald.App
