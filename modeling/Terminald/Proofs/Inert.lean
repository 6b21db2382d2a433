import Terminald.Proofs.Traffic

namespace Terminald.App
open Machine Browser

/-- The run that is not over, of a mounted page. -/
def State.live (s : State) : Option Nat := if s.mounted then some (s.scopes.length - 1) else none

/-- The shared ref names the one socket of the live run that is not closed, and the
sockets of all other runs were closed from one side or the other. -/
structure Held (live : Option Nat) (p : Page) : Prop where
  current : ∀ i, p.socketRef = some i ↔
    ∃ x, p.sockets[i]? = some x ∧ x.closed = false ∧ some x.run = live
  released : ∀ (i : Nat) (x : Socket), p.sockets[i]? = some x → some x.run ≠ live →
    x.closing = true ∨ x.closed = true

section Scopes
variable {s t : State} {r : Nat} {sc : Scope}

theorem scope_live (h : Orderly s) (hsc : s.scopes[r]? = some sc) (hc : sc.cancelled = false) :
    s.live = some r ∧ sc.number = r ∧ Good ⟨s.page,sc⟩ := by
  cases h with
  | @mounted past sc' p hp hn hg ht =>
    rw [List.getElem?_append] at hsc
    split at hsc
    · have := hp sc (List.mem_of_getElem? hsc)
      simp [hc] at this
    · rename_i hr
      rw [List.getElem?_singleton] at hsc
      split at hsc
      · rename_i hz
        obtain rfl := Option.some.inj hsc
        have : r = past.length := by omega
        subst this
        exact ⟨by simp [State.live],hn,hg⟩
      · cases hsc
  | unmounted hp hq hr ht =>
    have := hp sc (List.mem_of_getElem? hsc)
    simp [hc] at this

theorem pending_run (h : Orderly s) {i : Nat} {u : Timer} (hu : s.page.timers[i]? = some u)
    (hp : u.pending = true) : s.live = some u.run := by
  obtain ⟨past,sc,p,rfl,_,_,_,_,hrun⟩ := pending_live h hu hp
  simp [State.live,hrun]

theorem call_live_same {page : Page} {cb : Effect → Effect}
    (h : ({ s with page := page } : State).call r cb = some t) : t.live = s.live := by
  obtain ⟨sc,_,he⟩ := Option.map_eq_some_iff.mp h
  subst he
  simp [State.live]

theorem step_live {js : Js} {l : Label} (h : step js s l = some t) (hm : l ≠ .mount)
    (hu : l ≠ .unmount) : t.live = s.live := by
  cases step_move h with
  | mounted hm' hc => exact absurd rfl hm
  | unmounted hm' hc => exact absurd rfl hu
  | rejected hf hs hc | resolved hf hs hc | reconnect hu' hp hb hc | notice hu' hp hb hc
  | opened hx he hs hc | errored hx hs hc | message hx hr hc | closed hx hs hc =>
    exact call_live_same hc
  | data hm' | resize hm' => rfl

end Scopes

section Held
variable {live : Option Nat} {p q : Page}

theorem Held.aside (h : Held live p) (ha : Aside p q) : Held live q := by
  refine ⟨?_,?_⟩
  · intro i
    rw [ha.socketRef,ha.sockets]
    exact h.current i
  · intro i x hx
    exact h.released i x (ha.sockets ▸ hx)

/-- Sockets change, but not whose they are, nor do they come back. -/
theorem Held.modify (h : Held live p) (i : Nat) {g : Socket → Socket} (hr : ∀ x, (g x).run = x.run)
    (hc : ∀ x, (g x).closed = x.closed) (hg : ∀ x, x.closing = true → (g x).closing = true) :
    Held live { p with sockets := p.sockets.modify i g } := by
  refine ⟨?_,?_⟩
  · intro j
    apply (h.current j).trans
    simp only [List.getElem?_modify]
    by_cases hj : i = j
    · subst hj
      cases hx : p.sockets[i]? <;> simp [hr,hc]
    · simp [hj]
  · intro j y hy hne
    rw [List.getElem?_modify] at hy
    cases hx : p.sockets[j]? with
    | none => simp [hx] at hy
    | some x =>
      simp only [hx,Option.map_eq_map,Option.map_some,Option.some.injEq] at hy
      subst hy
      split at hne
      · rw [hr] at hne
        rw [if_pos ‹_›,hc]
        exact (h.released j x hx hne).imp (hg x) id
      · rw [if_neg ‹_›]
        exact h.released j x hx hne

theorem Held.send (h : Held live p) (i : Nat) (frame : Bytes) : Held live (p.send i frame) :=
  h.modify i (fun _ => rfl) (fun _ => rfl) (fun _ => id)

/-- A socket that the page closes was never of another run's, or not the current one. -/
theorem Held.shut (h : Held live p) {i : Nat} {x : Socket} (hx : p.sockets[i]? = some x) :
    Held live { p.shut i with socketRef := if p.socketRef = some i then none else p.socketRef } := by
  refine ⟨?_,?_⟩
  · intro j
    simp only [Page.shut,List.getElem?_modify]
    by_cases hj : i = j
    · subst hj
      simp only [hx,if_true,Option.map_eq_map,Option.map_some,Option.some.injEq]
      constructor
      · intro hs
        split at hs
        · cases hs
        · exact absurd hs ‹_›
      · intro ⟨y,hy,hyc,_⟩
        subst hy
        cases hyc
    · simp only [hj,if_false,Option.map_eq_map,Option.map_id']
      rw [← h.current j]
      split
      · rename_i hs
        rw [hs]
        simp [hj]
      · rfl
  · intro j y hy hne
    simp only [Page.shut,List.getElem?_modify] at hy
    by_cases hj : i = j
    · subst hj
      simp only [hx,if_true,Option.map_eq_map,Option.map_some,Option.some.injEq] at hy
      exact .inr (hy ▸ rfl)
    · simp only [hj,if_false,Option.map_eq_map,Option.map_id'] at hy
      exact h.released j y hy hne

/-- With the run the last socket goes that was not closed. -/
theorem Held.cleanup (h : Held live p) :
    Held none (match p.socketRef with
      | some i => { p.close i with socketRef := none }
      | none => p) := by
  have freed : ∀ {q : Page}, q.socketRef = none →
      (∀ (i : Nat) (x : Socket), q.sockets[i]? = some x → x.closing = true ∨ x.closed = true) →
      Held none q := by
    intro q hq hall
    exact ⟨fun i => by simp [hq],fun i x hx _ => hall i x hx⟩
  have known : ∀ (i : Nat) (x : Socket), p.sockets[i]? = some x →
      x.closing = true ∨ x.closed = true ∨ p.socketRef = some i := by
    intro i x hx
    by_cases hl : some x.run = live
    · cases hc : x.closed with
      | true => exact .inr (.inl rfl)
      | false => exact .inr (.inr ((h.current i).mpr ⟨x,hx,hc,hl⟩))
    · exact (h.released i x hx hl).imp_right .inl
  cases hs : p.socketRef with
  | none =>
    apply freed hs
    intro i x hx
    have := known i x hx
    simpa [hs] using this
  | some k =>
    apply freed rfl
    intro i y hy
    simp only [Page.close,List.getElem?_modify] at hy
    by_cases hk : k = i
    · subst hk
      obtain ⟨x,hx,_⟩ := (h.current k).mp hs
      simp only [hx,if_true,Option.map_eq_map,Option.map_some,Option.some.injEq] at hy
      exact .inl (hy ▸ rfl)
    · simp only [hk,if_false,Option.map_eq_map,Option.map_id'] at hy
      have := known i y hy
      simpa [hs,hk] using this

/-- A run that has no socket makes one. -/
theorem Held.create {n : Nat} (h : Held (some n) p) {x : Socket} (hr : x.run = n)
    (hc : x.closed = false) (hs : q.sockets = p.sockets ++ [x])
    (href : q.socketRef = some p.sockets.length)
    (hno : ∀ i, ¬ p.Present n (.socket i)) : Held (some n) q := by
  refine ⟨?_,?_⟩
  · intro i
    rw [href,hs]
    constructor
    · intro hi
      obtain rfl := Option.some.inj hi
      exact ⟨x,by simp,hc,congrArg some hr⟩
    · intro ⟨y,hy,hyc,hyr⟩
      rw [List.getElem?_append] at hy
      split at hy
      · exact absurd ⟨y,hy,hyc,Option.some.inj hyr⟩ (hno i)
      · rw [List.getElem?_singleton] at hy
        split at hy
        · congr 1
          omega
        · cases hy
  · intro i y hy hne
    rw [hs,List.getElem?_append] at hy
    split at hy
    · exact h.released i y hy hne
    · rw [List.getElem?_singleton] at hy
      split at hy
      · obtain rfl := Option.some.inj hy
        exact absurd (congrArg some hr) hne
      · cases hy

end Held

section Steps
variable {js : Js} {s t : State} {l : Label}

theorem sendInput_held {live : Option Nat} {p : Page} (h : Held live p) (text : String) :
    Held live (p.sendInput text) :=
  sendInput_rule (fun _ => h) (fun i _ _ => h.send i _)

theorem sendResize_held {live : Option Nat} {p : Page} (h : Held live p) (size : Size) :
    Held live (p.sendResize size) := by
  have hl : Held live { p with latestSizeRef := some size } := ⟨h.current,h.released⟩
  exact sendResize_rule (fun _ => hl) (fun i _ _ => hl.send i _)

theorem mount_held (ho : Orderly s) (h : Held s.live s.page) (hm : s.mounted = false) :
    Held (some s.scopes.length) s.page := by
  have hl : s.live = none := by simp [State.live,hm]
  rw [hl] at h
  cases ho with
  | mounted hp hn hg ht => cases hm
  | unmounted hp hq hr ht =>
    refine ⟨?_,?_⟩
    · intro i
      apply (h.current i).trans
      constructor
      · intro ⟨x,_,_,hx⟩
        cases hx
      · intro ⟨x,hx,_,hrun⟩
        exact absurd (Option.some.inj hrun) (Nat.ne_of_lt (ht.sockets i x hx))
    · intro i x hx _
      exact h.released i x hx (fun he => nomatch he)

theorem step_held (ho : Orderly s) (h : Held s.live s.page) (hstep : step js s l = some t) :
    Held t.live t.page := by
  by_cases hm : l = .mount
  · subst hm
    cases step_move hstep with
    | mounted hm hc =>
      obtain ⟨sc,hsc,he⟩ := Option.map_eq_some_iff.mp hc
      have hlive : t.live = some s.scopes.length := by
        subst he
        simp [State.live]
      rw [hlive]
      have hp : t.page = (Effect.connect false ⟨s.page,sc⟩).toPage := he ▸ rfl
      rw [hp]
      exact (mount_held ho h hm).aside (aside_connect ⟨s.page,sc⟩ false)
  · by_cases hu : l = .unmount
    · subst hu
      cases step_move hstep with
      | @unmounted u hm hc =>
        obtain ⟨sc,hsc,he⟩ := Option.map_eq_some_iff.mp hc
        have hp : u.page = (Effect.cleanup ⟨s.page,sc⟩).toPage := he ▸ rfl
        change Held none u.page
        rw [hp]
        exact h.cleanup.aside (aside_cleanup ⟨s.page,sc⟩)
    · rw [step_live hstep hm hu]
      have ht := step_traffic hstep
      generalize t.page = q at ht ⊢
      cases ht with
      | aside hn ha => exact h.aside ha
      | @created i f sc q hf hn hsc hl hs hr hz hw =>
        obtain ⟨hlive,hnum,hg⟩ := scope_live ho hsc hl
        rw [hlive] at h ⊢
        apply h.create hnum rfl hs hr
        intro j hj
        have hp : Page.Present s.page sc.number (.fetch i) := ⟨f,hf,hn,hnum.symm⟩
        have := good_unique hg hp (hnum ▸ hj)
        cases this
      | @refused i x sc q hx he hc hsc hl ha =>
        have hp := (h.modify i (g := fun x => { x with established := true })
          (fun _ => rfl) (fun _ => rfl) (fun _ => id)).modify i
          (g := fun x => { x with closing := true }) (fun _ => rfl) (fun _ => rfl) (fun _ _ => rfl)
        exact hp.aside ha
      | @opened i x sc p q hx he hc hsc hl ha hq =>
        have hp := ((h.modify i (g := fun x => { x with established := true })
          (fun _ => rfl) (fun _ => rfl) (fun _ => id)).modify i
          (g := fun x => { x with opened := true }) (fun _ => rfl) (fun _ => rfl) (fun _ => id)).aside ha
        rw [hq]
        split
        · exact hp.send _ _
        · exact hp
      | @output i x sc data bytes q hx hr hsc hl hd hp =>
        have hw : Held s.live { s.page with written := s.page.written ++ [bytes] } :=
          ⟨h.current,h.released⟩
        exact hw.aside hp
      | @exited i x data code q hx hr hd ha =>
        have hp := h.modify i (g := fun x => { x with closing := true })
          (fun _ => rfl) (fun _ => rfl) (fun _ _ => rfl)
        exact hp.aside ha
      | closed hx hc ha => exact (h.shut hx).aside ha
      | unmounted ha => exact absurd rfl hu
      | data hm => exact sendInput_held h _
      | resize hm => exact sendResize_held h _

theorem reachable_held {s : State} (hr : (system js).Reachable s) : Held s.live s.page := by
  apply hr.invariant (I := fun s => Held s.live s.page)
  · refine ⟨fun i => ?_,?_⟩
    · simp [system,start]
    · simp [system,start]
  · intro s l t hs h hstep
    exact step_held (reachable_orderly hs) h hstep

end Steps

/-- A run that was cleaned up. -/
def State.Over (s : State) (r : Nat) : Prop := r < s.scopes.length ∧ s.live ≠ some r

/-- The run whose callback the event is. -/
def State.owner (s : State) : Label → Option Nat
  | .fetched i _ => (s.page.fetches[i]?).map Fetch.run
  | .timer i => (s.page.timers[i]?).map Timer.run
  | .opened i | .errored i | .message i _ | .closed i => (s.page.sockets[i]?).map Socket.run
  | .mount | .unmount | .data _ | .resize _ => none

/-- What at most changes is that run `r` closed sockets and settled fetches of its own. -/
structure Still (r : Nat) (p q : Page) : Prop where
  foreign : ∀ n, n ≠ r → Foreign n p q
  connectionState : q.connectionState = p.connectionState
  written : q.written = p.written
  latestSizeRef : q.latestSizeRef = p.latestSizeRef
  socketRef : q.socketRef = p.socketRef
  reconnectTimerRef : q.reconnectTimerRef = p.reconnectTimerRef
  timers : q.timers = p.timers
  sockets : q.sockets.length = p.sockets.length
  fetches : q.fetches.length = p.fetches.length

structure Inert (r : Nat) (s t : State) : Prop where
  page : Still r s.page t.page
  scopes : t.scopes = s.scopes
  mounted : t.mounted = s.mounted

section Inert
variable {js : Js} {s t : State} {l : Label} {r : Nat}

theorem over_cancelled (h : Orderly s) (ho : s.Over r) {sc : Scope} (hsc : s.scopes[r]? = some sc) :
    sc.cancelled = true := by
  by_contra hc
  have hl := (scope_live h hsc (by simpa using hc)).1
  exact ho.2 hl

theorem still_same (p : Page) : Still r p p :=
  ⟨fun n _ => foreign_same n p,rfl,rfl,rfl,rfl,rfl,rfl,rfl,rfl⟩

theorem Still.trans {p q w : Page} (h : Still r p q) (k : Still r q w) : Still r p w :=
  ⟨fun n hn => (h.foreign n hn).trans (k.foreign n hn),k.connectionState.trans h.connectionState,
    k.written.trans h.written,k.latestSizeRef.trans h.latestSizeRef,k.socketRef.trans h.socketRef,
    k.reconnectTimerRef.trans h.reconnectTimerRef,k.timers.trans h.timers,
    k.sockets.trans h.sockets,k.fetches.trans h.fetches⟩

theorem still_modify {p : Page} {i : Nat} {x : Socket} (hx : p.sockets[i]? = some x)
    (g : Socket → Socket) (hg : (g x).run = x.run) :
    Still x.run p { p with sockets := p.sockets.modify i g } :=
  ⟨fun _ hn => foreign_modify hx hn g hg p.socketRef,rfl,rfl,rfl,rfl,rfl,rfl,List.length_modify ..,rfl⟩

theorem still_settle {p : Page} {i : Nat} {f : Fetch} (hf : p.fetches[i]? = some f) :
    Still f.run p (p.settle i) :=
  ⟨fun _ hn => foreign_settle hf hn,rfl,rfl,rfl,rfl,rfl,rfl,rfl,List.length_modify ..⟩

/-- The callback of a run that is over, after what the browser did to the page. -/
theorem call_inert (h : Orderly s) (ho : s.Over r) {page : Page} {callback : Effect → Effect}
    (hc : ({ s with page := page } : State).call r callback = some t)
    (hcb : ∀ sc : Scope, sc.cancelled = true → ∃ q, callback ⟨page,sc⟩ = ⟨q,sc⟩ ∧ Still r s.page q) :
    Inert r s t := by
  obtain ⟨sc,hsc,he⟩ := Option.map_eq_some_iff.mp hc
  obtain ⟨q,hq,hs⟩ := hcb sc (over_cancelled h ho hsc)
  subst he
  simp only [hq]
  exact ⟨hs,set_same hsc,rfl⟩

/-- A socket of a run that is over is not the current one. -/
theorem over_detached (h : Held s.live s.page) (hx : s.page.sockets[i]? = some x)
    (ho : s.Over x.run) : s.page.socketRef ≠ some i := by
  intro hi
  obtain ⟨y,hy,_,hrun⟩ := (h.current i).mp hi
  obtain rfl := Option.some.inj (hx.symm.trans hy)
  exact ho.2 hrun.symm

theorem over_inert (h : Orderly s) (hh : Held s.live s.page) (hw : s.owner l = some r)
    (ho : s.Over r) (hstep : step js s l = some t) : Inert r s t := by
  cases step_move hstep with
  | mounted hm hc | unmounted hm hc => cases hw
  | data hm | resize hm => cases hw
  | @rejected i f message _ hf hs hc =>
    obtain rfl : f.run = r := by simpa [State.owner,hf] using hw
    exact call_inert h ho hc (fun sc hsc => ⟨_,rejected_stale hsc f message,still_settle hf⟩)
  | @resolved i f status _ hf hs hc =>
    obtain rfl : f.run = r := by simpa [State.owner,hf] using hw
    exact call_inert h ho hc (fun sc hsc => ⟨_,resolved_stale hsc f status,still_settle hf⟩)
  | reconnect hu hp hb hc | notice hu hp hb hc =>
    have hr := pending_run h hu hp
    simp only [State.owner,hu,Option.map_some] at hw
    exact absurd (hr.trans hw) ho.2
  | @opened i x _ hx he hs hc =>
    obtain rfl : x.run = r := by simpa [State.owner,hx] using hw
    apply call_inert h ho hc
    intro sc hsc
    refine ⟨_,open_stale hsc i x,?_⟩
    have hy : (s.page.establish i).sockets[i]? = some { x with established := true } := by
      simp [Page.establish,hx]
    exact (still_modify hx (fun x => { x with established := true }) rfl).trans
      (still_modify hy (fun x => { x with closing := true }) rfl)
  | @errored i x _ hx hs hc =>
    obtain rfl : x.run = r := by simpa [State.owner,hx] using hw
    exact call_inert h ho hc (fun sc hsc => ⟨_,error_stale hsc x,still_same _⟩)
  | @message i x data _ hx hr hc =>
    obtain rfl : x.run = r := by simpa [State.owner,hx] using hw
    exact call_inert h ho hc (fun sc hsc => ⟨_,message_stale hsc js i x data,still_same _⟩)
  | @closed i x _ hx hs hc =>
    obtain rfl : x.run = r := by simpa [State.owner,hx] using hw
    apply call_inert h ho hc
    intro sc hsc
    have hne : s.page.socketRef ≠ some i := over_detached hh hx ho
    have he : Effect.onClose i x ⟨s.page.shut i,sc⟩ = ⟨s.page.shut i,sc⟩ := by
      simp only [Effect.onClose,Page.shut,hne,if_false]
      exact if_pos (stale_cancelled hsc x.currentAttempt)
    exact ⟨_,he,still_modify hx (fun x => { x with closed := true }) rfl⟩

end Inert

/-- The callbacks of a run that was cleaned up do nothing that another run or the
reader of the page would notice, and nothing it made is left open or pending. -/
theorem stale_events_inert {js : Js} {s : State} (hr : (system js).Reachable s) :
    (∀ l r t, s.owner l = some r → s.Over r → step js s l = some t → Inert r s t) ∧
    (∀ r, s.Over r →
      (∀ (i : Nat) (x : Socket), s.page.sockets[i]? = some x → x.run = r →
        x.closing = true ∨ x.closed = true) ∧
      ∀ (i : Nat) (u : Timer), s.page.timers[i]? = some u → u.run = r → u.pending = false) ∧
    ∀ t, step js s .unmount = some t → ∀ r, r < s.scopes.length → t.Over r := by
  have h := reachable_orderly hr
  have hh := reachable_held hr
  refine ⟨fun l r t hw ho hstep => over_inert h hh hw ho hstep,?_,?_⟩
  · intro r ho
    refine ⟨?_,?_⟩
    · intro i x hx hrun
      exact hh.released i x hx (hrun ▸ ho.2.symm)
    · intro i u hu hrun
      by_contra hp
      have hl := pending_run h hu (by simpa using hp)
      exact ho.2 (hrun ▸ hl)
  · intro t hstep r hlt
    cases step_move hstep with
    | @unmounted u hm hc =>
      obtain ⟨sc,_,he⟩ := Option.map_eq_some_iff.mp hc
      subst he
      refine ⟨?_,?_⟩
      · rw [List.length_set]
        exact hlt
      · intro hn
        cases hn

/-- The first run's socket is left to close when the second run has its own. -/
def remountRun : List Label :=
  [.mount,.fetched 0 (.ok 204),.opened 0,.unmount,.mount,.fetched 1 (.ok 204),.opened 1]

theorem stale_events_inert_remount :
    ∃ s t, (system ⟨fun _ => "",fun _ => .integer 0⟩).Reachable s ∧
      step ⟨fun _ => "",fun _ => .integer 0⟩ s (.closed 0) = some t ∧ Inert 0 s t ∧
      t.page.socketRef = some 1 := by
  have hr := System.reachable_end (m := system ⟨fun _ => "",fun _ => .integer 0⟩) remountRun rfl
  exact ⟨_,_,hr,rfl,(stale_events_inert hr).1 (.closed 0) 0 _ rfl ⟨by decide,by decide⟩ rfl,rfl⟩

end Terminald.App
