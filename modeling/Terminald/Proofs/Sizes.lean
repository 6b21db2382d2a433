import Terminald.Proofs.Inert
import Terminald.Proofs.Input
import Terminald.Proofs.Payload

namespace Terminald.App
open Machine Browser Protocol

def isResize (frame : Bytes) : Bool := frame.head? == some clientResize

/-- The last resize frame of what was sent on a socket. -/
def lastResize (frames : List Bytes) : Option Bytes := (frames.filter isResize).getLast?

/-- The size reported last in the course of a run. -/
def latest (labels : List Label) : Option Size := (labels.filterMap reported).getLast?

/-- The current socket was last told the noted size. -/
def Synced (p : Page) : Prop :=
  ∀ i x size, p.socketRef = some i → p.sockets[i]? = some x → x.opened = true → x.ready = true →
    p.latestSizeRef = some size → lastResize x.sent = some (encodeResize size.cols size.rows)

section Frames

theorem lastResize_snoc (frames : List Bytes) (frame : Bytes) :
    lastResize (frames ++ [frame]) = if isResize frame then some frame else lastResize frames := by
  by_cases h : isResize frame = true
  · simp [lastResize,List.filter_append,h]
  · simp [lastResize,List.filter_append,h]

theorem lastResize_input (frames : List Bytes) (data : Bytes) :
    lastResize (frames ++ [encodeInput data]) = lastResize frames := by
  rw [lastResize_snoc,if_neg]
  simp [isResize,encodeInput,clientInput,clientResize]

theorem lastResize_resize (frames : List Bytes) (cols rows : Nat) :
    lastResize (frames ++ [encodeResize cols rows]) = some (encodeResize cols rows) := by
  rw [lastResize_snoc,if_pos]
  simp [isResize,encodeResize]

end Frames

section Pages
variable {p q : Page} {i : Nat}

theorem Synced.aside (h : Synced p) (ha : Aside p q) : Synced q := by
  intro j x size hj hx ho hr hz
  exact h j x size (ha.socketRef ▸ hj) (ha.sockets ▸ hx) ho hr (ha.latestSizeRef ▸ hz)

theorem Synced.modify (h : Synced p) (i : Nat) {g : Socket → Socket}
    (ho : ∀ x, (g x).opened = true → (g x).ready = true → x.opened = true ∧ x.ready = true)
    (hl : ∀ x, lastResize (g x).sent = lastResize x.sent) :
    Synced { p with sockets := p.sockets.modify i g } := by
  intro j y size hj hy hopen hready hz
  rw [List.getElem?_modify] at hy
  cases hx : p.sockets[j]? with
  | none => simp [hx] at hy
  | some x =>
    simp only [hx,Option.map_eq_map,Option.map_some,Option.some.injEq] at hy
    subst hy
    split at hopen
    · rw [if_pos ‹_›] at hready ⊢
      obtain ⟨hxo,hxr⟩ := ho x hopen hready
      rw [hl]
      exact h j x size hj hx hxo hxr hz
    · rw [if_neg ‹_›] at hready ⊢
      exact h j x size hj hx hopen hready hz

theorem Synced.input (h : Synced p) (i : Nat) (data : Bytes) : Synced (p.send i (encodeInput data)) :=
  h.modify i (fun _ ho hr => ⟨ho,hr⟩) (fun x => lastResize_input x.sent data)

/-- The current socket is told the noted size if it is open. -/
theorem synced_send {size : Size} (hz : p.latestSizeRef = some size) (hr : p.socketRef = some i) :
    Synced (p.send i (encodeResize size.cols size.rows)) := by
  intro j y size' hj hy _ _ hz'
  obtain rfl := Option.some.inj (hr.symm.trans hj)
  obtain rfl := Option.some.inj (hz.symm.trans hz')
  simp only [Page.send,List.getElem?_modify,if_true] at hy
  cases hx : p.sockets[i]? with
  | none => simp [hx] at hy
  | some x =>
    simp only [hx,Option.map_eq_map,Option.map_some,Option.some.injEq] at hy
    subst hy
    exact lastResize_resize x.sent size.cols size.rows

theorem isReady_iff : p.isReady i = true ↔ ∃ x, p.sockets[i]? = some x ∧ x.ready = true := by
  simp only [Page.isReady]
  cases p.sockets[i]? <;> simp

theorem sendResize_synced (size : Size) : Synced (p.sendResize size) := by
  apply sendResize_rule
  · intro hn j x size' hj hx _ hr _
    exact absurd (isReady_iff.mpr ⟨x,hx,hr⟩) (hn j hj)
  · intro i hi _
    exact synced_send (p := { p with latestSizeRef := some size }) rfl hi

end Pages

section Steps
variable {js : Js} {s t : State} {l : Label}

/-- A socket that opens for the newest attempt of the live run is the current one
and was not closed by the page. -/
theorem opening_current (ho : Orderly s) (hh : Held s.live s.page) {i : Nat} {x : Socket} {sc : Scope}
    (hx : s.page.sockets[i]? = some x) (he : x.established = false) (hc : x.closed = false)
    (hsc : s.scopes[x.run]? = some sc) (hl : Effect.stale ⟨s.page,sc⟩ x.currentAttempt = false) :
    s.page.socketRef = some i ∧ x.closing = false := by
  obtain ⟨hlive,hnum,hg⟩ := scope_live ho hsc (stale_false (Bool.eq_false_iff.mp hl)).1
  refine ⟨(hh.current i).mpr ⟨x,hx,hc,hlive.symm⟩,?_⟩
  obtain ⟨_,⟨_,hest,_⟩ | ⟨_,hcl,_⟩⟩ := (good_at hg hx hc hnum.symm).2.1
  · exact absurd (he.symm.trans hest) Bool.false_ne_true
  · exact hcl

/-- The open event of a current socket that is open has been handled. -/
theorem open_current (ho : Orderly s) {i : Nat} {x : Socket} (hx : s.page.sockets[i]? = some x)
    (hc : x.closed = false) (hl : some x.run = s.live) (hr : x.ready = true) : x.opened = true := by
  cases ho with
  | unmounted hp hq hr ht => cases hl
  | @mounted past sc p hp hn hg ht =>
    have hrun : x.run = sc.number := by simpa [State.live,hn] using hl
    have hopen : x.opened = x.established := (good_at hg hx hc hrun).2.1.1
    rw [hopen]
    simp only [Socket.ready,Bool.and_eq_true] at hr
    exact hr.1.1

theorem step_synced (ho : Orderly s) (hh : Held s.live s.page) (h : Synced s.page)
    (hstep : step js s l = some t) : Synced t.page := by
  have ht := step_traffic hstep
  generalize t.page = q at ht ⊢
  cases ht with
  | aside hl ha => exact h.aside ha
  | created hf hn hsc hl hs hr hz hw =>
    intro j x size hj hx hopen
    rw [hr] at hj
    obtain rfl := Option.some.inj hj
    rw [hs,List.getElem?_concat_length] at hx
    obtain rfl := Option.some.inj hx
    cases hopen
  | @refused i x sc q hx he hc hsc hl ha =>
    have hp : Synced { s.page with sockets := s.page.sockets.modify i (fun x =>
        { x with established := true,closing := true }) } :=
      h.modify i (fun x ho hr => by simp [Socket.ready] at hr) (fun _ => rfl)
    have he : (s.page.establish i).close i = { s.page with sockets := s.page.sockets.modify i (fun x =>
        { x with established := true,closing := true }) } := by
      simp only [Page.establish,Page.close,List.modify_modify_eq]
      rfl
    exact (he ▸ hp).aside ha
  | @opened i x sc p q hx he hc hsc hl ha hq =>
    have hz : p.latestSizeRef = s.page.latestSizeRef := ha.latestSizeRef
    cases hsize : s.page.latestSizeRef with
    | none =>
      rw [hsize] at hq
      subst hq
      intro j y size hj hy _ _ hs
      rw [hz,hsize] at hs
      cases hs
    | some size =>
      rw [hsize] at hq
      rw [hq]
      have href : p.socketRef = some i := ha.socketRef.trans (opening_current ho hh hx he hc hsc hl).1
      exact synced_send (hz.trans hsize) href
  | @output i x sc data bytes q hx hr hsc hl hd hp =>
    have hw : Synced { s.page with written := s.page.written ++ [bytes] } := h
    exact hw.aside hp
  | @exited i x data code q hx hr hd ha =>
    have hp := h.modify i (g := fun x => { x with closing := true })
      (fun x ho hr => by simp [Socket.ready] at hr) (fun _ => rfl)
    exact hp.aside ha
  | @closed i x q hx hc ha =>
    have hp := h.modify i (g := fun x => { x with closed := true })
      (fun x ho hr => by simp [Socket.ready] at hr) (fun _ => rfl)
    apply Synced.aside _ ha
    intro j y size hj
    split at hj
    · cases hj
    · exact hp j y size hj
  | unmounted ha =>
    apply Synced.aside _ ha
    split
    · intro j y size hj
      cases hj
    · exact h
  | data hm => exact sendInput_rule (fun _ => h) (fun i _ _ => h.input i _)
  | resize hm => exact sendResize_synced _

theorem reachable_synced (hr : (system js).Reachable s) : Synced s.page := by
  apply hr.invariant (I := fun s => Synced s.page)
  · intro i x size hi
    cases hi
  · intro s l t hs h hstep
    exact step_synced (reachable_orderly hs) (reachable_held hs) h hstep

/-- The size noted is the one reported last. -/
theorem step_latest (hstep : step js s l = some t) :
    t.page.latestSizeRef = (reported l).or s.page.latestSizeRef := by
  have ht := step_traffic hstep
  generalize t.page = q at ht ⊢
  cases ht with
  | aside hl ha =>
    rw [hl.reported]
    exact ha.latestSizeRef
  | created hf hn hsc hl hs hr hz hw => exact hz
  | refused hx he hc hsc hl ha => exact ha.latestSizeRef
  | opened hx he hc hsc hl ha hq =>
    rw [hq]
    split
    · exact ha.latestSizeRef
    · exact ha.latestSizeRef
  | output hx hr hsc hl hd hp => exact hp.latestSizeRef
  | exited hx hr hd ha => exact ha.latestSizeRef
  | closed hx hc ha => exact ha.latestSizeRef
  | unmounted ha =>
    apply ha.latestSizeRef.trans
    split <;> rfl
  | data hm =>
    exact sendInput_rule (P := fun q => q.latestSizeRef = s.page.latestSizeRef) (fun _ => rfl)
      (fun _ _ _ => rfl)
  | @resize size hm =>
    exact sendResize_rule (P := fun q => q.latestSizeRef = some size) (fun _ => rfl) (fun _ _ _ => rfl)

theorem run_latest {ls : List Label} (hr : (system js).run (system js).start ls = some s) :
    s.page.latestSizeRef = latest ls := by
  apply System.run_history (I := fun ls s => s.page.latestSizeRef = latest ls) rfl _ hr
  intro past s l t _ h hstep
  rw [step_latest hstep,h,latest,latest,List.filterMap_append,List.getLast?_append]
  cases hl : reported l <;> simp [hl]

section Calls
variable {p q w : Page} {i j : Nat} {frame : Bytes}

/-- One frame was passed to `send`, on one socket. -/
def Passed (p q : Page) (i : Nat) (frame : Bytes) : Prop :=
  ∀ j, sentOn q j = sentOn p j ++ if j = i then [frame] else []

theorem sent_same (hs : q.sockets = p.sockets) (j : Nat) : sentOn q j = sentOn p j := by
  rw [sentOn,hs,sentOn]

theorem sent_modify {g : Socket → Socket} (hs : q.sockets = p.sockets.modify i g) (hg : ∀ x, (g x).sent = x.sent)
    (j : Nat) : sentOn q j = sentOn p j := by
  simp only [sentOn,hs,List.getElem?_modify]
  cases p.sockets[j]? with
  | none => rfl
  | some x =>
    simp only [Option.map_eq_map,Option.map_some,Option.getD_some]
    split
    · exact hg x
    · rfl

theorem sent_close (p : Page) (i j : Nat) : sentOn (p.close i) j = sentOn p j :=
  sent_modify (g := fun x => { x with closing := true }) rfl (fun _ => rfl) j

theorem sent_establish (p : Page) (i j : Nat) : sentOn (p.establish i) j = sentOn p j :=
  sent_modify (g := fun x => { x with established := true }) rfl (fun _ => rfl) j

theorem passed_send {x : Socket} (hx : p.sockets[i]? = some x) (frame : Bytes) :
    Passed p (p.send i frame) i frame := by
  intro j
  simp only [sentOn,Page.send,List.getElem?_modify]
  by_cases hj : i = j
  · subst hj
    simp [hx]
  · cases p.sockets[j]? <;> simp [hj,Ne.symm hj]

theorem Passed.after (h : Passed q w i frame) (hs : ∀ j, sentOn q j = sentOn p j) : Passed p w i frame :=
  fun j => hs j ▸ h j

theorem isReady_send (p : Page) (i j : Nat) (frame : Bytes) : (p.send i frame).isReady j = p.isReady j := by
  simp only [Page.isReady,Page.send,List.getElem?_modify]
  cases p.sockets[j]? with
  | none => rfl
  | some x =>
    simp only [Option.map_eq_map,Option.map_some,Option.any_some]
    split <;> rfl

end Calls

/-- What a step passes to `send`: nothing, or one frame on one socket. -/
inductive Sends (s : State) (q : Page) : Label → Prop
  | nothing (h : ∀ j, sentOn q j = sentOn s.page j)
      (hn : ∀ text, k = .data text → ∀ i, s.page.socketRef = some i → ¬s.page.isReady i = true) : Sends s q k
  | input (hi : s.page.socketRef = some i) (hr : s.page.isReady i = true) (hq : q.isReady i = true)
      (h : Passed s.page q i (encodeInput (utf8 text))) : Sends s q (.data text)
  | size {size : Size} (hi : s.page.socketRef = some i) (hr : s.page.isReady i = true) (hq : q.isReady i = true)
      (h : Passed s.page q i (encodeResize size.cols size.rows)) : Sends s q (.resize size)
  | opened {size : Size} (hx : s.page.sockets[i]? = some x) (he : x.established = false)
      (hc : x.closed = false) (hsc : s.scopes[x.run]? = some sc)
      (hl : Effect.stale ⟨s.page,sc⟩ x.currentAttempt = false) (hq : q.isReady i = !x.closing)
      (h : Passed s.page q i (encodeResize size.cols size.rows)) : Sends s q (.opened i)

theorem step_sends (h : step js s l = some t) : Sends s t.page l := by
  have ht := step_traffic h
  generalize t.page = q at ht ⊢
  cases ht with
  | aside hl ha => exact .nothing (sent_same ha.sockets) (fun text he => absurd he (hl.typing text))
  | @created i f sc q hf hn hsc hl hs hr hz hw =>
    refine .nothing (fun j => ?_) (fun _ he => by cases he)
    simp only [sentOn,hs,List.getElem?_append]
    split
    · rfl
    · rename_i hj
      rw [List.getElem?_eq_none (Nat.le_of_not_lt hj)]
      cases (j - s.page.sockets.length) <;> rfl
  | @refused i x sc q hx he hc hsc hl ha =>
    refine .nothing (fun j => ?_) (fun _ he => by cases he)
    rw [sent_same ha.sockets,sent_close,sent_establish]
  | @opened i x sc p q hx he hc hsc hl ha hq =>
    have hopened : ∀ j, sentOn p j = sentOn s.page j := by
      intro j
      rw [sent_same ha.sockets,sent_modify (g := fun x => { x with opened := true }) rfl (fun _ => rfl),
        sent_establish]
    cases hsize : s.page.latestSizeRef with
    | none =>
      rw [hsize] at hq
      subst hq
      exact .nothing hopened (fun _ he => by cases he)
    | some size =>
      rw [hsize] at hq
      subst hq
      have hy : p.sockets[i]? = some { x with established := true,opened := true } := by
        rw [ha.sockets]
        simp [Page.establish,hx]
      refine .opened hx he hc hsc hl ?_ ((passed_send hy _).after hopened)
      rw [isReady_send]
      simp [Page.isReady,hy,Socket.ready,hc]
  | output hx hr hsc hl hd ha => exact .nothing (sent_same ha.sockets) (fun _ he => by cases he)
  | @exited i x data code q hx hr hd ha =>
    exact .nothing (fun j => (sent_same ha.sockets j).trans (sent_close _ i j)) (fun _ he => by cases he)
  | @closed i x q hx hc ha =>
    exact .nothing (sent_modify (g := fun x => { x with closed := true }) ha.sockets (fun _ => rfl))
      (fun _ he => by cases he)
  | unmounted ha =>
    refine .nothing (fun j => (sent_same ha.sockets j).trans ?_) (fun _ he => by cases he)
    split
    · exact sent_close _ _ j
    · rfl
  | @data text hm =>
    refine sendInput_rule (P := fun q => Sends s q (.data text)) (fun hn => ?_) (fun i hi hr => ?_)
    · exact .nothing (fun _ => rfl) (fun _ _ => hn)
    · obtain ⟨x,hx,_⟩ := isReady_iff.mp hr
      exact .input hi hr ((isReady_send _ _ _ _).trans hr) (passed_send hx _)
  | @resize size hm =>
    refine sendResize_rule (P := fun q => Sends s q (.resize size)) (fun _ => ?_) (fun i hi hr => ?_)
    · exact .nothing (fun _ => rfl) (fun _ he => by cases he)
    · obtain ⟨x,hx,_⟩ := isReady_iff.mp hr
      have hsent := passed_send (p := { s.page with latestSizeRef := some size }) hx
        (encodeResize size.cols size.rows)
      exact .size hi hr ((isReady_send _ _ _ _).trans hr) hsent

/-- No socket forgets what was sent on it. -/
theorem step_grown (h : step js s l = some t) (i : Nat) : sentOn s.page i <+: sentOn t.page i := by
  cases step_sends h with
  | nothing hs hn => exact hs i ▸ List.prefix_rfl
  | input hi hr hq hp | size hi hr hq hp | opened hx he hc hsc hl hq hp => exact hp i ▸ List.prefix_append _ _

/-- A socket on which a step sends is open then, and was before unless it is its open event. -/
theorem sends_ready (ho : Orderly s) (hh : Held s.live s.page) {q : Page} (h : Sends s q l) (i : Nat)
    (hne : sentOn q i ≠ sentOn s.page i) :
    q.isReady i = true ∧ (s.page.isReady i = true ∨ l = .opened i) := by
  have hit : ∀ {j frame}, Passed s.page q j frame → j = i := by
    intro j frame hp
    by_contra hij
    exact hne (by rw [hp i,if_neg (Ne.symm hij),List.append_nil])
  cases h with
  | nothing hs hn => exact absurd (hs i) hne
  | input hi hr hq hp | size hi hr hq hp =>
    obtain rfl := hit hp
    exact ⟨hq,.inl hr⟩
  | opened hx he hc hsc hl hq hp =>
    obtain rfl := hit hp
    rw [(opening_current ho hh hx he hc hsc hl).2] at hq
    exact ⟨hq,.inr rfl⟩

end Steps

section Window
variable {json : Json}

def frameOf : Session.Message → Option Bytes
  | .binary frame => some frame
  | _ => none

/-- The size a frame asks the server for. -/
def sizeOf (json : Json) (frame : Bytes) : Option Resize :=
  match ClientMessage.decode json frame with
  | .ok (.resize size) => some size
  | _ => none

theorem sizeOf_isResize {frame : Bytes} {w : Resize} (h : sizeOf json frame = some w) :
    isResize frame = true := by
  cases frame with
  | nil => simp [sizeOf,ClientMessage.decode] at h
  | cons kind payload =>
    by_cases hk : kind = clientResize
    · simp [isResize,hk]
    · by_cases hi : kind = clientInput
      · simp [sizeOf,ClientMessage.decode,hi,clientInput,clientResize] at h
      · simp [sizeOf,ClientMessage.decode,hk,hi] at h

theorem effect_sizes (msg : Session.Message) :
    (Session.effect json msg).filterMap Session.PtyOp.size =
      ((frameOf msg).bind (sizeOf json)).toList := by
  cases msg with
  | binary frame =>
    cases hd : ClientMessage.decode json frame with
    | error e => simp [Session.effect,frameOf,sizeOf,hd]
    | ok message =>
      cases message with
      | resize size => simp [Session.effect,frameOf,sizeOf,hd,Session.PtyOp.size]
      | input data =>
        simp only [Session.effect,hd,Session.bytes_sizes]
        simp [frameOf,sizeOf,hd]
  | text text => exact Session.bytes_sizes _
  | close | ping data | pong data => rfl

theorem effects_sizes (messages : List Session.Message) :
    (Session.effects json messages).filterMap Session.PtyOp.size =
      (messages.filterMap frameOf).filterMap (sizeOf json) := by
  induction messages with
  | nil => rfl
  | cons msg messages ih =>
    have hcons : Session.effects json (msg :: messages) =
      Session.effect json msg ++ Session.effects json messages := rfl
    rw [hcons,List.filterMap_append,ih,effect_sizes]
    cases hf : frameOf msg with
    | none => simp [hf]
    | some frame => cases hs : sizeOf json frame <;> simp [hf,hs]

theorem last_sizeOf {frames : List Bytes} {frame : Bytes} {w : Resize}
    (hl : lastResize frames = some frame) (hw : sizeOf json frame = some w) :
    (frames.filterMap (sizeOf json)).getLast? = some w := by
  induction frames using List.reverseRecOn with
  | nil => cases hl
  | append_singleton frames last ih =>
    rw [lastResize_snoc] at hl
    cases hs : sizeOf json last with
    | some v =>
      rw [if_pos (sizeOf_isResize hs)] at hl
      obtain rfl := Option.some.inj hl
      simp [hw]
    | none =>
      split at hl
      · obtain rfl := Option.some.inj hl
        exact nomatch hs.symm.trans hw
      · simpa [hs] using ih hl

/-- A session that is through with what it was sent has the window at the last size. -/
theorem window_last {S : Session.State} (hr : (Session.system json).Reachable S)
    (hd : S.driver = .select) {frame : Bytes} {w : Resize}
    (hl : lastResize (S.received.filterMap frameOf) = some frame)
    (hw : sizeOf json frame = some w) : S.winsize = w := by
  have h := Session.reachable_applied hr
  rw [h.window,h.idle hd,Session.lastSize,effects_sizes,last_sizeOf hl hw]
  rfl

end Window

/-- The open socket was told the size reported last, it and no other socket is sent
anything while it is not open, and a session that received all of it has the window
at that size. -/
theorem remote_size_converges {js : Js} {ls : List Label} {s : State} (describe : Bytes → String)
    (hrun : (system js).run (system js).start ls = some s) :
    (∀ i x size, s.page.socketRef = some i → s.page.sockets[i]? = some x → x.ready = true →
      latest ls = some size → lastResize x.sent = some (encodeResize size.cols size.rows)) ∧
    (∀ l t, step js s l = some t → ∀ i, sentOn s.page i <+: sentOn t.page i ∧
      (sentOn t.page i ≠ sentOn s.page i →
        t.page.isReady i = true ∧ (s.page.isReady i = true ∨ l = .opened i))) ∧
    ∀ i x (w : Resize) (S : Session.State), s.page.socketRef = some i →
      s.page.sockets[i]? = some x → x.ready = true →
      latest ls = some ⟨w.cols.toNat,w.rows.toNat⟩ →
      (Session.system (serdeJson describe)).Reachable S →
      S.received.filterMap frameOf = x.sent → S.driver = .select → S.winsize = w := by
  have hr : (system js).Reachable s := ⟨ls,hrun⟩
  have ho := reachable_orderly hr
  have hh := reachable_held hr
  have key : ∀ i x size, s.page.socketRef = some i → s.page.sockets[i]? = some x →
      x.ready = true → latest ls = some size →
      lastResize x.sent = some (encodeResize size.cols size.rows) := by
    intro i x size hi hx hready hz
    obtain ⟨y,hy,hc,hlive⟩ := (hh.current i).mp hi
    obtain rfl := Option.some.inj (hx.symm.trans hy)
    have hopen := open_current ho hx hc hlive hready
    exact reachable_synced hr i x size hi hx hopen hready ((run_latest hrun).trans hz)
  refine ⟨key,fun l t hstep i => ⟨step_grown hstep i,sends_ready ho hh (step_sends hstep) i⟩,?_⟩
  intro i x w S hi hx hready hz hS hrec hd
  apply window_last hS hd (hrec ▸ key i x _ hi hx hready hz)
  simp [sizeOf,decode_resize]

/-- A size is reported before there is a socket, and another one once it is open. -/
def earlySizeRun : List Label :=
  [.mount,.resize ⟨80,24⟩,.fetched 0 (.ok 204),.opened 0,.data "x",.resize ⟨100,40⟩]

/-- What a session makes of what that socket was sent. -/
def earlySizeSession : List Session.Label :=
  [.spawn (.ok 71),.receive (.ok (.binary (encodeResize 80 24))),.ioctl (.ok ()),
   .receive (.ok (.binary (encodeInput (utf8 "x")))),.write (.result (.ok 1)),
   .receive (.ok (.binary (encodeResize 100 40))),.ioctl (.ok ())]

theorem remote_size_converges_early :
    ∃ s S, (system ⟨fun _ => "",fun _ => .integer 0⟩).Reachable s ∧
      (Session.system (serdeJson fun _ => "")).Reachable S ∧ S.winsize = ⟨100,40⟩ := by
  have hrun : (system ⟨fun _ => "",fun _ => .integer 0⟩).run start earlySizeRun = some _ :=
    (Option.some_get (h := rfl)).symm
  have hS := System.reachable_end (m := Session.system (serdeJson fun _ => "")) earlySizeSession rfl
  have h := (remote_size_converges (fun _ => "") hrun).2.2
  exact ⟨_,_,⟨earlySizeRun,hrun⟩,hS,h 0 _ ⟨100,40⟩ _ rfl rfl rfl rfl hS rfl rfl⟩

end Terminald.App
