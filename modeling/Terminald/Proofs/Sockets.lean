import Terminald.Machine.Link
import Terminald.Proofs.Retries
import Terminald.Proofs.Sizes

namespace Terminald.App
open Machine Browser Protocol

/-- What a socket brings the page, and what the user types, with the socket that is
open for it. -/
inductive Entry where
  | heard (i : Nat) (data : Bytes)
  | typed (i : Option Nat) (text : String)
deriving DecidableEq

/-- The current socket, if it is open. -/
def Page.open (p : Page) : Option Nat := p.socketRef.filter p.isReady

def entries (s : State) : Label → List Entry
  | .message i data => [.heard i data]
  | .data text => [.typed s.page.open text]
  | _ => []

def Entry.bytes : Entry → Option (Nat × Bytes)
  | .heard i data => some (i,data)
  | .typed _ _ => none

def Entry.keys : Entry → Option (Nat × Bytes)
  | .typed (some i) text => some (i,utf8 text)
  | .typed none _ | .heard _ _ => none

def Entry.typing : Entry → Option Bytes
  | .typed _ text => some (utf8 text)
  | .heard _ _ => none

/-- The messages of all sockets, the texts typed while one was open, and all texts. -/
def heard (log : List Entry) : List (Nat × Bytes) := log.filterMap Entry.bytes

def typed (log : List Entry) : List (Nat × Bytes) := log.filterMap Entry.keys

def keyboard (log : List Entry) : List Bytes := log.filterMap Entry.typing

/-- What a message brings the terminal. -/
def payloadOf (js : Js) (data : Bytes) : Option Bytes :=
  match decodeServerFrame js data with
  | .ok (.output bytes) => some bytes
  | _ => none

/-- The keys in a frame of the page. -/
def keysOf : Bytes → Bytes
  | [] => []
  | kind :: payload => if kind = clientInput then payload else []

section Steps
variable {js : Js} {s t : State} {l : Label}

/-- A socket is made, and it is the current one, or all stay and none becomes the current one. -/
theorem step_sockets (h : step js s l = some t) :
    (t.page.sockets.length = s.page.sockets.length + 1 ∧
        t.page.socketRef = some s.page.sockets.length ∧ sentOn t.page s.page.sockets.length = [] ∧
        ∃ i, l = .fetched i (.ok 204)) ∨
    (t.page.sockets.length = s.page.sockets.length ∧
      (t.page.socketRef = s.page.socketRef ∨ t.page.socketRef = none)) := by
  have ht := step_traffic h
  generalize t.page = q at ht ⊢
  cases ht with
  | aside hl ha => exact .inr ⟨congrArg List.length ha.sockets,.inl ha.socketRef⟩
  | created hf hn hsc hl hs hr hz hw => exact .inl ⟨by simp [hs],hr,by simp [sentOn,hs],_,rfl⟩
  | refused hx he hc hsc hl ha =>
    exact .inr ⟨by simp [ha.sockets,Page.close,Page.establish],.inl ha.socketRef⟩
  | opened hx he hc hsc hl ha hq =>
    rw [hq]
    split
    · exact .inr ⟨by simp [Page.send,ha.sockets,Page.establish],.inl ha.socketRef⟩
    · exact .inr ⟨by simp [ha.sockets,Page.establish],.inl ha.socketRef⟩
  | output hx hr hsc hl hd ha => exact .inr ⟨congrArg List.length ha.sockets,.inl ha.socketRef⟩
  | exited hx hr hd ha => exact .inr ⟨by simp [ha.sockets,Page.close],.inl ha.socketRef⟩
  | closed hx hc ha =>
    refine .inr ⟨by simp [ha.sockets,Page.shut],?_⟩
    rw [ha.socketRef]
    split
    · exact .inr rfl
    · exact .inl rfl
  | unmounted ha =>
    rw [ha.sockets,ha.socketRef]
    split
    · exact .inr ⟨by simp [Page.close],.inr rfl⟩
    · exact .inr ⟨rfl,.inl rfl⟩
  | @data text hm =>
    have h := @sendInput_rule
      (fun q => q.sockets.length = s.page.sockets.length ∧ q.socketRef = s.page.socketRef) s.page text
      (fun _ => ⟨rfl,rfl⟩) (fun i _ _ => ⟨by simp [Page.send],rfl⟩)
    exact .inr ⟨h.1,.inl h.2⟩
  | @resize size hm =>
    have h := @sendResize_rule
      (fun q => q.sockets.length = s.page.sockets.length ∧ q.socketRef = s.page.socketRef) s.page size
      (fun _ => ⟨rfl,rfl⟩) (fun i _ _ => ⟨by simp [Page.send],rfl⟩)
    exact .inr ⟨h.1,.inl h.2⟩

/-- The current socket is the newest. -/
theorem current_last (hr : (system js).Reachable s) {i : Nat} (hi : s.page.socketRef = some i) :
    i + 1 = s.page.sockets.length := by
  revert i
  refine hr.invariant (I := fun s => ∀ {i}, s.page.socketRef = some i → i + 1 = s.page.sockets.length)
    (fun h => by cases h) ?_
  intro s l t _ ih h i hi
  rcases step_sockets h with ⟨hlen,href,_,_⟩ | ⟨hlen,href | href⟩
  · obtain rfl := Option.some.inj (href.symm.trans hi)
    exact hlen.symm
  · rw [hlen]
    exact ih (href.symm.trans hi)
  · cases href.symm.trans hi

/-- An open socket is the current one of the live run, whose messages are minded. -/
theorem ready_current (hr : (system js).Reachable s) {i : Nat} {x : Socket}
    (hx : s.page.sockets[i]? = some x) (hready : x.ready = true) :
    s.page.socketRef = some i ∧ ∃ sc, s.scopes[x.run]? = some sc ∧
      Effect.stale ⟨s.page,sc⟩ x.currentAttempt = false := by
  have ho := reachable_orderly hr
  have hh := reachable_held hr
  have hopen : (x.established = true ∧ x.closing = false) ∧ x.closed = false := by
    simpa [Socket.ready] using hready
  have hlive : some x.run = s.live := by
    by_contra hn
    rcases hh.released i x hx hn with hc | hc
    · exact Bool.false_ne_true (hopen.1.2.symm.trans hc)
    · exact Bool.false_ne_true (hopen.2.symm.trans hc)
  obtain ⟨sc,hsc,hnum,hg,_⟩ := live_scope ho hlive.symm
  obtain ⟨hat,_⟩ := good_at hg hx hopen.2 hnum.symm
  refine ⟨(hh.current i).mpr ⟨x,hx,hopen.2,hlive⟩,sc,hsc,?_⟩
  rw [hat]
  exact stale_live hg.live

/-- What an open socket brings is shown, if it is output. -/
theorem message_outputs (hr : (system js).Reachable s) {i : Nat} {data : Bytes}
    (h : step js s (.message i data) = some t) :
    outputs js s (.message i data) = (payloadOf js data).toList ∧ s.page.socketRef = some i := by
  cases step_move h with
  | @message i x data t hx hready hc =>
    obtain ⟨href,sc,hsc,hst⟩ := ready_current hr hx hready
    refine ⟨?_,href⟩
    cases hd : decodeServerFrame js data with
    | error e => simp [outputs,hx,hsc,hst,payloadOf,hd]
    | ok frame => cases frame <;> simp [outputs,hx,hsc,hst,payloadOf,hd]

theorem keysOf_resize (size : Size) : keysOf (encodeResize size.cols size.rows) = [] := by
  simp [keysOf,encodeResize,clientResize,clientInput]

theorem keysOf_input (data : Bytes) : keysOf (encodeInput data) = data := by simp [keysOf,encodeInput]

/-- The keys in what a step sends on a socket are those typed for it, if it is open. -/
theorem step_keys (h : step js s l = some t) (i : Nat) : (sentOn t.page i).flatMap keysOf =
    (sentOn s.page i).flatMap keysOf ++ (track i (typed (entries s l))).flatten := by
  have kept : ∀ {text}, l = .data text → ∀ j, s.page.socketRef = some j → s.page.isReady j = true →
      typed (entries s l) = [(j,utf8 text)] := by
    rintro text rfl j hj hr
    simp [entries,Page.open,hj,Option.filter,hr,typed,Entry.keys]
  have untyped : (∀ text, l = .data text → ∀ j, s.page.socketRef = some j → ¬s.page.isReady j = true) →
      typed (entries s l) = [] := by
    intro hn
    cases l with
    | data text =>
      cases hj : s.page.socketRef with
      | none => simp [entries,Page.open,hj,typed,Entry.keys]
      | some j => simp [entries,Page.open,hj,Option.filter,hn text rfl j hj,typed,Entry.keys]
    | mount | unmount | fetched j r | timer j | opened j | errored j | message j data | closed j | resize size => rfl
  cases step_sends h with
  | nothing hs hn =>
    rw [hs,untyped hn]
    exact (List.append_nil _).symm
  | @input j text hj hr hq hp =>
    rw [hp,List.flatMap_append,kept rfl j hj hr]
    by_cases hij : i = j
    · subst hij
      simp [track,keysOf_input]
    · simp [track,hij,Ne.symm hij]
  | size hj hr hq hp | opened hx he hc hsc hl hq hp =>
    rw [hp,List.flatMap_append,untyped (fun _ he => by cases he)]
    split <;> simp [track,keysOf_resize]

end Steps

section Shut
variable (e : Effect)

/-- The states that the page is ever set to show. -/
inductive Shape : ConnectionState → Prop
  | connecting : Shape { phase := .connecting }
  | connected (notice : Option Notice) : Shape { phase := .connected,notice := notice }
  | reconnecting : Shape { phase := .reconnecting }
  | retrying (detail : String) : Shape ⟨.reconnecting,some .network,some detail,none,none⟩
  | closed (code : Number) : Shape ⟨.closed,some .remoteExit,none,some code,none⟩
  | failed (hr : r = .authRequired ∨ r = .authCheckFailed ∨ r = .websocketUpgrade ∨ r = .websocketError) :
      Shape { phase := .error,reason := some r }
  | told (hr : r = .network ∨ r = .serverError) (detail : String) : Shape ⟨.error,some r,some detail,none,none⟩

/-- The shown state stays, or another one is set that is not the remote exit. -/
def Sets (e f : Effect) : Prop :=
  f.connectionState = e.connectionState ∨ Shape f.connectionState ∧ f.connectionState.phase ≠ .closed

theorem Sets.trans {e f g : Effect} (h : Sets e f) (k : Sets f g) : Sets e g := by
  rcases k with k | k
  · rcases h with h | h
    · exact .inl (k.trans h)
    · exact .inr (by rwa [k])
  · exact .inr k

theorem sets_clearNoticeTimer : Sets e e.clearNoticeTimer := by
  unfold Effect.clearNoticeTimer
  split <;> exact .inl rfl

theorem sets_clearReconnectTimer : Sets e e.clearReconnectTimer := by
  unfold Effect.clearReconnectTimer
  split <;> exact .inl rfl

theorem sets_setState {e f : Effect} {state : ConnectionState} (h : Shape state) (hp : state.phase ≠ .closed) :
    Sets f (e.setState state) := .inr ⟨h,hp⟩

theorem sets_schedule : Sets e e.scheduleReconnect := by
  unfold Effect.scheduleReconnect
  split
  · exact .inl rfl
  · refine (sets_clearNoticeTimer e).trans ?_
    simp only [Sets,Effect.setTimeout,Effect.setConnectionState]
    split
    · exact .inl rfl
    · exact .inr ⟨.reconnecting,by simp⟩

theorem sets_showConnected (isReconnect : Bool) : Sets e (e.showConnected isReconnect) := by
  cases isReconnect with
  | false => exact .inr ⟨.connected none,fun hc => by cases hc⟩
  | true => exact .inr ⟨.connected (some .newSession),fun hc => by cases hc⟩

theorem sets_connect (isReconnect : Bool) : Sets e (e.connect isReconnect) := by
  cases isReconnect with
  | false => exact .inr ⟨.connecting,fun hc => by cases hc⟩
  | true => exact .inr ⟨.reconnecting,fun hc => by cases hc⟩

theorem sets_rejected (f : Fetch) (message : Option String) : Sets e (e.rejected f message) := by
  unfold Effect.rejected
  split
  · exact .inl rfl
  · split
    · exact (sets_setState (.retrying _) (by simp)).trans (sets_schedule _)
    · exact sets_setState (.told (.inl rfl) _) (by simp)

theorem sets_resolved (f : Fetch) (status : Nat) : Sets e (e.resolved f status) := by
  unfold Effect.resolved
  split
  · exact .inl rfl
  · split
    · exact sets_setState (.failed (.inl rfl)) (by simp)
    · split
      · exact sets_setState (.failed (.inr (.inl rfl))) (by simp)
      · exact .inl rfl

theorem sets_open (i : Nat) (x : Socket) : Sets e (e.onOpen i x) := by
  unfold Effect.onOpen
  split
  · exact .inl rfl
  · have h := sets_showConnected { e with
      sockets := e.sockets.modify i (fun x => { x with opened := true }) } x.isReconnect
    dsimp only
    split <;> exact h

theorem sets_afterClose (x : Socket) : Sets e (Effect.afterClose x e) := by
  unfold Effect.afterClose
  split
  · exact .inl rfl
  · split
    · exact .inl rfl
    · split
      · exact sets_schedule e
      · split
        · exact sets_schedule e
        · exact sets_setState (.failed (.inr (.inr (.inl rfl)))) (by simp)

theorem sets_error (x : Socket) : Sets e (e.onError x) := by
  unfold Effect.onError
  split
  · exact .inl rfl
  · split
    · exact sets_setState (.failed (.inr (.inr (.inr rfl)))) (by simp)
    · exact .inl rfl

theorem sets_notice : Sets e e.noticeExpired := by
  simp only [Sets,Effect.noticeExpired,Effect.setConnectionState]
  split
  · exact .inr ⟨.connected none,by simp⟩
  · exact .inl rfl

theorem sets_cleanup : Sets e e.cleanup := by
  have h : ∀ f : Effect, Sets f f.clearReconnectTimer.clearNoticeTimer :=
    fun f => (sets_clearReconnectTimer f).trans (sets_clearNoticeTimer _)
  unfold Effect.cleanup
  dsimp only
  split <;> exact h { e with cancelled := true,attempt := e.attempt + 1 }

/-- The remote exit, as the page shows it. -/
def Shut (js : Js) (data : Bytes) (state : ConnectionState) : Prop :=
  ∃ code, decodeServerFrame js data = .ok (.exited code) ∧
    state = ⟨.closed,some .remoteExit,none,some code,none⟩

theorem sets_message (js : Js) (i : Nat) (x : Socket) (data : Bytes) :
    Sets e (e.onMessage js i x data) ∨ Shut js data (e.onMessage js i x data).connectionState := by
  unfold Effect.onMessage
  split
  · exact .inl (.inl rfl)
  · split
    · exact .inl (.inl rfl)
    · exact .inl (sets_setState (.told (.inr rfl) _) (by simp))
    · exact .inr ⟨_,‹_›,rfl⟩
    · exact .inl (.inl rfl)

/-- What a step does to the shown state; the remote exit is shown only once the page is told of it. -/
theorem step_sets {js : Js} {s t : State} {l : Label} (h : step js s l = some t) :
    t.page.connectionState = s.page.connectionState ∨
    Shape t.page.connectionState ∧ t.page.connectionState.phase ≠ .closed ∨
    ∃ i data, l = .message i data ∧ Shut js data t.page.connectionState := by
  have set : ∀ {e f : Effect}, t.page = f.toPage → Sets e f → e.connectionState = s.page.connectionState →
      t.page.connectionState = s.page.connectionState ∨
        Shape t.page.connectionState ∧ t.page.connectionState.phase ≠ .closed ∨
        ∃ i data, l = .message i data ∧ Shut js data t.page.connectionState := by
    intro e f hp hs he
    rw [hp]
    rcases hs with hs | hs
    · exact .inl (hs.trans he)
    · exact .inr (.inl hs)
  cases step_move h with
  | mounted hm hcall =>
    obtain ⟨sc,_,hp⟩ := call_page hcall
    exact set hp (sets_connect ⟨_,sc⟩ _) rfl
  | unmounted hm hcall =>
    obtain ⟨sc,_,hp⟩ := call_page hcall
    exact set hp (sets_cleanup ⟨_,sc⟩) rfl
  | @rejected i f message _ hf hs hcall =>
    obtain ⟨sc,_,hp⟩ := call_page hcall
    exact set hp (sets_rejected ⟨s.page.settle i,sc⟩ f message) rfl
  | @resolved i f status _ hf hs hcall =>
    obtain ⟨sc,_,hp⟩ := call_page hcall
    exact set hp (sets_resolved ⟨s.page.settle i,sc⟩ f status) rfl
  | @reconnect i u _ hu hpend hb hcall =>
    obtain ⟨sc,_,hp⟩ := call_page hcall
    exact set hp (sets_connect ⟨{ s.page.clearTimeout i with reconnectTimerRef := none },sc⟩ true) rfl
  | @notice i u _ hu hpend hb hcall =>
    obtain ⟨sc,_,hp⟩ := call_page hcall
    exact set hp (sets_notice ⟨s.page.clearTimeout i,sc⟩) rfl
  | @opened i x _ hx he hs hcall =>
    obtain ⟨sc,_,hp⟩ := call_page hcall
    exact set hp (sets_open ⟨s.page.establish i,sc⟩ i x) rfl
  | @errored i x _ hx hs hcall =>
    obtain ⟨sc,_,hp⟩ := call_page hcall
    exact set hp (sets_error ⟨_,sc⟩ x) rfl
  | @message i x data _ hx hr hcall =>
    obtain ⟨sc,_,hp⟩ := call_page hcall
    rcases sets_message ⟨_,sc⟩ js i x data with hk | hk
    · exact set hp hk rfl
    · exact .inr (.inr ⟨i,data,rfl,hp ▸ hk⟩)
  | @closed i x _ hx hs hcall =>
    obtain ⟨sc,_,hp⟩ := call_page hcall
    rw [onClose_eq] at hp
    exact set hp (sets_afterClose _ x) rfl
  | data hm =>
    exact .inl (sendInput_rule (P := fun q => q.connectionState = s.page.connectionState)
      (fun _ => rfl) (fun _ _ _ => rfl))
  | resize hm =>
    exact .inl (sendResize_rule (P := fun q => q.connectionState = s.page.connectionState)
      (fun _ => rfl) (fun _ _ _ => rfl))

theorem reachable_shape {js : Js} {s : State} (hr : (system js).Reachable s) : Shape s.page.connectionState := by
  refine hr.invariant (I := fun s => Shape s.page.connectionState) .connecting ?_
  intro s l t _ h hs
  rcases step_sets hs with he | ⟨ht,_⟩ | ⟨i,data,_,code,_,he⟩
  · rwa [he]
  · exact ht
  · rw [he]
    exact .closed code

/-- No socket is made while the remote exit is shown. -/
theorem created_open {js : Js} {s t : State} {i : Nat} (hr : (system js).Reachable s)
    (h : step js s (.fetched i (.ok 204)) = some t)
    (hlen : t.page.sockets.length = s.page.sockets.length + 1) :
    s.page.connectionState.phase ≠ .closed := by
  have ht := step_traffic h
  generalize t.page = q at ht hlen
  cases ht with
  | aside hl ha =>
    rw [ha.sockets] at hlen
    omega
  | @created _ f sc q hf hn hsc hl hs href hz hw =>
    obtain ⟨_,hnum,hg⟩ := scope_live (reachable_orderly hr) hsc hl
    obtain ⟨_,_,_,hp⟩ := good_settle hg hf hn hnum.symm
    intro hc
    rw [show s.page.connectionState.phase = _ from hp] at hc
    cases hre : f.isReconnect <;> simp [hre] at hc

end Shut
end Terminald.App
