import Terminald.Proofs.Retries

namespace Terminald.App
open Machine Browser

/-- What a page is to its user: off, on the way to a session for the first time or again, in one,
waiting to try again, or through for good. -/
inductive Course where
  | off
  | checking (again : Bool)
  | opening (again : Bool)
  | failing
  | up (faulty : Bool)
  | waiting
  | ended (reason : Reason)
deriving DecidableEq

inductive Signal where
  | begin
  | leave
  | granted
  | denied (status : Nat)
  | unreachable
  | established
  | broken
  | fault
  | exit
  | lost
  | due
deriving DecidableEq

namespace Course

/-- A first attempt that fails is the end, a later one is repeated; a session that is lost is looked
for again, one that exits is not. -/
def next : Course → Signal → Option Course
  | .off,.begin => some (.checking false)
  | .off,_ => none
  | _,.leave => some .off
  | .checking again,.granted => some (.opening again)
  | .checking _,.denied status => some (.ended (if status = 401 then .authRequired else .authCheckFailed))
  | .checking true,.unreachable => some .waiting
  | .checking false,.unreachable => some (.ended .network)
  | .opening _,.established | .failing,.established => some (.up false)
  | .opening false,.broken => some .failing
  | .opening true,.lost => some .waiting
  | .opening false,.lost | .failing,.lost => some (.ended .websocketUpgrade)
  | .up _,.fault => some (.up true)
  | .up _,.exit => some (.ended .remoteExit)
  | .up _,.lost => some .waiting
  | .waiting,.due => some (.checking true)
  | _,_ => none

def system : System Course Signal := ⟨.off,next⟩

/-- The phase a page shows on its course. -/
def phase : Course → Phase
  | .off | .checking false | .opening false => .connecting
  | .checking true | .opening true | .waiting => .reconnecting
  | .up false => .connected
  | .ended .remoteExit => .closed
  | .failing | .up true | .ended _ => .error

end Course

/-- What an event would tell the newest run of the page, were it for it. -/
def Label.signal (js : Js) : Label → Option Signal
  | .mount => some .begin
  | .unmount => some .leave
  | .fetched _ (.ok status) => some (if status = 204 then .granted else .denied status)
  | .fetched _ (.error _) => some .unreachable
  | .timer _ => some .due
  | .opened _ => some .established
  | .errored _ => some .broken
  | .closed _ => some .lost
  | .data _ | .resize _ => none
  | .message _ frame =>
    match decodeServerFrame js frame with
    | .ok (.error _) => some .fault
    | .ok (.exited _) => some .exit
    | _ => none

/-- Where a socket not closed yet is. -/
def unopened (e : Effect) (x : Socket) : Course :=
  if x.isReconnect then .opening true
  else if e.connectionState.phase = .error then .failing
  else .opening false

def Effect.course (e : Effect) : Course :=
  if e.remoteExited then .ended .remoteExit
  else if e.reconnectTimerRef.isSome then .waiting
  else
    match e.fetches.find? (fun f => !f.settled && f.run == e.number) with
    | some f => .checking f.isReconnect
    | none =>
      match e.sockets.find? (fun x => !x.closed && x.run == e.number) with
      | some x => if x.established then .up (e.connectionState.phase == .error) else unopened e x
      | none => .ended (e.connectionState.reason.getD .network)

def State.course (s : State) : Course :=
  match s.live.bind (fun r => s.scopes[r]?) with
  | some sc => Effect.course ⟨s.page,sc⟩
  | none => .off

/-- What the course is seen by. -/
inductive Stands (e : Effect) : Course → Prop
  | exited (hx : e.remoteExited = true) : Stands e (.ended .remoteExit)
  | waiting {i : Nat} (hx : e.remoteExited = false) (hr : e.reconnectTimerRef = some i) : Stands e .waiting
  | checking {i : Nat} {f : Fetch} (hx : e.remoteExited = false) (hf : e.fetches[i]? = some f)
      (hs : f.settled = false) (hr : f.run = e.number) : Stands e (.checking f.isReconnect)
  | up {i : Nat} {x : Socket} (hx : e.remoteExited = false) (hs : e.sockets[i]? = some x)
      (hc : x.closed = false) (hr : x.run = e.number) (he : x.established = true) :
      Stands e (.up (e.connectionState.phase == .error))
  | opening {i : Nat} {x : Socket} (hx : e.remoteExited = false) (hs : e.sockets[i]? = some x)
      (hc : x.closed = false) (hr : x.run = e.number) (he : x.established = false) : Stands e (unopened e x)
  | ended (hx : e.remoteExited = false) (hn : ∀ a, ¬e.Present e.number a)
      (hr : e.connectionState.reason = some r) : Stands e (.ended r)

section Stands
variable {e : Effect} {c : Course}

theorem find_only {α : Type} {p : α → Bool} {xs : List α} {i : Nat} {a : α} (hi : xs[i]? = some a)
    (hp : p a = true) (hu : ∀ (j : Nat) b, xs[j]? = some b → p b = true → j = i) : xs.find? p = some a := by
  obtain ⟨b,hb⟩ := Option.isSome_iff_exists.mp
    (List.find?_isSome.mpr ⟨a,List.mem_of_getElem? hi,hp⟩)
  obtain ⟨j,hj⟩ := List.mem_iff_getElem?.mp (List.mem_of_find?_eq_some hb)
  obtain rfl := hu j b hj (List.find?_some hb)
  exact hb.trans (hj.symm.trans hi)

theorem fetch_present {f : Fetch} {i : Nat} (hf : e.fetches[i]? = some f)
    (h : (!f.settled && f.run == e.number) = true) : e.Present e.number (.fetch i) := by
  simp only [Bool.and_eq_true,Bool.not_eq_true',beq_iff_eq] at h
  exact ⟨f,hf,h.1,h.2⟩

theorem socket_present {x : Socket} {i : Nat} (hx : e.sockets[i]? = some x)
    (h : (!x.closed && x.run == e.number) = true) : e.Present e.number (.socket i) := by
  simp only [Bool.and_eq_true,Bool.not_eq_true',beq_iff_eq] at h
  exact ⟨x,hx,h.1,h.2⟩

/-- While a live run waits for one thing, no other is found. -/
theorem no_fetch {a : Thing} (h : Good e) (ha : e.Present e.number a) (hn : ∀ i, a ≠ .fetch i) :
    e.fetches.find? (fun f => !f.settled && f.run == e.number) = none := by
  refine List.find?_eq_none.mpr (fun f hf hp => ?_)
  obtain ⟨i,hi⟩ := List.mem_iff_getElem?.mp hf
  exact hn i (good_unique h ha (fetch_present hi hp))

theorem no_timer {a : Thing} (h : Good e) (ha : e.Present e.number a) (hn : ∀ i, a ≠ .timer i) :
    e.reconnectTimerRef = none := by
  cases hr : e.reconnectTimerRef with
  | none => rfl
  | some i => exact absurd (good_unique h ha ((present_timer h.wired).mpr hr)) (hn i)

theorem socket_found {x : Socket} {i : Nat} (h : Good e) (hs : e.sockets[i]? = some x)
    (hc : x.closed = false) (hr : x.run = e.number) :
    e.reconnectTimerRef = none ∧ e.fetches.find? (fun f => !f.settled && f.run == e.number) = none ∧
      e.sockets.find? (fun x => !x.closed && x.run == e.number) = some x := by
  have ha : e.Present e.number (.socket i) := ⟨x,hs,hc,hr⟩
  refine ⟨no_timer h ha (by simp),no_fetch h ha (by simp),find_only hs (by simp [hc,hr]) ?_⟩
  intro j y hy hp
  have hj := good_unique h (socket_present hy hp) ha
  simpa using hj

theorem stands_course (h : Good e) (hs : Stands e c) : e.course = c := by
  cases hs with
  | exited hx => simp [Effect.course,hx]
  | waiting hx hr => simp [Effect.course,hx,hr]
  | @checking i f hx hf hs hr =>
    have ha : e.Present e.number (.fetch i) := ⟨f,hf,hs,hr⟩
    have hfind : e.fetches.find? (fun f => !f.settled && f.run == e.number) = some f := by
      refine find_only hf (by simp [hs,hr]) (fun j g hg hp => ?_)
      have hj := good_unique h (fetch_present hg hp) ha
      simpa using hj
    simp [Effect.course,hx,no_timer h ha (by simp),hfind]
  | up hx hs hc hr he =>
    obtain ⟨ht,hf,hfind⟩ := socket_found h hs hc hr
    simp [Effect.course,hx,ht,hf,hfind,he]
  | opening hx hs hc hr he =>
    obtain ⟨ht,hf,hfind⟩ := socket_found h hs hc hr
    simp [Effect.course,hx,ht,hf,hfind,he]
  | ended hx hn hr =>
    have ht : e.reconnectTimerRef = none := by
      cases ht : e.reconnectTimerRef with
      | none => rfl
      | some i => exact absurd ((present_timer h.wired).mpr ht) (hn _)
    have hf : e.fetches.find? (fun f => !f.settled && f.run == e.number) = none := by
      refine List.find?_eq_none.mpr (fun f hf hp => ?_)
      obtain ⟨i,hi⟩ := List.mem_iff_getElem?.mp hf
      exact hn _ (fetch_present hi hp)
    have hx' : e.sockets.find? (fun x => !x.closed && x.run == e.number) = none := by
      refine List.find?_eq_none.mpr (fun x hx hp => ?_)
      obtain ⟨i,hi⟩ := List.mem_iff_getElem?.mp hx
      exact hn _ (socket_present hi hp)
    simp [Effect.course,hx,ht,hf,hx',hr]

/-- A live run stands somewhere. -/
theorem good_stands (h : Good e) : Stands e e.course := by
  obtain ⟨only,hu,ha⟩ := h.one
  have hstands : ∃ c, Stands e c := by
    cases only with
    | none =>
      rcases ha with ⟨hx,_⟩ | ⟨hx,_,r,hr,_⟩
      · exact ⟨_,.exited hx⟩
      · exact ⟨_,.ended hx (fun a hp => by cases hu a hp) hr⟩
    | some a =>
      cases a with
      | timer i => exact ⟨_,.waiting ha.2.1 ha.1⟩
      | fetch i =>
        obtain ⟨hx,f,hf,hs,hr,_⟩ := ha
        exact ⟨_,.checking hx hf hs hr⟩
      | socket i =>
        obtain ⟨x,hs,hc,hr,_⟩ := ha
        cases hx : e.remoteExited with
        | true => exact ⟨_,.exited hx⟩
        | false =>
          cases he : x.established with
          | true => exact ⟨_,.up hx hs hc hr he⟩
          | false => exact ⟨_,.opening hx hs hc hr he⟩
  obtain ⟨c,hc⟩ := hstands
  exact (stands_course h hc).symm ▸ hc

end Stands

section Kept
variable {e : Effect} {c : Course}

theorem stands_foreign {p q : Page} {sc : Scope} (h : Stands ⟨p,sc⟩ c) (hf : Foreign sc.number p q) :
    Stands ⟨q,sc⟩ c := by
  have hshown : q.connectionState = p.connectionState := hf.connectionState
  cases h with
  | exited hx => exact .exited hx
  | waiting hx hr => exact .waiting hx (hf.reconnectTimerRef.trans hr)
  | checking hx hg hs hr => exact .checking hx ((hf.fetches _ _ hr).mpr hg) hs hr
  | up hx hs hc hr he =>
    have hup : Stands ⟨q,sc⟩ (.up (q.connectionState.phase == .error)) :=
      .up hx ((hf.sockets _ _ hr).mpr hs) hc hr he
    exact hshown ▸ hup
  | @opening i x hx hs hc hr he =>
    have hopening : Stands ⟨q,sc⟩ (unopened ⟨q,sc⟩ x) := .opening hx ((hf.sockets _ _ hr).mpr hs) hc hr he
    have hsame : unopened ⟨q,sc⟩ x = unopened ⟨p,sc⟩ x := by
      simp only [unopened,hshown]
    exact hsame ▸ hopening
  | ended hx hn hr =>
    exact .ended hx (fun a ha => hn a (present_foreign hf ha)) ((congrArg _ hshown).trans hr)

theorem stands_send (h : Stands e c) (i : Nat) (frame : Bytes) :
    Stands { e with toPage := e.toPage.send i frame } c := by
  have hsocket : ∀ {j : Nat} {x : Socket}, e.sockets[j]? = some x → ∃ y,
      (e.toPage.send i frame).sockets[j]? = some y ∧ y.closed = x.closed ∧ y.run = x.run ∧
        y.established = x.established ∧ y.isReconnect = x.isReconnect := by
    intro j x hx
    simp only [Page.send,List.getElem?_modify,hx]
    refine ⟨_,rfl,?_⟩
    dsimp only
    split <;> exact ⟨rfl,rfl,rfl,rfl⟩
  cases h with
  | exited hx => exact .exited hx
  | waiting hx hr => exact .waiting hx hr
  | checking hx hf hs hr => exact .checking hx hf hs hr
  | up hx hs hc hr he =>
    obtain ⟨y,hy,hyc,hyr,hye,_⟩ := hsocket hs
    exact .up (e := { e with toPage := e.toPage.send i frame }) hx hy (hyc.trans hc) (hyr.trans hr)
      (hye.trans he)
  | opening hx hs hc hr he =>
    obtain ⟨y,hy,hyc,hyr,hye,hre⟩ := hsocket hs
    have hopening := Stands.opening (e := { e with toPage := e.toPage.send i frame }) hx hy
      (hyc.trans hc) (hyr.trans hr) (hye.trans he)
    have hshown : (e.toPage.send i frame).connectionState = e.connectionState := rfl
    simpa only [unopened,hre,hshown] using hopening
  | ended hx hn hr => exact .ended hx (fun a ha => hn a ((unminded_send e.toPage i frame).present _ a ha)) hr

/-- What the browser or the page does besides the course. -/
theorem stands_same {f : Effect} (h : Stands e c) (hx : f.remoteExited = e.remoteExited)
    (hn : f.number = e.number) (hs : f.sockets = e.sockets) (hf : f.fetches = e.fetches)
    (hr : f.reconnectTimerRef = e.reconnectTimerRef)
    (hp : f.connectionState.phase = e.connectionState.phase)
    (ho : (∀ a, ¬e.Present e.number a) → f.connectionState.reason = e.connectionState.reason)
    (ht : ∀ a, f.Present f.number a → e.Present e.number a) : Stands f c := by
  cases h with
  | exited h => exact .exited (hx.trans h)
  | waiting h hw => exact .waiting (hx.trans h) (hr.trans hw)
  | checking h hg hset hrun => exact .checking (hx.trans h) (hf ▸ hg) hset (hrun.trans hn.symm)
  | up h hsock hc hrun he =>
    exact hp ▸ Stands.up (e := f) (hx.trans h) (hs ▸ hsock) hc (hrun.trans hn.symm) he
  | @opening i x h hsock hc hrun he =>
    have hopening := Stands.opening (e := f) (hx.trans h) (hs ▸ hsock) hc (hrun.trans hn.symm) he
    simpa only [unopened,hp] using hopening
  | ended h hnone hreason =>
    exact .ended (hx.trans h) (fun a ha => hnone a (ht a ha)) ((ho hnone).trans hreason)

end Kept

section Steps
variable {js : Js} {s t : State} {l : Label} {r : Nat} {sc : Scope} {page : Page}
  {callback : Effect → Effect}

theorem course_live (hl : s.live = some r) (hsc : s.scopes[r]? = some sc) :
    s.course = Effect.course ⟨s.page,sc⟩ := by
  simp [State.course,hl,hsc]

theorem course_call (hl : s.live = some r) (hsc : s.scopes[r]? = some sc)
    (hc : ({ s with page := page } : State).call r callback = some t) :
    t.course = (callback ⟨page,sc⟩).course ∧ t.live = some r ∧
      t.scopes[r]? = some (callback ⟨page,sc⟩).toScope ∧ t.page = (callback ⟨page,sc⟩).toPage := by
  have hlive : t.live = some r := (call_live_same hc).trans hl
  have hlt := (List.getElem?_eq_some_iff.mp hsc).1
  simp only [State.call,hsc,Option.map_some,Option.some.injEq] at hc
  have hscope : t.scopes[r]? = some (callback ⟨page,sc⟩).toScope := by
    rw [← hc]
    simp [hlt]
  have hpage : t.page = (callback ⟨page,sc⟩).toPage := by rw [← hc]
  refine ⟨?_,hlive,hscope,hpage⟩
  rw [course_live hlive hscope,hpage]

/-- An event of the newest run, before and after. -/
theorem call_good (ho : Orderly s) (ht : Orderly t) (hl : s.live = some r) (hsc : s.scopes[r]? = some sc)
    (hc : ({ s with page := page } : State).call r callback = some t) :
    sc.number = r ∧ Good ⟨s.page,sc⟩ ∧ Good (callback ⟨page,sc⟩) := by
  obtain ⟨sc',hsc',hn,hg,_⟩ := live_scope ho hl
  obtain rfl := Option.some.inj (hsc.symm.trans hsc')
  obtain ⟨_,hlive,hscope,hpage⟩ := course_call hl hsc hc
  obtain ⟨sc'',hsc'',_,hgt,_⟩ := live_scope ht hlive
  obtain rfl := Option.some.inj (hscope.symm.trans hsc'')
  rw [hpage] at hgt
  exact ⟨hn,hg,hgt⟩

/-- The step from one course to the next. -/
def Follows (js : Js) (s : State) (l : Label) (t : State) : Prop :=
  t.course = s.course ∨ ∃ k, l.signal js = some k ∧ s.course.next k = some t.course

theorem stands_over {e : Effect} (h : Bare e) (hx : e.remoteExited = false) {state : ConnectionState}
    {why : Reason} (hr : state.reason = some why) : Stands (e.setState state) (.ended why) := by
  have q := quiet_setState state e
  exact .ended (q.remoteExited.trans hx) (h.quiet q).idle hr

theorem rejected_course {e : Effect} (h : Good e) {i : Nat} {f : Fetch} (hf : e.fetches[i]? = some f)
    (hs : f.settled = false) (hr : f.run = e.number) (message : Option String) :
    e.course = .checking f.isReconnect ∧
    Stands (({ e with fetches := e.fetches.modify i (fun f => { f with settled := true }) }
      : Effect).rejected f message) (if f.isReconnect then .waiting else .ended .network) := by
  obtain ⟨hb,hx,hat,_⟩ := good_settle h hf hs hr
  refine ⟨stands_course h (.checking hx hf hs hr),?_⟩
  unfold Effect.rejected
  rw [hat,if_neg (by simp [Effect.stale,h.live])]
  split
  · have q := fun detail => quiet_setState ⟨.reconnecting,some .network,detail,none,none⟩
      { e with fetches := e.fetches.modify i (fun f => { f with settled := true }) }
    have hq := hb.quiet (q (some (message.getD "connection error")))
    have hs := scheduled hq.wired hq.live hq.noTimer
    obtain ⟨k,hk⟩ := hs.timer
    exact .waiting (hs.remoteExited.trans ((q _).remoteExited.trans hx)) hk
  · exact stands_over hb hx rfl

theorem resolved_course {e : Effect} (h : Good e) {i : Nat} {f : Fetch} (hf : e.fetches[i]? = some f)
    (hs : f.settled = false) (hr : f.run = e.number) (status : Nat) :
    e.course = .checking f.isReconnect ∧
    Stands (({ e with fetches := e.fetches.modify i (fun f => { f with settled := true }) }
      : Effect).resolved f status) (if status = 204 then .opening f.isReconnect
        else .ended (if status = 401 then .authRequired else .authCheckFailed)) := by
  obtain ⟨hb,hx,hat,hp⟩ := good_settle h hf hs hr
  refine ⟨stands_course h (.checking hx hf hs hr),?_⟩
  unfold Effect.resolved
  rw [hat,if_neg (by simp [Effect.stale,h.live])]
  split
  · rw [if_neg (by omega)]
    exact stands_over hb hx rfl
  · split
    · exact stands_over hb hx rfl
    · let x : Socket := ⟨e.number,e.attempt,f.isReconnect,false,false,false,false,[]⟩
      let after : Effect := { e with
        fetches := e.fetches.modify i (fun f => { f with settled := true }),
        sockets := e.sockets ++ [x],socketRef := some e.sockets.length }
      have hopening : Stands after (unopened after x) :=
        .opening (i := e.sockets.length) hx List.getElem?_concat_length rfl rfl rfl
      have hplace : unopened after x = .opening f.isReconnect := by
        have hphase : after.connectionState.phase = if f.isReconnect then .reconnecting else .connecting := hp
        cases hre : f.isReconnect <;> simp [unopened,x,hre,hphase]
      rename_i h204
      rw [if_pos (by simpa using h204),← hplace]
      exact hopening

theorem expired_course {e : Effect} (h : Good e) {i : Nat} (hp : e.Pending i .reconnect) :
    e.course = .waiting ∧
    Stands (({ e with toPage := e.toPage.clearTimeout i } : Effect).reconnectExpired) (.checking true) := by
  obtain ⟨hb,hx⟩ := good_fired h hp
  refine ⟨stands_course h (.waiting hx ((h.wired.reconnect i).mpr hp)),?_⟩
  have q := quiet_setState { phase := .reconnecting } { e with
    toPage := { e.toPage.clearTimeout i with reconnectTimerRef := none },attempt := e.attempt + 1 }
  exact .checking (f := ⟨_,_,true,false⟩) (q.remoteExited.trans hx) List.getElem?_concat_length rfl rfl

/-- What a live run knows of a socket that is not open yet. -/
theorem unopened_course {e : Effect} (h : Good e) {i : Nat} {x : Socket} (hx : e.sockets[i]? = some x)
    (hc : x.closed = false) (hr : x.run = e.number) (he : x.established = false) :
    e.course = unopened e x ∧ e.remoteExited = false ∧ x.opened = false := by
  obtain ⟨_,⟨hop,⟨_,hest,_⟩ | ⟨hre,_⟩⟩,_⟩ := good_at h hx hc hr
  · exact absurd (he.symm.trans hest) Bool.false_ne_true
  · exact ⟨stands_course h (.opening hre hx hc hr he),hre,hop.trans he⟩

theorem opened_course {e : Effect} (h : Good e) {i : Nat} {x : Socket} (hx : e.sockets[i]? = some x)
    (hc : x.closed = false) (he : x.established = false) (hr : x.run = e.number) :
    Stands (({ e with sockets := e.sockets.modify i (fun x => { x with established := true }) }
      : Effect).onOpen i x) (.up false) := by
  obtain ⟨hat,_⟩ := good_at h hx hc hr
  obtain ⟨_,hre,_⟩ := unopened_course h hx hc hr he
  have hs : e.stale x.currentAttempt = false := hat ▸ stale_live h.live
  unfold Effect.onOpen
  rw [if_neg (by simpa [Effect.stale] using hs)]
  let before : Effect := { e with
    sockets := (e.sockets.modify i (fun x => { x with established := true })).modify i
      (fun x => { x with opened := true }) }
  have q := quiet_showConnected x.isReconnect before
  have hsocket : before.sockets[i]? = some { x with established := true,opened := true } := by
    simp [before,hx]
  have hphase : (before.showConnected x.isReconnect).connectionState.phase = .connected := by
    cases x.isReconnect <;> rfl
  have hup : Stands (before.showConnected x.isReconnect) (.up false) := by
    have h := Stands.up (e := before.showConnected x.isReconnect)
      (x := { x with established := true,opened := true }) (q.remoteExited.trans hre)
      (q.sockets.symm ▸ hsocket) hc (hr.trans q.number.symm) rfl
    rwa [hphase] at h
  dsimp only
  split
  · exact stands_send hup _ _
  · exact hup

theorem errored_course {e : Effect} (h : Good e) {i : Nat} {x : Socket} (hx : e.sockets[i]? = some x)
    (hc : x.closed = false) (hr : x.run = e.number) :
    e.onError x = e ∨ (e.course = .opening false ∨ e.course = .failing) ∧ Stands (e.onError x) .failing := by
  obtain ⟨hat,⟨hop,_⟩,_⟩ := good_at h hx hc hr
  unfold Effect.onError
  rw [hat,if_neg (by simp [stale_live h.live])]
  split
  · rename_i hg
    simp only [Bool.and_eq_true,Bool.not_eq_true'] at hg
    have he : x.established = false := hop ▸ hg.1
    obtain ⟨hcourse,hre,_⟩ := unopened_course h hx hc hr he
    have q := quiet_setState { phase := .error,reason := some .websocketError } e
    refine .inr ⟨?_,?_⟩
    · rw [hcourse,unopened,hg.2]
      split
      · cases ‹false = true›
      · split
        · exact .inr rfl
        · exact .inl rfl
    · have hfail := Stands.opening (q.remoteExited.trans hre) (q.sockets ▸ hx) hc (hr.trans q.number.symm) he
      rwa [unopened,hg.2] at hfail
  · exact .inl rfl

theorem message_course {e : Effect} (h : Good e) (js : Js) {i : Nat} {x : Socket} (hx : e.sockets[i]? = some x)
    (hready : x.ready = true) (hr : x.run = e.number) (data : Bytes) :
    e.course = .up (e.connectionState.phase == .error) ∧
    Stands (e.onMessage js i x data) (match decodeServerFrame js data with
      | .ok (.error _) => .up true
      | .ok (.exited _) => .ended .remoteExit
      | _ => .up (e.connectionState.phase == .error)) := by
  simp only [Socket.ready,Bool.and_eq_true,Bool.not_eq_true'] at hready
  obtain ⟨⟨hest,hclosing⟩,hc⟩ := hready
  obtain ⟨hat,⟨_,hf⟩,_⟩ := good_at h hx hc hr
  have hre : e.remoteExited = false := by
    rcases hf with ⟨_,_,hcl,_⟩ | ⟨hre,_⟩
    · exact absurd (hclosing.symm.trans hcl) Bool.false_ne_true
    · exact hre
  have hup : Stands e (.up (e.connectionState.phase == .error)) := .up hre hx hc hr hest
  refine ⟨stands_course h hup,?_⟩
  unfold Effect.onMessage
  rw [hat,if_neg (by simp [stale_live h.live])]
  cases hd : decodeServerFrame js data with
  | error _ => exact hup
  | ok frame =>
    cases frame with
    | output bytes => exact .up hre hx hc hr hest
    | error message =>
      have q := quiet_setState { phase := .error,reason := some .serverError,detail := some message } e
      exact .up (q.remoteExited.trans hre) (q.sockets ▸ hx) hc (hr.trans q.number.symm) hest
    | exited code =>
      have q := quiet_setState { phase := .closed,reason := some .remoteExit,exitCode := some code }
        { e with remoteExited := true }
      exact .exited q.remoteExited

theorem closed_course {e : Effect} (h : Good e) {i : Nat} {x : Socket} (hx : e.sockets[i]? = some x)
    (hc : x.closed = false) (hr : x.run = e.number) :
    ∃ c, Stands (({ e with sockets := e.sockets.modify i (fun x => { x with closed := true }) }
      : Effect).onClose i x) c ∧ (c = e.course ∨ e.course.next .lost = some c) := by
  rw [onClose_eq]
  dsimp only
  generalize (if e.socketRef = some i then none else e.socketRef) = ref
  obtain ⟨hb,hat,hop,hf⟩ := good_closed h hx hc hr ref
  rw [Effect.afterClose,hat,if_neg (by simp [Effect.stale,h.live])]
  have hwait : ∀ f : Effect, Bare f → f.remoteExited = false → Stands f.scheduleReconnect .waiting := by
    intro f hf hre
    have hs := scheduled hf.wired hf.live hf.noTimer
    obtain ⟨k,hk⟩ := hs.timer
    exact .waiting (hs.remoteExited.trans hre) hk
  split
  · rename_i hre
    exact ⟨_,.exited hre,.inl (stands_course h (.exited hre)).symm⟩
  · rename_i hre
    have hre : e.remoteExited = false := by simpa using hre
    split
    · rename_i ho
      refine ⟨_,hwait _ hb hre,.inr ?_⟩
      rw [stands_course h (.up hre hx hc hr (hop ▸ ho))]
      rfl
    · rename_i ho
      have he : x.established = false := by simpa [hop] using ho
      obtain ⟨hcourse,_⟩ := unopened_course h hx hc hr he
      split
      · rename_i hagain
        refine ⟨_,hwait _ hb hre,.inr ?_⟩
        rw [hcourse,unopened,if_pos hagain]
        rfl
      · rename_i hagain
        refine ⟨_,stands_over hb hre rfl,.inr ?_⟩
        rw [hcourse,unopened,if_neg hagain]
        split <;> rfl

/-- The time of the notice is over. -/
theorem notice_course {e : Effect} (h : Good e) (i : Nat) :
    Stands (({ e with toPage := e.toPage.clearTimeout i } : Effect).noticeExpired) e.course := by
  refine stands_same (good_stands h) rfl rfl rfl rfl rfl ?_ ?_ (fun a ha => present_fewer ha)
  · simp only [Effect.noticeExpired,Effect.setConnectionState]
    split
    · rename_i hc
      exact hc.1.symm
    · rfl
  · intro hn
    have hp : e.connectionState.phase ≠ .connected :=
      @through_phase e.toScope e.toPage h (.inr hn)
    exact congrArg _ (noticeExpired_shown (e := { e with toPage := e.toPage.clearTimeout i }) hp)

theorem next_unopened (e : Effect) (x : Socket) : (unopened e x).next .established = some (.up false) := by
  unfold unopened
  split
  · rfl
  · split <;> rfl

/-- An event of the newest run. -/
theorem own_follows (ho : Orderly s) (ht : Orderly t) (hl : s.live = some r) (hw : s.owner l = some r)
    (hstep : step js s l = some t) : Follows js s l t := by
  obtain ⟨sc,hsc,_⟩ := live_scope ho hl
  have after : ∀ {page : Page} {callback : Effect → Effect} {c : Course},
      ({ s with page := page } : State).call r callback = some t → Stands (callback ⟨page,sc⟩) c →
      t.course = c := by
    intro page callback c hc hst
    rw [(course_call hl hsc hc).1]
    exact stands_course (call_good ho ht hl hsc hc).2.2 hst
  cases step_move hstep with
  | mounted hm hc | unmounted hm hc | data hm | resize hm => cases hw
  | @rejected i f message _ hf hs hc =>
    obtain rfl : f.run = r := by simpa [State.owner,hf] using hw
    obtain ⟨hn,hg,_⟩ := call_good ho ht hl hsc hc
    obtain ⟨hcourse,hst⟩ := rejected_course hg hf hs hn.symm message
    refine .inr ⟨.unreachable,rfl,?_⟩
    rw [course_live hl hsc,hcourse,after hc hst]
    cases f.isReconnect <;> rfl
  | @resolved i f status _ hf hs hc =>
    obtain rfl : f.run = r := by simpa [State.owner,hf] using hw
    obtain ⟨hn,hg,_⟩ := call_good ho ht hl hsc hc
    obtain ⟨hcourse,hst⟩ := resolved_course hg hf hs hn.symm status
    refine .inr ⟨_,rfl,?_⟩
    rw [course_live hl hsc,hcourse,after hc hst]
    split <;> rfl
  | @reconnect i u _ hu hp hb hc =>
    obtain rfl : u.run = r := by simpa [State.owner,hu] using hw
    obtain ⟨_,hg,_⟩ := call_good ho ht hl hsc hc
    obtain ⟨hcourse,hst⟩ := expired_course hg ⟨u,hu,hp,hb⟩
    refine .inr ⟨.due,rfl,?_⟩
    rw [course_live hl hsc,hcourse,after hc hst]
    rfl
  | @notice i u _ hu hp hb hc =>
    obtain rfl : u.run = r := by simpa [State.owner,hu] using hw
    obtain ⟨_,hg,_⟩ := call_good ho ht hl hsc hc
    exact .inl ((after hc (notice_course hg i)).trans (course_live hl hsc).symm)
  | @opened i x _ hx he hs hc =>
    obtain rfl : x.run = r := by simpa [State.owner,hx] using hw
    obtain ⟨hn,hg,_⟩ := call_good ho ht hl hsc hc
    obtain ⟨hcourse,_⟩ := unopened_course hg hx hs hn.symm he
    refine .inr ⟨.established,rfl,?_⟩
    rw [course_live hl hsc,hcourse,after hc (opened_course hg hx hs he hn.symm)]
    exact next_unopened _ x
  | @errored i x _ hx hs hc =>
    obtain rfl : x.run = r := by simpa [State.owner,hx] using hw
    obtain ⟨hn,hg,_⟩ := call_good ho ht hl hsc hc
    rcases errored_course hg hx hs hn.symm with hsame | ⟨hcourse,hst⟩
    · have hthen : t.course = Effect.course ⟨s.page,sc⟩ :=
        (course_call hl hsc hc).1.trans (congrArg Effect.course hsame)
      exact .inl (hthen.trans (course_live hl hsc).symm)
    · rcases hcourse with hcourse | hcourse
      · refine .inr ⟨.broken,rfl,?_⟩
        rw [course_live hl hsc,hcourse,after hc hst]
        rfl
      · exact .inl ((after hc hst).trans (hcourse.symm.trans (course_live hl hsc).symm))
  | @message i x data _ hx hready hc =>
    obtain rfl : x.run = r := by simpa [State.owner,hx] using hw
    obtain ⟨hn,hg,_⟩ := call_good ho ht hl hsc hc
    obtain ⟨hcourse,hst⟩ := message_course hg js hx hready hn.symm data
    have hnow := course_live hl hsc
    have hthen := after hc hst
    cases hd : decodeServerFrame js data with
    | error e =>
      simp only [hd] at hthen
      exact .inl (hthen.trans (hcourse.symm.trans hnow.symm))
    | ok frame =>
      cases frame with
      | output bytes =>
        simp only [hd] at hthen
        exact .inl (hthen.trans (hcourse.symm.trans hnow.symm))
      | error message =>
        simp only [hd] at hthen
        refine .inr ⟨.fault,by simp [Label.signal,hd],?_⟩
        rw [hnow,hcourse,hthen]
        rfl
      | exited code =>
        simp only [hd] at hthen
        refine .inr ⟨.exit,by simp [Label.signal,hd],?_⟩
        rw [hnow,hcourse,hthen]
        rfl
  | @closed i x _ hx hs hc =>
    obtain rfl : x.run = r := by simpa [State.owner,hx] using hw
    obtain ⟨hn,hg,_⟩ := call_good ho ht hl hsc hc
    obtain ⟨c,hst,hsame | hnext⟩ := closed_course hg hx hs hn.symm
    · exact .inl ((after hc hst).trans (hsame.trans (course_live hl hsc).symm))
    · refine .inr ⟨.lost,rfl,?_⟩
      rw [course_live hl hsc,after hc hst]
      exact hnext

/-- Other runs' events, and what the user does. -/
theorem other_follows (ho : Orderly s) (hh : Held s.live s.page) (hw : s.owner l ≠ s.live ∨ s.owner l = none)
    (hm : l ≠ .mount) (hu : l ≠ .unmount) (hstep : step js s l = some t) : t.course = s.course := by
  have hlive := step_live hstep hm hu
  cases hl : s.live with
  | none => simp [State.course,hlive,hl]
  | some r =>
    obtain ⟨sc,hsc,hn,hg,_⟩ := live_scope ho hl
    have same : t.scopes = s.scopes → (Good ⟨t.page,sc⟩ ∧ Stands ⟨t.page,sc⟩ s.course) →
        t.course = s.course := by
      intro hscopes ⟨hgt,hst⟩
      rw [course_live (hlive.trans hl) (hscopes ▸ hsc)]
      exact stands_course hgt hst
    have hnow : Stands ⟨s.page,sc⟩ s.course := course_live hl hsc ▸ good_stands hg
    cases hk : s.owner l with
    | some k =>
      have hne : k ≠ r := by
        rintro rfl
        rcases hw with hw | hw
        · exact hw (hk.trans hl.symm)
        · cases hw.symm.trans hk
      have hover : s.Over k := ⟨owner_known hk hstep,fun hs => hne (Option.some.inj (hs.symm.trans hl))⟩
      obtain ⟨hpage,hscopes,_⟩ := over_inert ho hh hk hover hstep
      have hf : Foreign sc.number s.page t.page := hpage.foreign _ (hn ▸ Ne.symm hne)
      exact same hscopes ⟨good_foreign hg hf,stands_foreign hnow hf⟩
    | none =>
      cases step_move hstep with
      | mounted hm' hc => exact absurd rfl hm
      | unmounted hm' hc => exact absurd rfl hu
      | rejected hf hs hc | resolved hf hs hc => simp [State.owner,hf] at hk
      | reconnect ht hp hb hc | notice ht hp hb hc => simp [State.owner,ht] at hk
      | opened hx he hs hc | errored hx hs hc | message hx hr hc | closed hx hs hc =>
        simp [State.owner,hx] at hk
      | @data text hm' =>
        refine same rfl ⟨sendInput_good hg text,?_⟩
        exact sendInput_rule (P := fun q => Stands ⟨q,sc⟩ s.course) (fun _ => hnow)
          (fun i _ _ => stands_send hnow i _)
      | @resize size hm' =>
        refine same rfl ⟨sendResize_good hg size,?_⟩
        have hnoted : Stands ⟨{ s.page with latestSizeRef := some size },sc⟩ s.course :=
          stands_same hnow rfl rfl rfl rfl rfl rfl (fun _ => rfl) (fun a ha => by cases a <;> exact ha)
        exact sendResize_rule (P := fun q => Stands ⟨q,sc⟩ s.course) (fun _ => hnoted)
          (fun i _ _ => stands_send hnoted i _)

theorem next_leave {c : Course} (h : c ≠ .off) : c.next .leave = some .off := by
  cases c with
  | off => exact absurd rfl h
  | checking again | opening again => cases again <;> rfl
  | failing | up faulty | waiting | ended reason => rfl

theorem stands_on {e : Effect} {c : Course} (h : Stands e c) : c ≠ .off := by
  cases h with
  | @opening i x hx hs hc hr he =>
    unfold unopened
    split
    · simp
    · split <;> simp
  | exited hx | waiting hx hr | checking hx hf hs hr | up hx hs hc hr he | ended hx hn hr => simp

/-- Every event is a step of the course, or it changes nothing of it. -/
theorem step_follows (hr : (system js).Reachable s) (hstep : step js s l = some t) : Follows js s l t := by
  have ho := reachable_orderly hr
  have ht := reachable_orderly (hr.step hstep)
  by_cases hm : l = .mount
  · subst hm
    cases step_move hstep with
    | mounted hm hc =>
      have hoff : s.course = .off := by simp [State.course,State.live,hm]
      have hl : State.live ⟨s.page,s.scopes ++ [freshScope s.scopes.length],true⟩ = some s.scopes.length := by
        simp [State.live]
      have hsc : (s.scopes ++ [freshScope s.scopes.length])[s.scopes.length]? =
          some (freshScope s.scopes.length) := List.getElem?_concat_length
      obtain ⟨hcourse,hlive,hscope,hpage⟩ := course_call
        (s := ⟨s.page,s.scopes ++ [freshScope s.scopes.length],true⟩) hl hsc hc
      obtain ⟨sc',hsc',_,hg,_⟩ := live_scope ht hlive
      obtain rfl := Option.some.inj (hscope.symm.trans hsc')
      rw [hpage] at hg
      have q := quiet_setState { phase := .connecting } ⟨s.page,{ freshScope s.scopes.length with attempt := 1 }⟩
      have hst : Stands (Effect.connect false ⟨s.page,freshScope s.scopes.length⟩) (.checking false) :=
        .checking (f := ⟨_,_,false,false⟩) q.remoteExited List.getElem?_concat_length rfl rfl
      refine .inr ⟨.begin,rfl,?_⟩
      rw [hoff,hcourse,stands_course hg hst]
      rfl
  · by_cases hu : l = .unmount
    · subst hu
      cases step_move hstep with
      | @unmounted u hm hc =>
        have hl : s.live = some (s.scopes.length - 1) := by simp [State.live,hm]
        obtain ⟨sc,hsc,_,hg,_⟩ := live_scope ho hl
        refine .inr ⟨.leave,rfl,?_⟩
        rw [course_live hl hsc]
        exact next_leave (stands_on (good_stands hg))
    · by_cases hw : s.owner l = s.live ∧ s.owner l ≠ none
      · obtain ⟨r,hk⟩ := Option.ne_none_iff_exists'.mp hw.2
        exact own_follows ho ht (hw.1.symm.trans hk) hk hstep
      · refine .inl (other_follows ho (reachable_held hr) ?_ hm hu hstep)
        by_cases he : s.owner l = none
        · exact .inr he
        · exact .inl (fun hs => hw ⟨hs,he⟩)

/-- The phase shown is that of the course. -/
theorem good_phase {e : Effect} (h : Good e) : e.connectionState.phase = e.course.phase := by
  obtain ⟨only,hu,ha⟩ := h.one
  cases only with
  | none =>
    rcases ha with ⟨hx,hp⟩ | ⟨hx,hp,why,hr,hf⟩
    · rw [stands_course h (.exited hx)]
      exact hp
    · rw [stands_course h (.ended hx (fun a hpres => by cases hu a hpres) hr),hp]
      cases why <;> first | rfl | cases hf
  | some a =>
    cases a with
    | timer i =>
      rw [stands_course h (.waiting ha.2.1 ha.1)]
      exact ha.2.2
    | fetch i =>
      obtain ⟨hx,f,hf,hs,hr,_,hp⟩ := ha
      rw [stands_course h (.checking hx hf hs hr),hp]
      cases f.isReconnect <;> rfl
    | socket i =>
      obtain ⟨x,hs,hc,hr,_,_,⟨hx,_,_,hp⟩ | ⟨hx,_,hp⟩⟩ := ha
      · rw [stands_course h (.exited hx)]
        exact hp
      · cases he : x.established with
        | true =>
          rw [stands_course h (.up hx hs hc hr he)]
          rw [if_pos he] at hp
          rcases hp with hp | ⟨hp,_⟩ <;> rw [hp] <;> rfl
        | false =>
          rw [stands_course h (.opening hx hs hc hr he),unopened]
          simp only [he,Bool.false_eq_true,if_false] at hp
          split at hp
          · rw [if_pos ‹_›]
            exact hp
          · rw [if_neg ‹_›]
            rcases hp with hp | ⟨hp,_⟩ <;> simp [hp,Course.phase]

theorem course_phase (hr : (system js).Reachable s) (hm : s.mounted = true) :
    s.page.connectionState.phase = s.course.phase := by
  have hl : s.live = some (s.scopes.length - 1) := by simp [State.live,hm]
  obtain ⟨sc,hsc,_,hg,_⟩ := live_scope (reachable_orderly hr) hl
  rw [course_live hl hsc]
  exact good_phase hg

theorem run_course {ls : List Label} (hrun : (system js).run (system js).start ls = some s) :
    ∃ ks, List.Sublist ks (ls.filterMap (Label.signal js)) ∧ Course.system.run .off ks = some s.course :=
  System.run_signals (n := Course.system) (f := State.course) rfl (fun _ _ _ hr hs => step_follows hr hs) hrun

end Steps

/-- Whatever happens, in whatever order and to whichever run of the page, the page is on the course
that the events of its newest run have set, in turn, and shows the phase of it. -/
theorem course_followed {js : Js} {ls : List Label} {s : State}
    (hrun : (system js).run (system js).start ls = some s) :
    (∃ ks, List.Sublist ks (ls.filterMap (Label.signal js)) ∧ Course.system.run .off ks = some s.course) ∧
    (s.mounted = true → s.page.connectionState.phase = s.course.phase) :=
  ⟨run_course hrun,fun hm => course_phase ⟨ls,hrun⟩ hm⟩

/-- An abandoned run goes on beside the second one, whose session is lost and found again. -/
def againRun : List Label :=
  [.mount,.fetched 0 (.ok 204),.unmount,.mount,.opened 0,.fetched 1 (.ok 204),.closed 0,.errored 1,.opened 1,
   .message 1 [3,33],.closed 1,.timer 0,.fetched 2 (.error none),.timer 1,.fetched 3 (.ok 204),.opened 2]

theorem course_followed_again :
    ∃ s ks, (system (standard fun _ _ => "")).run start againRun = some s ∧
      Course.system.run .off ks = some (.up false) ∧ s.page.connectionState.phase = .connected := by
  have hrun : (system (standard fun _ _ => "")).run start againRun = some _ :=
    (Option.some_get (h := rfl)).symm
  obtain ⟨⟨ks,_,hks⟩,hshown⟩ := course_followed hrun
  exact ⟨_,ks,hrun,hks,hshown rfl⟩

end Terminald.App
