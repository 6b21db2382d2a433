import Terminald.Model.App

namespace Terminald.App
open Machine Browser

/-- The page after the browser's own part in an event. -/
def Page.settle (p : Page) (i : Nat) : Page :=
  { p with fetches := p.fetches.modify i (fun f => { f with settled := true }) }

def Page.establish (p : Page) (i : Nat) : Page :=
  { p with sockets := p.sockets.modify i (fun x => { x with established := true }) }

def Page.shut (p : Page) (i : Nat) : Page :=
  { p with sockets := p.sockets.modify i (fun x => { x with closed := true }) }

/-- Input is sent on the current socket if it is open, and else goes nowhere. -/
theorem sendInput_rule {P : Page → Prop} {p : Page} {text : String}
    (h : (∀ i, p.socketRef = some i → ¬p.isReady i = true) → P p)
    (hs : ∀ i, p.socketRef = some i → p.isReady i = true → P (p.send i (encodeInput (utf8 text)))) :
    P (p.sendInput text) := by
  unfold Page.sendInput
  split
  · rename_i i hi
    split
    · exact hs i hi ‹_›
    · rename_i hn
      refine h (fun j hj => ?_)
      obtain rfl := Option.some.inj (hi.symm.trans hj)
      exact hn
  · rename_i hi
    refine h (fun j hj => ?_)
    rw [hi] at hj
    cases hj

/-- A size is noted, and sent on the current socket if it is open. -/
theorem sendResize_rule {P : Page → Prop} {p : Page} {size : Size}
    (h : (∀ i, p.socketRef = some i → ¬p.isReady i = true) → P { p with latestSizeRef := some size })
    (hs : ∀ i, p.socketRef = some i → p.isReady i = true →
      P (Page.send { p with latestSizeRef := some size } i (encodeResize size.cols size.rows))) :
    P (p.sendResize size) := by
  unfold Page.sendResize
  dsimp only
  split
  · rename_i i hi
    split
    · exact hs i hi ‹_›
    · rename_i hn
      refine h (fun j hj => ?_)
      obtain rfl := Option.some.inj (hi.symm.trans hj)
      exact hn
  · rename_i hi
    refine h (fun j hj => ?_)
    rw [hi] at hj
    cases hj

def freshScope (number : Nat) : Scope := ⟨number,false,0,false,none⟩

/-- Everything one event can do, with the guard it comes under. -/
inductive Move (js : Js) (s : State) : Label → State → Prop
  | mounted (hm : s.mounted = false)
      (hc : State.call ⟨s.page,s.scopes ++ [freshScope s.scopes.length],true⟩ s.scopes.length
        (Effect.connect false) = some t) : Move js s .mount t
  | unmounted (hm : s.mounted = true)
      (hc : s.call (s.scopes.length - 1) Effect.cleanup = some t) :
      Move js s .unmount { t with mounted := false }
  | rejected (hf : s.page.fetches[i]? = some f) (hs : f.settled = false)
      (hc : ({ s with page := s.page.settle i } : State).call f.run (Effect.rejected f message) = some t) :
      Move js s (.fetched i (.error message)) t
  | resolved (hf : s.page.fetches[i]? = some f) (hs : f.settled = false)
      (hc : ({ s with page := s.page.settle i } : State).call f.run (Effect.resolved f status) = some t) :
      Move js s (.fetched i (.ok status)) t
  | reconnect (hu : s.page.timers[i]? = some u) (hp : u.pending = true) (hb : u.callback = .reconnect)
      (hc : ({ s with page := s.page.clearTimeout i } : State).call u.run Effect.reconnectExpired = some t) :
      Move js s (.timer i) t
  | notice (hu : s.page.timers[i]? = some u) (hp : u.pending = true) (hb : u.callback = .notice)
      (hc : ({ s with page := s.page.clearTimeout i } : State).call u.run Effect.noticeExpired = some t) :
      Move js s (.timer i) t
  | opened (hx : s.page.sockets[i]? = some x) (he : x.established = false) (hs : x.closed = false)
      (hc : ({ s with page := s.page.establish i } : State).call x.run (Effect.onOpen i x) = some t) :
      Move js s (.opened i) t
  | errored (hx : s.page.sockets[i]? = some x) (hs : x.closed = false)
      (hc : s.call x.run (Effect.onError x) = some t) : Move js s (.errored i) t
  | message (hx : s.page.sockets[i]? = some x) (hr : x.ready = true)
      (hc : s.call x.run (Effect.onMessage js i x data) = some t) : Move js s (.message i data) t
  | closed (hx : s.page.sockets[i]? = some x) (hs : x.closed = false)
      (hc : ({ s with page := s.page.shut i } : State).call x.run (Effect.onClose i x) = some t) :
      Move js s (.closed i) t
  | data (hm : s.mounted = true) : Move js s (.data text) { s with page := s.page.sendInput text }
  | resize (hm : s.mounted = true) : Move js s (.resize size) { s with page := s.page.sendResize size }

variable {js : Js} {s t : State}

theorem step_move {l : Label} (h : step js s l = some t) : Move js s l t := by
  cases l with
  | mount =>
    simp only [step] at h
    split at h
    · cases h
    · rename_i hm
      simp only [List.length_append,List.length_singleton,Nat.add_sub_cancel] at h
      exact .mounted (by simpa using hm) h
  | unmount =>
    simp only [step] at h
    split at h
    · rename_i hm
      obtain ⟨u,hc,rfl⟩ := Option.map_eq_some_iff.mp h
      exact .unmounted hm hc
    · cases h
  | fetched i result =>
    simp only [step] at h
    split at h
    · rename_i f hf
      split at h
      · cases h
      · rename_i hs
        split at h
        · exact .rejected hf (by simpa using hs) h
        · exact .resolved hf (by simpa using hs) h
    · cases h
  | timer i =>
    simp only [step] at h
    split at h
    · rename_i u hu
      split at h
      · rename_i hp
        split at h
        · rename_i hb
          exact .reconnect hu hp hb h
        · rename_i hb
          exact .notice hu hp hb h
      · cases h
    · cases h
  | opened i =>
    simp only [step] at h
    split at h
    · rename_i x hx
      split at h
      · cases h
      · rename_i hg
        simp only [Bool.or_eq_true,not_or,Bool.not_eq_true] at hg
        exact .opened hx hg.1 hg.2 h
    · cases h
  | errored i =>
    simp only [step] at h
    split at h
    · rename_i x hx
      split at h
      · cases h
      · rename_i hs
        exact .errored hx (by simpa using hs) h
    · cases h
  | message i data =>
    simp only [step] at h
    split at h
    · rename_i x hx
      split at h
      · rename_i hr
        exact .message hx hr h
      · cases h
    · cases h
  | closed i =>
    simp only [step] at h
    split at h
    · rename_i x hx
      split at h
      · cases h
      · rename_i hs
        exact .closed hx (by simpa using hs) h
    · cases h
  | data text =>
    simp only [step] at h
    split at h
    · rename_i hm
      exact Option.some.inj h ▸ .data hm
    · cases h
  | resize size =>
    simp only [step] at h
    split at h
    · rename_i hm
      exact Option.some.inj h ▸ .resize hm
    · cases h

end Terminald.App
