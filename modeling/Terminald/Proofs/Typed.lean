import Terminald.Proofs.Console
import Terminald.Proofs.Window

namespace Terminald.Client
open Machine Protocol

/-- The keys a message carries. -/
def keys : ClientMessage → Bytes
  | .input data => data
  | .resize _ => []

/-- The message in the writer task's hands. -/
def Writer.message : Writer → Option ClientMessage
  | .sending message => some message
  | _ => none

/-- No empty frame, and none that the buffer could not hold. -/
def Sized : ClientMessage → Prop
  | .input data => data ≠ [] ∧ data.length ≤ bufferSize
  | .resize _ => True

/-- `run` has not come to its loop. -/
def Main.early : Main → Bool
  | .connected | .measuring | .sending _ => true
  | .reading | .returned => false

/-- The frames carry a first part of what was typed, and the remainder is in the writer
task's hands while it is there. -/
structure Typing (s : State) (typed : Bytes) : Prop where
  unborn : s.main.early = true → s.writer = .unborn
  split : ∃ rest, s.sent.flatMap keys ++ rest = typed ∧
    (s.writer ≠ .done → rest = s.writer.message.toList.flatMap keys)
  sized : ∀ m ∈ s.sent ++ s.writer.message.toList, Sized m

section Steps
variable {s t : State} {l : Label} {typed : Bytes}

theorem start_typing (size : Resize) : Typing (start size) [] :=
  ⟨fun _ => rfl,⟨[],rfl,fun _ => rfl⟩,fun m hm => by cases hm⟩

/-- The writer task and its frames are as before. -/
theorem Typing.keep (h : Typing s typed) (hm : t.main.early = true → s.main.early = true)
    (hw : t.writer = s.writer) (hs : t.sent = s.sent) : Typing t typed := by
  refine ⟨fun he => hw ▸ h.unborn (hm he),?_,?_⟩
  · rw [hw,hs]
    exact h.split
  · rw [hw,hs]
    exact h.sized

/-- A writer task that ends leaves the remainder unsent. -/
theorem Typing.stop (h : Typing s typed) (hm : t.main.early = false) (hw : t.writer = .done)
    (hs : t.sent = s.sent) : Typing t typed := by
  obtain ⟨rest,he,_⟩ := h.split
  refine ⟨fun hn => by simp [hm] at hn,⟨rest,by rw [hs,he],fun hn => absurd hw hn⟩,?_⟩
  intro m hin
  refine h.sized m (List.mem_append_left _ ?_)
  simpa [hw,hs,Writer.message] using hin

/-- The writer task takes a message in its hands. -/
theorem Typing.take (h : Typing s typed) (hs : s.writer = .select) (message : ClientMessage)
    (hz : Sized message) (hw : t.writer = .sending message) (hm : t.main = s.main)
    (hsent : t.sent = s.sent) : Typing t (typed ++ keys message) := by
  obtain ⟨rest,he,hrest⟩ := h.split
  obtain rfl : rest = [] := by simpa [hs,Writer.message] using hrest
  refine ⟨fun hn => ?_,⟨keys message,by rw [hsent,← he,List.append_nil],fun _ => by simp [hw,Writer.message]⟩,?_⟩
  · rw [hm] at hn
    simp [h.unborn hn] at hs
  · intro m hin
    simp only [hw,hsent,Writer.message,Option.toList_some,List.mem_append,List.mem_singleton] at hin
    rcases hin with hin | rfl
    · exact h.sized m (List.mem_append_left _ hin)
    · exact hz

theorem move_typing (h : Typing s typed) (hm : Move s l t) (hl : ∀ data, l ≠ .stdin (.ok data)) :
    Typing t typed := by
  have writing : s.writer ≠ .unborn → s.main.early = false := by
    intro hw
    by_contra hn
    exact hw (h.unborn (by simpa using hn))
  cases hm with
  | changed hz | delivered hr | registered he | received he hn | current he | unposted he hw
  | posted he hp hw =>
    exact h.keep id rfl rfl
  | created hm | measured hm => exact h.keep (fun _ => by rw [hm]; rfl) rfl rfl
  | unmeasured hm =>
    have hw := h.unborn (by rw [hm]; rfl)
    refine ⟨fun hn => (by cases hn),?_,?_⟩
    · simpa [hw,Writer.message] using h.split
    · simpa [hw,Writer.message] using h.sized
  | @firstSent size hm =>
    have hw := h.unborn (by rw [hm]; rfl)
    refine ⟨fun hn => (by cases hn),?_,?_⟩
    · simpa [hw,Writer.message,keys] using h.split
    · intro m hin
      simp only [Writer.message,Option.toList_none,List.append_nil,List.mem_append,List.mem_singleton] at hin
      rcases hin with hin | rfl
      · exact h.sized m (List.mem_append_left _ hin)
      · trivial
  | firstFailed hm | closed hm => exact h.stop rfl rfl rfl
  | exhausted hw => exact absurd rfl (hl [])
  | @input data hw hd hk => exact absurd rfl (hl data)
  | stdinFailed hw | sendFailed hw => exact h.stop (writing (by simp [hw])) rfl rfl
  | @taken size rest hw hc =>
    have htaken := h.take (t := { s with writer := .sending (.resize size),channel := s.channel.drop 1 })
      hw (.resize size) trivial rfl rfl rfl
    simpa [keys] using htaken
  | @sent message hw =>
    obtain ⟨rest,he,hrest⟩ := h.split
    have hmine := hrest (by simp [hw])
    refine ⟨fun hn => ?_,⟨[],?_,fun _ => rfl⟩,?_⟩
    · rw [show s.main.early = false from writing (by simp [hw])] at hn
      cases hn
    · simpa [hw,Writer.message,hmine] using he
    · intro m hin
      refine h.sized m ?_
      simpa [hw,Writer.message] using hin

/-- What is read from stdin is in the writer task's hands, or it was the end. -/
theorem stdin_typing (h : Typing s typed) {data : Bytes} (hs : step s (.stdin (.ok data)) = some t) :
    Typing t (typed ++ data) := by
  cases step_move hs with
  | exhausted hw =>
    rw [List.append_nil]
    have hlate : s.main.early = false := by
      by_contra hn
      simp [h.unborn (by simpa using hn)] at hw
    exact h.stop hlate rfl rfl
  | input hw hd hk => exact h.take hw (.input data) ⟨hd,hk⟩ rfl rfl rfl

theorem sent_grows (hs : step s l = some t) : s.sent <+: t.sent := by
  cases step_move hs with
  | firstSent hm | sent hw => exact List.prefix_append _ _
  | changed hz | delivered hr | created hm | measured hm | unmeasured hm | firstFailed hm
  | registered he | received he hn | current he | unposted he hw | posted he hp hw | exhausted hw
  | input hw hd hk | stdinFailed hw | taken hw hc | sendFailed hw | closed hm =>
    exact List.prefix_rfl

end Steps
end Terminald.Client

namespace Terminald.Run
open Machine Protocol
open Session (Message)

section Steps
variable {U : Type} {urls : Urls.UrlType U} {config : Args.ClientConfig} {s t : State} {l : Label}

/-- The tasks of `run` are those of the connected client, whose loop ends with the guard. -/
theorem finish_client (r : Except Error Unit) (disabled : Except String Unit) :
    (s.finish r disabled).client = s.client ∨
      Client.step s.client .close = some (s.finish r disabled).client := by
  simp only [State.finish]
  cases hc : Client.step s.client .close with
  | none => exact .inl rfl
  | some client => exact .inr rfl

theorem move_client (hm : Move urls config s l t) :
    t.client = s.client ∨ ∃ k, Client.step s.client k = some t.client := by
  cases hm with
  | turned ht hc hd he | typed ht hc | unsized ht hc => exact .inr ⟨_,hc⟩
  | @dropped r disabled hg => exact (finish_client r disabled).imp id (fun h => ⟨_,h⟩)
  | entered hg | refused hg | requested hg hb | unrequested hg hb | connected hg | unconnected hg
  | took hg hm | broken hg hm | ended hg hm | wroteNothing hg | unwritten hg | wrote hg hk hc
  | flushed hg | unflushed hg =>
    exact .inl rfl

theorem move_typed (h : Client.Typing s.client s.typed) (hm : Move urls config s l t) :
    Client.Typing t.client t.typed := by
  cases hm with
  | turned ht hc hd he => exact Client.move_typing h (Client.step_move hc) hd
  | unsized ht hc => exact Client.move_typing h (Client.step_move hc) (by simp)
  | typed ht hc => exact Client.stdin_typing h hc
  | @dropped r disabled hg =>
    rcases finish_client (s := s) r disabled with he | hc
    · rw [he]
      exact h
    · exact Client.move_typing h (Client.step_move hc) (by simp)
  | entered hg | refused hg | requested hg hb | unrequested hg hb | connected hg | unconnected hg
  | took hg hm | broken hg hm | ended hg hm | wroteNothing hg | unwritten hg | wrote hg hk hc
  | flushed hg | unflushed hg =>
    exact h

theorem reachable_typed {size : Resize} (hr : (system urls config size).Reachable s) :
    Client.Typing s.client s.typed :=
  hr.invariant (I := fun s => Client.Typing s.client s.typed) (Client.start_typing size)
    (fun _ _ _ _ h hstep => move_typed h (step_move hstep))

/-- The input frames carry what was read from stdin, in order and from the first byte on, in
pieces of the buffer's size at most, however the sizes of the window come between them; nothing
is missing when the writer task is back at its select. -/
theorem typed_sent {size : Resize} (hr : (system urls config size).Reachable s) :
    s.client.sent.flatMap Client.keys <+: s.typed ∧
    (s.client.writer = .select → s.client.sent.flatMap Client.keys = s.typed) ∧
    ∀ data, .input data ∈ s.client.sent → data ≠ [] ∧ data.length ≤ Client.bufferSize := by
  obtain ⟨_,⟨rest,he,hrest⟩,hsized⟩ := reachable_typed hr
  refine ⟨⟨rest,he⟩,fun hw => ?_,fun data hin => hsized _ (List.mem_append_left _ hin)⟩
  obtain rfl : rest = [] := by simpa [hw,Client.Writer.message] using hrest
  simpa using he

theorem typed_sent_shown :
    ∃ s, (system (Urls.standard Urls.domains fun _ => "") plainConfig ⟨80,24⟩).Reachable s ∧
      s.client.sent = [.resize ⟨80,24⟩,.input [108,115]] ∧
      s.client.sent.flatMap Client.keys <+: [108,115] := by
  have hr := System.reachable_end
    (m := system (Urls.standard Urls.domains fun _ => "") plainConfig ⟨80,24⟩) shownRun rfl
  exact ⟨_,hr,rfl,(typed_sent hr).1⟩

end Steps
end Terminald.Run
