import Terminald.Model.Run
import Terminald.Proofs.Endpoints

namespace Terminald.Run
open Machine Protocol
open Session (Message Writing)

/-- What a message puts on stdout. -/
def shown : Message → Bytes
  | .binary frame =>
    match ServerMessage.decode frame with
    | .ok (.output output) => output
    | .ok (.exited code) => exitNotice code
    | _ => []
  | .text text => utf8 text
  | _ => []

/-- What a message makes `run` come back with, if it is to come back. -/
def verdict : Message → Option (Except Error Unit)
  | .binary frame =>
    match ServerMessage.decode frame with
    | .ok (.output _) => none
    | .ok (.error error) => some (.error ⟨[error]⟩)
    | .ok (.exited _) => some (.ok ())
    | .error error => some (.error error)
  | .close => some (.ok ())
  | _ => none

/-- What the message in hand has still to put on stdout. -/
def Stage.todo : Stage → Bytes
  | .running (.writing call _) => call.data.drop call.written
  | _ => []

/-- What `run` comes back with, once that is settled. -/
def Stage.heading : Stage → Option (Except Error Unit)
  | .running (.writing _ true) | .running (.flushing true) => some (.ok ())
  | .leaving result | .returned result => some result
  | _ => none

/-- Something written is not flushed. -/
def Stage.dirty : Stage → Bool
  | .running (.writing _ _) | .running (.flushing _) => true
  | _ => false

def Stage.failed : Stage → Bool
  | .leaving (.error _) | .returned (.error _) => true
  | _ => false

/-- The guard of the raw mode is there. -/
def Stage.guarded : Stage → Bool
  | .entering | .returned _ => false
  | _ => true

section Stages

@[simp] theorem todo_next : (Stage.running .next).todo = [] := rfl
@[simp] theorem todo_writing (call : Writing) (last : Bool) :
    (Stage.running (.writing call last)).todo = call.data.drop call.written := rfl
@[simp] theorem todo_flushing (last : Bool) : (Stage.running (.flushing last)).todo = [] := rfl
@[simp] theorem todo_leaving (r : Except Error Unit) : (Stage.leaving r).todo = [] := rfl
@[simp] theorem heading_next : (Stage.running .next).heading = none := rfl
@[simp] theorem heading_leaving (r : Except Error Unit) : (Stage.leaving r).heading = some r := rfl
@[simp] theorem dirty_next : (Stage.running .next).dirty = false := rfl
@[simp] theorem dirty_leaving (r : Except Error Unit) : (Stage.leaving r).dirty = false := rfl

@[simp] theorem writeServerOutput_todo (data : Bytes) (written : Nat) (last : Bool) :
    (Stage.running (writeServerOutput data written last)).todo = data.drop written := by
  unfold writeServerOutput
  split
  · rfl
  · rename_i h
    simp [List.drop_eq_nil_of_le (Nat.le_of_not_lt h)]

@[simp] theorem writeServerOutput_heading (data : Bytes) (written : Nat) (last : Bool) :
    (Stage.running (writeServerOutput data written last)).heading = if last then some (.ok ()) else none := by
  unfold writeServerOutput
  split <;> cases last <;> rfl

@[simp] theorem writeServerOutput_dirty (data : Bytes) (written : Nat) (last : Bool) :
    (Stage.running (writeServerOutput data written last)).dirty = true := by
  unfold writeServerOutput
  split <;> rfl

@[simp] theorem writeServerOutput_failed (data : Bytes) (written : Nat) (last : Bool) :
    (Stage.running (writeServerOutput data written last)).failed = false := rfl

/-- A message brings what it shows, and the way out it asks for. -/
theorem handle_stage (m : Message) : (handle m).todo = shown m ∧ (handle m).heading = verdict m := by
  cases m with
  | binary frame => cases hd : ServerMessage.decode frame with
    | error e => simp [handle,handleServerFrame,shown,verdict,hd]
    | ok message =>
      cases message <;> simp [handle,handleServerFrame,shown,verdict,hd]
  | text text => simp [handle,shown,verdict]
  | close | ping data | pong data => exact ⟨rfl,rfl⟩

end Stages

section Moves
variable {U : Type} (urls : Urls.UrlType U) (config : Args.ClientConfig)

/-- Everything one step can do, with the guard it is taken under. -/
inductive Move (s : State) : Label → State → Prop
  | entered (hg : s.stage = .entering) :
      Move s (.enter (.ok ())) { s with stage := .resolving,raw := true }
  | refused (hg : s.stage = .entering) : Move s (.enter (.error error))
      { s with stage := .returned (.error ⟨["enable terminal raw mode",error]⟩) }
  | requested (hg : s.stage = .resolving) (hb : buildRequest urls config r = .ok request) :
      Move s (.request r) { s with stage := .connecting request }
  | unrequested (hg : s.stage = .resolving) (hb : buildRequest urls config r = .error e) :
      Move s (.request r) { s with stage := .leaving (.error e) }
  | connected (hg : s.stage = .connecting request) :
      Move s (.connect (.ok ())) { s with stage := .running .next }
  | unconnected (hg : s.stage = .connecting request) : Move s (.connect (.error e))
      { s with stage := .leaving (.error (e.context "connect to terminald server")) }
  | turned (ht : s.turns l = true) (hc : Client.step s.client l = some client)
      (hd : ∀ data, l ≠ .stdin (.ok data)) (he : ∀ e, l ≠ .first (.error e)) :
      Move s (.client l) { s with client := client }
  | typed (ht : s.turns (.stdin (.ok data)) = true)
      (hc : Client.step s.client (.stdin (.ok data)) = some client) :
      Move s (.client (.stdin (.ok data))) { s with client := client,typed := s.typed ++ data }
  | unsized (ht : s.turns (.first (.error e)) = true)
      (hc : Client.step s.client (.first (.error e)) = some client) :
      Move s (.client (.first (.error e))) { s with client := client,stage := .leaving (.error e) }
  | took (hg : s.stage = .running .next) (hm : s.client.main = .reading) :
      Move s (.next (some (.ok m))) { s with stage := handle m,received := s.received ++ [m] }
  | broken (hg : s.stage = .running .next) (hm : s.client.main = .reading) :
      Move s (.next (some (.error e))) { s with stage := .leaving (.error e) }
  | ended (hg : s.stage = .running .next) (hm : s.client.main = .reading) :
      Move s (.next none) { s with stage := .leaving (.ok ()) }
  | wroteNothing (hg : s.stage = .running (.writing call last)) :
      Move s (.write (.ok 0)) { s with stage := .leaving (.error ⟨["write zero"]⟩) }
  | unwritten (hg : s.stage = .running (.writing call last)) :
      Move s (.write (.error e)) { s with stage := .leaving (.error e) }
  | wrote (hg : s.stage = .running (.writing call last)) (hk : call.written + count ≤ call.data.length)
      (hc : count ≠ 0) :
      Move s (.write (.ok count))
        { s with stage := .running (writeServerOutput call.data (call.written + count) last),
                 stdout := s.stdout ++ (call.data.drop call.written).take count }
  | flushed (hg : s.stage = .running (.flushing last)) :
      Move s (.flush (.ok ()))
        { s with stage := if last then .leaving (.ok ()) else .running .next,flushed := s.stdout.length }
  | unflushed (hg : s.stage = .running (.flushing last)) :
      Move s (.flush (.error e)) { s with stage := .leaving (.error e) }
  | dropped (hg : s.stage = .leaving r) : Move s (.drop disabled) (s.finish r disabled)

variable {urls config} {s t : State} {l : Label}

theorem turn_move {l : Client.Label} (ht : s.turns l = true) (h : s.turn l = some t) :
    Move urls config s (.client l) t := by
  obtain ⟨client,hc,he⟩ := Option.map_eq_some_iff.mp h
  cases l with
  | stdin read =>
    cases read with
    | ok data =>
      subst he
      exact .typed ht hc
    | error e =>
      subst he
      exact .turned ht hc (by simp) (by simp)
  | first result =>
    cases result with
    | ok u =>
      subst he
      exact .turned ht hc (by simp) (by simp)
    | error e =>
      subst he
      exact .unsized ht hc
  | change size | deliver | new | initial readable | register result | recv | current readable | post
  | resize | send result | close =>
    subst he
    exact .turned ht hc (by simp) (by simp)

theorem step_move (h : step urls config s l = some t) : Move urls config s l t := by
  cases l with
  | enter result =>
    simp only [step] at h
    split at h <;> cases h
    · exact .entered ‹_›
    · exact .refused ‹_›
  | request r =>
    simp only [step] at h
    split at h
    · split at h <;> cases h
      · exact .requested ‹_› ‹_›
      · exact .unrequested ‹_› ‹_›
    · cases h
  | connect result =>
    simp only [step] at h
    split at h <;> cases h
    · exact .connected ‹_›
    · exact .unconnected ‹_›
  | client l =>
    simp only [step] at h
    split at h
    · exact turn_move ‹_› h
    · cases h
  | next message =>
    simp only [step] at h
    split at h <;> cases h
    · exact .took ‹_› ‹_›
    · exact .broken ‹_› ‹_›
    · exact .ended ‹_› ‹_›
  | write result =>
    simp only [step] at h
    split at h
    · cases h
      exact .wroteNothing ‹_›
    · rename_i hne hg
      split at h <;> cases h
      exact .wrote hg ‹_› (by simpa using hne)
    · cases h
      exact .unwritten ‹_›
    · cases h
  | flush result =>
    simp only [step] at h
    split at h <;> cases h
    · exact .flushed ‹_›
    · exact .unflushed ‹_›
  | drop disabled =>
    simp only [step] at h
    split at h <;> cases h
    exact .dropped ‹_›

/-- Something outside `run` fails in this step, or the request cannot be built. -/
def fails (urls : Urls.UrlType U) (config : Args.ClientConfig) : Label → Bool
  | .enter (.error _) | .connect (.error _) | .client (.first (.error _)) => true
  | .next (some (.error _)) | .write (.error _) | .write (.ok 0) | .flush (.error _) => true
  | .request r =>
    match buildRequest urls config r with
    | .error _ => true
    | .ok _ => false
  | _ => false

/-- `run` has not come to an error, or nothing but the server's own word brought it there. -/
def Sound (urls : Urls.UrlType U) (config : Args.ClientConfig) (past : List Label) (s : State) : Prop :=
  s.stage.failed = false ∨ ∀ l ∈ past, fails urls config l = false

theorem failed_stays (hm : Move urls config s l t) (hs : s.stage.failed = true) :
    t.stage.failed = true := by
  cases hm with
  | entered hg | refused hg | requested hg hb | unrequested hg hb | connected hg | unconnected hg
  | took hg hm | broken hg hm | ended hg hm | wroteNothing hg | unwritten hg | wrote hg hk hc
  | flushed hg | unflushed hg =>
    simp [hg,Stage.failed] at hs
  | turned ht hc hd he | typed ht hc => exact hs
  | unsized ht hc => rfl
  | @dropped r disabled hg =>
    cases r with
    | ok u => simp [hg,Stage.failed] at hs
    | error e => rfl

theorem Sound.back {past : List Label} (hm : Move urls config s l t)
    (h : Sound urls config (past ++ [l]) t) : Sound urls config past s := by
  rcases h with h | h
  · left
    by_contra hs
    simp [failed_stays hm (by simpa using hs)] at h
  · exact .inr (fun k hk => h k (List.mem_append_left _ hk))

theorem not_sound {past : List Label} (hl : fails urls config l = true) (ht : t.stage.failed = true) :
    ¬ Sound urls config (past ++ [l]) t := by
  intro h
  rcases h with h | h
  · simp [ht] at h
  · exact absurd (h l (by simp)) (by simp [hl])

/-- Stdout has taken a first part of what the messages show. As long as nothing fails the
remainder is in hand, and nothing waits for a flush between two messages. -/
structure Printed (urls : Urls.UrlType U) (config : Args.ClientConfig) (past : List Label) (s : State) :
    Prop where
  split : ∃ rest, s.stdout ++ rest = s.received.flatMap shown ∧
    (Sound urls config past s → rest = s.stage.todo)
  within : s.flushed ≤ s.stdout.length
  clean : Sound urls config past s → s.stage.dirty = false → s.flushed = s.stdout.length

variable {past : List Label}

/-- A step that prints nothing. -/
theorem Printed.keep (h : Printed urls config past s) (ho : t.stdout = s.stdout)
    (hr : t.received = s.received) (hf : t.flushed = s.flushed)
    (hs : Sound urls config (past ++ [l]) t → Sound urls config past s ∧
      t.stage.todo = s.stage.todo ∧ (t.stage.dirty = false → s.stage.dirty = false)) :
    Printed urls config (past ++ [l]) t := by
  obtain ⟨⟨rest,he,hrest⟩,hw,hc⟩ := h
  refine ⟨⟨rest,by rw [ho,hr,he],fun h => ?_⟩,by rw [ho,hf]; exact hw,fun h hd => ?_⟩
  · obtain ⟨hback,htodo,_⟩ := hs h
    exact (hrest hback).trans htodo.symm
  · obtain ⟨hback,_,hdirty⟩ := hs h
    rw [ho,hf]
    exact hc hback (hdirty hd)

theorem move_printed (h : Printed urls config past s) (hm : Move urls config s l t) :
    Printed urls config (past ++ [l]) t := by
  have hback : Sound urls config (past ++ [l]) t → Sound urls config past s := Sound.back hm
  cases hm with
  | entered hg | requested hg hb | connected hg | ended hg hm =>
    exact h.keep rfl rfl rfl (fun hs => ⟨hback hs,by rw [hg]; rfl,by rw [hg]; exact fun _ => rfl⟩)
  | refused hg | unconnected hg | unsized ht hc | broken hg hm | wroteNothing hg | unwritten hg
  | unflushed hg =>
    exact h.keep rfl rfl rfl (fun hs => absurd hs (not_sound rfl rfl))
  | unrequested hg hb =>
    exact h.keep rfl rfl rfl (fun hs => absurd hs (not_sound (by simp [fails,hb]) rfl))
  | turned ht hc hd he | typed ht hc => exact h.keep rfl rfl rfl (fun hs => ⟨hback hs,rfl,id⟩)
  | dropped hg =>
    exact h.keep rfl rfl rfl (fun hs => ⟨hback hs,by rw [hg]; rfl,by rw [hg]; exact fun _ => rfl⟩)
  | @took m hg hm =>
    obtain ⟨⟨rest,he,hrest⟩,hw,hc⟩ := h
    refine ⟨⟨rest ++ shown m,?_,fun hs => ?_⟩,hw,fun hs _ => hc (hback hs) (by rw [hg]; rfl)⟩
    · simp [← he]
    · rw [hrest (hback hs),hg]
      exact (handle_stage m).1.symm
  | @wrote call last count hg hk hc =>
    obtain ⟨⟨rest,he,hrest⟩,hw,_⟩ := h
    have hsound : Sound urls config past s := .inl (by rw [hg]; rfl)
    obtain rfl := hrest hsound
    refine ⟨⟨call.data.drop (call.written + count),?_,by simp⟩,?_,by simp⟩
    · rw [← he,hg,todo_writing,List.append_assoc,← List.drop_drop,List.take_append_drop]
    · simp only [List.length_append]
      omega
  | @flushed last hg =>
    obtain ⟨⟨rest,he,hrest⟩,_,_⟩ := h
    refine ⟨⟨rest,he,fun hs => ?_⟩,Nat.le_refl _,fun _ _ => rfl⟩
    rw [hrest (hback hs),hg]
    cases last <;> rfl

theorem start_printed (size : Resize) : Printed urls config [] (start size) :=
  ⟨⟨[],rfl,fun _ => rfl⟩,Nat.le_refl _,fun _ _ => rfl⟩

theorem run_printed {size : Resize} {ls : List Label}
    (hr : (system urls config size).run (start size) ls = some s) : Printed urls config ls s :=
  System.run_history (m := system urls config size) (I := Printed urls config) (start_printed size)
    (fun _ _ _ _ _ h hstep => move_printed h (step_move hstep)) hr

/-- Between two messages, and at the end, nothing is left to print. -/
theorem Printed.all (h : Printed urls config past s) (hd : s.stage.dirty = false)
    (hs : Sound urls config past s) :
    s.stdout = s.received.flatMap shown ∧ s.flushed = s.stdout.length := by
  obtain ⟨⟨rest,he,hrest⟩,_,hc⟩ := h
  refine ⟨?_,hc hs hd⟩
  have htodo : s.stage.todo = [] := by
    cases hg : s.stage with
    | running reader =>
      cases reader with
      | next | flushing last => rfl
      | writing call last => simp [hg,Stage.dirty] at hd
    | entering | resolving | connecting request | leaving r | returned r => rfl
  rw [← he,hrest hs,htodo,List.append_nil]

/-- The bytes on stdout are those of the messages, in order, from the first one on; `run` takes
no message before everything of the last one is written and flushed, and comes back with all of
it flushed unless something of its own has failed. -/
theorem stdout_shows {size : Resize} {ls : List Label}
    (hr : (system urls config size).run (start size) ls = some s) :
    s.stdout <+: s.received.flatMap shown ∧ s.flushed ≤ s.stdout.length ∧
    (s.stage.dirty = false → (s.stage.failed = false ∨ ∀ l ∈ ls, fails urls config l = false) →
      s.stdout = s.received.flatMap shown ∧ s.flushed = s.stdout.length) := by
  have h := run_printed hr
  obtain ⟨rest,he,_⟩ := h.split
  exact ⟨⟨rest,he⟩,h.within,h.all⟩

def plainConfig : Args.ClientConfig := ⟨"http://localhost",none⟩

/-- The command prints a line, in two writes on this side, and exits with code 3. -/
def shownRun : List Label :=
  [.enter (.ok ()),.request (.ok ()),.connect (.ok ()),.client .new,.client (.initial true),
   .client (.first (.ok ())),.next (some (.ok (.binary [2,104,105]))),.write (.ok 1),
   .client (.stdin (.ok [108,115])),.write (.ok 1),.flush (.ok ()),.client (.send (.ok ())),
   .next (some (.ok (.binary [4,51]))),.write (.ok 29),.flush (.ok ()),.drop (.ok ())]

theorem stdout_shows_exited :
    ∃ s, (system (Urls.standard Urls.domains fun _ => "") plainConfig ⟨80,24⟩).run (start ⟨80,24⟩) shownRun =
        some s ∧ s.stdout = [104,105] ++ exitNotice 3 ∧ s.flushed = 31 := by
  have hr : (system (Urls.standard Urls.domains fun _ => "") plainConfig ⟨80,24⟩).run (start ⟨80,24⟩)
    shownRun = some _ := rfl
  obtain ⟨hout,hflushed⟩ := (stdout_shows hr).2.2 rfl (.inl rfl)
  exact ⟨_,hr,hout.trans rfl,hflushed.trans rfl⟩

/-- No message before the last one asks `run` to come back. Where nothing fails, what the last
one asks for is what `run` comes back with; if it asks for nothing, only the end of the stream
ends the loop. -/
inductive Judged (urls : Urls.UrlType U) (config : Args.ClientConfig) (past : List Label) (s : State) :
    Prop
  | going (hall : ∀ m ∈ s.received, verdict m = none)
      (hh : (∀ l ∈ past, fails urls config l = false) →
        s.stage.heading = none ∨ s.stage.heading = some (.ok ()) ∧ .next none ∈ past) :
      Judged urls config past s
  | told (hr : s.received = before ++ [m]) (hall : ∀ k ∈ before, verdict k = none)
      (hv : verdict m = some r) (hs : s.stage.heading.isSome = true)
      (hh : (∀ l ∈ past, fails urls config l = false) → s.stage.heading = some r) :
      Judged urls config past s

theorem Judged.keep (h : Judged urls config past s) (hr : t.received = s.received)
    (hs : s.stage.heading.isSome = true → t.stage.heading.isSome = true)
    (hh : fails urls config l = false → t.stage.heading = s.stage.heading) :
    Judged urls config (past ++ [l]) t := by
  have before : (∀ k ∈ past ++ [l], fails urls config k = false) →
      (∀ k ∈ past, fails urls config k = false) ∧ t.stage.heading = s.stage.heading :=
    fun hc => ⟨fun k hk => hc k (List.mem_append_left _ hk),hh (hc l (by simp))⟩
  cases h with
  | going hall hgoing =>
    refine .going (hr ▸ hall) (fun hc => ?_)
    obtain ⟨hpast,he⟩ := before hc
    rw [he]
    exact (hgoing hpast).imp id (fun hn => ⟨hn.1,List.mem_append_left _ hn.2⟩)
  | told hrec hall hv hsome htold =>
    refine .told (hr.trans hrec) hall hv (hs hsome) (fun hc => ?_)
    obtain ⟨hpast,he⟩ := before hc
    exact he.trans (htold hpast)

/-- Between two messages nothing is settled yet. -/
theorem Judged.waiting (h : Judged urls config past s) (hg : s.stage = .running .next) :
    ∀ m ∈ s.received, verdict m = none := by
  cases h with
  | going hall hh => exact hall
  | told hrec hall hv hsome hh => simp [hg] at hsome

theorem move_judged (h : Judged urls config past s) (hm : Move urls config s l t) :
    Judged urls config (past ++ [l]) t := by
  cases hm with
  | entered hg | requested hg hb | connected hg =>
    exact h.keep rfl (by simp [hg,Stage.heading]) (fun _ => by rw [hg]; rfl)
  | refused hg | unconnected hg | broken hg hm | wroteNothing hg | unwritten hg | unflushed hg =>
    exact h.keep rfl (fun _ => rfl) (by simp [fails])
  | unsized ht hc => exact h.keep rfl (fun _ => rfl) (by simp [fails])
  | unrequested hg hb => exact h.keep rfl (fun _ => rfl) (by simp [fails,hb])
  | turned ht hc hd he | typed ht hc => exact h.keep rfl id (fun _ => rfl)
  | @took m hg hm =>
    have hall := h.waiting hg
    have hhead := (handle_stage m).2
    cases hv : verdict m with
    | none =>
      refine .going ?_ (fun _ => .inl (hhead.trans hv))
      intro k hk
      rcases List.mem_append.mp hk with hk | hk
      · exact hall k hk
      · rw [List.mem_singleton.mp hk,hv]
    | some r => exact .told rfl hall hv (by rw [hhead,hv]; rfl) (fun _ => hhead.trans hv)
  | ended hg hm => exact .going (h.waiting hg) (fun _ => .inr ⟨rfl,by simp⟩)
  | @wrote call last count hg hk hc =>
    have he : (Stage.running (writeServerOutput call.data (call.written + count) last)).heading =
        s.stage.heading := by
      rw [hg,writeServerOutput_heading]
      cases last <;> rfl
    exact h.keep rfl (fun hs => he ▸ hs) (fun _ => he)
  | @flushed last hg =>
    have he : (if last then Stage.leaving (.ok ()) else .running .next).heading = s.stage.heading := by
      rw [hg]
      cases last <;> rfl
    exact h.keep rfl (fun hs => he ▸ hs) (fun _ => he)
  | @dropped r disabled hg =>
    exact h.keep rfl (fun _ => rfl) (fun _ => by rw [hg]; rfl)

theorem run_judged {size : Resize} {ls : List Label}
    (hr : (system urls config size).run (start size) ls = some s) : Judged urls config ls s :=
  System.run_history (m := system urls config size) (I := Judged urls config)
    (.going (fun _ hm => by cases hm) (fun _ => .inl rfl))
    (fun _ _ _ _ _ h hstep => move_judged h (step_move hstep)) hr

/-- A failure ends the loop with an error. -/
theorem run_failed {size : Resize} {ls : List Label}
    (hr : (system urls config size).run (start size) ls = some s) :
    (∀ l ∈ ls, fails urls config l = false) ∨ s.stage.failed = true := by
  refine System.run_history (m := system urls config size)
    (I := fun ls s => (∀ l ∈ ls, fails urls config l = false) ∨ s.stage.failed = true)
    (.inl (fun _ hl => by cases hl)) ?_ hr
  intro past s l t _ h hstep
  have hm := step_move hstep
  rcases h with h | h
  · by_cases hl : fails urls config l = true
    · right
      cases hm with
      | refused hg | unconnected hg | unsized ht hc | broken hg hm | wroteNothing hg | unwritten hg
      | unflushed hg | unrequested hg hb => rfl
      | requested hg hb => simp [fails,hb] at hl
      | wrote hg hk hc =>
        exfalso
        revert hl
        unfold fails
        split <;> simp_all
      | turned ht hc hd he =>
        exfalso
        revert hl
        unfold fails
        split <;> simp_all
      | entered hg | connected hg | typed ht hc | took hg hm | ended hg hm | flushed hg | dropped hg =>
        simp [fails] at hl
    · left
      intro k hk
      rcases List.mem_append.mp hk with hk | hk
      · exact h k hk
      · rw [List.mem_singleton.mp hk]
        simpa using hl
  · exact .inr (failed_stays hm h)

theorem handle_guarded (m : Message) : (handle m).guarded = true := by
  cases m with
  | binary frame =>
    simp only [handle,handleServerFrame]
    split <;> rfl
  | text text | close | ping data | pong data => rfl

/-- Raw mode is on from the guard's start to its end, as far as the terminal lets it be
turned off. -/
theorem run_raw {size : Resize} {ls : List Label}
    (hr : (system urls config size).run (start size) ls = some s)
    (hd : ∀ e, .drop (.error e) ∉ ls) : s.raw = s.stage.guarded := by
  refine System.run_history (m := system urls config size)
    (I := fun ls s => (∀ e, .drop (.error e) ∉ ls) → s.raw = s.stage.guarded)
    (fun _ => rfl) ?_ hr hd
  intro past s l t _ h hstep hd
  have hraw := h (fun e he => hd e (List.mem_append_left _ he))
  cases step_move hstep with
  | entered hg => rfl
  | refused hg | requested hg hb | unrequested hg hb | connected hg | unconnected hg | broken hg hm
  | ended hg hm | wroteNothing hg | unwritten hg | wrote hg hk hc | unflushed hg =>
    rw [hg] at hraw
    exact hraw
  | turned ht hc hd he | typed ht hc => exact hraw
  | unsized ht hc =>
    have hguard : s.stage.guarded = true := by
      cases hg : s.stage <;> simp [State.turns,hg] at ht <;> rfl
    exact hraw.trans hguard
  | @took m hg hm =>
    rw [hg] at hraw
    exact hraw.trans (handle_guarded m).symm
  | @flushed last hg =>
    rw [hg] at hraw
    cases last <;> exact hraw
  | @dropped r disabled hg =>
    cases disabled with
    | ok u => rfl
    | error e => exact absurd (List.mem_append_right _ List.mem_cons_self) (hd e)

/-- How `run` comes back. It stops at the first message that asks for it; without a failure of its
own it comes back with what that message says, or without error at the end of the stream; an
error of its own is not passed over; and the terminal is as it was. -/
theorem result_told {size : Resize} {ls : List Label} {r : Except Error Unit}
    (hr : (system urls config size).run (start size) ls = some s) (hs : s.stage = .returned r) :
    (∀ pre m post, s.received = pre ++ m :: post → (verdict m).isSome = true → post = []) ∧
    ((∀ l ∈ ls, fails urls config l = false) →
      (∃ pre m, s.received = pre ++ [m] ∧ verdict m = some r) ∨
      r = .ok () ∧ .next none ∈ ls ∧ ∀ m ∈ s.received, verdict m = none) ∧
    (r = .ok () → ∀ l ∈ ls, fails urls config l = false) ∧
    ((∀ e, .drop (.error e) ∉ ls) → s.raw = false) := by
  refine ⟨?_,?_,?_,fun hd => (run_raw hr hd).trans (by rw [hs]; rfl)⟩
  · intro pre m post he hv
    cases run_judged hr with
    | going hall hh =>
      rw [hall m (by simp [he])] at hv
      cases hv
    | @told before k r' hrec hall hk hsome hh =>
      rcases List.eq_nil_or_concat post with rfl | ⟨post,g,rfl⟩
      · rfl
      · have hsplit : (pre ++ m :: post) ++ [g] = before ++ [k] := by
          rw [← hrec,he]
          simp
        have hcut := (List.append_inj' hsplit rfl).1
        rw [hall m (by simp [← hcut])] at hv
        cases hv
  · intro hc
    cases run_judged hr with
    | going hall hh =>
      rcases hh hc with hn | ⟨hok,hend⟩
      · simp [hs,Stage.heading] at hn
      · refine .inr ⟨?_,hend,hall⟩
        simpa [hs,Stage.heading] using hok
    | @told before k r' hrec hall hk hsome hh =>
      refine .inl ⟨before,k,hrec,hk.trans ?_⟩
      simpa [hs,Stage.heading,eq_comm] using hh hc
  · intro hok
    rcases run_failed hr with hc | hf
    · exact hc
    · simp [hs,hok,Stage.failed] at hf

theorem result_told_exited :
    ∃ s, (system (Urls.standard Urls.domains fun _ => "") plainConfig ⟨80,24⟩).run (start ⟨80,24⟩) shownRun =
        some s ∧ (∀ l ∈ shownRun, fails (Urls.standard Urls.domains fun _ => "") plainConfig l = false) ∧
      s.raw = false := by
  have hr : (system (Urls.standard Urls.domains fun _ => "") plainConfig ⟨80,24⟩).run (start ⟨80,24⟩)
    shownRun = some _ := rfl
  obtain ⟨_,_,hclean,hraw⟩ := result_told hr rfl
  exact ⟨_,hr,hclean rfl,hraw (by simp [shownRun])⟩

end Moves
end Terminald.Run
