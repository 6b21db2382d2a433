import Terminald.Model.Client

namespace Terminald.Client
open Machine Protocol

def sizeOf : ClientMessage → Option Resize
  | .resize size => some size
  | .input _ => none

/-- The last size the server was sent. -/
def lastSent (s : State) : Option Resize := (s.sent.filterMap sizeOf).getLast?

/-- The session is open, the initial size was sent, and no signal, no queued size and
no task with a step of its own is left. -/
structure Quiet (s : State) : Prop where
  reading : s.main = .reading
  initial : s.initial.isSome = true
  raised : s.raised = false
  notified : s.notified = false
  channel : s.channel.items = []
  events : s.events = .waiting ∨ s.events = .done
  writer : s.writer = .select ∨ s.writer = .done

/-- No size is on its way to the server, nor a signal that would bring one. -/
def State.settled (s : State) : Bool :=
  !s.raised && !s.notified && s.channel.items.isEmpty &&
    match s.events with
    | .measuring | .posting _ => false
    | _ => true

/-- The handler is there in time or sees a later signal, a size can be read, and
the writer task ends with nothing on its way, and with no change to come. -/
def inStep (s : State) : Label → Bool
  | .change _ =>
    s.main == .returned || s.writer != .done && (s.events != .done || s.initial.isNone)
  | .register true => s.raised || s.initial.isNone || s.initial == some s.size
  | .register false => s.initial.isNone || s.initial == some s.size
  | .current readable => readable || s.raised || s.notified
  | .stdin (.ok (_ :: _)) => true
  | .stdin _ => s.settled
  | .send (.error _) =>
    match s.writer with
    | .sending (.input _) => s.settled
    | _ => false
  | _ => true

section Hands

@[simp] def Main.hand : Main → List Resize
  | .sending size => [size]
  | .connected | .measuring | .reading | .returned => []

@[simp] def Writer.hand : Writer → List Resize
  | .sending message => (sizeOf message).toList
  | .unborn | .select | .done => []

@[simp] def Events.hand : Events → List Resize
  | .posting size => [size]
  | .unborn | .registering | .waiting | .measuring | .done => []

/-- The sizes sent and those on their way, in order. -/
def State.updates (s : State) : List Resize :=
  s.sent.filterMap sizeOf ++ (s.writer.hand ++ (s.main.hand ++ (s.channel.items ++ s.events.hand)))

/-- The newest size on its way is the terminal's, or `run` has yet to read it. -/
def Known (s : State) : Prop :=
  s.updates.getLast? = some s.size ∨ s.updates = [] ∧ s.initial = none

end Hands

/-- What holds of an open session that was kept in step so far. -/
structure Kept (s : State) : Prop where
  connected : s.main = .connected → s.events = .unborn
  unread : s.main = .connected ∨ s.main = .measuring → s.initial = none
  unsent : s.main ≠ .reading → s.sent = [] ∧ s.writer = .unborn
  early : s.events = .unborn ∨ s.events = .registering →
    s.updates = s.initial.toList ∧ s.notified = false
  waiting : s.events.registered = true → s.events ≠ .measuring →
    Known s ∨ s.raised = true ∨ s.notified = true
  deaf : s.events = .done → Known s ∧ (s.initial = none → s.updates = [])
  stopped : s.writer = .done → s.settled = true

/-- Everything one step can do, with the guard it comes under. -/
inductive Move (s : State) : Label → State → Prop
  | changed (hz : size ≠ s.size) : Move s (.change size) { s with size := size,raised := true }
  | delivered (hr : s.raised = true) :
      Move s .deliver { s with raised := false,notified := s.notified || s.events.registered }
  | created (hm : s.main = .connected) :
      Move s .new { s with main := .measuring,events := .registering }
  | measured (hm : s.main = .measuring) :
      Move s (.initial true) { s with main := .sending s.size,initial := some s.size }
  | unmeasured (hm : s.main = .measuring) :
      Move s (.initial false) { s with main := .reading,writer := .select }
  | firstSent (hm : s.main = .sending size) :
      Move s (.first (.ok ()))
        { s with main := .reading,writer := .select,sent := s.sent ++ [.resize size] }
  | firstFailed (hm : s.main = .sending size) : Move s (.first (.error e)) s.finish
  | registered (he : s.events = .registering) :
      Move s (.register result)
        { s with events := if result then .waiting else .done,notified := false }
  | received (he : s.events = .waiting) (hn : s.notified = true) :
      Move s .recv { s with events := .measuring,notified := false }
  | current (he : s.events = .measuring) :
      Move s (.current readable) { s with events := if readable then .posting s.size else .waiting }
  | unposted (he : s.events = .posting size) (hw : s.writer = .done) :
      Move s .post { s with events := .waiting }
  | posted (he : s.events = .posting size) (hp : s.channel.push [size] = some channel)
      (hw : s.writer ≠ .done) : Move s .post { s with channel := channel,events := .waiting }
  | exhausted (hw : s.writer = .select) : Move s (.stdin (.ok [])) s.stop
  | input (hw : s.writer = .select) (hd : data ≠ []) (hl : data.length ≤ bufferSize) :
      Move s (.stdin (.ok data)) { s with writer := .sending (.input data) }
  | stdinFailed (hw : s.writer = .select) : Move s (.stdin (.error e)) s.stop
  | taken (hw : s.writer = .select) (hc : s.channel.items = size :: rest) :
      Move s .resize { s with writer := .sending (.resize size),channel := s.channel.drop 1 }
  | sent (hw : s.writer = .sending message) :
      Move s (.send (.ok ())) { s with writer := .select,sent := s.sent ++ [message] }
  | sendFailed (hw : s.writer = .sending message) : Move s (.send (.error e)) s.stop
  | closed (hm : s.main = .reading) : Move s .close s.finish

section Steps
variable {s t : State} {l : Label}

theorem step_move (h : step s l = some t) : Move s l t := by
  cases l with
  | change size =>
    simp only [step] at h
    split at h <;> cases h
    exact .changed ‹_›
  | deliver =>
    simp only [step] at h
    split at h <;> cases h
    exact .delivered ‹_›
  | new =>
    simp only [step] at h
    split at h <;> cases h
    exact .created ‹_›
  | initial readable =>
    simp only [step] at h
    split at h
    · cases readable <;> cases h
      · exact .unmeasured ‹_›
      · exact .measured ‹_›
    · cases h
  | first result =>
    simp only [step] at h
    split at h <;> cases h
    · exact .firstSent ‹_›
    · exact .firstFailed ‹_›
  | register result =>
    simp only [step] at h
    split at h <;> cases h
    exact .registered ‹_›
  | recv =>
    simp only [step] at h
    split at h
    · split at h <;> cases h
      exact .received ‹_› ‹_›
    · cases h
  | current readable =>
    simp only [step] at h
    split at h <;> cases h
    exact .current ‹_›
  | post =>
    simp only [step] at h
    split at h
    · rename_i size he
      split at h
      · cases h
        exact .unposted he ‹_›
      · obtain ⟨channel,hp,ht⟩ := Option.map_eq_some_iff.mp h
        exact ht ▸ .posted he hp ‹_›
    · cases h
  | stdin read =>
    simp only [step] at h
    split at h
    · cases h
      exact .exhausted ‹_›
    · rename_i hd hw
      split at h <;> cases h
      exact .input hw (by simpa using hd) ‹_›
    · cases h
      exact .stdinFailed ‹_›
    · cases h
  | resize =>
    simp only [step] at h
    split at h <;> cases h
    exact .taken ‹_› ‹_›
  | send result =>
    simp only [step] at h
    split at h <;> cases h
    · exact .sent ‹_›
    · exact .sendFailed ‹_›
  | close =>
    simp only [step] at h
    split at h <;> cases h
    exact .closed ‹_›

theorem Known.same (h : Known s) (hu : t.updates = s.updates) (hz : t.size = s.size)
    (hi : t.initial = s.initial) : Known t := by
  simpa only [Known,hu,hz,hi] using h

theorem unregistered {events : Events} (h : events = .unborn ∨ events = .registering) :
    events.registered = false := by
  rcases h with rfl | rfl
  · rfl
  · rfl

/-- A size goes on from hand to hand. -/
theorem Kept.move (h : Kept s) (hu : t.updates = s.updates) (hz : t.size = s.size)
    (hi : t.initial = s.initial) (hr : t.raised = s.raised) (hn : t.notified = s.notified)
    (he : t.events = s.events) (hm : t.main = .reading) (ho : t.writer = .done → t.settled = true) :
    Kept t := by
  refine ⟨?_,?_,?_,?_,?_,?_,ho⟩
  · intro hc
    exact nomatch hm.symm.trans hc
  · intro hc
    simp [hm] at hc
  · intro hc
    exact absurd hm hc
  · intro hev
    rw [hu,hi,hn]
    exact h.early (he ▸ hev)
  · intro hreg hne
    rw [he] at hreg hne
    exact (h.waiting hreg hne).imp (fun hk => hk.same hu hz hi) (fun hp => hr ▸ hn ▸ hp)
  · intro hev
    obtain ⟨hk,hnone⟩ := h.deaf (he ▸ hev)
    rw [hu,hi]
    exact ⟨hk.same hu hz hi,hnone⟩

theorem change_kept {size : Resize} (h : Kept s) (hm : s.main ≠ .returned)
    (hc : inStep s (.change size) = true) : Kept { s with size := size,raised := true } := by
  obtain ⟨hw,he⟩ : s.writer ≠ .done ∧ (s.events ≠ .done ∨ s.initial = none) := by
    simpa [inStep,hm] using hc
  refine ⟨h.connected,h.unread,h.unsent,h.early,fun _ _ => .inr (.inl rfl),?_,fun hd => absurd hd hw⟩
  intro hd
  obtain ⟨_,hnone⟩ := h.deaf hd
  have hi := he.resolve_left (fun hn => hn hd)
  exact ⟨.inr ⟨hnone hi,hi⟩,hnone⟩

theorem deliver_kept (h : Kept s) (hr : s.raised = true) :
    Kept { s with raised := false,notified := s.notified || s.events.registered } := by
  refine ⟨h.connected,h.unread,h.unsent,?_,?_,h.deaf,?_⟩
  · intro he
    obtain ⟨hu,hn⟩ := h.early he
    have hreg : s.events.registered = false := unregistered he
    exact ⟨hu,by simp [hn,hreg]⟩
  · intro hreg _
    have hreg : s.events.registered = true := hreg
    exact .inr (.inr (by simp [hreg]))
  · intro hd
    have hs := h.stopped hd
    simp [State.settled,hr] at hs

theorem new_kept (h : Kept s) (hm : s.main = .connected) :
    Kept { s with main := .measuring,events := .registering } := by
  have he := h.connected hm
  have hi := h.unread (.inl hm)
  obtain ⟨hsent,hw⟩ := h.unsent (by simp [hm])
  obtain ⟨hu,hn⟩ := h.early (.inl he)
  refine ⟨nofun,fun _ => hi,fun _ => ⟨hsent,hw⟩,fun _ => ⟨?_,hn⟩,nofun,nofun,?_⟩
  · simpa [State.updates,hm,he] using hu
  · intro hd
    exact nomatch hw.symm.trans hd

/-- `run` reads the size, which goes in front of what the other task may have read. -/
theorem measured_kept (h : Kept s) (hm : s.main = .measuring) :
    Kept { s with main := .sending s.size,initial := some s.size } := by
  have hi := h.unread (.inr hm)
  obtain ⟨hsent,hw⟩ := h.unsent (by simp [hm])
  have hu' : State.updates { s with main := .sending s.size,initial := some s.size } =
      s.size :: s.updates := by
    simp [State.updates,hsent,hw,hm]
  have known : Known s → Known { s with main := .sending s.size,initial := some s.size } := by
    intro hk
    refine .inl ?_
    rw [hu',List.getLast?_cons]
    rcases hk with hk | ⟨hk,_⟩ <;> simp [hk]
  refine ⟨nofun,nofun,fun _ => ⟨hsent,hw⟩,?_,?_,?_,h.stopped⟩
  · intro he
    obtain ⟨hup,hn⟩ := h.early he
    rw [hi] at hup
    rw [hu',hup]
    exact ⟨rfl,hn⟩
  · intro hreg hne
    exact (h.waiting hreg hne).imp known id
  · intro hd
    exact ⟨known (h.deaf hd).1,nofun⟩

theorem unmeasured_kept (h : Kept s) (hm : s.main = .measuring) :
    Kept { s with main := .reading,writer := .select } := by
  have hw := (h.unsent (by simp [hm])).2
  apply h.move
  · simp [State.updates,hm,hw]
  all_goals first | rfl | exact nofun

theorem first_kept {size : Resize} (h : Kept s) (hm : s.main = .sending size) :
    Kept { s with main := .reading,writer := .select,sent := s.sent ++ [.resize size] } := by
  have hw := (h.unsent (by simp [hm])).2
  apply h.move
  · simp [State.updates,hm,hw,sizeOf]
  all_goals first | rfl | exact nofun

theorem register_kept {result : Bool} (h : Kept s) (he : s.events = .registering)
    (hc : inStep s (.register result) = true) :
    Kept { s with events := if result then .waiting else .done,notified := false } := by
  obtain ⟨hup,_⟩ := h.early (.inr he)
  have hsame : ∀ result : Bool, State.updates { s with
      events := if result then .waiting else .done,notified := false } = s.updates := by
    intro result
    cases result <;> simp [State.updates,he]
  have known : ∀ result : Bool, s.initial = none ∨ s.initial = some s.size →
      Known { s with events := if result then .waiting else .done,notified := false } := by
    intro result hi
    rcases hi with hi | hi
    · exact .inr ⟨by rw [hsame,hup,hi]; rfl,hi⟩
    · exact .inl (by rw [hsame,hup,hi]; rfl)
  have settled : ∀ result : Bool, s.writer = .done →
      State.settled { s with events := if result then .waiting else .done,notified := false } = true := by
    intro result hd
    have hs := h.stopped hd
    cases result <;> simp_all [State.settled]
  have hconn : s.main ≠ .connected := by
    intro hm
    exact nomatch (h.connected hm).symm.trans he
  cases result with
  | true =>
    refine ⟨fun hm => absurd hm hconn,h.unread,h.unsent,nofun,?_,nofun,settled true⟩
    intro _ _
    by_cases hr : s.raised = true
    · exact .inr (.inl hr)
    · exact .inl (known true (by simpa [inStep,hr] using hc))
  | false =>
    refine ⟨fun hm => absurd hm hconn,h.unread,h.unsent,nofun,nofun,?_,settled false⟩
    intro _
    refine ⟨known false (by simpa [inStep] using hc),?_⟩
    intro hi
    rw [hsame,hup,show s.initial = none from hi]
    rfl

theorem recv_kept (h : Kept s) (he : s.events = .waiting) (hn : s.notified = true) :
    Kept { s with events := .measuring,notified := false } := by
  refine ⟨?_,h.unread,h.unsent,nofun,fun _ hne => absurd rfl hne,nofun,?_⟩
  · intro hm
    exact nomatch (h.connected hm).symm.trans he
  · intro hd
    have hs := h.stopped hd
    simp [State.settled,hn] at hs

theorem current_kept {readable : Bool} (h : Kept s) (he : s.events = .measuring)
    (hc : inStep s (.current readable) = true) :
    Kept { s with events := if readable then .posting s.size else .waiting } := by
  have hconn : s.main ≠ .connected := by
    intro hm
    exact nomatch (h.connected hm).symm.trans he
  have hw : s.writer ≠ .done := by
    intro hd
    have hs := h.stopped hd
    simp [State.settled,he] at hs
  cases readable with
  | true =>
    refine ⟨fun hm => absurd hm hconn,h.unread,h.unsent,nofun,?_,nofun,fun hd => absurd hd hw⟩
    intro _ _
    refine .inl (.inl ?_)
    simp [State.updates,← List.append_assoc]
  | false =>
    refine ⟨fun hm => absurd hm hconn,h.unread,h.unsent,nofun,?_,nofun,fun hd => absurd hd hw⟩
    intro _ _
    exact .inr (by simpa [inStep] using hc)

theorem posted_kept {size : Resize} {channel : Queue Resize channelCapacity} (h : Kept s)
    (he : s.events = .posting size) (hp : s.channel.push [size] = some channel) :
    Kept { s with channel := channel,events := .waiting } := by
  have hu : State.updates { s with channel := channel,events := .waiting } = s.updates := by
    simp [State.updates,he,Queue.push_items hp]
  have hw : s.writer ≠ .done := by
    intro hd
    have hs := h.stopped hd
    simp [State.settled,he] at hs
  refine ⟨?_,h.unread,h.unsent,nofun,?_,nofun,fun hd => absurd hd hw⟩
  · intro hm
    exact nomatch (h.connected hm).symm.trans he
  · intro _ _
    have hwait := h.waiting (by simp [he,Events.registered]) (by simp [he])
    exact hwait.imp (fun hk => hk.same hu rfl rfl) id

/-- A writer task that is at work has `run` reading. -/
theorem writing_reading (h : Kept s) (hw : s.writer ≠ .unborn) : s.main = .reading := by
  by_contra hm
  exact hw (h.unsent hm).2

/-- The writer task hands a size on. -/
theorem Kept.write {writer : Writer} {channel : Queue Resize channelCapacity}
    {sent : List ClientMessage} (h : Kept s) (hw : s.writer ≠ .unborn)
    (hu : State.updates { s with writer := writer,channel := channel,sent := sent } = s.updates)
    (hd : writer = .done → State.settled { s with channel := channel } = true) :
    Kept { s with writer := writer,channel := channel,sent := sent } := by
  have hm := writing_reading h hw
  exact h.move hu rfl rfl rfl rfl rfl hm hd

theorem stop_kept (h : Kept s) (hw : s.writer ≠ .unborn) (hh : s.writer.hand = [])
    (hs : s.settled = true) : Kept s.stop := by
  have hch : s.channel.items = [] := by
    simp only [State.settled,Bool.and_eq_true,List.isEmpty_iff] at hs
    exact hs.1.2
  apply h.write hw
  · simp only [State.updates,hh,hch]
    rfl
  · intro _
    simpa [State.settled,hch] using hs

theorem input_kept {data : Bytes} (h : Kept s) (hw : s.writer = .select) :
    Kept { s with writer := .sending (.input data) } := by
  apply h.write (by simp [hw])
  · simp [State.updates,hw,sizeOf]
  · exact nofun

theorem taken_kept {size : Resize} {rest : List Resize} (h : Kept s) (hw : s.writer = .select)
    (hch : s.channel.items = size :: rest) :
    Kept { s with writer := .sending (.resize size),channel := s.channel.drop 1 } := by
  have hm := writing_reading h (by simp [hw])
  apply h.write (by simp [hw])
  · simp [State.updates,hw,hm,hch,sizeOf]
  · exact nofun

theorem sent_kept {message : ClientMessage} (h : Kept s) (hw : s.writer = .sending message) :
    Kept { s with writer := .select,sent := s.sent ++ [message] } := by
  apply h.write (by simp [hw])
  · cases hs : sizeOf message <;> simp [State.updates,hw,hs]
  · exact nofun

/-- Each step that meets the condition keeps the sizes in step, or ends the session. -/
theorem step_kept (h : Kept s) (hm : s.main ≠ .returned) (hc : inStep s l = true)
    (hstep : step s l = some t) : t.main = .returned ∨ Kept t := by
  cases step_move hstep with
  | changed hz => exact .inr (change_kept h hm hc)
  | delivered hr => exact .inr (deliver_kept h hr)
  | created hm => exact .inr (new_kept h hm)
  | measured hm => exact .inr (measured_kept h hm)
  | unmeasured hm => exact .inr (unmeasured_kept h hm)
  | firstSent hm => exact .inr (first_kept h hm)
  | firstFailed hm | closed hm => exact .inl rfl
  | registered he => exact .inr (register_kept h he hc)
  | received he hn => exact .inr (recv_kept h he hn)
  | current he => exact .inr (current_kept h he hc)
  | unposted he hw =>
    have hs := h.stopped hw
    simp [State.settled,he] at hs
  | posted he hp hw => exact .inr (posted_kept h he hp)
  | exhausted hw | stdinFailed hw =>
    have hs : s.settled = true := by simpa [inStep] using hc
    exact .inr (stop_kept h (by simp [hw]) (by simp [hw]) hs)
  | input hw hd hl => exact .inr (input_kept h hw)
  | taken hw hch => exact .inr (taken_kept h hw hch)
  | sent hw => exact .inr (sent_kept h hw)
  | @sendFailed message _ hw =>
    cases message with
    | resize size => simp [inStep,hw] at hc
    | input data =>
      have hs : s.settled = true := by simpa [inStep,hw] using hc
      exact .inr (stop_kept h (by simp [hw]) (by simp [hw,sizeOf]) hs)

theorem start_kept (size : Resize) : Kept (start size) :=
  ⟨fun _ => rfl,fun _ => rfl,fun _ => ⟨rfl,rfl⟩,fun _ => ⟨rfl,rfl⟩,nofun,nofun,nofun⟩

theorem returned_stays (hm : s.main = .returned) (hstep : step s l = some t) :
    t.main = .returned := by
  cases step_move hstep with
  | created h | measured h | unmeasured h | firstSent h | firstFailed h | closed h =>
    cases hm.symm.trans h
  | changed hz | delivered hr => exact hm
  | registered he | received he hn | current he | unposted he hw | posted he hp hw => exact hm
  | exhausted hw | input hw hd hl | stdinFailed hw | taken hw hch | sent hw | sendFailed hw => exact hm

theorem reachable_kept {size : Resize} (hr : ((system size).only inStep).Reachable s) :
    s.main = .returned ∨ Kept s := by
  apply hr.invariant (I := fun s => s.main = .returned ∨ Kept s)
  · exact .inr (start_kept size)
  · intro s l t _ h hl
    obtain ⟨hc,hstep⟩ := System.only_step.mp hl
    by_cases hm : s.main = .returned
    · exact .inl (returned_stays hm hstep)
    · exact step_kept (h.resolve_left hm) hm hc hstep

end Steps

/-- In a run whose steps all meet the condition the last size sent is the terminal's
whenever nothing is left to do. -/
theorem window_kept {size : Resize} {s : State} (hr : ((system size).only inStep).Reachable s)
    (hq : Quiet s) : lastSent s = some s.size := by
  have h : Kept s := by
    apply (reachable_kept hr).resolve_left
    rw [hq.reading]
    exact nofun
  have hu : s.updates = s.sent.filterMap sizeOf := by
    have hw : s.writer.hand = [] := by rcases hq.writer with hw | hw <;> rw [hw] <;> rfl
    have he : s.events.hand = [] := by rcases hq.events with he | he <;> rw [he] <;> rfl
    simp only [State.updates,hw,he,hq.channel,hq.reading,Main.hand,List.append_nil]
  have hk : Known s := by
    rcases hq.events with he | he
    · have hwait := h.waiting (by rw [he]; rfl) (by rw [he]; exact nofun)
      simpa [hq.raised,hq.notified] using hwait
    · exact (h.deaf he).1
  rcases hk with hk | ⟨_,hi⟩
  · rw [lastSent,← hu,hk]
  · have hsome := hq.initial
    simp [hi] at hsome

/-- The window changes when the handler is there. -/
def grownRun : List Label :=
  [.new,.register true,.initial true,.first (.ok ()),.stdin (.ok [108,115]),.change ⟨100,40⟩,
   .deliver,.recv,.send (.ok ()),.current true,.post,.resize,.send (.ok ())]

theorem window_kept_grown :
    ∃ s, ((system ⟨80,24⟩).only inStep).Reachable s ∧ lastSent s = some ⟨100,40⟩ := by
  have hr := System.reachable_end (m := (system ⟨80,24⟩).only inStep) grownRun rfl
  exact ⟨_,hr,window_kept hr ⟨rfl,rfl,rfl,rfl,rfl,.inl rfl,.inl rfl⟩⟩

/-- The window changes after `run` has read its size and before the handler is there. -/
def missedRun : List Label :=
  [.new,.initial true,.first (.ok ()),.change ⟨100,40⟩,.deliver,.register true]

theorem window_missed :
    ¬∀ (size : Resize) (s : State), (system size).Reachable s → Quiet s →
      lastSent s = some s.size := by
  intro h
  have hr := System.reachable_end (m := system ⟨80,24⟩) missedRun rfl
  have hlast := h ⟨80,24⟩ _ hr ⟨rfl,rfl,rfl,rfl,rfl,.inl rfl,.inl rfl⟩
  have hsizes : some (⟨80,24⟩ : Resize) = some ⟨100,40⟩ := hlast
  exact absurd hsizes (by decide)

end Terminald.Client
