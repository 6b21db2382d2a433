import Terminald.Proofs.Live

namespace Terminald.Live
open Machine Protocol Session

variable {k : Caps} {s t : State k}

/-- The driver waits to write, the reader to post, the child to write, all for
somebody else in this list. -/
structure AllBlocked (s : State k) : Prop where
  driver : ∃ call, s.session.driver = .writing call
  input : s.input.room = 0
  reader : ∃ m, s.session.reader = .posting m
  channel : s.session.channel.room = 0
  child : s.copying ≠ []
  output : s.output.room = 0

def posting : Reader → Nat
  | .posting _ => 1
  | _ => 0

/-- How many more reads the reader can make while the driver takes no message. -/
def State.readsLeft (s : State k) : Nat :=
  s.session.channel.room + 1 - posting s.session.reader

/-- How many bytes the child can certainly write while the driver takes no
message, each read taking one byte at least. -/
def State.behind (s : State k) : Nat := s.output.room + s.readsLeft

/-- An input of this many bytes finds room, the child's hands included. -/
def State.RoomFor (s : State k) (size : Nat) : Prop :=
  size + s.input.items.length ≤ k.input + (s.behind + 1 - s.copying.length)

instance (s : State k) (size : Nat) : Decidable (s.RoomFor size) :=
  inferInstanceAs (Decidable (_ ≤ _))

/-- The client message taken is no longer than there is room for. -/
def fits (s : State k) : Label → Bool
  | .receive => s.pending.head?.all (fun data => decide (s.RoomFor data.length))
  | _ => true

def State.left (s : State k) : Nat := (unwritten s.session.driver).length

section Levels

@[simp] theorem posting_reading : posting .reading = 0 := rfl
@[simp] theorem posting_posting (m : ServerMessage) : posting (.posting m) = 1 := rfl

theorem room_push {α : Type*} {cap : Nat} {q r : Queue α cap} {xs : List α}
    (h : q.push xs = some r) : r.room + xs.length = q.room := by
  have := r.bound
  simp only [Queue.push_items h,List.length_append] at this
  simp only [Queue.room,Queue.push_items h,List.length_append]
  omega

theorem room_drop {α : Type*} {cap : Nat} (q : Queue α cap) {n : Nat} (h : n ≤ q.items.length) :
    (q.drop n).room = q.room + n := by
  have := q.bound
  simp only [Queue.room,Queue.drop_items,List.length_drop]
  omega

end Levels

/-- What the driver has in hand and what waits in the input queue finds room. -/
theorem move_room {l : Label} (h : s.RoomFor s.left)
    (hf : fits s l = true) (hm : Move s l t) : t.RoomFor t.left := by
  simp only [State.RoomFor,State.behind,State.readsLeft,State.left] at h ⊢
  cases hm with
  | spawned hd | took hd hi | sent hd =>
    have hin := s.input.bound
    simp only [unwritten_select,unwritten_sending,List.length_nil]
    omega
  | @received data rest hd hp =>
    have hroom : s.RoomFor data.length := by simpa [fits,hp] using hf
    simpa [State.RoomFor,State.behind,State.readsLeft] using hroom
  | @wrote call count input hd hpos hk hi =>
    simp [hd,Queue.push_items hi] at h ⊢
    omega
  | read hr hpos ho hb =>
    simp [hr,room_drop _ ho] at h ⊢
    omega
  | @posted d channel hr hp =>
    have hroom : channel.room + 1 = s.session.channel.room := room_push hp
    simp only [hr,posting_posting,posting_reading] at h ⊢
    omega
  | childRead he hpos hi =>
    simp [he] at h ⊢
    omega
  | @childWrite count output hpos hk ho =>
    have hroom := room_push ho
    simp only [List.length_take,List.length_drop] at hroom ⊢
    omega

theorem blocked_no_room (h : AllBlocked s) : ¬s.RoomFor s.left := by
  obtain ⟨call,hd⟩ := h.driver
  obtain ⟨m,hr⟩ := h.reader
  have hchild := List.length_pos_iff.mpr h.child
  have hunwritten := call.unfinished
  have hin := h.input
  simp only [Queue.room] at hin
  simp [State.RoomFor,State.behind,State.readsLeft,State.left,hd,hr,h.channel,h.output]
  omega

theorem only_room {json : Json} {messages : List Bytes}
    (hr : ((system k json messages).only fits).Reachable s) : s.RoomFor s.left := by
  apply hr.invariant (I := fun s => s.RoomFor s.left)
  · simp [system,System.only,start,Session.start,State.RoomFor,State.left]
  · intro s l t hr h hstep
    obtain ⟨hf,hstep⟩ := System.only_step.mp hstep
    have hc := reachable_calm hr.unrestrict
    exact move_room h hf (step_move hc hstep)

/-- The moves of one byte, or of one message into the channel. -/
def oneByte : List Label := [.write 1,.read 1,.post,.childRead 1,.childWrite 1]

theorem push_room {α : Type*} {cap : Nat} {q : Queue α cap} (x : α) (h : 0 < q.room) :
    ∃ r, q.push [x] = some r := by
  refine Option.isSome_iff_exists.mp (Queue.push_isSome.mpr ?_)
  simp only [Queue.room,List.length_singleton] at h ⊢
  omega

/-- Where the driver's surroundings cannot move, each of them waits for the next. -/
theorem inner_move (hc : Calm s.session) (hs : s.session.driver ≠ .spawning) :
    (∃ l ∈ oneByte, ∃ t, Move s l t) ∨
      (s.copying = [] → s.input.items = []) ∧ (s.copying ≠ [] → s.output.room = 0) ∧
      (s.session.reader = .reading ∧ s.output.items = [] ∨
        (∃ d, s.session.reader = .posting (.output d)) ∧ s.session.channel.room = 0) := by
  by_cases hr : s.copying = [] ∧ s.input.items ≠ []
  · exact .inl ⟨.childRead 1,by simp [oneByte],_,
      .childRead hr.1 Nat.one_pos (List.length_pos_iff.mpr hr.2)⟩
  by_cases hw : s.copying ≠ [] ∧ 0 < s.output.room
  · obtain ⟨b,rest,hb⟩ := List.exists_cons_of_ne_nil hw.1
    obtain ⟨q,hq⟩ := push_room b hw.2
    exact .inl ⟨.childWrite 1,by simp [oneByte],_,
      .childWrite Nat.one_pos (List.length_pos_iff.mpr hw.1) (by simpa [hb] using hq)⟩
  have hchild : (s.copying = [] → s.input.items = []) ∧ (s.copying ≠ [] → s.output.room = 0) :=
    ⟨by simpa using hr,fun he => by simpa using not_and.mp hw he⟩
  rcases hc.reader.resolve_left hs with hread | ⟨d,hpost⟩
  · by_cases ho : s.output.items = []
    · exact .inr ⟨hchild.1,hchild.2,.inl ⟨hread,ho⟩⟩
    · exact .inl ⟨.read 1,by simp [oneByte],_,
        .read hread Nat.one_pos (List.length_pos_iff.mpr ho) (by decide)⟩
  · by_cases hq : s.session.channel.room = 0
    · exact .inr ⟨hchild.1,hchild.2,.inr ⟨⟨d,hpost⟩,hq⟩⟩
    · obtain ⟨c,hpush⟩ := push_room (.output d) (Nat.pos_of_ne_zero hq)
      exact .inl ⟨.post,by simp [oneByte],_,.posted hpost hpush⟩

theorem empty_room {α : Type*} {cap : Nat} {q : Queue α cap} (h : q.items = []) : q.room = cap := by
  simp [Queue.room,h]

theorem full_items {α : Type*} {cap : Nat} {q : Queue α cap} (hcap : 0 < cap) (h : q.room = 0) :
    q.items ≠ [] := by
  intro he
  rw [empty_room he] at h
  omega

/-- While the driver writes, a byte moves on or everything is blocked. -/
theorem writing_move (hc : Calm s.session) (hd : s.session.driver = .writing call) :
    AllBlocked s ∨ ∃ l ∈ oneByte, ∃ t, Move s l t := by
  by_cases hroom : s.input.room = 0
  · rcases inner_move hc (by simp [hd]) with hm | ⟨hempty,hfull,hreader⟩
    · exact .inr hm
    · have hchild : s.copying ≠ [] := fun he => full_items k.input_pos hroom (hempty he)
      have hout := hfull hchild
      rcases hreader with ⟨_,he⟩ | ⟨⟨d,hr⟩,hch⟩
      · exact absurd he (full_items k.output_pos hout)
      · exact .inl ⟨⟨call,hd⟩,hroom,⟨_,hr⟩,hch,hchild,hout⟩
  · have hpos := call.unfinished
    obtain ⟨b,rest,hb⟩ := List.exists_cons_of_ne_nil
      (List.length_pos_iff.mp (by simp only [List.length_drop]; omega : 0 < (call.data.drop call.written).length))
    obtain ⟨q,hq⟩ := push_room b (Nat.pos_of_ne_zero hroom)
    exact .inr ⟨.write 1,by simp [oneByte],_,
      .wrote hd Nat.one_pos (Nat.succ_le_of_lt hpos) (by simpa [hb] using hq)⟩

/-- Where nothing is blocked a party can move, until every input byte has come
back to the client. -/
theorem some_move (hc : Calm s.session) (hb : ¬AllBlocked s)
    (hu : outputSent s.session.sent ≠ s.stream) : ∃ l t, Move s l t := by
  rcases hc.driver with hd | hd | ⟨d,hd⟩ | ⟨call,hd⟩
  · exact ⟨_,_,.spawned hd⟩
  · cases hp : s.pending with
    | cons data rest => exact ⟨_,_,.received hd hp⟩
    | nil =>
      cases hq : s.session.channel.items with
      | cons m rest =>
        obtain ⟨d,rfl⟩ := hc.channel m (by simp [hq])
        exact ⟨_,_,.took hd hq⟩
      | nil =>
        rcases inner_move hc (by simp [hd]) with ⟨l,_,hm⟩ | ⟨hempty,hfull,hreader⟩
        · exact ⟨l,hm⟩
        · rcases hreader with ⟨hr,ho⟩ | ⟨_,hch⟩
          · have hchild : s.copying = [] := by
              by_contra hn
              exact full_items k.output_pos (hfull hn) ho
            exact absurd (by simp [State.stream,inFlight,hd,hp,hq,hr,ho,hchild,hempty hchild]) hu
          · exact absurd hq (full_items (by decide) hch)
  · exact ⟨_,_,.sent hd⟩
  · obtain ⟨l,_,hm⟩ := (writing_move hc hd).resolve_left hb
    exact ⟨l,hm⟩

/-- A blocked state is one the session never leaves. -/
theorem blocked_stuck {json : Json} {messages : List Bytes} (hc : Calm s.session)
    (h : AllBlocked s) : (system k json messages).Stuck s := by
  obtain ⟨call,hd⟩ := h.driver
  obtain ⟨m,hr⟩ := h.reader
  intro l
  rw [Option.eq_none_iff_forall_ne_some]
  intro t hstep
  cases step_move hc hstep with
  | spawned hd' | took hd' hi | sent hd' | received hd' hp => simp [hd] at hd'
  | wrote hd' hpos hk hi =>
    have hroom := room_push hi
    simp only [List.length_take,List.length_drop,h.input] at hroom
    omega
  | read hr' hpos ho hb => simp [hr] at hr'
  | posted hr' hp =>
    have hroom := room_push hp
    simp [h.channel] at hroom
  | childRead he hpos hi => exact h.child he
  | childWrite hpos hk ho =>
    have hroom := room_push ho
    simp only [List.length_take,h.output] at hroom
    omega

/-- How far the bytes still have to go, a place a step. -/
def State.distance (s : State k) : Nat :=
  5 * s.left + 4 * s.input.items.length + 3 * s.copying.length + 2 * s.output.items.length +
    posting s.session.reader

/-- A move of one byte makes no room. -/
theorem crowded_move {l : Label} (hm : Move s l t) (hl : l ∈ oneByte) (h : ¬s.RoomFor s.left) :
    ¬t.RoomFor t.left ∧ t.distance < s.distance := by
  simp only [State.RoomFor,State.behind,State.readsLeft,State.left,State.distance] at h ⊢
  cases hm with
  | spawned hd | took hd hi | sent hd | received hd hp => simp [oneByte] at hl
  | wrote hd hpos hk hi =>
    obtain rfl : _ = 1 := by simpa [oneByte] using hl
    simp [hd,Queue.push_items hi] at h ⊢
    omega
  | read hr hpos ho hb =>
    obtain rfl : _ = 1 := by simpa [oneByte] using hl
    have := s.output.bound
    simp [hr,room_drop _ ho] at h ⊢
    omega
  | @posted d channel hr hp =>
    have hroom : channel.room + 1 = s.session.channel.room := room_push hp
    simp only [hr,posting_posting,posting_reading] at h ⊢
    omega
  | childRead he hpos hi =>
    obtain rfl : _ = 1 := by simpa [oneByte] using hl
    simp [he] at h ⊢
    omega
  | @childWrite count output hpos hk ho =>
    obtain rfl : _ = 1 := by simpa [oneByte] using hl
    have hroom := room_push ho
    simp only [Queue.push_items ho,List.length_append,List.length_take,List.length_drop] at hroom h ⊢
    omega

theorem crowded_writing (h : ¬s.RoomFor s.left) : ∃ call, s.session.driver = .writing call := by
  have hin := s.input.bound
  cases hd : s.session.driver with
  | writing call => exact ⟨call,rfl⟩
  | _ =>
    simp only [State.RoomFor,State.left,hd,unwritten,List.length_nil] at h
    omega

/-- An input there is no room for blocks everything, if every read is short. -/
theorem crowded_blocks {json : Json} {messages : List Bytes} (hc : Calm s.session)
    (h : ¬s.RoomFor s.left) :
    ∃ ls u, (system k json messages).run s ls = some u ∧ Calm u.session ∧ AllBlocked u := by
  induction hn : s.distance using Nat.strongRecOn generalizing s with
  | ind n ih =>
    obtain ⟨call,hd⟩ := crowded_writing h
    rcases writing_move hc hd with hb | ⟨l,hl,t,hm⟩
    · exact ⟨[],s,rfl,hc,hb⟩
    · obtain ⟨ht,hlt⟩ := crowded_move hm hl h
      obtain ⟨ls,u,hrun,hcu,hu⟩ := ih t.distance (hn ▸ hlt) (move_calm json hc hm) ht rfl
      refine ⟨l :: ls,u,?_,hcu,hu⟩
      have hstep : (system k json messages).step s l = some t := move_step hc hm
      simp [System.run_cons,hstep,hrun]

theorem unfit_crowded {l : Label} (hm : Move s l t) (hf : fits s l = false) :
    ¬t.RoomFor t.left := by
  cases hm with
  | @received data rest hd hp =>
    have hroom : ¬s.RoomFor data.length := by simpa [fits,hp] using hf
    simpa [State.RoomFor,State.behind,State.readsLeft,State.left] using hroom
  | _ => simp [fits] at hf

theorem unfit_blocks {json : Json} {messages : List Bytes} {l : Label}
    (hr : (system k json messages).Reachable s) (hstep : step json s l = some t)
    (hf : fits s l = false) : ∃ ls u, (system k json messages).run t ls = some u ∧
      AllBlocked u ∧ (system k json messages).Stuck u := by
  have hc := reachable_calm hr
  have hm := step_move hc hstep
  obtain ⟨ls,u,hrun,hcu,hu⟩ := crowded_blocks (move_calm json hc hm) (unfit_crowded hm hf)
  exact ⟨ls,u,hrun,hu,blocked_stuck hcu hu⟩

/-- The session with its child just spawned. -/
def fresh (k : Caps) (messages : List Bytes) : State k :=
  { start k messages with session := { Session.start with
    driver := .select,reader := .reading,process := some (.spawned 1) } }

theorem fresh_reachable (json : Json) (messages : List Bytes) :
    (system k json messages).Reachable (fresh k messages) :=
  (System.reachable_start _).step
    (move_step (reachable_calm (System.reachable_start (system k json messages))) (.spawned rfl))

/-- A first message longer than everything that lies between the driver and
itself can block the session. -/
theorem long_input_blocks (json : Json) (data : Bytes)
    (h : k.input + k.output + 34 < data.length) :
    ∃ u, (system k json [data]).Reachable u ∧ AllBlocked u := by
  have hr := fresh_reachable (k := k) json [data]
  obtain ⟨t,hstep⟩ : ∃ t, step json (fresh k [data]) .receive = some t :=
    ⟨_,move_step (reachable_calm hr) (.received rfl rfl)⟩
  have hroom : ¬(fresh k [data]).RoomFor data.length := by
    simp [fresh,start,State.RoomFor,State.behind,State.readsLeft,Queue.room,Session.start,
      channelCapacity]
    omega
  obtain ⟨ls,u,hrun,hb,_⟩ := unfit_blocks hr hstep (decide_eq_false hroom)
  have ht : (system k json [data]).Reachable t := hr.step (l := .receive) hstep
  exact ⟨u,ht.run hrun,hb⟩

/-- While every input taken finds room nothing is blocked, and a party can move
until all input has come back to the client. After each one that finds no room
everything may be blocked for good. -/
theorem live_progress_iff (k : Caps) (json : Json) (messages : List Bytes) :
    (∀ s, ((system k json messages).only fits).Reachable s → ¬AllBlocked s ∧
      (outputSent s.session.sent ≠ messages.flatten → ∃ l t, step json s l = some t)) ∧
    (∀ s l t, (system k json messages).Reachable s → step json s l = some t → fits s l = false →
      ∃ ls u, (system k json messages).run t ls = some u ∧
        AllBlocked u ∧ (system k json messages).Stuck u) := by
  refine ⟨?_,fun s l t hr hstep hf => unfit_blocks hr hstep hf⟩
  intro s hr
  have hb : ¬AllBlocked s := fun h => blocked_no_room h (only_room hr)
  refine ⟨hb,fun hu => ?_⟩
  have hc := reachable_calm hr.unrestrict
  rw [← reachable_stream hr.unrestrict] at hu
  obtain ⟨l,t,hm⟩ := some_move hc hb hu
  exact ⟨l,t,move_step hc hm⟩

/-- The queues of a usual kernel, each a page. -/
def page : Caps := ⟨4096,4096,by decide,by decide⟩

/-- One pasted message too long for both queues, the channel and all hands. -/
def paste : Bytes := List.replicate 8227 97

theorem live_progress_short :
    ∃ s, ((system page ⟨fun _ => .error "",fun _ => .error ""⟩ [[97]]).only fits).Reachable s ∧
      outputSent s.session.sent = [] ∧
      ∃ l t, step ⟨fun _ => .error "",fun _ => .error ""⟩ s l = some t := by
  have hr := System.reachable_end
    (m := (system page ⟨fun _ => .error "",fun _ => .error ""⟩ [[97]]).only fits)
    [.spawn,.receive,.write 1] rfl
  exact ⟨_,hr,rfl,((live_progress_iff _ _ _).1 _ hr).2 (by decide)⟩

theorem live_blocked_paste :
    ¬∀ (k : Caps) (json : Json) (messages : List Bytes) s,
      (system k json messages).Reachable s → ¬AllBlocked s := by
  intro h
  have hlong : page.input + page.output + 34 < paste.length := by
    rw [paste,List.length_replicate]
    decide
  obtain ⟨u,hr,hb⟩ := long_input_blocks ⟨fun _ => .error "",fun _ => .error ""⟩ paste hlong
  exact h _ _ _ u hr hb

end Terminald.Live
