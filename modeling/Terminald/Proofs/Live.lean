import Terminald.Model.Live
import Terminald.Proofs.Output

namespace Terminald.Live
open Machine Protocol Session

variable {k : Caps} {s t : State k}

/-- Nothing but output goes through the session, and its driver goes on. -/
structure Calm (s : Session.State) : Prop where
  spawning : s.driver = .spawning → s = Session.start
  driver : s.driver = .spawning ∨ s.driver = .select ∨ (∃ d, s.driver = .sending (.output d)) ∨
    ∃ call, s.driver = .writing call
  reader : s.driver = .spawning ∨ s.reader = .reading ∨ ∃ d, s.reader = .posting (.output d)
  channel : ∀ m ∈ s.channel.items, ∃ d, m = .output d
  rxOpen : s.rxOpen = true

/-- Everything one step can do, with the guard it is taken under. -/
inductive Move (s : State k) : Label → State k → Prop
  | spawned (hd : s.session.driver = .spawning) :
      Move s .spawn { s with session := { s.session with
        driver := .select,reader := .reading,process := some (.spawned 1) } }
  | took (hd : s.session.driver = .select) (hc : s.session.channel.items = .output d :: rest) :
      Move s .recv { s with session := { s.session with
        driver := .sending (.output d),channel := s.session.channel.drop 1 } }
  | received (hd : s.session.driver = .select) (hp : s.pending = data :: rest) :
      Move s .receive { s with pending := rest,session := { s.session with
        driver := writeAll data 0,
        received := s.session.received ++ [.binary (clientInput :: data)] } }
  | wrote (hd : s.session.driver = .writing call) (hc : 0 < count)
      (hk : call.written + count ≤ call.data.length)
      (hi : s.input.push ((call.data.drop call.written).take count) = some input) :
      Move s (.write count) { s with input := input,session := { s.session with
        driver := writeAll call.data (call.written + count),
        ops := s.session.ops ++ ((call.data.drop call.written).take count).map .byte } }
  | sent (hd : s.session.driver = .sending (.output d)) :
      Move s .send { s with session := { s.session with
        driver := .select,sent := s.session.sent ++ [.queued (.output d)] } }
  | read (hr : s.session.reader = .reading) (hc : 0 < count)
      (ho : count ≤ s.output.items.length) (hb : count ≤ Pty.bufferSize) :
      Move s (.read count) { s with output := s.output.drop count,session := { s.session with
        reader := .posting (.output (s.output.items.take count)),
        reads := s.session.reads ++ [.result (.ok (s.chunk count hb))] } }
  | posted (hr : s.session.reader = .posting (.output d))
      (hp : s.session.channel.push [.output d] = some channel) :
      Move s .post { s with session := { s.session with channel := channel,reader := .reading } }
  | childRead (he : s.copying = []) (hc : 0 < count) (hi : count ≤ s.input.items.length) :
      Move s (.childRead count)
        { s with copying := s.input.items.take count,input := s.input.drop count }
  | childWrite (hc : 0 < count) (hk : count ≤ s.copying.length)
      (ho : s.output.push (s.copying.take count) = some output) :
      Move s (.childWrite count) { s with output := output,copying := s.copying.drop count }

theorem writePass_count {count : Nat} (h : 0 < count) :
    Pty.writePass (.result (.ok count)) = some (.ok count) := by
  cases count with
  | zero => cases h
  | succ n => rfl

theorem read_chunk (chunk : Pty.Chunk) :
    Pty.read (.result (.ok chunk)) = some (.ok chunk.bytes) := rfl

theorem take_ne {α : Type*} {xs : List α} {n : Nat} (hn : 0 < n) (hx : n ≤ xs.length) :
    xs.take n ≠ [] := by
  intro he
  rcases List.take_eq_nil_iff.mp he with h | h
  · omega
  · simp only [h,List.length_nil] at hx
    omega

theorem session_read {s : Session.State} {chunk : Pty.Chunk} (json : Json)
    (hr : s.reader = .reading) (hne : chunk.bytes ≠ []) :
    Session.step json s (.read (.result (.ok chunk))) = some
      { s with reads := s.reads ++ [.result (.ok chunk)],reader := .posting (.output chunk.bytes) } := by
  simp only [Session.step,hr,read_chunk]

theorem turn_session {json : Json} {u : State k} {l : Session.Label} (h : u.turn json l = some t)
    (hs : u.session = s.session) : (Session.system json).step s.session l = some t.session := by
  obtain ⟨v,hv,rfl⟩ := Option.map_eq_some_iff.mp h
  exact hs ▸ hv

/-- What the session does among its surroundings is a run of the session. -/
theorem session_shown (json : Json) (messages : List Bytes) :
    (system k json messages).Shows (Session.system json) State.session := by
  refine ⟨rfl,?_⟩
  intro s l t h
  replace h : step json s l = some t := h
  cases l with
  | spawn | recv | send | post => exact .inr ⟨_,turn_session h rfl⟩
  | receive =>
    simp only [step] at h
    split at h
    · exact .inr ⟨_,turn_session h rfl⟩
    · cases h
  | write count =>
    simp only [step] at h
    split at h <;> try cases h
    split at h <;> try cases h
    obtain ⟨q,_,ht⟩ := Option.bind_eq_some_iff.mp h
    exact .inr ⟨_,turn_session ht rfl⟩
  | read count =>
    simp only [step] at h
    split at h <;> try cases h
    exact .inr ⟨_,turn_session h rfl⟩
  | childRead count =>
    simp only [step] at h
    split at h <;> cases h
    exact .inl rfl
  | childWrite count =>
    simp only [step] at h
    split at h <;> try cases h
    obtain ⟨q,_,rfl⟩ := Option.map_eq_some_iff.mp h
    exact .inl rfl

theorem turn_some {json : Json} {l : Session.Label} (h : s.turn json l = some t) :
    ∃ u, Session.Move json s.session l u ∧ t = { s with session := u } := by
  obtain ⟨u,hu,he⟩ := Option.map_eq_some_iff.mp h
  exact ⟨u,Session.step_move hu,he.symm⟩

theorem step_move {json : Json} {l : Label} (hc : Calm s.session) (h : step json s l = some t) :
    Move s l t := by
  cases l with
  | spawn =>
    obtain ⟨u,hu,rfl⟩ := turn_some h
    cases hu with
    | spawned hd => exact .spawned hd
  | recv =>
    obtain ⟨u,hu,rfl⟩ := turn_some h
    cases hu with
    | @took m rest hd hi =>
      obtain ⟨d,rfl⟩ := hc.channel m (by simp [hi])
      exact .took hd hi
  | send =>
    obtain ⟨u,hu,rfl⟩ := turn_some h
    rcases hc.driver with hd | hd | ⟨d,hd⟩ | ⟨call,hd⟩
    · cases hu <;> simp_all
    · cases hu <;> simp_all
    · cases hu with
      | delivered hs =>
        obtain rfl : ServerMessage.output d = _ := by simpa [hd] using hs
        exact .sent hd
      | replied hs => simp [hd] at hs
    · cases hu <;> simp_all
  | post =>
    obtain ⟨u,hu,rfl⟩ := turn_some h
    rcases hc.reader with hd | hr | ⟨d,hr⟩
    · rw [hc.spawning hd] at hu
      cases hu <;> simp_all [Session.start]
    · cases hu <;> simp_all
    · cases hu with
      | posted hp ho hq =>
        obtain rfl : ServerMessage.output d = _ := by simpa [hr] using hp
        exact .posted hr hq
      | unposted hp ho => simp [hc.rxOpen] at ho
  | receive =>
    simp only [step] at h
    split at h
    · obtain ⟨u,hu,rfl⟩ := turn_some h
      cases hu with
      | received hd => exact .received hd (by assumption)
    · cases h
  | write count =>
    simp only [step] at h
    split at h <;> try cases h
    split at h <;> try cases h
    rename_i call hd hpos
    obtain ⟨q,hq,ht⟩ := Option.bind_eq_some_iff.mp h
    obtain ⟨u,hu,rfl⟩ := turn_some ht
    cases hu with
    | wrote hw ha hk =>
      obtain rfl : call = _ := by simpa [hd] using hw
      obtain rfl : count = _ := by simpa [writePass_count hpos] using ha
      exact .wrote hd hpos hk hq
    | writeAgain hw ha => simp [writePass_count hpos] at ha
    | writeFailed hw ha => simp [writePass_count hpos] at ha
  | read count =>
    simp only [step] at h
    split at h <;> try cases h
    rename_i hcount
    obtain ⟨u,hu,rfl⟩ := turn_some h
    have hne := take_ne hcount.1 hcount.2.1
    cases hu with
    | readAgain hr ha => simp [read_chunk] at ha
    | readEnd hr ha => simp [read_chunk,State.chunk,hne] at ha
    | readData hr ha hd =>
      obtain rfl : s.output.items.take count = _ := by simpa [read_chunk,State.chunk] using ha
      exact Move.read (s := s) hr hcount.1 hcount.2.1 hcount.2.2
    | readFailed hr ha => simp [read_chunk] at ha
  | childRead count =>
    simp only [step] at h
    split at h <;> cases h
    rename_i hcount
    exact .childRead hcount.1 hcount.2.1 hcount.2.2
  | childWrite count =>
    simp only [step] at h
    split at h <;> try cases h
    rename_i hcount
    obtain ⟨q,hq,rfl⟩ := Option.map_eq_some_iff.mp h
    exact .childWrite hcount.1 hcount.2 hq

/-- What a move needs, the step function allows. -/
theorem move_step {json : Json} {l : Label} (hc : Calm s.session) (hm : Move s l t) :
    step json s l = some t := by
  cases hm with
  | spawned hd => simp [step,State.turn,Session.step,hd]
  | took hd hi => simp [step,State.turn,Session.step,hd,hi]
  | received hd hp => simp [step,State.turn,Session.step,hd,hp,State.handle]
  | wrote hd hpos hk hi =>
    simp [step,State.turn,Session.step,hd,hpos,hi,writePass_count hpos,hk]
  | sent hd => simp [step,State.turn,Session.step,hd,State.delivered]
  | @read count hr hpos ho hb =>
    have hne : (s.chunk count hb).bytes ≠ [] := take_ne hpos ho
    simp [step,State.turn,hpos,ho,hb,session_read json hr hne]
    rfl
  | posted hr hp => simp [step,State.turn,Session.step,hr,hc.rxOpen,hp,State.posted]
  | childRead he hpos hi => simp [step,he,hpos,hi]
  | childWrite hpos hk ho => simp [step,hpos,hk,ho]

theorem writeAll_calm (data : Bytes) (written : Nat) :
    writeAll data written = .select ∨ ∃ call, writeAll data written = .writing call := by
  unfold writeAll
  split
  · exact .inr ⟨_,rfl⟩
  · exact .inl rfl

/-- As in the session alone, only the start is spawning. -/
theorem move_spawning (json : Json) {l : Label} (h : Calm s.session) (hm : Move s l t)
    (hd : t.session.driver = .spawning) : t.session = Session.start := by
  rcases (session_shown json []).2 s l t (move_step h hm) with he | ⟨k,hk⟩
  · exact he ▸ h.spawning (he ▸ hd)
  · exact absurd hd (step_spawning h.spawning hk)

theorem move_calm (json : Json) {l : Label} (h : Calm s.session) (hm : Move s l t) :
    Calm t.session := by
  have hst := move_spawning json h hm
  cases hm with
  | spawned hd => exact ⟨hst,.inr (.inl rfl),.inr (.inl rfl),h.channel,h.rxOpen⟩
  | took hd hc =>
    refine ⟨hst,.inr (.inr (.inl ⟨_,rfl⟩)),.inr (h.reader.resolve_left (by simp [hd])),?_,h.rxOpen⟩
    exact fun m hm => h.channel m (List.mem_of_mem_drop hm)
  | received hd hp | wrote hd hpos hk hi =>
    refine ⟨hst,?_,.inr (h.reader.resolve_left (by simp [hd])),h.channel,h.rxOpen⟩
    rcases writeAll_calm _ _ with he | he
    · exact .inr (.inl he)
    · exact .inr (.inr (.inr he))
  | sent hd =>
    exact ⟨hst,.inr (.inl rfl),.inr (h.reader.resolve_left (by simp [hd])),h.channel,h.rxOpen⟩
  | read hr hpos ho hb => exact ⟨hst,h.driver,.inr (.inr ⟨_,rfl⟩),h.channel,h.rxOpen⟩
  | @posted d channel hr hp =>
    refine ⟨hst,h.driver,.inr (.inl rfl),?_,h.rxOpen⟩
    intro m hm
    rw [Queue.push_items hp] at hm
    rcases List.mem_append.mp hm with hm | hm
    · exact h.channel m hm
    · exact ⟨d,List.mem_singleton.mp hm⟩
  | childRead he hpos hi | childWrite hpos hk ho => exact h

theorem reachable_calm {json : Json} {messages : List Bytes}
    (hr : (system k json messages).Reachable s) : Calm s.session := by
  apply hr.invariant (I := fun s => Calm s.session)
  · exact ⟨fun _ => rfl,.inl rfl,.inl rfl,by simp [system,start,Session.start],rfl⟩
  · intro s l t _ h hstep
    exact move_calm json h (step_move h hstep)

/-- The input bytes in the driver's hands. -/
def unwritten (d : Driver) : Bytes :=
  match d with
  | .writing call => call.data.drop call.written
  | _ => []

@[simp] theorem unwritten_spawning : unwritten .spawning = [] := rfl
@[simp] theorem unwritten_select : unwritten .select = [] := rfl
@[simp] theorem unwritten_sending (m : ServerMessage) : unwritten (.sending m) = [] := rfl
@[simp] theorem unwritten_writing (call : Writing) :
    unwritten (.writing call) = call.data.drop call.written := rfl

@[simp] theorem unwritten_writeAll (data : Bytes) (written : Nat) :
    unwritten (writeAll data written) = data.drop written := by
  unfold writeAll
  split
  · rfl
  · rename_i h
    simp [List.drop_eq_nil_of_le (Nat.le_of_not_lt h)]

/-- Every input byte, wherever it has come to on its way back to the client. -/
def State.stream (s : State k) : Bytes :=
  outputSent s.session.sent ++ (inFlight s.session).flatMap payload ++ s.output.items ++
    s.copying ++ s.input.items ++ unwritten s.session.driver ++ s.pending.flatten

theorem move_stream {l : Label} (h : Calm s.session) (hm : Move s l t) : t.stream = s.stream := by
  cases hm with
  | spawned hd => simp [State.stream,inFlight,h.spawning hd,Session.start,Driver.held,Reader.held]
  | took hd hc => simp [State.stream,inFlight,hd,hc]
  | received hd hp => simp [State.stream,inFlight,hd,hp]
  | @wrote call count input hd hpos hk hi =>
    simp [State.stream,inFlight,hd,Queue.push_items hi,← List.drop_drop]
  | sent hd => simp [State.stream,inFlight,hd,outputSent,queuedSent,Frame.message,payload]
  | @read count hr hpos ho hb =>
    simp [State.stream,inFlight,hr,payload]
  | posted hr hp => simp [State.stream,inFlight,hr,Queue.push_items hp]
  | childRead he hpos hi => simp [State.stream,he]
  | childWrite hpos hk ho => simp [State.stream,Queue.push_items ho]

/-- The child echoes the client's input: nothing is lost or made up on the way. -/
theorem reachable_stream {json : Json} {messages : List Bytes}
    (hr : (system k json messages).Reachable s) : s.stream = messages.flatten := by
  apply hr.invariant (I := fun s => s.stream = messages.flatten)
  · simp [system,start,State.stream,Session.start,inFlight,outputSent,queuedSent,Driver.held,Reader.held]
  · intro s l t hs h hstep
    have hc := reachable_calm hs
    exact (move_stream hc (step_move hc hstep)).trans h

end Terminald.Live
