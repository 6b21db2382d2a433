import Terminald.Proofs.Moves

namespace Terminald.Session
open Machine Protocol

/-- The message the reader makes of one pass of its read loop, if any. -/
def messageOf (a : Pty.Attempt Pty.Chunk) : Option ServerMessage :=
  match Pty.read a with
  | some (.ok []) | none => none
  | some (.ok data) => some (.output data)
  | some (.error e) => some (.error e.alternate)

def produced (reads : List (Pty.Attempt Pty.Chunk)) : List ServerMessage :=
  reads.filterMap messageOf

def bytesOf (a : Pty.Attempt Pty.Chunk) : Bytes :=
  match Pty.read a with
  | some (.ok data) => data
  | _ => []

/-- All bytes the PTY reads returned. -/
def bytesRead (reads : List (Pty.Attempt Pty.Chunk)) : Bytes := reads.flatMap bytesOf

def payload : ServerMessage → Bytes
  | .output data => data
  | _ => []

def Frame.message : Frame → Option ServerMessage
  | .queued m => some m
  | _ => none

/-- The messages of the reader task that reached the client. -/
def queuedSent (frames : List Frame) : List ServerMessage := frames.filterMap Frame.message

def outputSent (frames : List Frame) : Bytes := (queuedSent frames).flatMap payload

def Driver.held : Driver → List ServerMessage
  | .sending m => [m]
  | _ => []

def Reader.held : Reader → List ServerMessage
  | .posting m => [m]
  | _ => []

section Held

@[simp] theorem held_select : Driver.select.held = [] := rfl
@[simp] theorem held_sending : (Driver.sending m).held = [m] := rfl
@[simp] theorem held_replying : (Driver.replying f).held = [] := rfl
@[simp] theorem held_writing : (Driver.writing call).held = [] := rfl
@[simp] theorem held_resizing : (Driver.resizing size).held = [] := rfl
@[simp] theorem held_terminating : (Driver.terminating o).held = [] := rfl
@[simp] theorem held_reading : Reader.reading.held = [] := rfl
@[simp] theorem held_posting : (Reader.posting m).held = [m] := rfl
@[simp] theorem held_waiting : Reader.waiting.held = [] := rfl

end Held

/-- Made by the reader and not yet sent: in the driver's hands, in the channel,
in the reader's hands. -/
def inFlight (s : State) : List ServerMessage :=
  s.driver.held ++ s.channel.items ++ s.reader.held

/-- The exit message follows everything else the reader makes. -/
def Tail : Reader → List ServerMessage → Prop
  | .posting (.exited code),tail => tail = [.exited code]
  | .done,tail => ∃ code, tail = [.exited code]
  | _,tail => tail = []

/-- What was sent is a first part of what was made. Until the driver is through
the remainder is in flight; after that nothing more is sent of it. -/
def Flow (s : State) : Prop :=
  ∃ rest tail, queuedSent s.sent ++ rest = produced s.reads ++ tail ∧ Tail s.reader tail ∧
    (s.driver.over = false → rest = inFlight s)

theorem produced_snoc (reads : List (Pty.Attempt Pty.Chunk)) (a : Pty.Attempt Pty.Chunk) :
    produced (reads ++ [a]) = produced reads ++ (messageOf a).toList := by
  cases h : messageOf a <;> simp [produced,h]

theorem produced_payload (reads : List (Pty.Attempt Pty.Chunk)) :
    (produced reads).flatMap payload = bytesRead reads := by
  induction reads with
  | nil => rfl
  | cons a reads ih =>
    have ha : (messageOf a).toList.flatMap payload = bytesOf a := by
      unfold messageOf bytesOf
      split <;> simp_all [payload]
    calc (produced (a :: reads)).flatMap payload
        = (messageOf a).toList.flatMap payload ++ (produced reads).flatMap payload := by
          cases h : messageOf a <;> simp [produced,h]
      _ = bytesRead (a :: reads) := by rw [ha,ih]; rfl

theorem queuedSent_snoc (frames : List Frame) (f : Frame) :
    queuedSent (frames ++ [f]) = queuedSent frames ++ f.message.toList := by
  cases h : f.message <;> simp [queuedSent,h]

@[simp] theorem writeAll_held (data : Bytes) (written : Nat) : (writeAll data written).held = [] := by
  unfold writeAll
  split <;> rfl

@[simp] theorem handle_held (s : State) (json : Json) (msg : Message) :
    (s.handle json msg).driver.held = [] := by
  unfold State.handle
  split
  · split <;> first | rfl | exact writeAll_held _ _
  all_goals first | rfl | exact writeAll_held _ _

/-- A step that neither makes, moves nor sends a reader's message. -/
theorem Flow.keep (h : Flow s) (hs : queuedSent t.sent = queuedSent s.sent)
    (hr : t.reads = s.reads) (hk : t.reader = s.reader)
    (ho : t.driver.over = false → s.driver.over = false ∧ inFlight t = inFlight s) : Flow t := by
  obtain ⟨rest,tail,he,ht,hi⟩ := h
  exact ⟨rest,tail,by rw [hs,hr,he],hk ▸ ht,fun h => (hi (ho h).1).trans (ho h).2.symm⟩

/-- The reader makes one more message and takes it in its hands. -/
theorem Flow.make (h : Flow s) (hs : t.sent = s.sent) (hheld : s.reader.held = [])
    (hk : t.reader = .posting m) (hd : t.driver = s.driver) (hc : t.channel = s.channel)
    (hm : ∀ tail, Tail s.reader tail → ∃ tail', Tail (.posting m) tail' ∧
      produced t.reads ++ tail' = produced s.reads ++ tail ++ [m]) : Flow t := by
  obtain ⟨rest,tail,he,ht,hi⟩ := h
  obtain ⟨tail',ht',hp⟩ := hm tail ht
  refine ⟨rest ++ [m],tail',?_,hk ▸ ht',?_⟩
  · rw [hs,hp,← he,List.append_assoc]
  · intro h
    have hn : t.reader.held = [m] := by rw [hk]; rfl
    rw [hi (hd ▸ h)]
    simp only [inFlight,hn,hd,hc,hheld,List.append_nil]

theorem start_flow : Flow start := ⟨[],[],rfl,rfl,fun _ => rfl⟩

theorem tail_reading (h : r = .reading ∨ r = .waiting) : Tail r tail ↔ tail = [] := by
  rcases h with rfl | rfl <;> rfl

/-- Posting closes the reader's list exactly when the exit message is posted. -/
theorem tail_posted (s : State) (ht : Tail (.posting m) tail) (accepted : Bool) :
    Tail (s.posted m accepted).reader tail := by
  cases m with
  | output data => cases accepted <;> exact ht
  | error message => exact ht
  | exited code => exact ⟨code,ht⟩

@[simp] theorem posted_held (s : State) (m : ServerMessage) (accepted : Bool) :
    (s.posted m accepted).reader.held = [] := by
  cases m <;> cases accepted <;> rfl

@[simp] theorem delivered_held (s : State) (m : ServerMessage) :
    (s.delivered m).driver.held = [] := by
  cases m <;> rfl

theorem move_flow (h : Flow s) (hstart : s.driver = .spawning → s = start)
    (hopen : s.driver.over = false → s.rxOpen = true) (hm : Move json s l t) : Flow t := by
  cases hm with
  | spawned hd | spawnFailed hd =>
    rw [hstart hd]
    exact ⟨[],[],rfl,rfl,fun _ => rfl⟩
  | @readAgain a hr ha =>
    obtain ⟨rest,tail,he,ht,hi⟩ := h
    refine ⟨rest,tail,?_,ht,hi⟩
    rw [produced_snoc,show messageOf a = none by simp [messageOf,ha]]
    simpa using he
  | @readEnd a hr ha =>
    obtain ⟨rest,tail,he,ht,hi⟩ := h
    refine ⟨rest,tail,?_,(tail_reading (.inr rfl)).mpr ((tail_reading (.inl hr)).mp ht),?_⟩
    · simp only [State.leaveLoop,produced_snoc,
        show messageOf a = none by simp [messageOf,ha]]
      simpa using he
    · intro ho
      simpa [inFlight,hr] using hi ho
  | @readData a data hr ha hne =>
    refine h.make rfl (by simp [hr]) rfl rfl rfl ?_
    intro tail ht
    obtain rfl := (tail_reading (.inl hr)).mp ht
    exact ⟨[],rfl,by simp [produced_snoc,messageOf,ha]⟩
  | @readFailed a e hr ha =>
    refine h.make rfl (by simp [hr]) rfl rfl rfl ?_
    intro tail ht
    obtain rfl := (tail_reading (.inl hr)).mp ht
    exact ⟨[],rfl,by simp [produced_snoc,messageOf,ha]⟩
  | @posted m c hr ho hp =>
    obtain ⟨rest,tail,he,ht,hi⟩ := h
    refine ⟨rest,tail,by simpa using he,tail_posted _ (hr ▸ ht) true,?_⟩
    intro hd
    rw [hi (by simpa using hd)]
    simp [inFlight,hr,Queue.push_items hp]
  | @unposted m hr ho =>
    obtain ⟨rest,tail,he,ht,_⟩ := h
    refine ⟨rest,tail,by simpa using he,tail_posted _ (hr ▸ ht) false,?_⟩
    intro hd
    simp [hopen (by simpa using hd)] at ho
  | @waited result hr hw =>
    refine h.make rfl (by simp [hr]) rfl rfl rfl ?_
    intro tail ht
    obtain rfl := (tail_reading (.inr hr)).mp ht
    exact ⟨[.exited (exitCode result)],rfl,by simp⟩
  | took hd hc => exact h.keep rfl rfl rfl (by simp [inFlight,hd,hc])
  | received hd => exact h.keep (by simp) (by simp) (by simp) (by simp [inFlight,hd])
  | @delivered m hd =>
    obtain ⟨rest,tail,he,ht,hi⟩ := h
    obtain rfl := hi (by simp [hd])
    refine ⟨s.channel.items ++ s.reader.held,tail,?_,by simpa using ht,by simp [inFlight]⟩
    rw [delivered_reads,← he]
    simp [queuedSent_snoc,Frame.message,inFlight,hd]
  | replied hd =>
    exact h.keep (by simp [queuedSent_snoc,Frame.message]) rfl rfl (by simp [inFlight,hd])
  | writeAgain hd ha => exact h
  | wrote hd ha hk | resized hd hi => exact h.keep rfl rfl rfl (by simp [inFlight,hd])
  | receiveFailed hd | exhausted hd hr hc | writeFailed hd ha | resizeFailed hd hi
  | unreplied hd | undelivered hd | finished hd hp ht | dropped hs hr hd =>
    exact h.keep rfl rfl rfl (by simp)
  | process hp hs => exact h.keep rfl rfl rfl (by simp [inFlight])

theorem reachable_flow {json : Json} (hr : (system json).Reachable s) : Flow s :=
  hr.invariant start_flow (fun _ _ _ hs h hstep =>
    move_flow h (spawning_start hs) (live_open hs) (step_move hstep))

/-- The reader has not left its read loop. -/
def Reader.looping : Reader → Bool
  | .unborn | .reading | .posting (.output _) => true
  | _ => false

/-- Output messages, then at most one error; an error only once the read loop is left. -/
def Shape (s : State) : Prop :=
  ∃ outs errs, produced s.reads = outs ++ errs ∧ (∀ m ∈ outs, ∃ d, m = .output d) ∧
    (errs = [] ∨ ∃ text, errs = [.error text]) ∧ (s.reader.looping = true → errs = [])

theorem Shape.keep (h : Shape s) (hr : produced t.reads = produced s.reads)
    (hl : t.reader.looping = true → s.reader.looping = true) : Shape t := by
  obtain ⟨outs,errs,he,ho,hx,hk⟩ := h
  exact ⟨outs,errs,hr.trans he,ho,hx,fun h => hk (hl h)⟩

theorem posted_looping (s : State) (m : ServerMessage) (accepted : Bool) :
    (s.posted m accepted).reader.looping = true → (Reader.posting m).looping = true := by
  cases m <;> cases accepted <;> simp [State.posted,Reader.looping]

theorem move_shape (h : Shape s) (hstart : s.driver = .spawning → s = start)
    (hm : Move json s l t) : Shape t := by
  cases hm with
  | spawned hd =>
    rw [hstart hd]
    exact ⟨[],[],rfl,by simp,.inl rfl,fun _ => rfl⟩
  | readAgain hr ha =>
    exact h.keep (by simp [produced_snoc,messageOf,ha]) id
  | readEnd hr ha =>
    exact h.keep (by simp [produced_snoc,messageOf,ha]) (by simp [Reader.looping])
  | @readData a data hr ha hne =>
    obtain ⟨outs,errs,he,ho,hx,hk⟩ := h
    obtain rfl := hk (by rw [hr]; rfl)
    refine ⟨outs ++ [.output data],[],?_,?_,.inl rfl,fun _ => rfl⟩
    · simp [produced_snoc,messageOf,ha,he]
    · intro m hm
      rcases List.mem_append.mp hm with hm | hm
      · exact ho m hm
      · exact ⟨data,List.mem_singleton.mp hm⟩
  | @readFailed a e hr ha =>
    obtain ⟨outs,errs,he,ho,hx,hk⟩ := h
    obtain rfl := hk (by rw [hr]; rfl)
    refine ⟨outs,[.error e.alternate],?_,ho,.inr ⟨_,rfl⟩,by simp [Reader.looping]⟩
    simp [produced_snoc,messageOf,ha,he]
  | posted hr ho hp | unposted hr ho =>
    apply h.keep (by simp)
    rw [hr]
    exact posted_looping _ _ _
  | waited hr hw => exact h.keep rfl (by simp [Reader.looping])
  | received hd => exact h.keep (by simp) (by simp)
  | delivered hd => exact h.keep (by simp) (by simp)
  | spawnFailed hd | took hd hc | receiveFailed hd | exhausted hd hr hc | replied hd
  | undelivered hd | unreplied hd | writeAgain hd ha | wrote hd ha hk | writeFailed hd ha
  | resized hd hi | resizeFailed hd hi | finished hd hp ht | dropped hs hr hd | process hp hs =>
    exact h.keep rfl id

theorem reachable_shape {json : Json} (hr : (system json).Reachable s) : Shape s := by
  refine hr.invariant ⟨[],[],rfl,by simp,.inl rfl,fun _ => rfl⟩ ?_
  intro s l t hs h hstep
  exact move_shape h (spawning_start hs) (step_move hstep)

/-- Nothing follows an exit frame, because the driver is through with it. -/
def ExitLast (s : State) : Prop :=
  ∀ pre post code, s.sent = pre ++ .queued (.exited code) :: post →
    post = [] ∧ s.driver.over = true

theorem ExitLast.keep (h : ExitLast s) (hs : t.sent = s.sent)
    (ho : s.driver.over = true → t.driver.over = true) : ExitLast t := by
  intro pre post code he
  obtain ⟨hp,hd⟩ := h pre post code (hs ▸ he)
  exact ⟨hp,ho hd⟩

/-- A live driver has sent no exit frame, so the frame it adds is the only
candidate. -/
theorem ExitLast.snoc (h : ExitLast s) (hlive : s.driver.over = false)
    (hs : t.sent = s.sent ++ [f])
    (ho : ∀ code, f = .queued (.exited code) → t.driver.over = true) : ExitLast t := by
  intro pre post code he
  rw [hs] at he
  rcases List.eq_nil_or_concat post with rfl | ⟨post,g,rfl⟩
  · obtain ⟨_,hf⟩ := List.append_inj' he rfl
    exact ⟨rfl,ho code (by simpa using hf)⟩
  · have hsplit : s.sent ++ [f] = (pre ++ .queued (.exited code) :: post) ++ [g] := by
      simpa using he
    have hcut := (List.append_inj' hsplit rfl).1
    have := (h _ _ _ hcut).2
    simp [hlive] at this

theorem move_exit_last (h : ExitLast s) (hstart : s.driver = .spawning → s = start)
    (hm : Move json s l t) : ExitLast t := by
  cases hm with
  | spawned hd | spawnFailed hd =>
    rw [hstart hd]
    intro pre post code he
    simp [start] at he
  | @delivered m hd =>
    apply h.snoc (f := .queued m) (by simp [hd]) (by simp)
    intro code he
    cases he
    rfl
  | @replied f hd => exact h.snoc (f := .reply f) (by simp [hd]) rfl (by simp)
  | received hd => exact h.keep (by simp) (by simp [hd])
  | posted hr ho hp | unposted hr ho => exact h.keep (by simp) (by simp)
  | took hd hc | receiveFailed hd | exhausted hd hr hc | undelivered hd | unreplied hd
  | wrote hd ha hk | writeFailed hd ha | resized hd hi | resizeFailed hd hi
  | finished hd hp ht | dropped hs hr hd =>
    exact h.keep rfl (by simp [hd])
  | readAgain hr ha | readEnd hr ha | readData hr ha hne | readFailed hr ha | waited hr hw
  | writeAgain hd ha | process hp hs =>
    exact h.keep rfl id

theorem reachable_exit_last {json : Json} (hr : (system json).Reachable s) : ExitLast s := by
  apply hr.invariant (by intro pre post code he; simp [system,start] at he)
  intro s l t hs h hstep
  exact move_exit_last h (spawning_start hs) (step_move hstep)

theorem tail_short (h : Tail r tail) : tail = [] ∨ ∃ code, tail = [.exited code] := by
  cases r with
  | posting m =>
    cases m with
    | exited code => exact .inr ⟨code,h⟩
    | output data => exact .inl h
    | error message => exact .inl h
  | done => exact .inr h
  | _ => exact .inl h

theorem mem_queuedSent {frames : List Frame} {m : ServerMessage} :
    m ∈ queuedSent frames ↔ .queued m ∈ frames := by
  simp only [queuedSent,List.mem_filterMap]
  constructor
  · intro hex
    obtain ⟨f,hf,he⟩ := hex
    cases f <;> simp [Frame.message] at he
    exact he ▸ hf
  · exact fun h => ⟨_,h,rfl⟩

/-- With the exit message among the sent ones nothing made is unsent. -/
theorem nothing_left (he : xs ++ rest = ys ++ tail) (hx : x ∈ xs) (hy : x ∉ ys)
    (ht : tail = [] ∨ ∃ z, tail = [z]) : rest = [] := by
  rcases List.eq_nil_or_concat rest with rfl | ⟨r,w,rfl⟩
  · rfl
  · rcases ht with rfl | ⟨z,rfl⟩
    · exact absurd (he ▸ List.mem_append_left _ hx : x ∈ ys ++ []) (by simpa using hy)
    · rw [List.concat_eq_append,← List.append_assoc] at he
      have hinit := (List.append_inj' he rfl).1
      exact absurd (hinit ▸ List.mem_append_left _ hx : x ∈ ys) hy

theorem exited_not_produced (hs : Shape s) (code : Int32) : .exited code ∉ produced s.reads := by
  obtain ⟨outs,errs,hp,ho,herr,_⟩ := hs
  rw [hp]
  intro hm
  rcases List.mem_append.mp hm with hm | hm
  · obtain ⟨d,hd⟩ := ho _ hm
    cases hd
  · rcases herr with rfl | ⟨text,rfl⟩ <;> simp at hm

/-- What was sent before the exit frame is all the reader made before it. -/
theorem sent_all (hf : Flow s) (hs : Shape s) (hx : s.sent = pre ++ [.queued (.exited code)]) :
    queuedSent pre = produced s.reads := by
  obtain ⟨rest,tail,he,ht,_⟩ := hf
  have hnone := exited_not_produced hs code
  have hsent : queuedSent s.sent = queuedSent pre ++ [.exited code] := by
    rw [hx,queuedSent_snoc]; rfl
  have hshort := tail_short ht
  have hrest := nothing_left he (x := .exited code) (by simp [hsent]) hnone
    (hshort.imp_right (fun ⟨c,hc⟩ => ⟨_,hc⟩))
  rw [hrest,hsent,List.append_nil] at he
  rcases hshort with rfl | ⟨c,rfl⟩
  · exact absurd (by rw [List.append_nil] at he; simp [← he]) hnone
  · exact (List.append_inj' he rfl).1

theorem tail_payload (h : Tail r tail) : tail.flatMap payload = [] := by
  rcases tail_short h with rfl | ⟨code,rfl⟩ <;> rfl

/-- The output frames sent carry a first part of the bytes read. -/
theorem output_within (hf : Flow s) : outputSent s.sent <+: bytesRead s.reads := by
  obtain ⟨rest,tail,he,ht,_⟩ := hf
  refine ⟨rest.flatMap payload,?_⟩
  rw [outputSent,← List.flatMap_append,he,List.flatMap_append,tail_payload ht,
    produced_payload,List.append_nil]

theorem messageOf_error (h : messageOf a = some (.error text)) :
    ∃ e, Pty.read a = some (.error e) ∧ text = e.alternate := by
  unfold messageOf at h
  split at h <;> simp at h
  exact ⟨_,by assumption,h.symm⟩

/-- Every queued error frame was made of a failed read. -/
theorem error_read (hf : Flow s) (h : .error text ∈ queuedSent s.sent) :
    ∃ a ∈ s.reads, messageOf a = some (.error text) := by
  obtain ⟨rest,tail,he,ht,_⟩ := hf
  have hm : .error text ∈ produced s.reads ++ tail := he ▸ List.mem_append_left _ h
  rcases List.mem_append.mp hm with hm | hm
  · exact List.mem_filterMap.mp hm
  · rcases tail_short ht with rfl | ⟨code,rfl⟩ <;> simp at hm

end Terminald.Session
