import Terminald.Proofs.Moves

namespace Terminald.Session
open Machine Protocol

/-- What a client message is to do to the PTY. -/
def effect (json : Json) : Message → List PtyOp
  | .binary frame =>
    match ClientMessage.decode json frame with
    | .ok (.input data) => data.map .byte
    | .ok (.resize size) => [.resize size]
    | .error _ => []
  | .text text => (utf8 text).map .byte
  | _ => []

/-- The driver's own answer to a client message. -/
def answer (json : Json) : Message → Option Reply
  | .binary frame =>
    match ClientMessage.decode json frame with
    | .error e => some (.refused e.alternate)
    | .ok _ => none
  | .ping data => some (.pong data)
  | _ => none

def effects (json : Json) (messages : List Message) : List PtyOp := messages.flatMap (effect json)

def answers (json : Json) (messages : List Message) : List Reply := messages.filterMap (answer json)

def PtyOp.value : PtyOp → Option UInt8
  | .byte b => some b
  | .resize _ => none

def PtyOp.size : PtyOp → Option Resize
  | .byte _ => none
  | .resize size => some size

/-- The bytes the PTY master accepted. -/
def accepted (ops : List PtyOp) : Bytes := ops.filterMap PtyOp.value

/-- The bytes the client sent for the PTY. -/
def inputBytes (json : Json) (messages : List Message) : Bytes := accepted (effects json messages)

/-- The last resize applied, or the size the PTY was opened with. -/
def lastSize (ops : List PtyOp) : Resize := (ops.filterMap PtyOp.size).getLast?.getD Pty.sizeDefault

def Frame.reply? : Frame → Option Reply
  | .reply r => some r
  | .queued _ => none

def repliesSent (frames : List Frame) : List Reply := frames.filterMap Frame.reply?

/-- What the message in the driver's hands still has to do to the PTY. -/
def Driver.todo : Driver → List PtyOp
  | .writing call => (call.data.drop call.written).map .byte
  | .resizing size => [.resize size]
  | _ => []

/-- The reply in the driver's hands. -/
def Driver.owing : Driver → List Reply
  | .replying r => [r]
  | _ => []

/-- The PTY has seen a first part of what the messages are to do to it; until
the driver is through the remainder is in its hands. The window has the size of
the last resize among it. -/
structure Applied (json : Json) (s : State) : Prop where
  split : ∃ rest, s.ops ++ rest = effects json s.received ∧
    (s.driver.over = false → rest = s.driver.todo)
  window : s.winsize = lastSize s.ops

/-- The same of the replies and the client. -/
def Answered (json : Json) (s : State) : Prop :=
  ∃ rest, repliesSent s.sent ++ rest = answers json s.received ∧
    (s.driver.over = false → rest = s.driver.owing)

section Hands

@[simp] theorem todo_select : Driver.select.todo = [] := rfl
@[simp] theorem todo_sending : (Driver.sending m).todo = [] := rfl
@[simp] theorem todo_replying : (Driver.replying r).todo = [] := rfl
@[simp] theorem todo_resizing : (Driver.resizing size).todo = [.resize size] := rfl
@[simp] theorem owing_select : Driver.select.owing = [] := rfl
@[simp] theorem owing_sending : (Driver.sending m).owing = [] := rfl
@[simp] theorem owing_replying : (Driver.replying r).owing = [r] := rfl
@[simp] theorem owing_writing : (Driver.writing call).owing = [] := rfl
@[simp] theorem owing_resizing : (Driver.resizing size).owing = [] := rfl

/-- Calling `write_all` at an offset leaves just the bytes from there on. -/
@[simp] theorem writeAll_todo (data : Bytes) (written : Nat) :
    (writeAll data written).todo = (data.drop written).map .byte := by
  unfold writeAll
  split
  · rfl
  · rename_i h
    simp [List.drop_eq_nil_of_le (Nat.le_of_not_lt h)]

@[simp] theorem writeAll_owing (data : Bytes) (written : Nat) :
    (writeAll data written).owing = [] := by
  unfold writeAll
  split <;> rfl

@[simp] theorem handle_todo (s : State) (json : Json) (msg : Message) :
    (s.handle json msg).driver.todo = effect json msg := by
  cases msg with
  | binary frame => cases hd : ClientMessage.decode json frame with
    | error e => simp [State.handle,effect,hd]
    | ok message => cases message <;> simp [State.handle,effect,hd]
  | text text => simp [State.handle,effect]
  | close | ping data | pong data => rfl

@[simp] theorem handle_owing (s : State) (json : Json) (msg : Message) :
    (s.handle json msg).driver.owing = (answer json msg).toList := by
  cases msg with
  | binary frame => cases hd : ClientMessage.decode json frame with
    | error e => simp [State.handle,answer,hd]
    | ok message => cases message <;> simp [State.handle,answer,hd]
  | text text => simp [State.handle,answer]
  | close | ping data | pong data => rfl

theorem delivered_idle (s : State) (m : ServerMessage) :
    (s.delivered m).driver.todo = [] ∧ (s.delivered m).driver.owing = [] := by
  cases m <;> exact ⟨rfl,rfl⟩

end Hands

theorem bytes_sizes (data : Bytes) : (data.map PtyOp.byte).filterMap PtyOp.size = [] := by
  simp [List.filterMap_eq_nil_iff,PtyOp.size]

theorem lastSize_bytes (ops : List PtyOp) (data : Bytes) :
    lastSize (ops ++ data.map .byte) = lastSize ops := by
  rw [lastSize,List.filterMap_append,bytes_sizes,List.append_nil,lastSize]

theorem lastSize_resize (ops : List PtyOp) (size : Resize) :
    lastSize (ops ++ [.resize size]) = size := by
  simp [lastSize,PtyOp.size]

theorem effects_snoc (json : Json) (messages : List Message) (msg : Message) :
    effects json (messages ++ [msg]) = effects json messages ++ effect json msg := by
  simp [effects]

theorem answers_snoc (json : Json) (messages : List Message) (msg : Message) :
    answers json (messages ++ [msg]) = answers json messages ++ (answer json msg).toList := by
  cases h : answer json msg <;> simp [answers,h]

theorem repliesSent_snoc (frames : List Frame) (f : Frame) :
    repliesSent (frames ++ [f]) = repliesSent frames ++ f.reply?.toList := by
  cases f <;> simp [repliesSent,Frame.reply?]

/-- A step that brings the PTY nothing and the driver no new work for it. -/
theorem Applied.keep (h : Applied json s) (hr : t.received = s.received) (ho : t.ops = s.ops)
    (hw : t.winsize = s.winsize)
    (hd : t.driver.over = false → s.driver.over = false ∧ t.driver.todo = s.driver.todo) :
    Applied json t := by
  obtain ⟨⟨rest,he,hrest⟩,hsize⟩ := h
  refine ⟨⟨rest,by rw [hr,ho,he],fun h => ?_⟩,by rw [hw,ho,hsize]⟩
  exact (hrest (hd h).1).trans (hd h).2.symm

theorem move_applied (h : Applied json s) (hstart : s.driver = .spawning → s = start)
    (hm : Move json s l t) : Applied json t := by
  cases hm with
  | spawned hd | spawnFailed hd =>
    rw [hstart hd]
    exact ⟨⟨[],rfl,fun _ => rfl⟩,rfl⟩
  | @received msg hd =>
    obtain ⟨⟨rest,he,hrest⟩,hsize⟩ := h
    obtain rfl := hrest (by simp [hd])
    refine ⟨⟨effect json msg,?_,by simp⟩,by simpa using hsize⟩
    simp only [hd,todo_select,List.append_nil] at he
    simp [effects_snoc,he]
  | @wrote call a count hd ha hk =>
    obtain ⟨⟨rest,he,hrest⟩,hsize⟩ := h
    obtain rfl := hrest (by simp [hd])
    have hcut : (call.data.drop call.written).take count ++ call.data.drop (call.written + count) =
        call.data.drop call.written := by
      rw [← List.drop_drop,List.take_append_drop]
    refine ⟨⟨(call.data.drop (call.written + count)).map .byte,?_,by simp⟩,?_⟩
    · rw [← he,hd,List.append_assoc,← List.map_append,hcut]
      rfl
    · simpa [← List.map_take,← List.map_drop] using (lastSize_bytes s.ops _ ▸ hsize)
  | @resized size r hd hi =>
    obtain ⟨⟨rest,he,hrest⟩,hsize⟩ := h
    obtain rfl := hrest (by simp [hd])
    refine ⟨⟨[],?_,fun _ => rfl⟩,(lastSize_resize s.ops size).symm⟩
    simpa [hd] using he
  | posted hr ho hp | unposted hr ho => exact h.keep (by simp) (by simp) (by simp) (by simp)
  | delivered hd =>
    exact h.keep (by simp) (by simp) (by simp) (by simp [hd,delivered_idle])
  | took hd hc | replied hd => exact h.keep rfl rfl rfl (by simp [hd])
  | receiveFailed hd | exhausted hd hr hc | undelivered hd | unreplied hd | writeFailed hd ha
  | resizeFailed hd hi | finished hd hp ht | dropped hs hr hd =>
    exact h.keep rfl rfl rfl (by simp)
  | readAgain hr ha | readEnd hr ha | readData hr ha hne | readFailed hr ha | waited hr hw
  | writeAgain hd ha | process hp hs =>
    exact h.keep rfl rfl rfl (by simp)

theorem reachable_applied {json : Json} (hr : (system json).Reachable s) : Applied json s := by
  refine hr.invariant ⟨⟨[],rfl,fun _ => rfl⟩,rfl⟩ ?_
  intro s l t hs h hstep
  exact move_applied h (spawning_start hs) (step_move hstep)

/-- At the select the PTY has seen all of it. -/
theorem Applied.idle (h : Applied json s) (hd : s.driver = .select) :
    s.ops = effects json s.received := by
  obtain ⟨⟨rest,he,hrest⟩,_⟩ := h
  obtain rfl := hrest (by simp [hd])
  simpa [hd] using he

theorem Answered.keep (h : Answered json s) (hr : t.received = s.received)
    (hs : repliesSent t.sent = repliesSent s.sent)
    (hd : t.driver.over = false → s.driver.over = false ∧ t.driver.owing = s.driver.owing) :
    Answered json t := by
  obtain ⟨rest,he,hrest⟩ := h
  exact ⟨rest,by rw [hr,hs,he],fun h => (hrest (hd h).1).trans (hd h).2.symm⟩

theorem move_answered (h : Answered json s) (hstart : s.driver = .spawning → s = start)
    (hm : Move json s l t) : Answered json t := by
  cases hm with
  | spawned hd | spawnFailed hd =>
    rw [hstart hd]
    exact ⟨[],rfl,fun _ => rfl⟩
  | @received msg hd =>
    obtain ⟨rest,he,hrest⟩ := h
    obtain rfl := hrest (by simp [hd])
    refine ⟨(answer json msg).toList,?_,by simp⟩
    simp only [hd,owing_select,List.append_nil] at he
    simp [answers_snoc,he]
  | @replied r hd =>
    obtain ⟨rest,he,hrest⟩ := h
    obtain rfl := hrest (by simp [hd])
    refine ⟨[],?_,fun _ => rfl⟩
    simpa [repliesSent_snoc,Frame.reply?,hd] using he
  | delivered hd =>
    refine h.keep (by simp) ?_ (by simp [hd,delivered_idle])
    simp [repliesSent_snoc,Frame.reply?]
  | posted hr ho hp | unposted hr ho => exact h.keep (by simp) (by simp) (by simp)
  | took hd hc | resized hd hi | wrote hd ha hk => exact h.keep rfl rfl (by simp [hd])
  | receiveFailed hd | exhausted hd hr hc | undelivered hd | unreplied hd | writeFailed hd ha
  | resizeFailed hd hi | finished hd hp ht | dropped hs hr hd =>
    exact h.keep rfl rfl (by simp)
  | readAgain hr ha | readEnd hr ha | readData hr ha hne | readFailed hr ha | waited hr hw
  | writeAgain hd ha | process hp hs =>
    exact h.keep rfl rfl (by simp)

theorem reachable_answered {json : Json} (hr : (system json).Reachable s) : Answered json s := by
  refine hr.invariant ⟨[],rfl,fun _ => rfl⟩ ?_
  intro s l t hs h hstep
  exact move_answered h (spawning_start hs) (step_move hstep)

/-- A message either is one resize frame, or has nothing to do with the window. -/
theorem effect_cases (json : Json) (msg : Message) :
    (∃ frame size, msg = .binary frame ∧ ClientMessage.decode json frame = .ok (.resize size) ∧
      effect json msg = [.resize size]) ∨ ∀ size, .resize size ∉ effect json msg := by
  cases msg with
  | binary frame => cases hd : ClientMessage.decode json frame with
    | error e => right; simp [effect,hd]
    | ok message => cases message with
      | resize size => exact .inl ⟨frame,size,rfl,hd,by simp [effect,hd]⟩
      | input data => right; simp [effect,hd]
  | text text | close | ping data | pong data => right; simp [effect]

/-- A resize among the effects belongs to one frame, and what is before it is
what the messages before that frame do. -/
theorem resize_place (he : pre ++ .resize size :: post = effects json messages) :
    ∃ before frame after, messages = before ++ .binary frame :: after ∧
      ClientMessage.decode json frame = .ok (.resize size) ∧ pre = effects json before := by
  induction messages generalizing pre with
  | nil => simp [effects] at he
  | cons msg messages ih =>
    have hcons : effects json (msg :: messages) = effect json msg ++ effects json messages := rfl
    rw [hcons] at he
    have later : ∀ {k}, pre = effect json msg ++ k → k ++ .resize size :: post = effects json messages →
        ∃ before frame after, msg :: messages = before ++ .binary frame :: after ∧
          ClientMessage.decode json frame = .ok (.resize size) ∧ pre = effects json before := by
      rintro k rfl hk
      obtain ⟨before,frame,after,rfl,hframe,rfl⟩ := ih hk
      exact ⟨msg :: before,frame,after,rfl,hframe,rfl⟩
    rcases List.append_eq_append_iff.mp he with ⟨k,hk,hrest⟩ | ⟨k,hk,hrest⟩
    · cases k with
      | nil => exact later (k := []) (by simpa using hk.symm) (by simpa using hrest)
      | cons a k =>
        obtain ⟨rfl,_⟩ := List.cons.inj hrest
        rcases effect_cases json msg with ⟨frame,size',rfl,hframe,heff⟩ | hnone
        · rw [heff] at hk
          have hpre : pre = [] := by
            have := congrArg List.length hk
            simp at this
            exact List.length_eq_zero_iff.mp (by omega)
          subst hpre
          obtain ⟨he,_⟩ := List.cons.inj hk
          cases he
          exact ⟨[],frame,messages,rfl,hframe,rfl⟩
        · exact absurd (hk ▸ List.mem_append_right _ List.mem_cons_self) (hnone size)
    · exact later hk hrest.symm

/-- What holds of the client's input in a state of a session. -/
structure InputIntact (json : Json) (s : State) : Prop where
  arrived : accepted s.ops <+: inputBytes json s.received
  idle : s.driver = .select → s.ops = effects json s.received
  window : s.winsize = lastSize s.ops
  place : ∀ pre size post, s.ops = pre ++ .resize size :: post →
    ∃ before frame after, s.received = before ++ .binary frame :: after ∧
      ClientMessage.decode json frame = .ok (.resize size) ∧ accepted pre = inputBytes json before
  answers : repliesSent s.sent <+: answers json s.received
  answered : s.driver = .select → repliesSent s.sent = Session.answers json s.received
  /-- A refused frame is answered, and nothing else comes of it. -/
  refusal : ∀ frame e, s.driver = .select → ClientMessage.decode json frame = .error e →
    effect json (.binary frame) = [] ∧
    step json s (.receive (.ok (.binary frame))) = some { s with
      driver := .replying (.refused e.alternate),received := s.received ++ [.binary frame] }
  /-- A driver with a reply in its hands goes back to the select with it, unless
  the socket fails or the session is dropped. -/
  reply : ∀ r l t, s.driver = .replying r → step json s l = some t →
    t.ops = s.ops ∧ t.winsize = s.winsize ∧
    (t.driver = .replying r ∧ t.sent = s.sent ∨
     l = .send (.ok ()) ∧ t.driver = .select ∧ t.sent = s.sent ++ [.reply r] ∨
     (∃ e, l = .send (.error e)) ∨ l = .drop)

theorem move_reply (hd : s.driver = .replying r) (hm : Move json s l t) :
    t.ops = s.ops ∧ t.winsize = s.winsize ∧
    (t.driver = .replying r ∧ t.sent = s.sent ∨
     l = .send (.ok ()) ∧ t.driver = .select ∧ t.sent = s.sent ++ [.reply r] ∨
     (∃ e, l = .send (.error e)) ∨ l = .drop) := by
  cases hm <;> simp_all

/-- The bytes the PTY accepts, the resizes among them and the replies follow the
client's messages, in every reachable state. -/
theorem input_stream_integrity {json : Json} (hr : (system json).Reachable s) :
    InputIntact json s := by
  have hidle := (reachable_applied hr).idle
  obtain ⟨⟨rest,he,_⟩,hwin⟩ := reachable_applied hr
  obtain ⟨owed,ha,howed⟩ := reachable_answered hr
  refine ⟨?_,hidle,hwin,?_,⟨owed,ha⟩,?_,?_,fun r l t hd hstep => move_reply hd (step_move hstep)⟩
  · rw [inputBytes,← he,accepted,accepted,List.filterMap_append]
    exact List.prefix_append _ _
  · intro pre size post hops
    rw [hops,List.append_assoc,List.cons_append] at he
    obtain ⟨before,frame,after,hrec,hframe,hpre⟩ := resize_place he
    exact ⟨before,frame,after,hrec,hframe,congrArg accepted hpre⟩
  · intro hd
    obtain rfl := howed (by simp [hd])
    simpa [hd] using ha
  · intro frame e hd hframe
    refine ⟨by simp [effect,hframe],?_⟩
    simp [step,hd,State.handle,hframe]

/-- A session that writes three bytes in short writes, resizes and is sent a
frame it does not know. -/
def shortWritesRun : List Label :=
  [.spawn (.ok 71),.receive (.ok (.binary [1,97,98,99])),.write (.result (.ok 1)),
   .write (.result (.error ⟨.interrupted,some 4,"interrupted"⟩)),
   .write (.result (.error ⟨.wouldBlock,some 11,"try again"⟩)),.write (.result (.ok 2)),
   .receive (.ok (.binary (0 :: utf8 "\x7b\"cols\":100,\"rows\":40\x7d"))),.ioctl (.ok ()),
   .receive (.ok (.binary [9])),.send (.ok ()),.receive (.ok (.text "q")),
   .write (.result (.ok 1))]

theorem input_stream_integrity_short_writes :
    ∃ s, InputIntact ⟨fun _ => .ok ⟨100,40⟩,fun _ => .ok (utf8 "\x7b\"cols\":100,\"rows\":40\x7d")⟩ s ∧
      s.ops = [.byte 97,.byte 98,.byte 99,.resize ⟨100,40⟩,.byte 113] ∧ s.winsize = ⟨100,40⟩ ∧
      s.sent = [.reply (.refused "unknown client frame prefix 9")] := by
  have hr := System.reachable_end
    (m := system ⟨fun _ => .ok ⟨100,40⟩,fun _ => .ok (utf8 "\x7b\"cols\":100,\"rows\":40\x7d")⟩)
    shortWritesRun rfl
  exact ⟨_,input_stream_integrity hr,rfl,rfl,rfl⟩

end Terminald.Session
