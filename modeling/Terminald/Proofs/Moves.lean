import Terminald.Model.Session

namespace Terminald.Session
open Machine Protocol

section Fields
variable (s : State) (o : Outcome) (m : ServerMessage) (b : Bool)

attribute [simp] State.leave State.leaveLoop

section Posted

@[simp] theorem posted_driver : (s.posted m b).driver = s.driver := by
  cases m <;> cases b <;> rfl
@[simp] theorem posted_channel : (s.posted m b).channel = s.channel := by
  cases m <;> cases b <;> rfl
@[simp] theorem posted_rxOpen : (s.posted m b).rxOpen = s.rxOpen := by
  cases m <;> cases b <;> rfl
@[simp] theorem posted_winsize : (s.posted m b).winsize = s.winsize := by
  cases m <;> cases b <;> rfl
@[simp] theorem posted_reads : (s.posted m b).reads = s.reads := by
  cases m <;> cases b <;> rfl
@[simp] theorem posted_received : (s.posted m b).received = s.received := by
  cases m <;> cases b <;> rfl
@[simp] theorem posted_ops : (s.posted m b).ops = s.ops := by
  cases m <;> cases b <;> rfl
@[simp] theorem posted_sent : (s.posted m b).sent = s.sent := by
  cases m <;> cases b <;> rfl

end Posted

section Delivered

@[simp] theorem delivered_reader : (s.delivered m).reader = s.reader := by cases m <;> rfl
@[simp] theorem delivered_channel : (s.delivered m).channel = s.channel := by cases m <;> rfl
@[simp] theorem delivered_rxOpen : (s.delivered m).rxOpen = s.rxOpen := by cases m <;> rfl
@[simp] theorem delivered_winsize : (s.delivered m).winsize = s.winsize := by cases m <;> rfl
@[simp] theorem delivered_reads : (s.delivered m).reads = s.reads := by cases m <;> rfl
@[simp] theorem delivered_received : (s.delivered m).received = s.received := by cases m <;> rfl
@[simp] theorem delivered_ops : (s.delivered m).ops = s.ops := by cases m <;> rfl
@[simp] theorem delivered_sent : (s.delivered m).sent = s.sent ++ [.queued m] := by
  cases m <;> rfl

end Delivered

section Handled
variable (json : Json) (msg : Message)

/-- Handling a message changes where the driver is and what it asks of the
process, nothing else. -/
theorem handle_frame : ∃ d p, s.handle json msg = { s with driver := d,process := p } := by
  unfold State.handle
  split
  · split <;> exact ⟨_,_,rfl⟩
  all_goals exact ⟨_,_,rfl⟩

@[simp] theorem handle_reader : (s.handle json msg).reader = s.reader := by
  obtain ⟨d,p,h⟩ := handle_frame s json msg; rw [h]
@[simp] theorem handle_channel : (s.handle json msg).channel = s.channel := by
  obtain ⟨d,p,h⟩ := handle_frame s json msg; rw [h]
@[simp] theorem handle_rxOpen : (s.handle json msg).rxOpen = s.rxOpen := by
  obtain ⟨d,p,h⟩ := handle_frame s json msg; rw [h]
@[simp] theorem handle_winsize : (s.handle json msg).winsize = s.winsize := by
  obtain ⟨d,p,h⟩ := handle_frame s json msg; rw [h]
@[simp] theorem handle_reads : (s.handle json msg).reads = s.reads := by
  obtain ⟨d,p,h⟩ := handle_frame s json msg; rw [h]
@[simp] theorem handle_received : (s.handle json msg).received = s.received := by
  obtain ⟨d,p,h⟩ := handle_frame s json msg; rw [h]
@[simp] theorem handle_ops : (s.handle json msg).ops = s.ops := by
  obtain ⟨d,p,h⟩ := handle_frame s json msg; rw [h]
@[simp] theorem handle_sent : (s.handle json msg).sent = s.sent := by
  obtain ⟨d,p,h⟩ := handle_frame s json msg; rw [h]

end Handled
end Fields

/-- `drive_socket` has come back, or never will. -/
def Driver.over : Driver → Bool
  | .terminating _ | .returned _ | .dropped => true
  | _ => false

section Over

@[simp] theorem over_spawning : Driver.spawning.over = false := rfl
@[simp] theorem over_select : Driver.select.over = false := rfl
@[simp] theorem over_sending : (Driver.sending m).over = false := rfl
@[simp] theorem over_replying : (Driver.replying f).over = false := rfl
@[simp] theorem over_writing : (Driver.writing call).over = false := rfl
@[simp] theorem over_resizing : (Driver.resizing size).over = false := rfl
@[simp] theorem over_terminating : (Driver.terminating o).over = true := rfl
@[simp] theorem over_returned : (Driver.returned o).over = true := rfl
@[simp] theorem over_dropped : Driver.dropped.over = true := rfl

@[simp] theorem writeAll_over (data : Bytes) (written : Nat) :
    (writeAll data written).over = false := by
  unfold writeAll
  split <;> rfl

end Over

/-- Of all messages only a close ends the session. -/
theorem handle_over (s : State) (json : Json) (h : msg ≠ .close) :
    (s.handle json msg).driver.over = false ∧ (s.handle json msg).process = s.process := by
  cases msg with
  | binary frame => cases hd : ClientMessage.decode json frame with
    | error e => simp [State.handle,hd]
    | ok message => cases message <;> simp [State.handle,hd]
  | text text => simp [State.handle]
  | close => exact absurd rfl h
  | ping data | pong data => simp [State.handle]

/-- Everything one step of a session can do, with the guard it is taken under. -/
inductive Move (json : Json) (s : State) : Label → State → Prop
  | spawned (hd : s.driver = .spawning) :
      Move json s (.spawn (.ok pid))
        { s with driver := .select,reader := .reading,process := some (.spawned pid) }
  | spawnFailed (hd : s.driver = .spawning) :
      Move json s (.spawn (.error e)) { s with driver := .returned (.failed (.spawn e)) }
  | readAgain (hr : s.reader = .reading) (ha : Pty.read a = none) :
      Move json s (.read a) { s with reads := s.reads ++ [a] }
  | readEnd (hr : s.reader = .reading) (ha : Pty.read a = some (.ok [])) :
      Move json s (.read a) { s with reads := s.reads ++ [a] }.leaveLoop
  | readData (hr : s.reader = .reading) (ha : Pty.read a = some (.ok data)) (hne : data ≠ []) :
      Move json s (.read a) { s with reads := s.reads ++ [a],reader := .posting (.output data) }
  | readFailed (hr : s.reader = .reading) (ha : Pty.read a = some (.error e)) :
      Move json s (.read a)
        { s with reads := s.reads ++ [a],reader := .posting (.error e.alternate) }
  | posted (hr : s.reader = .posting m) (ho : s.rxOpen = true)
      (hp : s.channel.push [m] = some c) :
      Move json s .post ({ s with channel := c }.posted m true)
  | unposted (hr : s.reader = .posting m) (ho : s.rxOpen = false) :
      Move json s .post (s.posted m false)
  | waited (hr : s.reader = .waiting) (hw : s.waiter = some (.returned result)) :
      Move json s .waited { s with reader := .posting (.exited (exitCode result)) }
  | took (hd : s.driver = .select) (hc : s.channel.items = m :: rest) :
      Move json s .recv { s with driver := .sending m,channel := s.channel.drop 1 }
  | received (hd : s.driver = .select) :
      Move json s (.receive (.ok msg)) ({ s with received := s.received ++ [msg] }.handle json msg)
  | receiveFailed (hd : s.driver = .select) :
      Move json s (.receive (.error e)) (s.leave (.failed (.receive e)))
  | exhausted (hd : s.driver = .select) (hr : s.reader = .done) (hc : s.channel.items = []) :
      Move json s .exhausted (s.leave .exhausted)
  | delivered (hd : s.driver = .sending m) : Move json s (.send (.ok ())) (s.delivered m)
  | replied (hd : s.driver = .replying f) :
      Move json s (.send (.ok ())) { s with driver := .select,sent := s.sent ++ [.reply f] }
  | undelivered (hd : s.driver = .sending m) :
      Move json s (.send (.error e)) (s.leave (.failed (.send e)))
  | unreplied (hd : s.driver = .replying f) :
      Move json s (.send (.error e)) (s.leave (.failed (.send e)))
  | writeAgain (hd : s.driver = .writing call) (ha : Pty.writePass a = none) :
      Move json s (.write a) s
  | wrote (hd : s.driver = .writing call) (ha : Pty.writePass a = some (.ok count))
      (hk : call.written + count ≤ call.data.length) :
      Move json s (.write a)
        { s with driver := writeAll call.data (call.written + count),
                 ops := s.ops ++ ((call.data.drop call.written).take count).map .byte }
  | writeFailed (hd : s.driver = .writing call) (ha : Pty.writePass a = some (.error e)) :
      Move json s (.write a) (s.leave (.failed (.write e)))
  | resized (hd : s.driver = .resizing size) (hi : Pty.resize r = .ok ()) :
      Move json s (.ioctl r)
        { s with driver := .select,winsize := size,ops := s.ops ++ [.resize size] }
  | resizeFailed (hd : s.driver = .resizing size) (hi : Pty.resize r = .error e) :
      Move json s (.ioctl r) (s.leave (.failed (.resize e)))
  | finished (hd : s.driver = .terminating o) (hp : s.process = some p)
      (ht : p.terminated = true) :
      Move json s .finish { s with driver := .returned o,rxOpen := false }
  | dropped (hs : s.driver ≠ .spawning) (hr : ∀ o, s.driver ≠ .returned o)
      (hd : s.driver ≠ .dropped) :
      Move json s .drop
        { s with driver := .dropped,rxOpen := false,process := s.process.map Pty.Process.terminate }
  | process (hp : s.process = some p) (hs : p.step event = some q) :
      Move json s (.process event) { s with process := some q }

/-- The step function does nothing else. -/
theorem step_move {json : Json} {s t : State} {l : Label} (h : step json s l = some t) :
    Move json s l t := by
  cases l with
  | spawn result =>
    simp only [step] at h
    split at h <;> cases h
    · exact .spawned (by assumption)
    · exact .spawnFailed (by assumption)
  | read a =>
    simp only [step] at h
    split at h <;> try cases h
    split at h <;> cases h
    · exact .readAgain (by assumption) (by assumption)
    · exact .readEnd (by assumption) (by assumption)
    · exact .readData (by assumption) (by assumption) (by assumption)
    · exact .readFailed (by assumption) (by assumption)
  | post =>
    simp only [step] at h
    split at h <;> try cases h
    split at h
    · obtain ⟨c,hc,he⟩ := Option.map_eq_some_iff.mp h
      subst he
      exact .posted (by assumption) (by assumption) hc
    · cases h
      exact .unposted (by assumption) (by simpa using ‹¬s.rxOpen = true›)
  | waited =>
    simp only [step] at h
    split at h <;> cases h
    exact .waited (by assumption) (by assumption)
  | recv =>
    simp only [step] at h
    split at h <;> cases h
    exact .took (by assumption) (by assumption)
  | receive message =>
    simp only [step] at h
    split at h <;> cases h
    · exact .received (by assumption)
    · exact .receiveFailed (by assumption)
  | exhausted =>
    simp only [step] at h
    split at h <;> cases h
    exact .exhausted (by assumption) (by assumption) (by assumption)
  | send result =>
    simp only [step] at h
    split at h <;> cases h
    · exact .delivered (by assumption)
    · exact .replied (by assumption)
    · exact .undelivered (by assumption)
    · exact .unreplied (by assumption)
  | write a =>
    simp only [step] at h
    split at h <;> try cases h
    split at h <;> try cases h
    · exact .writeAgain (by assumption) (by assumption)
    · split at h <;> cases h
      exact .wrote (by assumption) (by assumption) (by assumption)
    · exact .writeFailed (by assumption) (by assumption)
  | ioctl result =>
    simp only [step] at h
    split at h <;> try cases h
    split at h <;> cases h
    · exact .resized (by assumption) (by assumption)
    · exact .resizeFailed (by assumption) (by assumption)
  | finish =>
    simp only [step] at h
    split at h <;> try cases h
    split at h <;> cases h
    exact .finished (by assumption) (by assumption) (by assumption)
  | drop =>
    simp only [step] at h
    split at h <;> cases h
    exact .dropped (by assumption) (by assumption) (by assumption)
  | process event =>
    simp only [step] at h
    split at h <;> try cases h
    obtain ⟨q,hq,he⟩ := Option.map_eq_some_iff.mp h
    subst he
    exact .process (by assumption) hq

theorem writeAll_spawning (data : Bytes) (written : Nat) : writeAll data written ≠ .spawning := by
  unfold writeAll
  split <;> simp

theorem handle_spawning (s : State) (json : Json) (msg : Message) :
    (s.handle json msg).driver ≠ .spawning := by
  unfold State.handle
  split
  · split <;> first | exact writeAll_spawning _ _ | simp
  all_goals first | exact writeAll_spawning _ _ | simp

theorem delivered_spawning (s : State) (m : ServerMessage) :
    (s.delivered m).driver ≠ .spawning := by
  cases m <;> simp [State.delivered]

theorem step_spawning {json : Json} (hs : s.driver = .spawning → s = start)
    (h : step json s l = some t) : t.driver ≠ .spawning := by
  by_cases hd : s.driver = .spawning
  · rw [hs hd] at h
    cases l <;> simp only [step,start] at h <;> try contradiction
    split at h <;> cases h <;> simp
  · cases step_move h
    case received => exact handle_spawning _ _ _
    case delivered => exact delivered_spawning _ _
    case wrote => exact writeAll_spawning _ _
    all_goals simp_all

/-- Nothing moves before the child is spawned. -/
theorem spawning_start {json : Json} (hr : (system json).Reachable s)
    (hd : s.driver = .spawning) : s = start :=
  hr.invariant (I := fun s => s.driver = .spawning → s = start) (fun _ => rfl)
    (fun _ _ _ _ ih hstep ht => absurd ht (step_spawning ih hstep)) hd

/-- The receiver is only dropped by a driver that is through. -/
theorem live_open {json : Json} (hr : (system json).Reachable s) :
    s.driver.over = false → s.rxOpen = true := by
  apply hr.invariant (I := fun s => s.driver.over = false → s.rxOpen = true) (fun _ => rfl)
  intro s l t _ ih hstep
  cases step_move hstep <;> simp_all

end Terminald.Session
