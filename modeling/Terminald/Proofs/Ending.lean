import Terminald.Proofs.Output

namespace Terminald.Session
open Machine Protocol

/-- The operating system refuses the session its child, a write or a resize. -/
def ptyFails : Label → Bool
  | .spawn (.error _) => true
  | .write a =>
    match Pty.writePass a with
    | some (.error _) => true
    | _ => false
  | .ioctl (.error _) => true
  | _ => false

/-- The client closes the socket, or the socket fails. -/
def clientGone : Label → Bool
  | .receive (.ok .close) | .receive (.error _) | .send (.error _) => true
  | _ => false

def Outcome.byPty : Outcome → Bool
  | .failed (.spawn _) | .failed (.write _) | .failed (.resize _) => true
  | _ => false

def Outcome.byClient : Outcome → Bool
  | .closed | .failed (.send _) | .failed (.receive _) => true
  | _ => false

def Driver.outcome : Driver → Option Outcome
  | .terminating o | .returned o => some o
  | _ => none

/-- The client has been told that the session is over: all output and the exit
code, or an error if there never was a child. -/
def ClosingFrame (s : State) : Prop :=
  if s.process.isSome then
    ∃ pre code, s.sent = pre ++ [.queued (.exited code)] ∧ outputSent pre = bytesRead s.reads
  else ∃ text, .queued (.error text) ∈ s.sent ∨ .reply (.refused text) ∈ s.sent

/-- Why the driver is through, told by the labels passed. -/
structure Causes (past : List Label) (s : State) : Prop where
  pty : ∀ o, s.driver.outcome = some o → (o.byPty = true ↔ ∃ l ∈ past, ptyFails l = true)
  client : ∀ o, s.driver.outcome = some o → o.byClient = true → ∃ l ∈ past, clientGone l = true
  live : s.driver.over = false → ∀ l ∈ past, ptyFails l = false
  exhausted : s.driver.outcome ≠ some .exhausted

section Outcomes

@[simp] theorem outcome_spawning : Driver.spawning.outcome = none := rfl
@[simp] theorem outcome_select : Driver.select.outcome = none := rfl
@[simp] theorem outcome_sending : (Driver.sending m).outcome = none := rfl
@[simp] theorem outcome_replying : (Driver.replying r).outcome = none := rfl
@[simp] theorem outcome_writing : (Driver.writing call).outcome = none := rfl
@[simp] theorem outcome_resizing : (Driver.resizing size).outcome = none := rfl
@[simp] theorem outcome_terminating : (Driver.terminating o).outcome = some o := rfl
@[simp] theorem outcome_returned : (Driver.returned o).outcome = some o := rfl
@[simp] theorem outcome_dropped : Driver.dropped.outcome = none := rfl

end Outcomes

/-- The exit message is in the channel before the last sender is gone, so a
waiting driver never finds the channel closed. -/
theorem done_not_exhausted (hf : Flow s) (hx : ExitLast s) (hd : s.driver = .select)
    (hr : s.reader = .done) : s.channel.items ≠ [] := by
  obtain ⟨rest,tail,he,ht,hi⟩ := hf
  obtain rfl := hi (by simp [hd])
  rw [hr] at ht
  obtain ⟨code,rfl⟩ := ht
  intro hc
  have hsent : queuedSent s.sent = produced s.reads ++ [.exited code] := by
    simpa [inFlight,hd,hr,hc,Reader.held] using he
  have hm : .queued (.exited code) ∈ s.sent := mem_queuedSent.mp (by simp [hsent])
  obtain ⟨pre,post,hsplit⟩ := List.append_of_mem hm
  have := (hx pre post code hsplit).2
  simp [hd] at this

/-- A step in which the driver goes on, or what it came back with stays. -/
theorem Causes.keep (h : Causes past s) (hl : ptyFails l = false)
    (ho : t.driver.over = false → s.driver.over = false)
    (hd : ∀ o, t.driver.outcome = some o → s.driver.outcome = some o) : Causes (past ++ [l]) t := by
  refine ⟨?_,?_,?_,fun he => h.exhausted (hd _ he)⟩
  · intro o he
    simp [h.pty o (hd o he),or_and_right,exists_or,hl]
  · intro o he hb
    obtain ⟨k,hk,hg⟩ := h.client o (hd o he) hb
    exact ⟨k,List.mem_append_left _ hk,hg⟩
  · intro he k hk
    rcases List.mem_append.mp hk with hk | hk
    · exact h.live (ho he) k hk
    · exact List.mem_singleton.mp hk ▸ hl

/-- The step with which a live driver comes back. -/
theorem Causes.leave (h : Causes past s) (hlive : s.driver.over = false)
    (hd : t.driver.outcome = some o) (hover : t.driver.over = true)
    (hp : o.byPty = ptyFails l) (hc : o.byClient = true → clientGone l = true)
    (hx : o ≠ .exhausted) : Causes (past ++ [l]) t := by
  refine ⟨?_,?_,by simp [hover],by simpa [hd] using hx⟩
  · intro o' he
    obtain rfl := Option.some.inj (hd.symm.trans he)
    have hnone : ¬∃ k ∈ past, ptyFails k = true := by
      intro hex
      obtain ⟨k,hk,hf⟩ := hex
      simp [h.live hlive k hk] at hf
    simp [or_and_right,exists_or,hnone,hp]
  · intro o' he hb
    obtain rfl := Option.some.inj (hd.symm.trans he)
    exact ⟨l,by simp,hc hb⟩

theorem live_outcome {d : Driver} (h : d.over = false) : d.outcome = none := by
  cases d <;> simp at h ⊢

@[simp] theorem writeAll_outcome (data : Bytes) (written : Nat) :
    (writeAll data written).outcome = none :=
  live_outcome (writeAll_over data written)

theorem resize_refused (h : Pty.resize r = .error e) : ∃ error, r = .error error := by
  cases r with
  | ok u => simp [Pty.resize,Except.mapError] at h
  | error error => exact ⟨error,rfl⟩

theorem move_causes (h : Causes past s) (hf : Flow s) (hx : ExitLast s)
    (hm : Move json s l t) : Causes (past ++ [l]) t := by
  cases hm with
  | spawned hd => exact h.keep rfl (by simp [hd]) (by simp)
  | @spawnFailed e hd =>
    exact h.leave (o := .failed (.spawn e)) (by simp [hd]) rfl rfl rfl
      (by simp [Outcome.byClient]) (by simp)
  | @received msg hd =>
    by_cases hc : msg = .close
    · subst hc
      exact h.leave (o := .closed) (by simp [hd]) rfl rfl rfl (by simp [clientGone]) (by simp)
    · exact h.keep rfl (by simp [hd]) (by simp [live_outcome (handle_over _ json hc).1])
  | @receiveFailed e hd =>
    exact h.leave (o := .failed (.receive e)) (by simp [hd]) rfl rfl rfl (by simp [clientGone])
      (by simp)
  | exhausted hd hr hc => exact absurd hc (done_not_exhausted hf hx hd hr)
  | @delivered m hd =>
    cases m with
    | exited code =>
      exact h.leave (o := .exited) (by simp [hd]) rfl rfl rfl (by simp [Outcome.byClient]) (by simp)
    | output data | error text => exact h.keep rfl (by simp [hd]) (by simp [State.delivered])
  | @undelivered m e hd | @unreplied r e hd =>
    exact h.leave (o := .failed (.send e)) (by simp [hd]) rfl rfl rfl (by simp [clientGone])
      (by simp)
  | @writeFailed call a e hd ha =>
    exact h.leave (o := .failed (.write e)) (by simp [hd]) rfl rfl
      (by simp [ptyFails,ha,Outcome.byPty]) (by simp [Outcome.byClient]) (by simp)
  | @resizeFailed size r e hd hi =>
    obtain ⟨error,rfl⟩ := resize_refused hi
    exact h.leave (o := .failed (.resize e)) (by simp [hd]) rfl rfl rfl
      (by simp [Outcome.byClient]) (by simp)
  | @resized size r hd hi =>
    cases r with
    | ok u => exact h.keep rfl (by simp [hd]) (by simp)
    | error error => simp [Pty.resize,Except.mapError] at hi
  | wrote hd ha hk => exact h.keep (by simp [ptyFails,ha]) (by simp [hd]) (by simp)
  | writeAgain hd ha => exact h.keep (by simp [ptyFails,ha]) id (fun _ => id)
  | finished hd hp ht => exact h.keep rfl (by simp) (by simp [hd])
  | took hd hc | replied hd => exact h.keep rfl (by simp [hd]) (by simp)
  | dropped hs hr hd => exact h.keep rfl (by simp) (by simp)
  | posted hr ho hp | unposted hr ho => exact h.keep rfl (by simp) (by simp)
  | readAgain hr ha | readEnd hr ha | readData hr ha hne | readFailed hr ha | waited hr hw
  | process hp hs =>
    exact h.keep rfl id (fun _ => id)

theorem run_causes {json : Json} (hr : (system json).run start ls = some s) : Causes ls s := by
  refine (system json).run_history (I := Causes) ?_ ?_ hr
  · exact ⟨by simp [system,start],by simp [system,start],by simp,by simp [system,start]⟩
  · intro past s l t hp h hstep
    exact move_causes h (reachable_flow ⟨past,hp⟩) (reachable_exit_last ⟨past,hp⟩) (step_move hstep)

/-- Without a child nothing is sent, and `run_socket` is at its spawn or back from it. -/
def Childless (s : State) : Prop :=
  s.process = none → s.sent = [] ∧
    (s.driver = .spawning ∨ ∃ e, s.driver = .returned (.failed (.spawn e)))

/-- A step of a session that has its child. -/
theorem Childless.keep (h : Childless s) (hs : s.driver ≠ .spawning)
    (hr : ∀ e, s.driver ≠ .returned (.failed (.spawn e)))
    (hp : t.process = none → s.process = none) : Childless t := by
  intro hn
  rcases (h (hp hn)).2 with hd | ⟨e,hd⟩
  · exact absurd hd hs
  · exact absurd hd (hr e)

theorem handle_process (s : State) (json : Json) (msg : Message) :
    (s.handle json msg).process = none → s.process = none := by
  unfold State.handle
  split
  · split <;> exact id
  all_goals simp [State.leave]

theorem delivered_process (s : State) (m : ServerMessage) :
    (s.delivered m).process = none → s.process = none := by
  cases m <;> simp [State.delivered,State.leave]

theorem posted_process (s : State) (m : ServerMessage) (accepted : Bool) :
    (s.posted m accepted).process = none → s.process = none := by
  cases m <;> cases accepted <;> simp [State.posted,State.leaveLoop]

theorem move_childless (h : Childless s) (hstart : s.driver = .spawning → s = start)
    (hm : Move json s l t) : Childless t := by
  cases hm with
  | spawned hd => simp [Childless]
  | spawnFailed hd =>
    rw [hstart hd]
    exact fun _ => ⟨rfl,.inr ⟨_,rfl⟩⟩
  | received hd =>
    exact h.keep (by simp [hd]) (by simp [hd]) (handle_process _ json _)
  | delivered hd => exact h.keep (by simp [hd]) (by simp [hd]) (delivered_process _ _)
  | @posted m c hr ho hp =>
    intro hn
    simpa using h (posted_process { s with channel := c } m true hn)
  | unposted hr ho =>
    intro hn
    simpa using h (posted_process _ _ _ hn)
  | readEnd hr ha =>
    intro hn
    simpa using h (by simpa [State.leaveLoop] using hn)
  | process hp hs => simp [Childless]
  | took hd hc | receiveFailed hd | exhausted hd hr hc | replied hd | undelivered hd
  | unreplied hd | wrote hd ha hk | writeFailed hd ha | resized hd hi | resizeFailed hd hi
  | finished hd hp ht =>
    exact h.keep (by simp [hd]) (by simp [hd]) (by simp [State.leave])
  | dropped hs hr hd => exact h.keep hs (fun e => hr _) (by simp)
  | readAgain hr ha | readData hr ha hne | readFailed hr ha | waited hr hw | writeAgain hd ha =>
    exact h

theorem reachable_childless {json : Json} (hr : (system json).Reachable s) : Childless s := by
  refine hr.invariant (fun _ => ⟨rfl,.inl rfl⟩) ?_
  intro s l t hs h hstep
  exact move_childless h (spawning_start hs) (step_move hstep)

/-- The client has the exit code exactly if `drive_socket` came back with it. -/
def Told (s : State) : Prop :=
  s.driver ≠ .dropped →
    ((∃ code, .queued (.exited code) ∈ s.sent) ↔ s.driver.outcome = some .exited)

theorem Told.keep (h : Told s) (hs : s.driver ≠ .dropped)
    (ht : ∀ code, .queued (.exited code) ∈ t.sent ↔ .queued (.exited code) ∈ s.sent)
    (hd : t.driver.outcome = some .exited ↔ s.driver.outcome = some .exited) : Told t := by
  intro _
  simp only [ht,hd]
  exact h hs

theorem move_told (h : Told s) (hstart : s.driver = .spawning → s = start)
    (hm : Move json s l t) : Told t := by
  cases hm with
  | spawned hd | spawnFailed hd =>
    rw [hstart hd]
    exact fun _ => by simp [start]
  | @received msg hd =>
    apply h.keep (by simp [hd]) (by simp)
    by_cases hc : msg = .close
    · subst hc
      simp [State.handle,hd]
    · simp [live_outcome (handle_over _ json hc).1,hd]
  | @delivered m hd =>
    cases m with
    | exited code => exact fun _ => by simp [State.delivered,State.leave]
    | output data | error text =>
      exact h.keep (by simp [hd]) (by simp) (by simp [State.delivered,hd])
  | posted hr ho hp | unposted hr ho =>
    intro hd
    simpa using h (by simpa using hd)
  | took hd hc | receiveFailed hd | exhausted hd hr hc | replied hd | undelivered hd
  | unreplied hd | wrote hd ha hk | writeFailed hd ha | resized hd hi | resizeFailed hd hi
  | finished hd hp ht =>
    exact h.keep (by simp [hd]) (by simp) (by simp [hd])
  | dropped hs hr hd => exact fun hn => absurd rfl hn
  | readAgain hr ha | readEnd hr ha | readData hr ha hne | readFailed hr ha | waited hr hw
  | writeAgain hd ha | process hp hs =>
    exact h

theorem reachable_told {json : Json} (hr : (system json).Reachable s) : Told s := by
  apply hr.invariant (fun _ => by simp [system,start])
  intro s l t hs h hstep
  exact move_told h (spawning_start hs) (step_move hstep)

/-- After the exit frame the client has all there is. -/
theorem exited_closing {json : Json} (hr : (system json).Reachable s)
    (hd : s.driver = .returned .exited) : ClosingFrame s := by
  have hp : s.process.isSome = true := by
    by_contra hn
    rcases (reachable_childless hr (by simpa using hn)).2 with he | ⟨e,he⟩ <;> simp [hd] at he
  obtain ⟨code,hm⟩ := (reachable_told hr (by simp [hd])).mpr (by simp [hd])
  obtain ⟨pre,post,hsplit⟩ := List.append_of_mem hm
  obtain ⟨rfl,_⟩ := reachable_exit_last hr pre post code hsplit
  have hall := sent_all (reachable_flow hr) (reachable_shape hr) hsplit
  simp only [ClosingFrame,hp,if_true]
  exact ⟨pre,code,hsplit,by rw [outputSent,hall,produced_payload]⟩

/-- Whatever else `drive_socket` comes back with, the client has not heard the end. -/
theorem closing_exited {json : Json} (hr : (system json).Reachable s)
    (hd : s.driver = .returned o) (hc : ClosingFrame s) : o = .exited := by
  unfold ClosingFrame at hc
  split at hc
  · obtain ⟨pre,code,he,_⟩ := hc
    have := (reachable_told hr (by simp [hd])).mp ⟨code,by simp [he]⟩
    simpa [hd] using this
  · rename_i hn
    obtain ⟨text,hm⟩ := hc
    simp [(reachable_childless hr (by simpa using hn)).1] at hm

theorem exited_or_caused (o : Outcome) :
    o = .exited ∨ o = .exhausted ∨ o.byPty = true ∨ o.byClient = true := by
  cases o with
  | failed why => cases why <;> simp [Outcome.byPty,Outcome.byClient]
  | _ => simp [Outcome.byClient]

/-- A session whose client neither leaves nor loses its socket ends with the
closing frame if and only if the operating system refused it nothing. -/
theorem closing_frame_iff {json : Json} (hr : (system json).run start ls = some s)
    (hd : s.driver = .returned o) (hc : ∀ l ∈ ls, clientGone l = false) :
    ClosingFrame s ↔ ∀ l ∈ ls, ptyFails l = false := by
  have hcause := run_causes hr
  have ho : s.driver.outcome = some o := by rw [hd]; rfl
  constructor
  · intro hclose l hl
    obtain rfl := closing_exited ⟨ls,hr⟩ hd hclose
    by_contra hf
    have := (hcause.pty _ ho).mpr ⟨l,hl,by simpa using hf⟩
    simp [Outcome.byPty] at this
  · intro hp
    rcases exited_or_caused o with rfl | rfl | hb | hb
    · exact exited_closing ⟨ls,hr⟩ hd
    · exact absurd ho hcause.exhausted
    · obtain ⟨l,hl,hf⟩ := (hcause.pty _ ho).mp hb
      simp [hp l hl] at hf
    · obtain ⟨l,hl,hg⟩ := hcause.client _ ho hb
      simp [hc l hl] at hg

/-- The client types one byte and is served to the end. -/
def servedRun : List Label :=
  [.spawn (.ok 71),.receive (.ok (.binary [1,97])),.write (.result (.ok 1)),
   .read (.result (.ok ⟨[97],by decide⟩)),.post,.recv,.send (.ok ()),
   .process (.exit (.exited 3)),.read (.result (.error .eio)),
   .process (.lockWait 0),.process (.waitReturns 0 (.ok (.exited 3))),.waited,.post,.recv,
   .send (.ok ()),.process .lockCleanup,.process (.tryWait (.ok (some (.exited 3)))),.finish]

theorem closing_frame_iff_served :
    ∃ s, (system ⟨fun _ => .error "",fun _ => .error ""⟩).run start servedRun = some s ∧
      s.sent = [.queued (.output [97]),.queued (.exited 3)] ∧ ClosingFrame s := by
  have hr : (system ⟨fun _ => .error "",fun _ => .error ""⟩).run start servedRun = some _ := rfl
  exact ⟨_,hr,rfl,(closing_frame_iff hr rfl (by decide)).mpr (by decide)⟩

def State.childExited (s : State) : Bool := s.process.any (fun p => p.child != .running)

/-- The kernel the session may count on: spawns and resizes work, and the
terminal answers with EIO, to writes and at last to reads, once the child has exited. -/
def hangup (s : State) : Label → Bool
  | .spawn (.error _) | .ioctl (.error _) => false
  | .write (.result (.error e)) => s.childExited && e == .eio
  | .write _ => !s.childExited
  | .read (.result (.error e)) => s.childExited && e == .eio
  | .read (.notReady _) => false
  | _ => true

/-- The client types one byte just after the command has printed its last and exited. -/
def typingRun : List Label :=
  [.spawn (.ok 71),.read (.result (.ok ⟨[104,105],Nat.le_of_ble_eq_true rfl⟩)),.process (.exit (.exited 0)),
   .receive (.ok (.binary [1,97])),.post,.write (.result (.error .eio)),
   .process .lockCleanup,.process (.tryWait (.ok (some (.exited 0)))),.finish]

theorem closing_frame_typing :
    ¬∀ (json : Json) ls s o, ((system json).only hangup).run start ls = some s →
      s.driver = .returned o → (∀ l ∈ ls, clientGone l = false) → ClosingFrame s := by
  intro h
  obtain ⟨pre,code,he,_⟩ := h ⟨fun _ => .error "",fun _ => .error ""⟩ typingRun _ _ rfl rfl
    (by decide)
  have hnil : [] = pre ++ [.queued (.exited code)] := he
  simp at hnil

end Terminald.Session
