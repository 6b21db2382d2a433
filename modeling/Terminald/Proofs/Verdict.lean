import Terminald.Proofs.Completion
import Terminald.Proofs.Ending
import Terminald.Proofs.Line

namespace Terminald.Pty

/-- A status is told only of a child that was reaped with it, and a cleanup without an error has
reaped the child. -/
structure Honest (p : Process) : Prop where
  waited : ∀ (caller : Nat) (status : ExitStatus),
    p.waiters[caller]? = some (.returned (.ok status)) → p.child = .reaped status
  killing : p.cleanup = .killing true → ∃ status, p.child = .reaped status
  cleaned : p.cleanup = .returned (.ok ()) → ∃ status, p.child = .reaped status

/-- What was told stays told. -/
def Answers (p q : Process) : Prop :=
  ∀ (caller : Nat) result, p.waiters[caller]? = some (.returned result) →
    q.waiters[caller]? = some (.returned result)

section Process
variable {p q : Process} {event : Event}

theorem honest_spawned (id : Nat) : Honest (.spawned id) :=
  ⟨fun caller status h => by simp [Process.spawned] at h,by simp [Process.spawned],by simp [Process.spawned]⟩

theorem honest_wait (h : Honest p) : Honest p.wait := by
  refine ⟨fun caller status hw => h.waited caller status ?_,h.killing,h.cleaned⟩
  simp only [Process.wait,List.getElem?_append] at hw
  split at hw
  · exact hw
  · rw [List.getElem?_singleton] at hw
    split at hw <;> cases hw

theorem honest_terminate (h : Honest p) : Honest p.terminate := by
  cases hs : p.cleanupStarted with
  | true => rwa [terminate_started hs]
  | false =>
    rw [terminate_first hs]
    exact ⟨h.waited,by simp,by simp⟩

/-- A step that leaves the callers of `wait` alone. -/
theorem Honest.keep (h : Honest p) (hr : ∀ status, p.child = .reaped status → q.child = .reaped status)
    (hw : q.waiters = p.waiters) (hk : q.cleanup = .killing true → ∃ status, q.child = .reaped status)
    (hd : q.cleanup = .returned (.ok ()) → ∃ status, q.child = .reaped status) : Honest q :=
  ⟨fun caller status ho => hr status (h.waited caller status (hw ▸ ho)),hk,hd⟩

/-- A step of a caller of `wait` that is told no status. -/
theorem Honest.call {w : Waiter} {caller : Nat} (h : Honest p) (hn : ∀ status, w ≠ .returned (.ok status))
    (hw : q.waiters = p.waiters.set caller w) (hc : q.child = p.child) (hq : q.cleanup = p.cleanup) :
    Honest q := by
  refine ⟨fun other status ho => ?_,hc.symm ▸ hq.symm ▸ h.killing,hc.symm ▸ hq.symm ▸ h.cleaned⟩
  rw [hw,List.getElem?_set] at ho
  split at ho
  · split at ho
    · exact absurd (Option.some.inj ho) (hn status)
    · cases ho
  · exact hc.trans (h.waited other status ho)

theorem move_honest (h : Honest p) (hm : Move p event q) : Honest q := by
  have hr : ∀ status, p.child = .reaped status → q.child = .reaped status := fun _ => move_reaped hm
  cases hm with
  | exited hc => exact h.keep hr rfl (fun hk => (h.killing hk).imp hr) (fun hd => (h.cleaned hd).imp hr)
  | waitLocked hl hw | waitFailed hw => exact h.call (by simp) rfl rfl rfl
  | @waited caller status hw hc =>
    have hreap := Child.reap_reaped hc
    refine ⟨fun other found ho => ?_,fun _ => ⟨status,hreap⟩,fun _ => ⟨status,hreap⟩⟩
    simp only [List.getElem?_set] at ho
    split at ho
    · split at ho
      · cases ho
        exact hreap
      · cases ho
    · exact hr found (h.waited other found ho)
  | locked hl hc | there hc hs | alive hc hs | terminated hc hs | killedLate hc hs | checkFailed hc
  | pollFailed hc | terminateFailed hc hs | killFailed hc hs | reapFailed hc =>
    exact h.keep hr rfl (fun hk => by cases hk) (fun hd => by cases hd)
  | killed hc hs => exact h.keep hr rfl (fun hk => by cases hk) (fun _ => h.killing hc)
  | gone hc hs | reaped hc hs => exact h.keep hr rfl (fun hk => by cases hk) (fun _ => ⟨_,Child.reap_reaped hs⟩)
  | died hc hs => exact h.keep hr rfl (fun _ => ⟨_,Child.reap_reaped hs⟩) (fun hd => by cases hd)
  | @slept expired hc => exact h.keep hr rfl (by cases expired <;> simp) (by cases expired <;> simp)

theorem reachable_honest {id : Nat} (hr : (system id).Reachable p) : Honest p := by
  refine hr.invariant (honest_spawned id) ?_
  intro p call q _ h hs
  cases call with
  | terminate | drop => exact Option.some.inj hs ▸ honest_terminate h
  | wait => exact Option.some.inj hs ▸ honest_wait h
  | event event => exact move_honest h (step_move hs)

theorem answers_wait (p : Process) : Answers p p.wait := by
  intro caller result h
  exact (List.getElem?_append_left (List.getElem?_eq_some_iff.mp h).1).trans h

theorem answers_terminate (p : Process) : Answers p p.terminate := by
  intro caller result h
  cases hs : p.cleanupStarted with
  | true => rwa [terminate_started hs]
  | false => rwa [terminate_first hs]

theorem move_answers (hm : Move p event q) : Answers p q := by
  intro other result h
  cases hm with
  | @waitLocked caller hl hw | @waited caller status hw hc | @waitFailed caller error hw =>
    refine (List.getElem?_set_ne (fun he => ?_)).trans h
    subst he
    rw [h] at hw
    cases hw
  | @slept expired hc => exact h
  | exited hc | locked hl hc | checkFailed hc | pollFailed hc | gone hc hs | there hc hs | died hc hs
  | alive hc hs | terminated hc hs | terminateFailed hc hs | killed hc hs | killedLate hc hs
  | killFailed hc hs | reaped hc hs | reapFailed hc => exact h

theorem terminated_returned (h : p.terminated = true) : ∃ result, p.cleanup = .returned result := by
  unfold Process.terminated at h
  split at h
  · exact ⟨_,‹_›⟩
  · cases h

theorem move_terminated (h : p.terminated = true) (hm : Move p event q) : q.terminated = true := by
  obtain ⟨result,hr⟩ := terminated_returned h
  cases hm with
  | exited hc | waitLocked hl hw | waited hw hc | waitFailed hw => exact h
  | locked hl hc | checkFailed hc | pollFailed hc | gone hc hs | there hc hs | died hc hs | alive hc hs
  | terminated hc hs | terminateFailed hc hs | killed hc hs | killedLate hc hs | killFailed hc hs
  | slept hc | reaped hc hs | reapFailed hc => cases hr.symm.trans hc

end Process
end Terminald.Pty

namespace Terminald.Session
open Machine Protocol

/-- The code of what `wait` told the reader. -/
def Verdict (s : State) (code : Int32) : Prop :=
  ∃ p result, s.process = some p ∧ p.waiters[0]? = some (.returned result) ∧ code = exitCode result

/-- Sent, or to be sent. -/
def underWay (s : State) : List ServerMessage := queuedSent s.sent ++ inFlight s

/-- Every exit code on its way is a verdict. -/
def Judged (s : State) : Prop := ∀ code, .exited code ∈ underWay s → Verdict s code

/-- A session that has returned without having had a process could not spawn one; any other has
waited for the cleanup. -/
def Settled (s : State) : Prop := ∀ outcome, s.driver = .returned outcome →
  (∃ e, outcome = .failed (.spawn e)) ∨ ∃ p, s.process = some p ∧ p.terminated = true

section Steps
variable {json : Json} {s t : State} {l : Label}

/-- What becomes of the process in a step. -/
inductive Becomes (s : State) : Option Pty.Process → Prop
  | same : Becomes s s.process
  | waits : Becomes s (s.process.map Pty.Process.wait)
  | terminates : Becomes s (s.process.map Pty.Process.terminate)
  | moves {p q : Pty.Process} {event : Pty.Event} (hp : s.process = some p) (hm : Pty.Move p event q) :
      Becomes s (some q)

theorem move_becomes (hm : Move json s l t) (hd : s.driver ≠ .spawning) : Becomes s t.process := by
  cases hm with
  | spawned h | spawnFailed h => exact absurd h hd
  | readEnd hr ha => exact .waits
  | @posted m c hr ho hp => cases m <;> first | exact .same | exact .waits
  | @unposted m hr ho => cases m <;> first | exact .same | exact .waits
  | @received msg h =>
    rcases handle_processes { s with received := s.received ++ [msg] } json msg with he | he
    · rw [he]
      exact .same
    · rw [he]
      exact .terminates
  | @delivered m h => cases m <;> first | exact .same | exact .terminates
  | process hp he => exact .moves hp (Pty.step_move he)
  | receiveFailed h | exhausted h hr hc | undelivered h | unreplied h | writeFailed h ha
  | resizeFailed h hi | dropped hs hr h => exact .terminates
  | readAgain hr ha | readData hr ha hne | readFailed hr ha | waited hr hw | took h hc | replied h
  | writeAgain h ha | wrote h ha hk | resized h hi | finished h hp ht => exact .same

theorem Verdict.keep {code : Int32} (h : Verdict s code) (hb : Becomes s t.process) : Verdict t code := by
  obtain ⟨p,result,hp,hw,he⟩ := h
  generalize hq : t.process = process at hb
  cases hb with
  | same => exact ⟨p,result,hq.trans hp,hw,he⟩
  | waits => exact ⟨p.wait,result,by rw [hq,hp]; rfl,Pty.answers_wait p 0 result hw,he⟩
  | terminates => exact ⟨p.terminate,result,by rw [hq,hp]; rfl,Pty.answers_terminate p 0 result hw,he⟩
  | @moves p' q event hp' hm =>
    obtain rfl := Option.some.inj (hp.symm.trans hp')
    exact ⟨q,result,hq,Pty.move_answers hm 0 result hw,he⟩

theorem start_quiet : underWay start = [] := rfl

/-- What the driver has in its hands goes with it. -/
theorem let_go {code : Int32} (h : .exited code ∈ underWay t) (hs : t.sent = s.sent) (hd : t.driver.held = [])
    (hc : t.channel = s.channel) (hk : t.reader = s.reader) : .exited code ∈ underWay s := by
  simp only [underWay,inFlight,hs,hd,hc,hk,List.mem_append,List.not_mem_nil,false_or] at h ⊢
  tauto

/-- No step but the end of the wait makes an exit message. -/
theorem exited_origin {code : Int32} (hstart : s.driver = .spawning → s = start) (hm : Move json s l t)
    (h : .exited code ∈ underWay t) : .exited code ∈ underWay s ∨ Verdict t code := by
  cases hm with
  | spawned hd =>
    rw [hstart hd] at h
    simp [underWay,inFlight,queuedSent,start] at h
  | @waited result hr hw =>
    simp only [underWay,inFlight,held_posting,List.mem_append,List.mem_singleton] at h
    rcases h with h | h | h
    · exact .inl (by simp [underWay,h])
    · exact .inl (by simp only [underWay,inFlight,List.mem_append]; exact .inr (.inl h))
    · obtain ⟨p,hp,hw⟩ := Option.bind_eq_some_iff.mp hw
      exact .inr ⟨p,result,hp,hw,ServerMessage.exited.inj h⟩
  | @posted m c hr ho hp =>
    have hc := Queue.push_items hp
    refine .inl ?_
    simp only [underWay,inFlight,posted_sent,posted_driver,posted_channel,posted_held,hc,hr,held_posting,
      List.append_nil] at h ⊢
    simpa [or_assoc] using h
  | @unposted m hr ho =>
    refine .inl ?_
    simp only [underWay,inFlight,posted_sent,posted_driver,posted_channel,posted_held,List.append_nil] at h
    simp only [underWay,inFlight,List.mem_append] at h ⊢
    tauto
  | @took m rest hd hc =>
    refine .inl ?_
    simp only [underWay,inFlight,hd,held_select,held_sending,hc,Queue.drop_items,List.drop_one,List.tail_cons,
      List.nil_append] at h ⊢
    simpa using h
  | @delivered m hd =>
    refine .inl ?_
    simp only [underWay,inFlight,delivered_sent,queuedSent_snoc,Frame.message,Option.toList_some,delivered_held,
      delivered_channel,delivered_reader,hd,held_sending] at h ⊢
    simpa [or_assoc] using h
  | readAgain hr ha | writeAgain hd ha | process hp he => exact .inl h
  | readEnd hr ha => exact .inl (by simpa [underWay,inFlight,hr,State.leaveLoop,Reader.held] using h)
  | readData hr ha hne | readFailed hr ha => exact .inl (by simpa [underWay,inFlight,hr] using h)
  | received hd => exact .inl (by simpa [underWay,inFlight,hd] using h)
  | replied hd =>
    exact .inl (by simpa [underWay,inFlight,hd,queuedSent_snoc,Frame.message] using h)
  | wrote hd ha hk | resized hd hi => exact .inl (by simpa [underWay,inFlight,hd] using h)
  | spawnFailed hd | receiveFailed hd | exhausted hd hr hc | undelivered hd | unreplied hd | writeFailed hd ha
  | resizeFailed hd hi | finished hd hp ht | dropped hs hr hd =>
    exact .inl (let_go h rfl rfl rfl rfl)

theorem move_judged (h : Judged s) (hstart : s.driver = .spawning → s = start) (hm : Move json s l t) :
    Judged t := by
  intro code hcode
  rcases exited_origin hstart hm hcode with hold | hnew
  · refine (h code hold).keep (move_becomes hm (fun hd => ?_))
    rw [hstart hd] at hold
    cases (start_quiet ▸ hold : ServerMessage.exited code ∈ [])
  · exact hnew

theorem reachable_judged (hr : (system json).Reachable s) : Judged s := by
  refine hr.invariant (fun code h => ?_) ?_
  · cases (start_quiet ▸ h : ServerMessage.exited code ∈ [])
  · intro s l t hs h hstep
    exact move_judged h (spawning_start hs) (step_move hstep)

theorem handle_stays (s : State) (msg : Message) (outcome : Outcome) :
    (s.handle json msg).driver ≠ .returned outcome := by
  have hwrite : ∀ data written, writeAll data written ≠ .returned outcome := by
    intro data written
    unfold writeAll
    split <;> simp
  unfold State.handle
  split
  · split
    · exact hwrite _ _
    · simp
    · simp
  · exact hwrite _ _
  all_goals simp [State.leave]

/-- The driver is where it was, and no cleanup starts again. -/
theorem Settled.keep (h : Settled s) (hd : t.driver = s.driver)
    (hp : t.process = s.process ∨ t.process = s.process.map Pty.Process.wait) : Settled t := by
  intro outcome ho
  rcases h outcome (hd ▸ ho) with hf | ⟨p,hs,hdone⟩
  · exact .inl hf
  · rcases hp with hp | hp
    · exact .inr ⟨p,hp.trans hs,hdone⟩
    · exact .inr ⟨p.wait,by rw [hp,hs]; rfl,hdone⟩

theorem move_settled (h : Settled s) (hm : Move json s l t) : Settled t := by
  cases hm with
  | @spawnFailed e hd => exact fun outcome ho => .inl ⟨e,(Driver.returned.inj ho).symm⟩
  | finished hd hp ht => exact fun _ _ => .inr ⟨_,hp,ht⟩
  | readAgain hr ha | readData hr ha hne | readFailed hr ha | waited hr hw | writeAgain hd ha =>
    exact h.keep rfl (.inl rfl)
  | readEnd hr ha => exact h.keep rfl (.inr rfl)
  | @posted m c hr ho hp =>
    refine h.keep (posted_driver _ _ _) ?_
    cases m <;> first | exact .inl rfl | exact .inr rfl
  | @unposted m hr ho =>
    refine h.keep (posted_driver _ _ _) ?_
    cases m <;> first | exact .inl rfl | exact .inr rfl
  | process hp he =>
    intro outcome ho
    refine (h outcome ho).imp_right ?_
    rintro ⟨p,hs,hdone⟩
    obtain rfl := Option.some.inj (hp.symm.trans hs)
    exact ⟨_,rfl,Pty.move_terminated hdone (Pty.step_move he)⟩
  | received hd => exact fun outcome ho => absurd ho (handle_stays _ _ outcome)
  | @delivered m hd => exact fun outcome ho => by cases m <;> cases ho
  | @wrote call a count hd ha hk =>
    intro outcome ho
    have hwrite : writeAll call.data (call.written + count) = .returned outcome := ho
    unfold writeAll at hwrite
    split at hwrite <;> cases hwrite
  | spawned hd | took hd hc | receiveFailed hd | exhausted hd hr hc | replied hd | undelivered hd | unreplied hd
  | writeFailed hd ha | resized hd hi | resizeFailed hd hi | dropped hs hr hd =>
    exact fun outcome ho => by cases ho

theorem reachable_settled (hr : (system json).Reachable s) : Settled s :=
  hr.invariant (fun outcome h => by cases h) (fun _ _ _ _ h hstep => move_settled h (step_move hstep))

end Steps

/-- The code is the child's own, or it is the -1 that stands for a signal or a failed `wait`. -/
def Truth (s : State) (code : Int32) : Prop :=
  ∃ p, s.process = some p ∧ (p.child = .reaped (.exited code) ∨
    code = -1 ∧ ((∃ signal, p.child = .reaped (.signaled signal)) ∨
      ∃ e, p.waiters[0]? = some (.returned (.error e))))

section Told
variable {json : Json} {s : State}

theorem reachable_process_honest (hr : (system json).Reachable s) {p : Pty.Process}
    (hp : s.process = some p) : Pty.Honest p :=
  Pty.reachable_honest (reachable_process hr p hp)

theorem Verdict.truth (hr : (system json).Reachable s) {code : Int32} (h : Verdict s code) :
    Truth s code := by
  obtain ⟨p,result,hp,hw,rfl⟩ := h
  refine ⟨p,hp,?_⟩
  cases result with
  | error e => exact .inr ⟨rfl,.inr ⟨e,hw⟩⟩
  | ok status =>
    have hchild := (reachable_process_honest hr hp).waited 0 status hw
    cases status with
    | exited code => exact .inl hchild
    | signaled signal => exact .inr ⟨rfl,.inl ⟨signal,hchild⟩⟩

theorem sent_truth (hr : (system json).Reachable s) {code : Int32}
    (h : .queued (.exited code) ∈ s.sent) : Truth s code :=
  (reachable_judged hr code (List.mem_append_left _ (mem_queuedSent.mpr h))).truth hr

/-- A session tells its client no exit but the one there was, and with its code; and it does not
return with its child unwaited for, unless it could not be spawned or its cleanup has failed. -/
theorem exit_told (hr : (system json).Reachable s) :
    (∀ code, .queued (.exited code) ∈ s.sent → Truth s code) ∧
    ∀ outcome, s.driver = .returned outcome → (∃ e, outcome = .failed (.spawn e)) ∨
      ∃ p result, s.process = some p ∧ p.cleanup = .returned result ∧
        (result = .ok () → ∃ status, p.child = .reaped status) := by
  refine ⟨fun code => sent_truth hr,fun outcome ho => ?_⟩
  refine (reachable_settled hr outcome ho).imp_right ?_
  rintro ⟨p,hp,hdone⟩
  obtain ⟨result,hc⟩ := Pty.terminated_returned hdone
  refine ⟨p,result,hp,hc,?_⟩
  rintro rfl
  exact (reachable_process_honest hr hp).cleaned hc

theorem exit_told_served : ∃ (s : State) (p : Pty.Process) (status : Pty.ExitStatus),
    s.sent = [.queued (.output [97]),.queued (.exited 3)] ∧ Truth s 3 ∧
    s.process = some p ∧ p.child = .reaped status := by
  have hr := System.reachable_end (m := system ⟨fun _ => .error "",fun _ => .error ""⟩) servedRun rfl
  obtain ⟨htold,hdone⟩ := exit_told hr
  have htrue := htold 3 (.tail _ (.head _))
  obtain ⟨e,he⟩ | ⟨p,result,hp,hc,hok⟩ := hdone .exited rfl
  · cases he
  · obtain rfl := Option.some.inj hp
    obtain rfl := Pty.Cleanup.returned.inj hc
    obtain ⟨status,hs⟩ := hok rfl
    exact ⟨_,_,status,rfl,htrue,rfl,hs⟩

end Told
end Terminald.Session

namespace Terminald.Status
open Machine App Browser

/-- The last session's part is the end of what the terminal has. -/
theorem part_last {js : Js} {json : Protocol.Json} {s : (State × List Entry) × (Nat → Session.State)}
    (hr : (site js json).Reachable s) {i : Nat} (hi : i + 1 = s.1.1.page.sockets.length) :
    part js s.1.2 i <:+ s.1.1.page.written.flatten := by
  have hlast : ([i].map (part js s.1.2)).flatten = part js s.1.2 i := by simp
  rw [written_parts hr,← hi,List.range_succ,List.map_append,List.flatten_append,hlast]
  exact List.suffix_append _ _

/-- The status bar of the page tells of no other exit than that of the last session's child, and the
terminal ends with what that child has written. -/
theorem bar_truth {shown : Bool → Nat → String} {json : Protocol.Json}
    {s : (State × List Entry) × (Nat → Session.State)}
    (hr : (site (standard shown) json).Reachable s) (hc : s.1.1.page.connectionState.phase = .closed)
    {b : ConnectionState} (hb : Rendered shown s.1.1.page.connectionState b) :
    ∃ (i : Nat) (code : Int32), i + 1 = s.1.1.page.sockets.length ∧ Session.Truth (s.2 i) code ∧
      (connectionStatusBar b).line = text ("Closed · remote exited " ++ toString code.toInt) ∧
      Session.bytesRead (s.2 i).reads <:+ s.1.1.page.written.flatten := by
  obtain ⟨i,code,hi,hall,hsent,hshown⟩ := shut_exit hr hc
  exact ⟨i,code,hi,Session.sent_truth (site_session hr i) hsent,code_line hshown hb,
    hall ▸ part_last hr hi⟩

theorem bar_truth_exit : ∃ (s : _) (b : ConnectionState) (code : Int32), readOut.Reachable s ∧
    Session.Truth (s.2 1) code ∧
    (connectionStatusBar b).line = text ("Closed · remote exited " ++ toString code.toInt) := by
  have hr := System.reachable_end (m := readOut) secondSession rfl
  obtain ⟨b,hb⟩ := rendered_exists (System.logged_reachable (System.network_hub hr))
  obtain ⟨i,code,hi,htrue,hline,_⟩ := bar_truth hr rfl hb
  have hlast : i + 1 = 2 := hi
  obtain rfl : i = 1 := by omega
  exact ⟨_,b,code,hr,htrue,hline⟩

end Terminald.Status
