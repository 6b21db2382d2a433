import Terminald.Model.Handle
import Terminald.Proofs.Locks

namespace Terminald.Pty
open Machine

def bothSignals (id : Nat) : List Sent := [⟨.sigterm,id⟩,⟨.sigkill,id⟩]

@[simp] theorem terminate_sent (id : Nat) (result : Except IoError Unit) :
    (terminateProcessGroup id result).1 = ⟨.sigterm,id⟩ := rfl

@[simp] theorem kill_sent (id : Nat) (result : Except IoError Unit) :
    (killProcessGroup id result).1 = ⟨.sigkill,id⟩ := rfl

/-- What the cleanup has found and sent by each of its points; a calm run is one
without failures. -/
def Stage (id : Nat) (child : Child) (calm : Bool) (found : List (Except Error (Option ExitStatus)))
    (sent : List Sent) : Cleanup → Prop
  | .idle | .locking | .checking => found = [] ∧ sent = []
  | .terminating => found = [.ok none] ∧ sent = []
  | .polling | .pausing => found = [.ok none] ∧ sent = [⟨.sigterm,id⟩]
  | .killing childExited =>
    found = [.ok none] ∧ sent = [⟨.sigterm,id⟩] ∧ (childExited = true → ∃ status, child = .reaped status)
  | .waiting => found = [.ok none] ∧ sent = bothSignals id
  | .returned result =>
    (∃ status, found = [.ok (some status)] ∧ sent = []) ∨ (∃ error, found = [.error error] ∧ sent = []) ∨
      found = [.ok none] ∧ (calm = true → result = .ok () ∧ sent = bothSignals id ∧
        ∃ status, child = .reaped status)

theorem Child.reap_reaped {child : Child} {status : ExitStatus} (h : child.status = some status) :
    child.reap = .reaped status := by
  cases child <;> cases h <;> rfl

theorem move_reaped {status : ExitStatus} (hm : Move p event q) (h : p.child = .reaped status) :
    q.child = .reaped status := by
  cases hm with
  | exited hc => cases hc.symm.trans h
  | waited hw hc | gone hc hs | died hc hs | reaped hc hs =>
    simp only [Process.finish,h]
    rfl
  | waitLocked hl hw | waitFailed hw | locked hl hc | checkFailed hc | pollFailed hc | there hc hs
  | alive hc hs | terminated hc hs | terminateFailed hc hs | killed hc hs | killedLate hc hs
  | killFailed hc hs | slept hc | reapFailed hc => exact h

variable {id : Nat}

/-- A step that is not the cleanup's own leaves what it has done. -/
theorem Stage.keep {child child' : Child} {calm calm' : Bool} {cleanup : Cleanup}
    (h : Stage id child calm found sent cleanup)
    (hchild : ∀ status, child = .reaped status → child' = .reaped status)
    (hcalm : calm' = true → calm = true) : Stage id child' calm' found sent cleanup := by
  have kept : (∃ status, child = .reaped status) → ∃ status, child' = .reaped status :=
    fun ⟨status,hs⟩ => ⟨status,hchild status hs⟩
  cases cleanup with
  | killing childExited => exact ⟨h.1,h.2.1,fun he => kept (h.2.2 he)⟩
  | returned result =>
    rcases h with h | h | ⟨hf,h⟩
    · exact .inl h
    · exact .inr (.inl h)
    · refine .inr (.inr ⟨hf,fun hc => ?_⟩)
      obtain ⟨hr,hs,hchild⟩ := h (hcalm hc)
      exact ⟨hr,hs,kept hchild⟩
  | idle | locking | checking | terminating | polling | pausing | waiting => exact h

/-- Only ESRCH is no failure of a signal, and it is taken for success. -/
theorem signal_unfailing {signal : Signal} {action : String} {error : Error} {result : Except IoError Unit}
    (h : (signalProcessGroup id signal action result).2 = .error error) :
    unfailing (.event (.signal result)) = false := by
  cases result with
  | ok u => cases h
  | error e =>
    simp only [signalProcessGroup] at h
    split at h
    · cases h
    · rename_i hne
      simpa [unfailing] using hne

/-- What the steps make of the child. -/
theorem move_child (hm : Move p event q) : q.child = p.child ∨ q.child = p.child.reap ∨
    p.child = .running ∧ ∃ status, q.child = .exited status := by
  cases hm with
  | exited hc => exact .inr (.inr ⟨hc,_,rfl⟩)
  | waited hw hc | gone hc hs | died hc hs | reaped hc hs => exact .inr (.inl rfl)
  | waitLocked hl hw | waitFailed hw | locked hl hc | checkFailed hc | pollFailed hc | there hc hs
  | alive hc hs | terminated hc hs | terminateFailed hc hs | killed hc hs | killedLate hc hs
  | killFailed hc hs | slept hc | reapFailed hc => exact .inl rfl

/-- Every wait that is through has the status of the child. -/
def Answered (p : Process) : Prop :=
  ∀ (caller : Nat) result, p.waiters[caller]? = some (.returned result) →
    ∃ status, result = .ok status ∧ p.child = .reaped status

theorem move_answered (hm : Move p event q) (hu : unfailing (.event event) = true) (h : Answered p) :
    Answered q := by
  have kept : q.waiters = p.waiters → Answered q := by
    intro hw caller result hr
    rw [hw] at hr
    obtain ⟨status,rfl,hs⟩ := h caller result hr
    exact ⟨status,rfl,move_reaped hm hs⟩
  have other : ∀ {place : Nat} {waiter : Waiter} {caller : Nat} {result : Except Error ExitStatus},
      q.waiters = p.waiters.set place waiter → place ≠ caller →
      q.waiters[caller]? = some (.returned result) →
      ∃ status, result = .ok status ∧ q.child = .reaped status := by
    intro place waiter caller result hw hne hr
    rw [hw,List.getElem?_set_ne hne] at hr
    obtain ⟨status,rfl,hs⟩ := h caller result hr
    exact ⟨status,rfl,move_reaped hm hs⟩
  cases hm with
  | @waitLocked place hl hw =>
    intro caller result hr
    by_cases he : place = caller
    · subst he
      simp [(List.getElem?_eq_some_iff.mp hw).1] at hr
    · exact other rfl he hr
  | @waited place status hw hc =>
    intro caller result hr
    by_cases he : place = caller
    · subst he
      obtain rfl : Except.ok status = result := by simpa [(List.getElem?_eq_some_iff.mp hw).1] using hr
      exact ⟨status,rfl,Child.reap_reaped hc⟩
    · exact other rfl he hr
  | waitFailed hw => simp [unfailing,Except.isOk,Except.toBool] at hu
  | exited hc | locked hl hc | checkFailed hc | pollFailed hc | gone hc hs | there hc hs | died hc hs
  | alive hc hs | terminated hc hs | terminateFailed hc hs | killed hc hs | killedLate hc hs
  | killFailed hc hs | slept hc | reaped hc hs | reapFailed hc => exact kept rfl

theorem move_stage (hm : Move p event q) (h : Stage p.id p.child calm found sent p.cleanup) :
    Stage q.id q.child (calm && unfailing (.event event)) (found ++ checks p (.event event))
      (sent ++ signals p (.event event)) q.cleanup := by
  have hchild : ∀ status, p.child = .reaped status → q.child = .reaped status :=
    fun _ => move_reaped hm
  have hcalm : (calm && unfailing (.event event)) = true → calm = true := fun hc => (Bool.and_eq_true_iff.mp hc).1
  cases hm with
  | exited hc | waitLocked hl hw | waited hw hc | waitFailed hw =>
    simpa [checks,signals] using h.keep hchild hcalm
  | locked hl hc =>
    rw [hc] at h
    simpa [checks,signals,Stage] using h
  | @checkFailed error hc =>
    rw [hc] at h
    obtain ⟨rfl,rfl⟩ := h
    exact .inr (.inl ⟨error,by simp [checks,hc],rfl⟩)
  | @gone status hc hs =>
    rw [hc] at h
    obtain ⟨rfl,rfl⟩ := h
    exact .inl ⟨status,by simp [checks,hc],rfl⟩
  | there hc hs =>
    rw [hc] at h
    obtain ⟨rfl,rfl⟩ := h
    exact ⟨by simp [checks,hc],rfl⟩
  | terminated hc hs =>
    rw [hc] at h
    obtain ⟨rfl,rfl⟩ := h
    exact ⟨rfl,by simp [signals,hc]⟩
  | terminateFailed hc hs =>
    rw [hc] at h
    obtain ⟨rfl,rfl⟩ := h
    exact .inr (.inr ⟨rfl,fun hf => by simp [signal_unfailing hs] at hf⟩)
  | pollFailed hc =>
    rw [hc] at h
    obtain ⟨rfl,rfl⟩ := h
    exact .inr (.inr ⟨by simp [checks,hc],fun hf => by simp [unfailing,Except.isOk,Except.toBool] at hf⟩)
  | died hc hs =>
    rw [hc] at h
    obtain ⟨rfl,rfl⟩ := h
    exact ⟨by simp [checks,hc],rfl,fun _ => ⟨_,Child.reap_reaped hs⟩⟩
  | alive hc hs =>
    rw [hc] at h
    obtain ⟨rfl,rfl⟩ := h
    exact ⟨by simp [checks,hc],rfl⟩
  | @slept expired hc =>
    rw [hc] at h
    obtain ⟨rfl,rfl⟩ := h
    cases expired
    · exact ⟨rfl,rfl⟩
    · exact ⟨rfl,rfl,by simp⟩
  | killed hc hs =>
    rw [hc] at h
    obtain ⟨rfl,rfl,hr⟩ := h
    exact .inr (.inr ⟨rfl,fun _ => ⟨rfl,by simp [signals,hc,bothSignals,Process.finish],hr rfl⟩⟩)
  | killedLate hc hs =>
    rw [hc] at h
    obtain ⟨rfl,rfl,_⟩ := h
    exact ⟨rfl,by simp [signals,hc,bothSignals]⟩
  | killFailed hc hs =>
    rw [hc] at h
    obtain ⟨rfl,rfl,_⟩ := h
    exact .inr (.inr ⟨rfl,fun hf => by simp [signal_unfailing hs] at hf⟩)
  | reaped hc hs =>
    rw [hc] at h
    obtain ⟨rfl,rfl⟩ := h
    exact .inr (.inr ⟨rfl,fun _ => ⟨rfl,List.append_nil _,_,Child.reap_reaped hs⟩⟩)
  | reapFailed hc =>
    rw [hc] at h
    obtain ⟨rfl,rfl⟩ := h
    exact .inr (.inr ⟨rfl,fun hf => by simp [unfailing,Except.isOk,Except.toBool] at hf⟩)

/-- The ways into the cleanup and past its door. -/
def Cleanup.entered : Cleanup → Nat
  | .idle | .locking => 0
  | _ => 1

theorem Cleanup.entered_le (cleanup : Cleanup) : cleanup.entered ≤ 1 := by
  cases cleanup <;> simp [Cleanup.entered]

def Child.gone : Child → List ExitStatus
  | .reaped status => [status]
  | _ => []

/-- What a run has done so far, read off the state it leads to. -/
structure Account (id : Nat) (past : List Call) (p : Process) : Prop where
  locks : Locks p
  group : p.id = id
  bodies : past.count (.event .lockCleanup) = p.cleanup.entered
  stage : Stage id p.child (past.all unfailing) ((system id).collect checks (.spawned id) past)
    ((system id).collect signals (.spawned id) past) p.cleanup
  reaped : (system id).collect reaps (.spawned id) past = p.child.gone
  answered : past.all unfailing = true → Answered p

theorem reaps_gone {c : Call} (h : p.call c = some q) (hc : q.child = p.child ∨ q.child = p.child.reap ∨
    p.child = .running ∧ ∃ status, q.child = .exited status) : p.child.gone ++ reaps p c = q.child.gone := by
  simp only [reaps,h,Option.map_some]
  rcases hc with hc | hc | ⟨hrun,status,hc⟩
  · rw [hc]
    cases p.child <;> rfl
  · rw [hc]
    cases p.child <;> rfl
  · rw [hc,hrun]
    rfl

theorem move_bodies (hm : Move p event q) :
    p.cleanup.entered + (if event = .lockCleanup then 1 else 0) = q.cleanup.entered := by
  cases hm with
  | exited hc | waitLocked hl hw | waited hw hc | waitFailed hw => rfl
  | @slept expired hc =>
    rw [hc]
    cases expired <;> rfl
  | locked hl hc | checkFailed hc | pollFailed hc | gone hc hs | there hc hs | died hc hs
  | alive hc hs | terminated hc hs | terminateFailed hc hs | killed hc hs | killedLate hc hs
  | killFailed hc hs | reaped hc hs | reapFailed hc =>
    rw [hc]
    rfl

theorem move_id (hm : Move p event q) : q.id = p.id := by
  cases hm <;> rfl

theorem terminate_id (p : Process) : p.terminate.id = p.id := by
  cases hs : p.cleanupStarted with
  | true => rw [terminate_started hs]
  | false => rw [terminate_first hs]

section Runs
variable {past : List Call} {c : Call}

theorem calm_before (h : (past ++ [c]).all unfailing = true) : past.all unfailing = true := by
  rw [List.all_append] at h
  exact (Bool.and_eq_true_iff.mp h).1

/-- A call from outside makes a waiter, or starts the cleanup, or does nothing. -/
theorem Account.called (hr : (system id).run (.spawned id) past = some p) (h : Account id past p)
    (hc : p.call c = some q) (hlocks : Locks q) (hid : q.id = p.id) (hchild : q.child = p.child)
    (hclean : q.cleanup = p.cleanup ∨ p.cleanup = .idle ∧ q.cleanup = .locking)
    (hanswered : Answered p → Answered q)
    (hquiet : checks p c = [] ∧ signals p c = [] ∧ c ≠ .event .lockCleanup) :
    Account id (past ++ [c]) q := by
  refine ⟨hlocks,hid.trans h.group,?_,?_,?_,fun ha => hanswered (h.answered (calm_before ha))⟩
  · have hentered : q.cleanup.entered = p.cleanup.entered := by
      rcases hclean with he | ⟨hp,hq⟩
      · rw [he]
      · rw [hp,hq]
        rfl
    rw [List.count_append,h.bodies,hentered,List.count_singleton,if_neg (by simpa using hquiet.2.2)]
    rfl
  · rw [System.collect_snoc hr,System.collect_snoc hr,hquiet.1,hquiet.2.1,List.append_nil,List.append_nil,hchild]
    have hstage := h.stage.keep (fun _ hs => hs) (calm_before (c := c))
    rcases hclean with he | ⟨hp,hq⟩
    · rw [he]
      exact hstage
    · rw [hp] at hstage
      rw [hq]
      exact hstage
  · rw [System.collect_snoc hr,h.reaped]
    exact reaps_gone hc (.inl hchild)

theorem Account.terminate (hr : (system id).run (.spawned id) past = some p) (h : Account id past p)
    (hc : p.call c = some p.terminate)
    (hquiet : checks p c = [] ∧ signals p c = [] ∧ c ≠ .event .lockCleanup) :
    Account id (past ++ [c]) p.terminate := by
  have hlocks := locks_terminate h.locks
  cases hs : p.cleanupStarted with
  | true =>
    rw [terminate_started hs] at hc hlocks ⊢
    exact h.called hr hc hlocks rfl rfl (.inl rfl) (fun ha => ha) hquiet
  | false =>
    have hidle : p.cleanup = .idle := by
      by_contra hn
      simp [h.locks.started.mpr hn] at hs
    rw [terminate_first hs] at hc hlocks ⊢
    exact h.called hr hc hlocks rfl rfl (.inr ⟨hidle,rfl⟩) (fun ha => ha) hquiet

theorem answered_wait (h : Answered p) : Answered p.wait := by
  intro caller result hr
  refine h caller result ?_
  simp only [Process.wait,List.getElem?_append] at hr
  split at hr
  · exact hr
  · simp [List.getElem?_singleton] at hr

theorem account_step (hr : (system id).run (.spawned id) past = some p) (h : Account id past p)
    (hc : p.call c = some q) : Account id (past ++ [c]) q := by
  cases c with
  | terminate | drop =>
    cases hc
    exact h.terminate hr rfl ⟨rfl,rfl,by simp⟩
  | wait =>
    cases hc
    exact h.called hr rfl (locks_wait h.locks) rfl rfl (.inl rfl) answered_wait ⟨rfl,rfl,by simp⟩
  | event event =>
    have hm := step_move hc
    refine ⟨move_locks h.locks hm,(move_id hm).trans h.group,?_,?_,?_,?_⟩
    · rw [List.count_append,h.bodies,← move_bodies hm,List.count_singleton]
      simp
    · have hstage := move_stage hm (h.group.symm ▸ h.stage)
      rw [move_id hm,h.group] at hstage
      rw [System.collect_snoc hr,System.collect_snoc hr]
      simpa using hstage
    · rw [System.collect_snoc hr,h.reaped]
      exact reaps_gone hc (move_child hm)
    · intro ha
      refine move_answered hm ?_ (h.answered (calm_before ha))
      rw [List.all_append] at ha
      simpa using (Bool.and_eq_true_iff.mp ha).2

theorem run_account {ls : List Call} (hr : (system id).run (.spawned id) ls = some p) : Account id ls p :=
  System.run_history (m := system id) (I := Account id)
    ⟨locks_spawned id,rfl,rfl,⟨rfl,rfl⟩,rfl,fun _ _ _ hw => by simp [Process.spawned,system] at hw⟩
    (fun _ _ _ _ hr h hc => account_step hr h hc) hr

end Runs

section After
variable {p q : Process} {result : Except Error Unit} {status : ExitStatus} {caller : Nat}

theorem call_locks {c : Call} (h : Locks p) (hc : p.call c = some q) : Locks q := by
  cases c with
  | terminate | drop =>
    cases hc
    exact locks_terminate h
  | wait =>
    cases hc
    exact locks_wait h
  | event event => exact move_locks h (step_move hc)

theorem call_returned {c : Call} (h : Locks p) (hp : p.cleanup = .returned result)
    (hchild : p.child = .reaped status) (hc : p.call c = some q) :
    q.cleanup = .returned result ∧ q.child = .reaped status := by
  have hstarted : p.cleanupStarted = true := h.started.mpr (by simp [hp])
  cases c with
  | terminate | drop =>
    cases hc
    rw [terminate_started hstarted]
    exact ⟨hp,hchild⟩
  | wait =>
    cases hc
    exact ⟨hp,hchild⟩
  | event event =>
    have hm := step_move hc
    refine ⟨?_,move_reaped hm hchild⟩
    clear hc
    cases hm with
    | exited hc | waitLocked hl hw | waited hw hc | waitFailed hw => exact hp
    | locked hl hc | checkFailed hc | pollFailed hc | gone hc hs | there hc hs | died hc hs
    | alive hc hs | terminated hc hs | terminateFailed hc hs | killed hc hs | killedLate hc hs
    | killFailed hc hs | slept hc | reaped hc hs | reapFailed hc => cases hc.symm.trans hp

theorem run_returned {ls : List Call} (h : Locks p) (hp : p.cleanup = .returned result)
    (hchild : p.child = .reaped status) (hr : (system id).run p ls = some q) :
    q.cleanup = .returned result ∧ q.child = .reaped status := by
  induction ls generalizing p with
  | nil =>
    cases hr
    exact ⟨hp,hchild⟩
  | cons c cs ih =>
    obtain ⟨r,hc,hrest⟩ := Option.bind_eq_some_iff.mp hr
    have hkept := call_returned h hp hchild hc
    exact ih (call_locks h hc) hkept.1 hkept.2 hrest

/-- A call of `wait` with the mutex returns the status. -/
theorem wait_returns (hchild : p.child = .reaped status) (hw : p.waiters[caller]? = some .waiting) :
    ∃ q, (system id).run p [.event (.waitReturns caller (.ok status))] = some q ∧
      q.child = .reaped status ∧ q.lock = none ∧
      q.waiters = p.waiters.set caller (.returned (.ok status)) := by
  refine ⟨{ p with child := .reaped status,lock := none,
                   waiters := p.waiters.set caller (.returned (.ok status)) },?_,rfl,rfl,rfl⟩
  apply System.run_one
  simp [system,Process.call,Process.step,hw,hchild,Child.status,Child.reap]

/-- With the mutex free it needs two steps. -/
theorem wait_locks (hchild : p.child = .reaped status) (hl : p.lock = none)
    (hw : p.waiters[caller]? = some .locking) :
    ∃ q, (system id).run p [.event (.lockWait caller),.event (.waitReturns caller (.ok status))] = some q ∧
      q.waiters[caller]? = some (.returned (.ok status)) := by
  have hlen := (List.getElem?_eq_some_iff.mp hw).1
  have hlock : p.call (.event (.lockWait caller)) = some
      { p with lock := some (.wait caller),waiters := p.waiters.set caller .waiting } := by
    simp [Process.call,Process.step,hl,hw]
  obtain ⟨q,hq,_,_,hwaiters⟩ := wait_returns
    (p := { p with lock := some (.wait caller),waiters := p.waiters.set caller .waiting })
    hchild (List.getElem?_set_self hlen)
  exact ⟨q,Option.bind_eq_some_iff.mpr ⟨_,hlock,hq⟩,by simp [hwaiters,hlen]⟩

/-- After the cleanup every call of `wait` can come to its end. -/
theorem wait_completes {waiter : Waiter} (h : Locks p) (hp : p.cleanup = .returned result)
    (hchild : p.child = .reaped status) (hanswered : Answered p)
    (hw : p.waiters[caller]? = some waiter) :
    ∃ ls q, ls.all unfailing = true ∧ (system id).run p ls = some q ∧
      q.waiters[caller]? = some (.returned (.ok status)) := by
  cases waiter with
  | returned r =>
    obtain ⟨s,rfl,hs⟩ := hanswered caller r hw
    cases hs.symm.trans hchild
    exact ⟨[],p,rfl,rfl,hw⟩
  | waiting =>
    obtain ⟨q,hq,_,_,hwaiters⟩ := wait_returns hchild hw
    exact ⟨[_],q,rfl,hq,by simp [hwaiters,(List.getElem?_eq_some_iff.mp hw).1]⟩
  | locking =>
    cases hl : p.lock with
    | none =>
      obtain ⟨q,hq,hdone⟩ := wait_locks hchild hl hw
      exact ⟨_,q,rfl,hq,hdone⟩
    | some holder =>
      cases holder with
      | cleanup => simpa [hp,Cleanup.inside] using h.cleanup.mp hl
      | wait other =>
        -- the holder returns first
        have hother := (h.wait other).mp hl
        obtain ⟨r,hr,hchild',hfree,hwaiters⟩ := wait_returns hchild hother
        have hne : other ≠ caller := fun he => by simp [he,hw] at hother
        obtain ⟨q,hq,hdone⟩ := wait_locks hchild' hfree
          (hwaiters ▸ (List.getElem?_set_ne hne).trans hw)
        have hrun := System.run_append (m := system id) p [.event (.waitReturns other (.ok status))]
          [.event (.lockWait caller),.event (.waitReturns caller (.ok status))]
        refine ⟨_,q,?_,hrun.trans ?_,hdone⟩
        · rfl
        · rw [hr]
          exact hq

end After

/-- What a cleanup leaves that found its child running. -/
structure Completed (id : Nat) (ls : List Call) (p : Process) (status : ExitStatus) : Prop where
  child : p.child = .reaped status
  signals : (system id).collect signals (.spawned id) ls = [⟨.sigterm,id⟩,⟨.sigkill,id⟩]
  reaps : (system id).collect reaps (.spawned id) ls = [status]
  waits : ∀ (caller : Nat) result, p.waiters[caller]? = some (.returned result) → result = .ok status

theorem Account.completed {ls : List Call} {result : Except Error Unit} (h : Account id ls p)
    (hc : .ok none ∈ (system id).collect checks (.spawned id) ls) (hu : ls.all unfailing = true)
    (hp : p.cleanup = .returned result) :
    result = .ok () ∧ ∃ status, Completed id ls p status := by
  have hstage := h.stage
  rw [hp] at hstage
  rcases hstage with ⟨status,hf,_⟩ | ⟨error,hf,_⟩ | ⟨_,hdone⟩
  · simp [hf] at hc
  · simp [hf] at hc
  · obtain ⟨hresult,hsent,status,hchild⟩ := hdone hu
    refine ⟨hresult,status,hchild,hsent,by rw [h.reaped,hchild]; rfl,?_⟩
    intro caller answer hw
    obtain ⟨s,rfl,hs⟩ := h.answered hu caller answer hw
    cases hs.symm.trans hchild
    rfl

/-- One cleanup at most; it sends nothing to a child it finds gone, and from a child it finds
running it takes everything, whatever else is called meanwhile. -/
theorem cleanup_completes {ls : List Call} (hr : (system id).run (.spawned id) ls = some p) :
    ls.count (.event .lockCleanup) ≤ 1 ∧
    (∀ status, .ok (some status) ∈ (system id).collect checks (.spawned id) ls →
      (system id).collect signals (.spawned id) ls = []) ∧
    (.ok none ∈ (system id).collect checks (.spawned id) ls → ls.all unfailing = true →
      ∀ result, p.cleanup = .returned result →
        result = .ok () ∧ ∃ status, Completed id ls p status ∧
          (∀ more q, more.all unfailing = true → (system id).run p more = some q →
            Completed id (ls ++ more) q status) ∧
          ∀ (caller : Nat) waiter, p.waiters[caller]? = some waiter →
            ∃ more q, more.all unfailing = true ∧ (system id).run p more = some q ∧
              q.waiters[caller]? = some (.returned (.ok status))) := by
  have h := run_account hr
  refine ⟨?_,?_,?_⟩
  · rw [h.bodies]
    exact p.cleanup.entered_le
  · intro status hf
    have hstage := h.stage
    cases hp : p.cleanup with
    | returned result =>
      rw [hp] at hstage
      rcases hstage with ⟨_,_,hs⟩ | ⟨_,_,hs⟩ | ⟨hfound,_⟩
      · exact hs
      · exact hs
      · simp [hfound] at hf
    | idle | locking | checking | terminating | polling | pausing | killing childExited | waiting =>
      rw [hp] at hstage
      simp [hstage.1] at hf
  · intro hf hu result hp
    obtain ⟨hresult,status,hdone⟩ := h.completed hf hu hp
    refine ⟨hresult,status,hdone,?_,?_⟩
    · intro more q hmore hrun
      have hall : (system id).run (.spawned id) (ls ++ more) = some q := by
        rw [System.run_append,hr]
        exact hrun
      have hkept := run_returned h.locks hp hdone.child hrun
      have hfound : .ok none ∈ (system id).collect checks (.spawned id) (ls ++ more) := by
        rw [System.collect_append hr]
        exact List.mem_append_left _ hf
      obtain ⟨_,s,hlater⟩ := (run_account hall).completed hfound (by rw [List.all_append,hu,hmore]; rfl) hkept.1
      cases hlater.child.symm.trans hkept.2
      exact hlater
    · intro caller waiter hw
      exact wait_completes h.locks hp hdone.child (h.answered hu) hw

/-- The child exits between two looks, with a call of `wait` in the queue. -/
def lateRun : List Call :=
  [.wait,.terminate,.event .lockCleanup,.drop,.event (.tryWait (.ok none)),.event (.signal (.ok ())),
    .event (.tryWait (.ok none)),.event (.clock false),.event (.exit (.exited 0)),
    .event (.tryWait (.ok (some (.exited 0)))),
    .event (.signal (.error ⟨.other,some esrch,"No such process"⟩))]

theorem cleanup_completes_late : ∃ p, (system 71).run (.spawned 71) lateRun = some p ∧
    ∃ status, Completed 71 lateRun p status := by
  have hr : (system 71).run (.spawned 71) lateRun = some
      ⟨71,.reaped (.exited 0),none,true,.returned (.ok ()),[.locking]⟩ := rfl
  obtain ⟨_,status,hdone,_⟩ := (cleanup_completes hr).2.2 (by decide) (by decide) _ rfl
  exact ⟨_,hr,status,hdone⟩

/-- Every move is a step. -/
theorem move_step (hm : Move p event q) : p.step event = some q := by
  cases hm with
  | exited hc => simp [Process.step,hc]
  | waitLocked hl hw => simp [Process.step,hl,hw]
  | waited hw hc => simp [Process.step,hw,hc]
  | waitFailed hw => simp [Process.step,hw]
  | locked hl hc => simp [Process.step,hl,hc]
  | checkFailed hc | pollFailed hc | slept hc | reapFailed hc => simp [Process.step,hc]
  | gone hc hs | there hc hs | died hc hs | alive hc hs | terminated hc hs | terminateFailed hc hs
  | killed hc hs | killedLate hc hs | killFailed hc hs | reaped hc hs => simp [Process.step,hc,hs]

end Terminald.Pty

namespace Terminald.Session
open Machine Protocol

/-- The process of a session is met by calls and events only. -/
theorem reachable_process {json : Json} (hr : (system json).Reachable s) :
    ∀ p, s.process = some p → (Pty.system p.id).Reachable p := by
  refine hr.invariant (I := fun s => ∀ p, s.process = some p → (Pty.system p.id).Reachable p)
    (by simp [system,start]) ?_
  intro s l t _ h hstep
  refine process_step (I := fun p => (Pty.system p.id).Reachable p) (step_move hstep) ?_ ?_ ?_ ?_ h
  · exact fun id => System.reachable_start (Pty.system id)
  · exact fun p hp => hp.step (l := .wait) rfl
  · intro p hp
    rw [Pty.terminate_id]
    exact hp.step (l := .terminate) rfl
  · intro p event q _ _ hp hm
    rw [Pty.move_id hm]
    exact hp.step (l := .event event) (Pty.move_step hm)

end Terminald.Session
