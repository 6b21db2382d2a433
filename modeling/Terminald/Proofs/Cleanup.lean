import Terminald.Proofs.Locks

namespace Terminald.Session
open Machine Protocol

/-- The cleanup is asked for and the child runs, but the mutex the cleanup needs
is with a call of `wait` on that same child. -/
def Blocked (s : State) : Prop :=
  ∃ p caller, s.process = some p ∧ p.cleanup = .locking ∧ p.child = .running ∧
    p.lock = some (.wait caller)

/-- A call of `wait` gets the mutex only for a child that has exited, or that the
cleanup is through with. -/
def lateWait (s : State) : Label → Bool
  | .process (.lockWait _) => s.process.any (fun p => p.child != .running || p.terminated)
  | _ => true

/-- Where a call of `wait` has the mutex there is nothing left to signal. -/
def Late (p : Pty.Process) : Prop :=
  ∀ caller, p.lock = some (.wait caller) → p.child ≠ .running ∨ p.terminated = true

@[simp] theorem finish_lock (p : Pty.Process) (r : Except Error Unit) : (p.finish r).lock = none := rfl

theorem late_terminate (hl : Pty.Locks p) (h : Late p) : Late p.terminate := by
  cases hs : p.cleanupStarted with
  | true => rwa [Pty.terminate_started hs]
  | false =>
    rw [Pty.terminate_first hs]
    intro caller hc
    refine .inl ((h caller hc).resolve_right ?_)
    have hidle : p.cleanup = .idle := by
      by_contra hn
      simp [hl.started.mpr hn] at hs
    simp [Pty.Process.terminated,hidle]

theorem move_late (hl : Pty.Locks p)
    (hlate : ∀ caller, event = .lockWait caller → p.child ≠ .running ∨ p.terminated = true)
    (hm : Pty.Move p event q) : Late q := by
  cases hm with
  | exited hc => exact fun _ _ => .inl (by simp)
  | @waitLocked caller hfree hw => exact fun _ _ => hlate caller rfl
  | locked hfree hc => exact fun _ he => by simp at he
  | waited hw hs | waitFailed hw | checkFailed hc | pollFailed hc | gone hc hs
  | terminateFailed hc hs | killed hc hs | killFailed hc hs | reaped hc hs | reapFailed hc =>
    exact fun _ he => by simp at he
  | there hc hs | died hc hs | alive hc hs | terminated hc hs | killedLate hc hs | slept hc =>
    -- the mutex is the cleanup's own here
    intro caller he
    have hown := hl.cleanup.mpr (by rw [hc]; rfl)
    simp [hown] at he

theorem only_late {json : Json} (hr : ((system json).only lateWait).Reachable s) :
    ∀ p, s.process = some p → Late p := by
  apply hr.invariant (I := fun s => ∀ p, s.process = some p → Late p) (by simp [system,System.only,start])
  intro s l t hr h hstep
  obtain ⟨hc,hstep⟩ := System.only_step.mp hstep
  have hlocks := reachable_locks hr.unrestrict
  have hboth := process_step (I := fun p => Pty.Locks p ∧ Late p) (step_move hstep)
    (fun id => ⟨Pty.locks_spawned id,by simp [Late,Pty.Process.spawned]⟩)
    (fun _ hp => ⟨Pty.locks_wait hp.1,hp.2⟩)
    (fun _ hp => ⟨Pty.locks_terminate hp.1,late_terminate hp.1 hp.2⟩) ?_
    (fun p hp => ⟨hlocks p hp,h p hp⟩)
  · exact fun q hq => (hboth q hq).2
  · intro p event q hl hp hi hm
    refine ⟨Pty.move_locks hi.1 hm,move_late hi.1 ?_ hm⟩
    intro caller he
    subst hl he
    simpa [lateWait,hp] using hc

/-- A driver that is through has asked for the cleanup. -/
def Asked (s : State) : Prop :=
  s.driver.over = true → ∀ p, s.process = some p → p.cleanupStarted = true

theorem terminate_asked (p : Pty.Process) : p.terminate.cleanupStarted = true := by
  cases hs : p.cleanupStarted with
  | true => rwa [Pty.terminate_started hs]
  | false => rw [Pty.terminate_first hs]

theorem move_started (hm : Pty.Move p event q) : q.cleanupStarted = p.cleanupStarted := by
  cases hm <;> rfl

theorem Asked.keep (h : Asked s) (ho : t.driver.over = true → s.driver.over = true)
    (hp : t.process = s.process) : Asked t :=
  fun hd p he => h (ho hd) p (hp ▸ he)

theorem asked_terminate {s t : State} (hp : t.process = s.process.map Pty.Process.terminate) : Asked t := by
  intro _ q hq
  rw [hp] at hq
  obtain ⟨p,_,rfl⟩ := Option.map_eq_some_iff.mp hq
  exact terminate_asked p

theorem asked_wait (h : Asked s) (hd : t.driver = s.driver)
    (hp : t.process = s.process.map Pty.Process.wait) : Asked t := by
  intro ho q hq
  rw [hp] at hq
  obtain ⟨p,hs,rfl⟩ := Option.map_eq_some_iff.mp hq
  exact h (hd ▸ ho) p hs

theorem move_asked (h : Asked s) (hstart : s.driver = .spawning → s = start)
    (hm : Move json s l t) : Asked t := by
  cases hm with
  | spawned hd => exact fun ho => by simp at ho
  | spawnFailed hd =>
    rw [hstart hd]
    exact fun _ p hp => by simp [start] at hp
  | @received msg hd =>
    by_cases hc : msg = .close
    · subst hc
      exact asked_terminate rfl
    · intro ho
      simp [(handle_over _ json hc).1] at ho
  | @delivered m hd =>
    cases m with
    | exited code => exact asked_terminate rfl
    | output data | error text => exact fun ho => by simp [State.delivered] at ho
  | receiveFailed hd | exhausted hd hr hc | undelivered hd | unreplied hd | writeFailed hd ha
  | resizeFailed hd hi | dropped hs hr hd =>
    exact asked_terminate rfl
  | readEnd hr ha => exact asked_wait h rfl rfl
  | @posted m c hr ho hp =>
    cases m with
    | output data | exited code => exact h.keep id rfl
    | error text => exact asked_wait h rfl rfl
  | @unposted m hr ho =>
    cases m with
    | exited code => exact h.keep id rfl
    | output data | error text => exact asked_wait h rfl rfl
  | @process p event q hp hs =>
    intro ho r hr
    cases hr
    rw [move_started (Pty.step_move hs)]
    exact h ho p hp
  | took hd hc | replied hd | wrote hd ha hk | resized hd hi | finished hd hp ht =>
    exact h.keep (by simp [hd]) rfl
  | readAgain hr ha | readData hr ha hne | readFailed hr ha | waited hr hw | writeAgain hd ha =>
    exact h.keep id rfl

theorem reachable_asked {json : Json} (hr : (system json).Reachable s) : Asked s := by
  apply hr.invariant (fun ho => by simp [system,start] at ho)
  intro s l t hs h hstep
  exact move_asked h (spawning_start hs) (step_move hstep)

theorem drop_live (json : Json) (hl : s.driver.over = false) (hs : s.driver ≠ .spawning) :
    step json s .drop = some
      { s with driver := .dropped,rxOpen := false,process := s.process.map Pty.Process.terminate } := by
  cases hd : s.driver <;> simp_all [step]

/-- A call of `wait` that gets the mutex of a running child before the cleanup is
through leaves the session one step from being blocked. -/
theorem early_wait_blocks {json : Json} (hr : (system json).Reachable s)
    (hstep : step json s l = some t) (hc : lateWait s l = false) :
    ∃ ls u, (system json).run t ls = some u ∧ Blocked u := by
  obtain ⟨caller,rfl⟩ : ∃ caller, l = .process (.lockWait caller) := by
    unfold lateWait at hc
    split at hc
    · exact ⟨_,rfl⟩
    · cases hc
  cases step_move hstep with
  | @process p _ q hp hs =>
    cases Pty.step_move hs with
    | waitLocked hl hw =>
      simp only [lateWait,hp,Option.any_some,Bool.or_eq_false_iff,bne_eq_false_iff_eq] at hc
      obtain ⟨hrun,hthrough⟩ := hc
      have hlocks := reachable_locks hr p hp
      cases hcl : p.cleanup with
      | locking => exact ⟨[],_,rfl,_,caller,rfl,rfl,hrun,rfl⟩
      | returned r => simp [Pty.Process.terminated,hcl] at hthrough
      | idle =>
        -- nobody has asked for the cleanup yet: the task is dropped
        have hfree : p.cleanupStarted = false := by
          by_contra hn
          exact hlocks.started.mp (by simpa using hn) hcl
        have hlive : s.driver.over = false := by
          by_contra hn
          simp [reachable_asked hr (by simpa using hn) p hp] at hfree
        have hspawned : s.driver ≠ .spawning := by
          intro hd
          rw [spawning_start hr hd] at hp
          simp [start] at hp
        refine ⟨[.drop],_,System.run_one (drop_live json hlive hspawned),_,caller,rfl,?_⟩
        rw [Pty.terminate_first]
        · exact ⟨rfl,hrun,rfl⟩
        · exact hfree
      | checking | terminating | polling | pausing | killing exited | waiting =>
        have hown := hlocks.cleanup.mpr (by rw [hcl]; rfl)
        simp [hl] at hown

/-- With the mutex free the cleanup comes to its first signal by steps of its own. -/
theorem cleanup_goes_on {json : Json} (hp : s.process = some p) (hc : p.cleanup = .locking)
    (hrun : p.child = .running) (hl : p.lock = none) :
    (system json).run s [.process .lockCleanup,.process (.tryWait (.ok none))] =
      some { s with process := some { p with lock := some .cleanup,cleanup := .terminating } } := by
  simp [System.run_cons,system,step,hp,Pty.Process.step,hl,hc,hrun,Pty.Child.status]

/-- While `wait` gets the mutex late only, no cleanup is kept from a running
child; each time it gets it early, one may be. -/
theorem cleanup_not_blocked_iff (json : Json) :
    (∀ s, ((system json).only lateWait).Reachable s → ¬Blocked s ∧
      ∀ p, s.process = some p → p.cleanup = .locking → p.child = .running →
        (system json).run s [.process .lockCleanup,.process (.tryWait (.ok none))] =
          some { s with process := some { p with lock := some .cleanup,cleanup := .terminating } }) ∧
    (∀ s l t, (system json).Reachable s → step json s l = some t → lateWait s l = false →
      ∃ ls u, (system json).run t ls = some u ∧ Blocked u) := by
  refine ⟨?_,fun s l t hr hstep hc => early_wait_blocks hr hstep hc⟩
  intro s hr
  have hfree : ∀ p caller, s.process = some p → p.cleanup = .locking → p.child = .running →
      p.lock ≠ some (.wait caller) := by
    intro p caller hp hc hrun hl
    rcases only_late hr p hp caller hl with hn | ht
    · exact hn hrun
    · simp [Pty.Process.terminated,hc] at ht
  refine ⟨?_,?_⟩
  · intro hex
    obtain ⟨p,caller,hp,hc,hrun,hl⟩ := hex
    exact hfree p caller hp hc hrun hl
  · intro p hp hc hrun
    apply cleanup_goes_on hp hc hrun
    cases hl : p.lock with
    | none => rfl
    | some holder =>
      cases holder with
      | wait caller => exact absurd hl (hfree p caller hp hc hrun)
      | cleanup =>
        have := (reachable_locks hr.unrestrict p hp).cleanup.mp hl
        simp [hc,Pty.Cleanup.inside] at this

/-- The child closes its terminal and goes on running, then the client leaves. -/
def closedTerminalRun : List Label :=
  [.spawn (.ok 71),.read (.result (.ok ⟨[],by decide⟩)),.process (.lockWait 0),.receive (.ok .close)]

theorem cleanup_blocked_closed_terminal :
    ¬∀ (json : Json) s, (system json).Reachable s → ¬Blocked s := by
  intro h
  have hr := System.reachable_end (m := system ⟨fun _ => .error "",fun _ => .error ""⟩)
    closedTerminalRun rfl
  exact h _ _ hr ⟨_,0,rfl,rfl,rfl,rfl⟩

theorem cleanup_not_blocked_killed :
    ∃ s, ((system ⟨fun _ => .error "",fun _ => .error ""⟩).only lateWait).Reachable s ∧
      (∃ p, s.process = some p ∧ p.cleanup = .locking ∧ p.child = .running) ∧ ¬Blocked s := by
  have hr := System.reachable_end
    (m := (system ⟨fun _ => .error "",fun _ => .error ""⟩).only lateWait)
    [.spawn (.ok 71),.receive (.ok .close)] rfl
  exact ⟨_,hr,⟨_,rfl,rfl,rfl⟩,((cleanup_not_blocked_iff _).1 _ hr).1⟩

end Terminald.Session
