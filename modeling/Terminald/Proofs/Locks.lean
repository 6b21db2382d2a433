import Terminald.Proofs.Moves

namespace Terminald.Pty

/-- Everything one step of the process can do, with the guard it is taken under. -/
inductive Move (p : Process) : Event → Process → Prop
  | exited (hc : p.child = .running) : Move p (.exit status) { p with child := .exited status }
  | waitLocked (hl : p.lock = none) (hw : p.waiters[caller]? = some .locking) :
      Move p (.lockWait caller)
        { p with lock := some (.wait caller),waiters := p.waiters.set caller .waiting }
  | waited (hw : p.waiters[caller]? = some .waiting) (hc : p.child.status = some status) :
      Move p (.waitReturns caller (.ok status))
        { p with child := p.child.reap,lock := none,
                 waiters := p.waiters.set caller (.returned (.ok status)) }
  | waitFailed (hw : p.waiters[caller]? = some .waiting) :
      Move p (.waitReturns caller (.error error))
        { p with lock := none,
                 waiters := p.waiters.set caller
                   (.returned (.error (error.context "wait for PTY child"))) }
  | locked (hl : p.lock = none) (hc : p.cleanup = .locking) :
      Move p .lockCleanup { p with lock := some .cleanup,cleanup := .checking }
  | checkFailed (hc : p.cleanup = .checking) : Move p (.tryWait (.error error))
      (p.finish (.error (error.context "check PTY child status before terminate")))
  | pollFailed (hc : p.cleanup = .polling) : Move p (.tryWait (.error error))
      (p.finish (.error (error.context "check PTY child status after terminate")))
  | gone (hc : p.cleanup = .checking) (hs : p.child.status = some status) :
      Move p (.tryWait (.ok (some status))) ({ p with child := p.child.reap }.finish (.ok ()))
  | there (hc : p.cleanup = .checking) (hs : p.child.status = none) :
      Move p (.tryWait (.ok none)) { p with cleanup := .terminating }
  | died (hc : p.cleanup = .polling) (hs : p.child.status = some status) :
      Move p (.tryWait (.ok (some status))) { p with child := p.child.reap,cleanup := .killing true }
  | alive (hc : p.cleanup = .polling) (hs : p.child.status = none) :
      Move p (.tryWait (.ok none)) { p with cleanup := .pausing }
  | terminated (hc : p.cleanup = .terminating) (hs : (terminateProcessGroup p.id r).2 = .ok ()) :
      Move p (.signal r) { p with cleanup := .polling }
  | terminateFailed (hc : p.cleanup = .terminating) (hs : (terminateProcessGroup p.id r).2 = .error e) :
      Move p (.signal r) (p.finish (.error e))
  | killed (hc : p.cleanup = .killing true) (hs : (killProcessGroup p.id r).2 = .ok ()) :
      Move p (.signal r) (p.finish (.ok ()))
  | killedLate (hc : p.cleanup = .killing false) (hs : (killProcessGroup p.id r).2 = .ok ()) :
      Move p (.signal r) { p with cleanup := .waiting }
  | killFailed (hc : p.cleanup = .killing exited) (hs : (killProcessGroup p.id r).2 = .error e) :
      Move p (.signal r) (p.finish (.error e))
  | slept (hc : p.cleanup = .pausing) :
      Move p (.clock expired) { p with cleanup := if expired then .killing false else .polling }
  | reaped (hc : p.cleanup = .waiting) (hs : p.child.status = some status) :
      Move p (.reap (.ok status)) ({ p with child := p.child.reap }.finish (.ok ()))
  | reapFailed (hc : p.cleanup = .waiting) : Move p (.reap (.error error))
      (p.finish (.error (error.context "wait for PTY child after terminate")))

theorem step_move {p q : Process} {event : Event} (h : p.step event = some q) : Move p event q := by
  cases event with
  | exit status =>
    simp only [Process.step] at h
    split at h <;> cases h
    exact .exited (by assumption)
  | lockWait caller =>
    simp only [Process.step] at h
    split at h <;> cases h
    exact .waitLocked (by assumption) (by assumption)
  | waitReturns caller result =>
    simp only [Process.step] at h
    split at h
    · split at h <;> cases h
      exact .waited (by assumption) (by assumption)
    · cases h
      exact .waitFailed (by assumption)
    · cases h
  | lockCleanup =>
    simp only [Process.step] at h
    split at h <;> cases h
    exact .locked (by assumption) (by assumption)
  | tryWait result =>
    cases result with
    | error error =>
      simp only [Process.step] at h
      split at h <;> cases h
      · exact .checkFailed (by assumption)
      · exact .pollFailed (by assumption)
    | ok found =>
      simp only [Process.step] at h
      split at h
      · split at h <;> cases h
        · exact .gone (by assumption) (by assumption)
        · exact .there (by assumption) (by assumption)
        · exact .died (by assumption) (by assumption)
        · exact .alive (by assumption) (by assumption)
      · cases h
  | signal result =>
    simp only [Process.step] at h
    split at h
    · split at h <;> cases h
      · exact .terminated (by assumption) (by assumption)
      · exact .terminateFailed (by assumption) (by assumption)
    · rename_i childExited hc
      split at h
      · cases childExited <;> cases h
        · exact .killedLate hc (by assumption)
        · exact .killed hc (by assumption)
      · cases h
        exact .killFailed hc (by assumption)
    · cases h
  | clock expired =>
    simp only [Process.step] at h
    split at h <;> cases h
    exact .slept (by assumption)
  | reap result =>
    simp only [Process.step] at h
    split at h
    · split at h <;> cases h
      exact .reaped (by assumption) (by assumption)
    · cases h
      exact .reapFailed (by assumption)
    · cases h

/-- The cleanup thread has the child mutex and has not returned. -/
def Cleanup.inside : Cleanup → Bool
  | .idle | .locking | .returned _ => false
  | _ => true

/-- The mutex has one owner at most, and the cleanup is started at most once. -/
structure Locks (p : Process) : Prop where
  cleanup : p.lock = some .cleanup ↔ p.cleanup.inside = true
  wait : ∀ caller, p.lock = some (.wait caller) ↔ p.waiters[caller]? = some .waiting
  started : p.cleanupStarted = true ↔ p.cleanup ≠ .idle

theorem locks_spawned (id : Nat) : Locks (.spawned id) :=
  ⟨by simp [Process.spawned,Cleanup.inside],by simp [Process.spawned],by simp [Process.spawned]⟩

/-- A call of `wait` only lines up for the mutex. -/
theorem locks_wait (h : Locks p) : Locks p.wait := by
  refine ⟨h.cleanup,?_,h.started⟩
  intro caller
  rw [show p.wait.lock = p.lock from rfl,h.wait caller]
  simp only [Process.wait,List.getElem?_append]
  split
  · rfl
  · rename_i hlen
    rw [List.getElem?_eq_none (Nat.le_of_not_lt hlen)]
    simp [List.getElem?_singleton]

theorem terminate_started {p : Process} (h : p.cleanupStarted = true) : p.terminate = p := by
  cases p
  simp_all [Process.terminate,Process.startCleanup]

theorem terminate_first {p : Process} (h : p.cleanupStarted = false) :
    p.terminate = { p with cleanupStarted := true,cleanup := .locking } := by
  simp [Process.terminate,Process.startCleanup,h]

theorem locks_terminate (h : Locks p) : Locks p.terminate := by
  cases hs : p.cleanupStarted with
  | true => rwa [terminate_started hs]
  | false =>
    rw [terminate_first hs]
    have hidle : p.cleanup = .idle := by
      by_contra hn
      simp [h.started.mpr hn] at hs
    refine ⟨?_,h.wait,by simp⟩
    simpa [hidle,Cleanup.inside] using h.cleanup

/-- A step of the cleanup thread while it has the mutex, or as it gives it back. -/
theorem Locks.advance (h : Locks p) (hin : p.cleanup.inside = true)
    (hl : q.lock = if q.cleanup.inside then some .cleanup else none) (hq : q.cleanup ≠ .idle)
    (hs : q.cleanupStarted = p.cleanupStarted) (hw : q.waiters = p.waiters) : Locks q := by
  have hlock := h.cleanup.mpr hin
  refine ⟨?_,?_,?_⟩
  · rw [hl]
    split <;> simp_all
  · intro caller
    rw [hw,← h.wait caller,hlock,hl]
    split <;> simp
  · rw [hs]
    refine iff_of_true (h.started.mpr ?_) hq
    intro hc
    simp [hc,Cleanup.inside] at hin

theorem move_locks (h : Locks p) (hm : Move p event q) : Locks q := by
  cases hm with
  | exited hc => exact ⟨h.cleanup,h.wait,h.started⟩
  | @waitLocked caller hl hw =>
    refine ⟨?_,?_,h.started⟩
    · simpa [hl] using h.cleanup
    · intro other
      have hother := h.wait other
      have hlen : caller < p.waiters.length := (List.getElem?_eq_some_iff.mp hw).1
      by_cases he : caller = other
      · subst he
        simp [hlen]
      · simpa [hl,he,List.getElem?_set_ne he] using hother
  | @waited caller status hw hc | @waitFailed caller error hw =>
    have hl := (h.wait caller).mpr hw
    have hlen : caller < p.waiters.length := (List.getElem?_eq_some_iff.mp hw).1
    refine ⟨?_,?_,h.started⟩
    · simpa [hl] using h.cleanup
    · intro other
      have hother := h.wait other
      by_cases he : caller = other
      · subst he
        simp [hlen]
      · simpa [hl,he,List.getElem?_set_ne he] using hother
  | locked hl hc =>
    refine ⟨by simp [Cleanup.inside],?_,by simpa [hc] using h.started⟩
    intro caller
    simpa [hl] using h.wait caller
  | checkFailed hc | pollFailed hc | gone hc hs | there hc hs | died hc hs | alive hc hs
  | terminated hc hs | terminateFailed hc hs | killed hc hs | killedLate hc hs | killFailed hc hs
  | reaped hc hs | reapFailed hc =>
    have hin : p.cleanup.inside = true := by rw [hc]; rfl
    exact h.advance hin (by simp [Process.finish,Cleanup.inside,h.cleanup.mpr hin])
      (by simp [Process.finish]) rfl rfl
  | @slept expired hc =>
    have hin : p.cleanup.inside = true := by rw [hc]; rfl
    cases expired <;>
      exact h.advance hin (by simp [Cleanup.inside,h.cleanup.mpr hin]) (by simp) rfl rfl

end Terminald.Pty

namespace Terminald.Session
open Machine Protocol

theorem handle_processes (s : State) (json : Json) (msg : Message) :
    (s.handle json msg).process = s.process ∨
      (s.handle json msg).process = s.process.map Pty.Process.terminate := by
  unfold State.handle
  split
  · split <;> exact .inl rfl
  all_goals first | exact .inl rfl | exact .inr rfl

/-- What a step makes of the child process: a new one, a call of `wait` or of
`terminate` on it, or one step of its own. -/
theorem process_step {I : Pty.Process → Prop} (hm : Move json s l t)
    (hnew : ∀ id, I (.spawned id)) (hwait : ∀ p, I p → I p.wait)
    (hterm : ∀ p, I p → I p.terminate)
    (hstep : ∀ p event q, l = .process event → s.process = some p → I p →
      Pty.Move p event q → I q)
    (hs : ∀ p, s.process = some p → I p) : ∀ q, t.process = some q → I q := by
  have hleave : ∀ q, s.process.map Pty.Process.terminate = some q → I q := by
    intro q hq
    obtain ⟨p,hp,rfl⟩ := Option.map_eq_some_iff.mp hq
    exact hterm p (hs p hp)
  have hloop : ∀ q, s.process.map Pty.Process.wait = some q → I q := by
    intro q hq
    obtain ⟨p,hp,rfl⟩ := Option.map_eq_some_iff.mp hq
    exact hwait p (hs p hp)
  cases hm with
  | @spawned id hd =>
    intro q hq
    cases hq
    exact hnew id
  | readEnd hr ha => exact hloop
  | @posted m c hr ho hp => cases m <;> first | exact hs | exact hloop
  | @unposted m hr ho => cases m <;> first | exact hs | exact hloop
  | @received msg hd =>
    rcases handle_processes { s with received := s.received ++ [msg] } json msg with he | he
    · rw [he]; exact hs
    · rw [he]; exact hleave
  | @delivered m hd => cases m <;> first | exact hs | exact hleave
  | @process p event q hp he =>
    intro r hr
    cases hr
    exact hstep p event q rfl hp (hs p hp) (Pty.step_move he)
  | receiveFailed hd | exhausted hd hr hc | undelivered hd | unreplied hd | writeFailed hd ha
  | resizeFailed hd hi | dropped hs hr hd =>
    exact hleave
  | spawnFailed hd | readAgain hr ha | readData hr ha hne | readFailed hr ha | waited hr hw
  | took hd hc | replied hd | writeAgain hd ha | wrote hd ha hk | resized hd hi
  | finished hd hp ht =>
    exact hs

theorem reachable_locks {json : Json} (hr : (system json).Reachable s) :
    ∀ p, s.process = some p → Pty.Locks p := by
  refine hr.invariant (I := fun s => ∀ p, s.process = some p → Pty.Locks p)
    (by simp [system,start]) ?_
  intro s l t _ h hstep
  exact process_step (step_move hstep) Pty.locks_spawned (fun _ => Pty.locks_wait)
    (fun _ => Pty.locks_terminate) (fun _ _ _ _ _ => Pty.move_locks) h

end Terminald.Session
