import Terminald.Proofs.Cleanup
import Terminald.Proofs.Verdict

namespace Terminald.Pty

/-- The steps a call of `wait` has before it. -/
def Waiter.owed : Waiter → Nat
  | .locking => 2
  | .waiting => 1
  | .returned _ => 0

/-- The steps the cleanup has before it, once it is asked for, if its time is up at the first look. -/
def Cleanup.owed : Cleanup → Nat
  | .idle | .locking => 7
  | .checking => 6
  | .terminating => 5
  | .polling => 4
  | .pausing => 3
  | .killing _ => 2
  | .waiting => 1
  | .returned _ => 0

def Process.owed (p : Process) : Nat := (p.waiters.map Waiter.owed).sum + p.cleanup.owed

/-- The steps that an event makes more: the exit is the child's own, and a look at the clock too
early is followed by another look at the child. -/
def Event.brings : Event → Nat
  | .exit _ => 1
  | .clock false => 2
  | _ => 0

section Process
variable {p q : Process} {event : Event}

theorem set_owed {ws : List Waiter} {caller : Nat} {old : Waiter} (h : ws[caller]? = some old) (new : Waiter) :
    ((ws.set caller new).map Waiter.owed).sum + old.owed = (ws.map Waiter.owed).sum + new.owed := by
  induction ws generalizing caller with
  | nil => cases h
  | cons w ws ih =>
    cases caller with
    | zero =>
      obtain rfl := Option.some.inj h
      simp only [List.set_cons_zero,List.map_cons,List.sum_cons]
      omega
    | succ caller =>
      have hrest := ih h
      simp only [List.set_cons_succ,List.map_cons,List.sum_cons]
      omega

@[simp] theorem owed_wait (p : Process) : p.wait.owed = p.owed + 2 := by
  simp only [Process.owed,Process.wait,List.map_append,List.sum_append,List.map_cons,List.map_nil,
    List.sum_cons,List.sum_nil,Waiter.owed]
  omega

theorem owed_terminate (h : Locks p) : p.terminate.owed = p.owed := by
  cases hs : p.cleanupStarted with
  | true => rw [terminate_started hs]
  | false =>
    have hidle : p.cleanup = .idle := by
      by_contra hn
      simp [h.started.mpr hn] at hs
    rw [terminate_first hs]
    simp [Process.owed,hidle,Cleanup.owed]

theorem child_status (h : p.child ≠ .running) : ∃ status, p.child.status = some status := by
  cases hc : p.child with
  | running => exact absurd hc h
  | exited status | reaped status => exact ⟨status,rfl⟩

/-- Every step of the calls and of the cleanup is one of those before them. -/
theorem move_owed (hm : Move p event q) : q.owed + 1 ≤ p.owed + event.brings := by
  cases hm with
  | exited hc => exact Nat.le_refl _
  | waitLocked hl hw =>
    have hset := set_owed hw .waiting
    simp only [Process.owed,Waiter.owed] at hset ⊢
    omega
  | @waited caller status hw hc =>
    have hset := set_owed hw (.returned (.ok status))
    simp only [Process.owed,Waiter.owed] at hset ⊢
    omega
  | @waitFailed caller error hw =>
    have hset := set_owed hw (.returned (.error (error.context "wait for PTY child")))
    simp only [Process.owed,Waiter.owed] at hset ⊢
    omega
  | @slept expired hc =>
    simp only [Process.owed,hc]
    cases expired <;> simp [Cleanup.owed,Event.brings]
  | locked hl hc | checkFailed hc | pollFailed hc | gone hc hs | there hc hs | died hc hs | alive hc hs
  | terminated hc hs | terminateFailed hc hs | killed hc hs | killedLate hc hs | killFailed hc hs
  | reaped hc hs | reapFailed hc =>
    simp only [Process.owed,Process.finish,hc,Cleanup.owed]
    omega

theorem reap_running {child : Child} (h : child ≠ .running) : child.reap ≠ .running := by
  cases child with
  | running => exact absurd rfl h
  | exited status | reaped status => exact fun hr => by cases hr

theorem move_running (h : p.child ≠ .running) (hm : Move p event q) : q.child ≠ .running := by
  cases hm with
  | exited hc => exact absurd hc h
  | waited hw hc | gone hc hs | died hc hs | reaped hc hs => exact reap_running h
  | waitLocked hl hw | waitFailed hw | locked hl hc | checkFailed hc | pollFailed hc | there hc hs
  | alive hc hs | terminated hc hs | terminateFailed hc hs | killed hc hs | killedLate hc hs
  | killFailed hc hs | slept hc | reapFailed hc => exact h

/-- An event for which nothing is waited, of a call that does not fail. -/
def Event.free (event : Event) : Bool := event.brings == 0 && unfailing (.event event)

/-- The same, and no call of `wait` gets the mutex by it. -/
def Event.onward : Event → Bool
  | .lockWait _ => false
  | event => event.free

/-- A call of `wait` that has the mutex, of a child that has exited, can return. -/
theorem held_next (h : Locks p) (hchild : p.child ≠ .running) {caller : Nat}
    (hl : p.lock = some (.wait caller)) : ∃ event q, event.onward = true ∧ p.step event = some q := by
  obtain ⟨status,hs⟩ := child_status hchild
  exact ⟨_,_,rfl,move_step (.waited ((h.wait caller).mp hl) hs)⟩

theorem onward_free {event : Event} (h : event.onward = true) : event.free = true := by
  cases event with
  | lockWait caller => rfl
  | exit status | waitReturns caller result | lockCleanup | tryWait result | signal result | clock expired
  | reap result => exact h

/-- A cleanup that is asked for goes on by itself, unless it waits for the exit of the child it has
killed. -/
theorem cleanup_next (h : Locks p) (hlate : Session.Late p) (hasked : p.cleanup ≠ .idle) :
    p.terminated = true ∨ (p.cleanup = .waiting ∧ p.child = .running) ∨
      ∃ event q, event.onward = true ∧ p.step event = some q := by
  have hsignal : ∀ id signal action, (signalProcessGroup id signal action (.ok ())).2 = .ok () := fun _ _ _ => rfl
  cases hc : p.cleanup with
  | idle => exact absurd hc hasked
  | returned result => exact .inl (by simp [Process.terminated,hc])
  | locking =>
    refine .inr (.inr ?_)
    cases hl : p.lock with
    | none => exact ⟨_,_,rfl,move_step (.locked hl hc)⟩
    | some holder =>
      cases holder with
      | cleanup =>
        have hin := h.cleanup.mp hl
        rw [hc] at hin
        cases hin
      | wait caller =>
        refine held_next h ((hlate caller hl).resolve_right ?_) hl
        simp [Process.terminated,hc]
  | checking =>
    refine .inr (.inr ?_)
    cases hs : p.child.status with
    | none => exact ⟨_,_,rfl,move_step (.there hc hs)⟩
    | some status => exact ⟨_,_,rfl,move_step (.gone hc hs)⟩
  | terminating => exact .inr (.inr ⟨_,_,rfl,move_step (.terminated hc (hsignal _ _ _))⟩)
  | polling =>
    refine .inr (.inr ?_)
    cases hs : p.child.status with
    | none => exact ⟨_,_,rfl,move_step (.alive hc hs)⟩
    | some status => exact ⟨_,_,rfl,move_step (.died hc hs)⟩
  | pausing =>
    have hslept : Move p (.clock true) { p with cleanup := .killing false } := .slept hc
    exact .inr (.inr ⟨_,_,rfl,move_step hslept⟩)
  | killing childExited =>
    refine .inr (.inr ?_)
    cases childExited with
    | true => exact ⟨_,_,rfl,move_step (.killed hc (hsignal _ _ _))⟩
    | false => exact ⟨_,_,rfl,move_step (.killedLate hc (hsignal _ _ _))⟩
  | waiting =>
    cases hchild : p.child with
    | running => exact .inr (.inl ⟨rfl,rfl⟩)
    | exited status | reaped status =>
      have hs : p.child.status = some status := by rw [hchild]; rfl
      exact .inr (.inr ⟨_,_,rfl,move_step (.reaped hc hs)⟩)

/-- Before the cleanup is asked for, a call of `wait` on the exited child can go on. -/
theorem wait_next (h : Locks p) (hchild : p.child ≠ .running) (hidle : p.cleanup = .idle)
    (hw : p.waiters ≠ []) : (∃ result, p.waiters[0]? = some (.returned result)) ∨
      ∃ event q, event.free = true ∧ p.step event = some q := by
  obtain ⟨status,hs⟩ := child_status hchild
  obtain ⟨first,rest,hp⟩ := List.exists_cons_of_ne_nil hw
  have hfirst : p.waiters[0]? = some first := by simp [hp]
  cases first with
  | returned result => exact .inl ⟨result,hfirst⟩
  | waiting => exact .inr ⟨_,_,rfl,move_step (.waited hfirst hs)⟩
  | locking =>
    refine .inr ?_
    cases hl : p.lock with
    | none => exact ⟨_,_,rfl,move_step (.waitLocked hl hfirst)⟩
    | some holder =>
      cases holder with
      | cleanup =>
        have hin := h.cleanup.mp hl
        rw [hidle] at hin
        cases hin
      | wait caller =>
        obtain ⟨event,q,hfree,he⟩ := held_next h hchild hl
        exact ⟨event,q,onward_free hfree,he⟩

end Process
end Terminald.Pty

namespace Terminald.Session
open Machine Protocol

def Driver.owed : Driver → Nat
  | .spawning | .returned _ | .dropped => 0
  | .terminating _ => 1
  | .select => 2
  | .sending _ | .replying _ | .resizing _ => 3
  | .writing call => 2 + (call.data.length - call.written)

/-- A message has three steps before it, into the channel, out of it and onto the wire. -/
def Reader.owed : Reader → Nat
  | .unborn | .done => 0
  | .posting (.exited _) => 3
  | .waiting => 4
  | .reading => 7
  | .posting (.error _) => 9
  | .posting (.output _) => 10

/-- The steps a session has before it, with nothing new from outside. -/
def State.owed (s : State) : Nat :=
  s.driver.owed + s.reader.owed + 2 * s.channel.items.length + s.process.elim 0 Pty.Process.owed

def Message.load : Message → Nat
  | .binary frame => frame.length
  | .text content => (utf8 content).length
  | _ => 0

/-- The steps that an answer from outside makes more: the spawn, a message of the client's, a read that
is not the last, a pass that would block or was interrupted. -/
def brings : Label → Nat
  | .spawn _ => 17
  | .read a => if Pty.read a = some (.ok []) then 0 else 4
  | .write a => if Pty.writePass a = none then 1 else 0
  | .receive (.ok message) => message.load + 2
  | .process event => event.brings
  | _ => 0

/-- Nobody gives up on the session. -/
def smooth : Label → Bool
  | .drop => false
  | l => !ptyFails l && !clientGone l

/-- A step that waits for nothing outside: one of the two tasks', or a call of the operating system that
comes back at once. -/
def own : Label → Bool
  | .post | .waited | .recv | .exhausted | .ioctl (.ok ()) | .finish => true
  | .process event => event.free
  | _ => false

/-- What a session may have to wait for: that the socket takes what it is sent, that there is room in
the PTY, or that its end of file comes. -/
inductive Awaits (s : State) : Prop
  | frame (hd : s.driver = .sending message)
  | reply (hd : s.driver = .replying reply)
  | room (hd : s.driver = .writing call)
  | endOfFile (hd : s.driver = .select) (hc : s.channel.items = []) (hk : s.reader = .reading)

section Steps
variable {json : Json} {s t : State} {l : Label}

theorem owed_called (process : Option Pty.Process) :
    (process.map Pty.Process.wait).elim 0 Pty.Process.owed ≤ process.elim 0 Pty.Process.owed + 2 := by
  cases process <;> simp

theorem owed_asked (hr : (system json).Reachable s) :
    (s.process.map Pty.Process.terminate).elim 0 Pty.Process.owed = s.process.elim 0 Pty.Process.owed := by
  cases hp : s.process with
  | none => rfl
  | some p => exact Pty.owed_terminate (reachable_locks hr p hp)

/-- A driver that comes back, or is dropped, has one step less. -/
theorem owed_leave (hr : (system json).Reachable s) (hd : t.driver.owed + 1 ≤ s.driver.owed)
    (hk : t.reader = s.reader) (hc : t.channel = s.channel)
    (hp : t.process = s.process.map Pty.Process.terminate) : t.owed + 1 ≤ s.owed := by
  simp only [State.owed,hk,hc,hp,owed_asked hr]
  omega

/-- The same where the driver goes on. -/
theorem owed_drive (hd : t.driver.owed + 1 ≤ s.driver.owed + count) (hk : t.reader = s.reader)
    (hc : t.channel = s.channel) (hp : t.process = s.process) : t.owed + 1 ≤ s.owed + count := by
  simp only [State.owed,hk,hc,hp]
  omega

theorem owed_over {d : Driver} (hs : d ≠ .spawning) (hr : ∀ o, d ≠ .returned o) (hd : d ≠ .dropped) :
    1 ≤ d.owed := by
  cases d with
  | spawning => exact absurd rfl hs
  | returned o => exact absurd rfl (hr o)
  | dropped => exact absurd rfl hd
  | select | sending m | replying reply | resizing size | terminating o => simp [Driver.owed]
  | writing call =>
    simp only [Driver.owed]
    omega

theorem writeAll_owed (data : Bytes) (written : Nat) :
    (writeAll data written).owed = 2 + (data.length - written) := by
  unfold writeAll
  split
  · rfl
  · simp only [Driver.owed]
    omega

theorem decoded_input {frame data : Bytes} (h : ClientMessage.decode json frame = .ok (.input data)) :
    frame.length = data.length + 1 := by
  cases frame with
  | nil => cases h
  | cons kind payload =>
    simp only [ClientMessage.decode] at h
    split at h
    · split at h <;> cases h
    · split at h <;> cases h
      rfl

/-- What a client's message makes the driver do. -/
theorem handle_owed (s : State) (json : Json) {msg : Message} (h : msg ≠ .close) :
    (s.handle json msg).driver.owed ≤ msg.load + 3 := by
  cases msg with
  | binary frame =>
    simp only [State.handle,Message.load]
    split
    · rename_i data hd
      have hlen := decoded_input hd
      rw [writeAll_owed]
      omega
    · simp only [Driver.owed]
      omega
    · simp only [Driver.owed]
      omega
  | text content =>
    simp only [State.handle,writeAll_owed,Message.load]
    omega
  | close => exact absurd rfl h
  | ping data | pong data => simp [State.handle,Driver.owed,Message.load]

theorem writePass_some {a : Pty.Attempt Nat} {count : Nat} (h : Pty.writePass a = some (.ok count)) : 0 < count := by
  unfold Pty.writePass at h
  split at h
  · cases h
  · split at h
    · cases h
    · cases h
    · rename_i n hn _
      cases h
      exact Nat.pos_of_ne_zero hn
    · cases h

/-- Every step is one of those the session owes, or was brought from outside. -/
theorem move_owed (hr : (system json).Reachable s) (hm : Move json s l t) : t.owed + 1 ≤ s.owed + brings l := by
  have hcalled := owed_called s.process
  cases hm with
  | spawned hd =>
    rw [spawning_start hr hd]
    exact Nat.le_refl _
  | spawnFailed hd =>
    rw [spawning_start hr hd]
    exact Nat.le_add_left 1 16
  | readAgain hk ha => simp [State.owed,brings,ha]
  | readEnd hk ha =>
    simp only [State.owed,State.leaveLoop,hk,Reader.owed]
    omega
  | readData hk ha hne =>
    simp only [State.owed,brings,ha,hk,Reader.owed,Option.some.injEq,Except.ok.injEq,hne,if_false]
    omega
  | readFailed hk ha =>
    simp only [State.owed,brings,ha,hk,Reader.owed,Option.some.injEq,reduceCtorEq,if_false]
    omega
  | @posted m c hk ho hc =>
    have hitems := Queue.push_items hc
    cases m with
    | output data =>
      simp only [State.owed,State.posted,if_true,hk,hitems,Reader.owed,List.length_append,List.length_singleton]
      omega
    | error message =>
      simp only [State.owed,State.posted,State.leaveLoop,hk,hitems,Reader.owed,List.length_append,List.length_singleton]
      omega
    | exited code =>
      simp only [State.owed,State.posted,hk,hitems,Reader.owed,List.length_append,List.length_singleton]
      omega
  | @unposted m hk ho =>
    cases m with
    | output data | error message =>
      simp only [State.owed,State.posted,Bool.false_eq_true,if_false,State.leaveLoop,hk,Reader.owed]
      omega
    | exited code =>
      simp only [State.owed,State.posted,hk,Reader.owed]
      omega
  | waited hk hw =>
    simp only [State.owed,hk,Reader.owed]
    omega
  | took hd hc =>
    simp only [State.owed,hd,hc,Driver.owed,Queue.drop_items,List.drop_one,List.tail_cons,List.length_cons]
    omega
  | @received msg hd =>
    by_cases hclose : msg = .close
    · subst hclose
      refine Nat.le_trans ?_ (Nat.le_add_right _ _)
      exact owed_leave hr (by simp [State.handle,hd,Driver.owed]) rfl rfl rfl
    · have howed := handle_owed { s with received := s.received ++ [msg] } json hclose
      have htwo : s.driver.owed = 2 := by rw [hd]; rfl
      refine owed_drive ?_ (handle_reader _ _ _) (handle_channel _ _ _) (handle_over _ json hclose).2
      simp only [htwo,brings]
      omega
  | @delivered m hd =>
    cases m with
    | output data | error message => exact owed_drive (by simp [State.delivered,hd,Driver.owed]) rfl rfl rfl
    | exited code => exact owed_leave hr (by simp [State.delivered,hd,Driver.owed]) rfl rfl rfl
  | receiveFailed hd | exhausted hd hk hc | undelivered hd | unreplied hd | resizeFailed hd hi =>
    exact owed_leave hr (by simp [hd,Driver.owed]) rfl rfl rfl
  | writeFailed hd ha =>
    refine Nat.le_trans ?_ (Nat.le_add_right _ _)
    exact owed_leave hr (by simp [hd,Driver.owed]) rfl rfl rfl
  | dropped hs hk hd => exact owed_leave hr (owed_over hs hk hd) rfl rfl rfl
  | replied hd | resized hd hi => exact owed_drive (by simp [hd,Driver.owed]) rfl rfl rfl
  | finished hd hp ht => exact owed_drive (by simp [hd,Driver.owed]) rfl rfl rfl
  | writeAgain hd ha => simp [brings,ha]
  | @wrote call a count hd ha hk =>
    have hpos := writePass_some ha
    have hleft : s.driver.owed = 2 + (call.data.length - call.written) := by rw [hd]; rfl
    refine owed_drive ?_ rfl rfl rfl
    simp only [hleft,writeAll_owed]
    omega
  | process hp he =>
    have howed := Pty.move_owed (Pty.step_move he)
    simp only [State.owed,brings,hp,Option.elim_some]
    omega

/-- The child has exited, and the driver has not come back, or with the exit frame. -/
structure Ebbing (s : State) : Prop where
  process : ∃ p, s.process = some p ∧ p.child ≠ .running
  born : s.driver ≠ .spawning
  there : s.driver ≠ .dropped
  outcome : ∀ o, s.driver.outcome = some o → o = .exited

theorem Ebbing.live (h : Ebbing s) (hp : t.process = s.process) (hn : t.driver ≠ .spawning)
    (hd : t.driver.over = false) : Ebbing t := by
  refine ⟨hp.symm ▸ h.process,hn,?_,?_⟩
  · intro he
    simp [he] at hd
  · intro o ho
    rw [live_outcome hd] at ho
    cases ho

theorem Ebbing.aside (h : Ebbing s) (hd : t.driver = s.driver)
    (hp : ∃ p, t.process = some p ∧ p.child ≠ .running) : Ebbing t :=
  ⟨hp,hd.symm ▸ h.born,hd.symm ▸ h.there,hd.symm ▸ h.outcome⟩

theorem Ebbing.wait (h : Ebbing s) (hd : t.driver = s.driver)
    (hp : t.process = s.process.map Pty.Process.wait) : Ebbing t := by
  obtain ⟨p,hs,hchild⟩ := h.process
  exact h.aside hd ⟨p.wait,by rw [hp,hs]; rfl,hchild⟩

theorem Ebbing.leave (h : Ebbing s) (code : Int32) : Ebbing (s.delivered (.exited code)) := by
  obtain ⟨p,hp,hchild⟩ := h.process
  refine ⟨⟨p.terminate,by simp [State.delivered,hp],?_⟩,by simp [State.delivered],by simp [State.delivered],?_⟩
  · cases hs : p.cleanupStarted with
    | true => rwa [Pty.terminate_started hs]
    | false => rwa [Pty.terminate_first hs]
  · intro o ho
    exact (Option.some.inj ho).symm

theorem move_ebbing (hr : (system json).Reachable s) (h : Ebbing s) (hm : Move json s l t)
    (hl : smooth l = true) : Ebbing t := by
  cases hm with
  | spawned hd | spawnFailed hd => exact absurd hd h.born
  | dropped | receiveFailed | undelivered | unreplied => cases hl
  | exhausted hd hk hc =>
    exact absurd hc (done_not_exhausted (reachable_flow hr) (reachable_exit_last hr) hd hk)
  | writeFailed hd ha => simp [smooth,ptyFails,ha] at hl
  | resizeFailed hd hi =>
    obtain ⟨error,rfl⟩ := resize_refused hi
    cases hl
  | readEnd hk ha => exact h.wait rfl rfl
  | @posted m c hk ho hc =>
    cases m with
    | output data | exited code => exact h.aside rfl h.process
    | error message => exact h.wait rfl rfl
  | @unposted m hk ho =>
    cases m with
    | output data | error message => exact h.wait rfl rfl
    | exited code => exact h.aside rfl h.process
  | readAgain hk ha | readData hk ha hne | readFailed hk ha | waited hk hw => exact h.aside rfl h.process
  | took hd hc | replied hd | resized hd hi => exact h.live rfl (by simp) (by simp)
  | @received msg hd =>
    have hne : msg ≠ .close := by
      rintro rfl
      cases hl
    obtain ⟨hover,hprocess⟩ := handle_over { s with received := s.received ++ [msg] } json hne
    exact h.live hprocess (handle_spawning _ _ _) hover
  | @delivered m hd =>
    cases m with
    | output data | error message => exact h.live rfl (by simp [State.delivered]) (by simp [State.delivered])
    | exited code => exact h.leave code
  | writeAgain hd ha => exact h
  | wrote hd ha hk => exact h.live rfl (writeAll_spawning _ _) (writeAll_over _ _)
  | finished hd hs ht => exact ⟨h.process,by simp,by simp,fun o ho => h.outcome o (by simpa [hd] using ho)⟩
  | process hs he =>
    obtain ⟨p,hp,hchild⟩ := h.process
    obtain rfl := Option.some.inj (hp.symm.trans hs)
    exact h.aside rfl ⟨_,rfl,Pty.move_running hchild (Pty.step_move he)⟩

/-- Until the driver comes back nobody asks for the cleanup, and a reader that waits has called `wait`. -/
structure Manned (s : State) : Prop where
  idle : s.driver.over = false → ∀ p, s.process = some p → p.cleanup = .idle
  reader : ∀ p, s.process = some p → s.reader ≠ .unborn ∧ (s.reader = .waiting → p.waiters ≠ [])

theorem Manned.keep (h : Manned s) (ho : t.driver.over = false → s.driver.over = false)
    (hp : t.process = s.process) (hk : t.reader = s.reader ∨ t.reader ≠ .unborn ∧ t.reader ≠ .waiting) :
    Manned t := by
  refine ⟨fun hl p hs => h.idle (ho hl) p (hp ▸ hs),fun p hs => ?_⟩
  rcases hk with hk | ⟨hborn,hwait⟩
  · rw [hk]
    exact h.reader p (hp ▸ hs)
  · exact ⟨hborn,fun he => absurd he hwait⟩

theorem Manned.wait (h : Manned s) (hd : t.driver = s.driver) (hp : t.process = s.process.map Pty.Process.wait)
    (hk : t.reader = .waiting) : Manned t := by
  constructor
  · intro hl q hq
    rw [hp] at hq
    obtain ⟨p,hs,rfl⟩ := Option.map_eq_some_iff.mp hq
    exact h.idle (hd ▸ hl) p hs
  · intro q hq
    rw [hp] at hq
    obtain ⟨p,hs,rfl⟩ := Option.map_eq_some_iff.mp hq
    refine ⟨by simp [hk],fun _ => ?_⟩
    simp [Pty.Process.wait]

theorem Manned.leave (h : Manned s) (ho : t.driver.over = true)
    (hp : t.process = s.process.map Pty.Process.terminate) (hk : t.reader = s.reader) : Manned t := by
  constructor
  · intro hl
    rw [ho] at hl
    cases hl
  · intro q hq
    rw [hp] at hq
    obtain ⟨p,hs,rfl⟩ := Option.map_eq_some_iff.mp hq
    have hw : p.terminate.waiters = p.waiters := by
      cases hc : p.cleanupStarted with
      | true => rw [Pty.terminate_started hc]
      | false => rw [Pty.terminate_first hc]
    rw [hk,hw]
    exact h.reader p hs

theorem move_idle {p q : Pty.Process} {event : Pty.Event} (h : p.cleanup = .idle) (hm : Pty.Move p event q) :
    q.cleanup = .idle := by
  cases hm with
  | exited hc | waitLocked hl hw | waited hw hc | waitFailed hw => exact h
  | locked hl hc | checkFailed hc | pollFailed hc | gone hc hs | there hc hs | died hc hs | alive hc hs
  | terminated hc hs | terminateFailed hc hs | killed hc hs | killedLate hc hs | killFailed hc hs
  | slept hc | reaped hc hs | reapFailed hc => cases h.symm.trans hc

theorem move_waiters {p q : Pty.Process} {event : Pty.Event} (hm : Pty.Move p event q) :
    q.waiters.length = p.waiters.length := by
  cases hm <;> simp [Pty.Process.finish]

theorem move_manned (h : Manned s) (hstart : s.driver = .spawning → s = start) (hm : Move json s l t) :
    Manned t := by
  cases hm with
  | spawned hd =>
    constructor
    · intro _ p hp
      cases hp
      rfl
    · exact fun p _ => ⟨by simp,by simp⟩
  | spawnFailed hd =>
    rw [hstart hd]
    exact ⟨fun _ p hp => (by cases hp),fun p hp => (by cases hp)⟩
  | readEnd hk ha => exact h.wait rfl rfl rfl
  | @posted m c hk ho hp =>
    cases m with
    | output data | exited code => exact h.keep id rfl (.inr ⟨by simp [State.posted],by simp [State.posted]⟩)
    | error message => exact h.wait rfl rfl rfl
  | @unposted m hk ho =>
    cases m with
    | output data | error message => exact h.wait rfl rfl rfl
    | exited code => exact h.keep id rfl (.inr ⟨by simp [State.posted],by simp [State.posted]⟩)
  | readData hk ha hne | readFailed hk ha | waited hk hw => exact h.keep id rfl (.inr ⟨by simp,by simp⟩)
  | @received msg hd =>
    by_cases hc : msg = .close
    · subst hc
      exact h.leave rfl rfl rfl
    · exact h.keep (by simp [hd]) (handle_over _ json hc).2 (.inl (handle_reader _ _ _))
  | @delivered m hd =>
    cases m with
    | output data | error message => exact h.keep (by simp [hd]) rfl (.inl rfl)
    | exited code => exact h.leave rfl rfl rfl
  | receiveFailed hd | exhausted hd hk hc | undelivered hd | unreplied hd | writeFailed hd ha
  | resizeFailed hd hi | dropped hs hk hd => exact h.leave rfl rfl rfl
  | @process p event q hp he =>
    have hm := Pty.step_move he
    constructor
    · intro hl r hr
      cases hr
      exact move_idle (h.idle hl p hp) hm
    · intro r hr
      cases hr
      obtain ⟨hborn,hwait⟩ := h.reader p hp
      refine ⟨hborn,fun hk => ?_⟩
      have hlen := move_waiters hm
      have hpos := List.length_pos_of_ne_nil (hwait hk)
      exact List.ne_nil_of_length_pos (by omega)
  | readAgain hk ha | writeAgain hd ha => exact h.keep id rfl (.inl rfl)
  | took hd hc | replied hd | wrote hd ha hk | resized hd hi | finished hd hp ht =>
    exact h.keep (by simp [hd]) rfl (.inl rfl)

theorem reachable_manned (hr : (system json).Reachable s) : Manned s := by
  refine hr.invariant ⟨fun _ p hp => (by cases hp),fun p hp => (by cases hp)⟩ ?_
  intro s l t hs h hstep
  exact move_manned h (spawning_start hs) (step_move hstep)

/-- With the channel empty, the reader of a live session goes on, or waits for the end of file. -/
theorem reader_next (hr : (system json).Reachable s) (h : Ebbing s) (hd : s.driver = .select)
    (hc : s.channel.items = []) :
    (∃ l, own l = true ∧ (step json s l).isSome = true) ∨ s.reader = .reading := by
  have hlive : s.driver.over = false := by simp [hd]
  obtain ⟨p,hp,hchild⟩ := h.process
  have hmanned := reachable_manned hr
  cases hk : s.reader with
  | unborn => exact absurd hk (hmanned.reader p hp).1
  | reading => exact .inr rfl
  | posting m =>
    have hroom : (s.channel.push [m]).isSome = true := by
      apply Queue.push_isSome.mpr
      simp [hc,channelCapacity]
    exact .inl ⟨.post,rfl,by simpa [step,hk,live_open hr hlive] using hroom⟩
  | waiting =>
    have hidle := hmanned.idle hlive p hp
    rcases Pty.wait_next (reachable_locks hr p hp) hchild hidle ((hmanned.reader p hp).2 hk) with hw | hw
    · obtain ⟨result,hw⟩ := hw
      exact .inl ⟨.waited,rfl,by simp [step,hk,State.waiter,hp,hw]⟩
    · obtain ⟨event,q,hfree,he⟩ := hw
      exact .inl ⟨.process event,hfree,by simp [step,hp,he]⟩
  | done => exact absurd hc (done_not_exhausted (reachable_flow hr) (reachable_exit_last hr) hd hk)

/-- A driver that waits for the cleanup, or the cleanup, goes on, unless the killed child is awaited. -/
theorem terminating_next (hr : (system json).Reachable s) {o : Outcome} (hd : s.driver = .terminating o)
    {p : Pty.Process} (hp : s.process = some p) (hlate : Late p) :
    (p.cleanup = .waiting ∧ p.child = .running) ∨
      ∃ l, own l = true ∧ lateWait s l = true ∧ (step json s l).isSome = true := by
  have hlocks := reachable_locks hr p hp
  have hasked := hlocks.started.mp (reachable_asked hr (by simp [hd]) p hp)
  rcases Pty.cleanup_next hlocks hlate hasked with ht | hw | hnext
  · exact .inr ⟨.finish,rfl,rfl,by simp [step,hd,hp,ht]⟩
  · exact .inl hw
  · obtain ⟨event,q,honward,he⟩ := hnext
    refine .inr ⟨.process event,Pty.onward_free honward,?_,by simp [step,hp,he]⟩
    cases event with
    | lockWait caller => cases honward
    | exit status | waitReturns caller result | lockCleanup | tryWait result | signal result | clock expired
    | reap result => rfl

/-- An ebbing session that has not returned can go on by itself, or waits for the outside. -/
theorem own_next (hr : (system json).Reachable s) (h : Ebbing s) :
    (∃ l, own l = true ∧ (step json s l).isSome = true) ∨ Awaits s ∨ s.driver = .returned .exited := by
  obtain ⟨p,hp,hchild⟩ := h.process
  cases hd : s.driver with
  | spawning => exact absurd hd h.born
  | dropped => exact absurd hd h.there
  | select =>
    cases hc : s.channel.items with
    | nil => exact (reader_next hr h hd hc).imp_right fun hk => .inl (.endOfFile hd hc hk)
    | cons m rest => exact .inl ⟨.recv,rfl,by simp [step,hd,hc]⟩
  | sending m => exact .inr (.inl (.frame hd))
  | replying reply => exact .inr (.inl (.reply hd))
  | writing call => exact .inr (.inl (.room hd))
  | resizing size =>
    have hset : Pty.resize (.ok ()) = .ok () := rfl
    exact .inl ⟨.ioctl (.ok ()),rfl,by simp [step,hd,hset]⟩
  | terminating o =>
    rcases terminating_next hr hd hp (fun _ _ => .inl hchild) with hw | hnext
    · exact absurd hw.2 hchild
    · obtain ⟨l,hl,_,hs⟩ := hnext
      exact .inl ⟨l,hl,hs⟩
  | returned o =>
    obtain rfl := h.outcome o (by simp [hd])
    exact .inr (.inr rfl)

/-- What is awaited takes the session on when it comes, and is one of the steps it owes. -/
theorem awaits_next (json : Json) (h : Awaits s) :
    ∃ l, smooth l = true ∧ brings l = 0 ∧ (step json s l).isSome = true := by
  cases h with
  | frame hd | reply hd => exact ⟨.send (.ok ()),rfl,rfl,by simp [step,hd]⟩
  | @room call hd =>
    have hone : call.written + 1 ≤ call.data.length := call.unfinished
    have hpass : Pty.writePass (.result (.ok 1)) = some (.ok 1) := rfl
    exact ⟨.write (.result (.ok 1)),rfl,rfl,by simp [step,hd,hpass,hone]⟩
  | endOfFile hd hc hk =>
    have hend : Pty.read (.result (.error .eio)) = some (.ok []) := rfl
    exact ⟨.read (.result (.error .eio)),rfl,rfl,by simp [step,hk,hend]⟩

theorem own_brings (h : own l = true) : brings l = 0 := by
  cases l with
  | process event => exact beq_iff_eq.mp (Bool.and_eq_true_iff.mp h).1
  | post | waited | recv | exhausted | ioctl result | finish => rfl
  | spawn result | read a | receive message | send result | write a | drop => cases h

/-- For a step that brings nothing a session takes no message. -/
theorem quiet_received (h : step json s l = some t) (hl : brings l = 0) : t.received = s.received := by
  cases step_move h with
  | received hd => cases hl
  | posted hk ho hp | unposted hk ho => simp
  | delivered hd => simp
  | spawned | spawnFailed | readAgain | readEnd | readData | readFailed | waited | took | receiveFailed
  | exhausted | replied | undelivered | unreplied | writeAgain | wrote | writeFailed | resized
  | resizeFailed | finished | dropped | process => rfl

theorem ebbing_exited (hr : (system json).Reachable s) (hlive : s.driver.over = false)
    (hexit : s.childExited = true) : Ebbing s := by
  obtain ⟨p,hp,hchild⟩ := (Option.any_eq_true _ _).mp hexit
  refine ⟨⟨p,hp,by simpa using hchild⟩,?_,?_,?_⟩
  · intro hd
    rw [spawning_start hr hd] at hp
    cases hp
  · intro hd
    simp [hd] at hlive
  · intro o ho
    rw [live_outcome hlive] at ho
    cases ho

theorem run_ebbing (hr : (system json).Reachable s) (h : Ebbing s) {ls : List Label}
    (hrun : ((system json).only (fun _ l => smooth l)).run s ls = some t) :
    ((system json).Reachable t ∧ Ebbing t) ∧ (ls.length : Int) + t.owed ≤ s.owed + (ls.map brings).sum := by
  refine @System.run_potential _ _ ((system json).only (fun _ l => smooth l))
    (fun s => (system json).Reachable s ∧ Ebbing s) (fun s => s.owed) brings ?_ s t ls ⟨hr,h⟩ hrun
  intro s l t hs hl
  obtain ⟨hsmooth,hstep⟩ := System.only_step.mp hl
  have hm := step_move hstep
  have hle := move_owed hs.1 hm
  exact ⟨⟨hs.1.step hstep,move_ebbing hs.1 hs.2 hm hsmooth⟩,by omega⟩

/-- What `drive_socket` has come back with stays, unless the task is dropped. -/
theorem outcome_stays {o : Outcome} (hm : Move json s l t) (ho : s.driver.outcome = some o) (hl : l ≠ .drop) :
    t.driver.outcome = some o := by
  cases hm with
  | dropped hs hk hd => exact absurd rfl hl
  | finished hd hp ht => simpa [hd] using ho
  | spawned hd | spawnFailed hd | took hd hc | received hd | receiveFailed hd | exhausted hd hk hc | delivered hd
  | replied hd | undelivered hd | unreplied hd | wrote hd ha hk | writeFailed hd ha | resized hd hi
  | resizeFailed hd hi => simp [hd] at ho
  | @posted m c hk hx hc => simpa using ho
  | @unposted m hk hx => simpa using ho
  | readAgain hk ha | readEnd hk ha | readData hk ha hne | readFailed hk ha | waited hk hw | writeAgain hd ha
  | process hp he => exact ho

/-- `wait` gets the mutex late, and the task is not dropped. -/
def patient (s : State) (l : Label) : Bool := lateWait s l && l != .drop

theorem run_leaving {o : Outcome} (hr : ((system json).only lateWait).Reachable s)
    (hd : s.driver.outcome = some o) {ls : List Label} (hrun : ((system json).only patient).run s ls = some t) :
    (((system json).only lateWait).Reachable t ∧ t.driver.outcome = some o) ∧
      (ls.length : Int) + t.owed ≤ s.owed + (ls.map brings).sum := by
  refine @System.run_potential _ _ ((system json).only patient)
    (fun s => ((system json).only lateWait).Reachable s ∧ s.driver.outcome = some o) (fun s => s.owed) brings ?_
    s t ls ⟨hr,hd⟩ hrun
  intro s l t hs hl
  obtain ⟨hpatient,hstep⟩ := System.only_step.mp hl
  obtain ⟨hlate,hstay⟩ := Bool.and_eq_true_iff.mp hpatient
  have hm := step_move hstep
  have hle := move_owed hs.1.unrestrict hm
  have hlate := hs.1.step (System.only_step.mpr ⟨hlate,hstep⟩)
  exact ⟨⟨hlate,outcome_stays hm hs.2 (by simpa using hstay)⟩,by omega⟩

end Steps

/-- Once the child has exited, a session that nobody gives up on comes to its end under every
schedule, if what it waits for comes: there are only so many steps left, plus those that the outside
makes more, and until it has returned it can take one of its own, or the socket, room in the PTY or
its end of file is awaited. At the end its client has all the output and the exit code. -/
theorem exit_ends {json : Json} {s t : State} {ls : List Label} (hr : (system json).Reachable s)
    (hlive : s.driver.over = false) (hexit : s.childExited = true)
    (hrun : ((system json).only (fun _ l => smooth l)).run s ls = some t) :
    ls.length ≤ s.owed + (ls.map brings).sum ∧
    ((∃ l, own l = true ∧ (step json t l).isSome = true) ∨ Awaits t ∨
      t.driver = .returned .exited ∧ ∃ pre code, t.sent = pre ++ [.queued (.exited code)] ∧
        outputSent pre = bytesRead t.reads ∧ Truth t code) ∧
    (Awaits t → ∃ l, smooth l = true ∧ brings l = 0 ∧ (step json t l).isSome = true) := by
  obtain ⟨⟨ht,hebb⟩,hlen⟩ := run_ebbing hr (ebbing_exited hr hlive hexit) hrun
  refine ⟨by omega,(own_next ht hebb).imp_right (Or.imp_right fun hd => ⟨hd,?_⟩),awaits_next json⟩
  obtain ⟨p,hp,_⟩ := hebb.process
  have hclosing := exited_closing ht hd
  simp only [ClosingFrame,hp,Option.isSome_some,if_true] at hclosing
  obtain ⟨pre,code,hsent,hout⟩ := hclosing
  exact ⟨pre,code,hsent,hout,sent_truth ht (by simp [hsent])⟩

/-- The command has exited, and its last two bytes have still to be read. -/
def exitedRun : List Label := [.spawn (.ok 71),.process (.exit (.exited 7))]

def windupRun : List Label :=
  [.read (.result (.ok ⟨[111,107],Nat.le_of_ble_eq_true rfl⟩)),.post,.recv,.send (.ok ()),
   .read (.result (.error .eio)),.process (.lockWait 0),.process (.waitReturns 0 (.ok (.exited 7))),
   .waited,.post,.recv,.send (.ok ()),.process .lockCleanup,
   .process (.tryWait (.ok (some (.exited 7)))),.finish]

/-- A session whose decoder refuses everything. -/
def deaf : System State Label := system ⟨fun _ => .error "",fun _ => .error ""⟩

theorem exit_ends_read : ∃ s t : State, (deaf.only (fun _ l => smooth l)).run s windupRun = some t ∧
    t.driver = .returned .exited ∧ s.owed = 16 ∧ windupRun.length ≤ s.owed + (windupRun.map brings).sum := by
  have hr := System.reachable_end (m := deaf) exitedRun rfl
  exact ⟨(deaf.run start exitedRun).get rfl,_,rfl,rfl,rfl,(@exit_ends _ _ _ windupRun hr rfl rfl rfl).1⟩

/-- However `drive_socket` comes back, the session's cleanup comes to its end under every schedule in
which `wait` gets the mutex late only: there are only so many steps left, plus those that the outside
brings, and until `run_socket` is back one of them can always be taken, unless all that is left is
the exit of the child that the cleanup has killed. -/
theorem leaving_ends {json : Json} {s t : State} {ls : List Label} {o : Outcome}
    (hr : ((system json).only lateWait).Reachable s) (hd : s.driver = .terminating o)
    (hrun : ((system json).only patient).run s ls = some t) :
    ls.length ≤ s.owed + (ls.map brings).sum ∧
    ((∃ l, own l = true ∧ (((system json).only patient).step t l).isSome = true) ∨
      (∃ p, t.process = some p ∧ p.cleanup = .waiting ∧ p.child = .running) ∨ t.driver = .returned o) := by
  obtain ⟨⟨ht,ho⟩,hlen⟩ := run_leaving hr (by rw [hd]; rfl) hrun
  refine ⟨by omega,?_⟩
  cases hdriver : t.driver with
  | spawning | select | sending m | replying reply | writing call | resizing size | dropped => simp [hdriver] at ho
  | returned outcome => exact .inr (.inr (by simpa [hdriver] using ho))
  | terminating outcome =>
    cases hp : t.process with
    | none =>
      rcases (reachable_childless ht.unrestrict hp).2 with he | ⟨e,he⟩ <;> simp [hdriver] at he
    | some p =>
      rcases terminating_next ht.unrestrict hdriver hp (only_late ht p hp) with hw | ⟨l,hl,hlate,hs⟩
      · exact .inr (.inl ⟨p,rfl,hw⟩)
      · obtain ⟨u,hu⟩ := Option.isSome_iff_exists.mp hs
        have hstay : l ≠ .drop := by
          rintro rfl
          cases hl
        have hpatient : patient t l = true := Bool.and_eq_true_iff.mpr ⟨hlate,by simpa using hstay⟩
        exact .inl ⟨l,hl,Option.isSome_iff_exists.mpr ⟨u,System.only_step.mpr ⟨hpatient,hu⟩⟩⟩

/-- The client leaves a child that does not heed the first signal. -/
def leavingRun : List Label :=
  [.process .lockCleanup,.process (.tryWait (.ok none)),.process (.signal (.ok ())),.process (.tryWait (.ok none)),
   .process (.clock false),.process (.tryWait (.ok none)),.process (.clock true),.process (.signal (.ok ())),
   .process (.exit (.signaled 9)),.process (.reap (.ok (.signaled 9))),.finish]

theorem leaving_ends_killed : ∃ s t : State, (deaf.only patient).run s leavingRun = some t ∧
    t.driver = .returned .closed ∧ s.owed = 15 ∧ leavingRun.length ≤ s.owed + (leavingRun.map brings).sum := by
  have hr := System.reachable_end (m := deaf.only lateWait) [.spawn (.ok 71),.receive (.ok .close)] rfl
  exact ⟨((deaf.only lateWait).run start [.spawn (.ok 71),.receive (.ok .close)]).get rfl,_,rfl,rfl,rfl,
    (@leaving_ends _ _ _ leavingRun _ hr rfl rfl).1⟩

end Terminald.Session
