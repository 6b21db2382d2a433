import Terminald.Model.Spawn

namespace Terminald.Spawn
open Machine

/-- What a command of session `k` should have: of its own PTY only the slave, on the
first three descriptors, and nothing of any other PTY. -/
structure Isolated (k : Nat) (t : Table Object) : Prop where
  own : ∀ fd d, t.get fd = some d → d.object = .slave k → fd ≤ 2
  master : ∀ fd d j, t.get fd = some d → d.object ≠ .master j
  foreign : ∀ fd d j, t.get fd = some d → d.object = .slave j → j = k

/-- Both sides of the session's PTY, where `openpty` put them. -/
structure Both (k : Nat) (t : Table Object) (m n : Nat) : Prop where
  master : t.get m = some ⟨.master k,false⟩
  slave : t.get n = some ⟨.slave k,false⟩
  behind : 2 < m ∧ 2 < n

/-- The descriptor is one of the session's. -/
def Owns (k : Nat) (t : Table Object) (fd : Nat) : Prop :=
  2 < fd ∧ ∃ d, t.get fd = some d ∧ (d.object = .master k ∨ d.object = .slave k)

/-- What the phase of a session knows of the server's table. -/
def Fits (k : Nat) (t : Table Object) : Phase → Prop
  | .opening | .ended => True
  | .opened master slave | .registered master slave | .spawned master slave => Both k t master slave
  | .forked master slave child | .prepared master slave child =>
    Both k t master slave ∧ Both k child master slave
  | .running master => t.get master = some ⟨.master k,false⟩ ∧ 2 < master
  | .failing left => left.Nodup ∧ ∀ fd ∈ left, Owns k t fd

/-- Nothing of the session's is gone. -/
def Keeps (k : Nat) (t u : Table Object) : Prop :=
  ∀ fd d, t.get fd = some d → d.object = .master k ∨ d.object = .slave k → u.get fd = some d

section Tables
variable {k master slave : Nat} {t u : Table Object}

theorem both_ne (h : Both k t master slave) : master ≠ slave := by
  intro he
  have hs := h.slave
  rw [← he,h.master] at hs
  cases hs

theorem Both.owns (h : Both k t master slave) : Owns k t master ∧ Owns k t slave :=
  ⟨⟨h.behind.1,_,h.master,.inl rfl⟩,⟨h.behind.2,_,h.slave,.inr rfl⟩⟩

theorem Both.keep (h : Both k t master slave) (hk : Keeps k t u) : Both k u master slave :=
  ⟨hk _ _ h.master (.inl rfl),hk _ _ h.slave (.inr rfl),h.behind⟩

theorem Owns.keep {fd : Nat} (h : Owns k t fd) (hk : Keeps k t u) : Owns k u fd := by
  obtain ⟨hb,d,hd,ho⟩ := h
  exact ⟨hb,d,hk fd d hd ho,ho⟩

theorem fits_keep {phase : Phase} (h : Fits k t phase) (hk : Keeps k t u) : Fits k u phase := by
  cases phase with
  | opening | ended => trivial
  | opened m n | registered m n | spawned m n => exact Both.keep h hk
  | forked m n child | prepared m n child => exact ⟨h.1.keep hk,h.2⟩
  | running m => exact ⟨hk m _ h.1 (.inl rfl),h.2⟩
  | failing left => exact ⟨h.1,fun fd hfd => (h.2 fd hfd).keep hk⟩

theorem keeps_alloc (k : Nat) (t : Table Object) (d : Descriptor Object) : Keeps k t (t.alloc d) :=
  fun _ _ h _ => Table.get_alloc h d

theorem Keeps.trans {v : Table Object} (h : Keeps k t u) (hv : Keeps k u v) : Keeps k t v :=
  fun fd d hd ho => hv fd d (h fd d hd ho) ho

/-- Something of another session's, or of nobody's, is closed. -/
theorem keeps_close {fd : Nat} {d : Descriptor Object} (hd : t.get fd = some d)
    (ho : ¬(d.object = .master k ∨ d.object = .slave k)) : Keeps k t (t.close fd) := by
  intro i e he hown
  apply Table.get_close he
  intro hi
  subst hi
  obtain rfl := Option.some.inj (hd.symm.trans he)
  exact ho hown

theorem keeps_owned {j fd : Nat} (h : Owns j t fd) (hne : j ≠ k) : Keeps k t (t.close fd) := by
  obtain ⟨_,d,hd,ho⟩ := h
  apply keeps_close hd
  rcases ho with ho | ho <;> simp [ho,hne]

/-- The copy is still there after the first three have been replaced. -/
theorem both_fork (h : Both k t master slave) : Both k (forkTable t) master slave := by
  have kept : ∀ {fd d}, 2 < fd → t.get fd = some d → (forkTable t).get fd = some d := by
    intro fd d hfd hd
    simp only [forkTable,List.foldl_cons,List.foldl_nil]
    rw [Table.get_put_other (by omega),Table.get_put_other (by omega),Table.get_put_other (by omega),hd]
  exact ⟨kept h.behind.1 h.master,kept h.behind.2 h.slave,h.behind⟩

theorem both_setup {source : Nat} (h : Both k t master slave) (hs : childSetup source t = some u) :
    Both k u master slave := by
  simp only [childSetup,List.foldlM_cons,List.foldlM_nil,Option.bind_eq_bind] at hs
  obtain ⟨a,ha,hs⟩ := Option.bind_eq_some_iff.mp hs
  obtain ⟨b,hb,hs⟩ := Option.bind_eq_some_iff.mp hs
  obtain ⟨c,hc,hs⟩ := Option.bind_eq_some_iff.mp hs
  obtain rfl := Option.some.inj hs
  have kept : ∀ {fd d}, 2 < fd → t.get fd = some d → c.get fd = some d := by
    intro fd d hfd hd
    exact Table.get_dup2 hc (Table.get_dup2 hb (Table.get_dup2 ha hd (by omega)) (by omega)) (by omega)
  exact ⟨kept h.behind.1 h.master,kept h.behind.2 h.slave,h.behind⟩

theorem both_exec (h : Both k t master slave) : Both k t.exec master slave :=
  ⟨Table.get_exec_kept h.master rfl,Table.get_exec_kept h.slave rfl,h.behind⟩

/-- A table with both sides still on it is not isolated. -/
theorem both_leaks (h : Both k t master slave) : ¬Isolated k t := by
  intro hi
  exact hi.master master _ k h.master rfl

end Tables
/-- The first three descriptors are the runtime's, every session has what its phase
says, and every command still had both sides of its session's PTY. -/
structure Sound (s : State) : Prop where
  std : ∀ fd ≤ 2, ∃ d, s.table.get fd = some d ∧ d.object = .other
  sessions : ∀ k phase, s.sessions[k]? = some phase → Fits k s.table phase
  commands : ∀ c ∈ s.commands, ∃ m n, Both c.1 c.2 m n

section Steps
variable {s t : State} {l : Label} {k : Nat}

theorem lowest_behind {t : Table Object} (h : ∀ fd ≤ 2, ∃ d, t.get fd = some d ∧ d.object = .other) :
    2 < t.lowest := by
  by_contra hle
  obtain ⟨d,hd,_⟩ := h t.lowest (by omega)
  rw [Table.get_lowest] at hd
  cases hd

/-- Session `k` goes on to a phase that fits, and the others keep what they have. -/
theorem Sound.set {u : Table Object} {phase : Phase} (h : Sound s)
    (hstd : ∀ fd ≤ 2, ∃ d, u.get fd = some d ∧ d.object = .other)
    (hkeep : ∀ j, j ≠ k → Keeps j s.table u) (hfits : Fits k u phase) :
    Sound (State.set { s with table := u } k phase) := by
  refine ⟨hstd,?_,h.commands⟩
  intro j other hj
  simp only [State.set,List.getElem?_set] at hj
  split at hj
  · rename_i hkj
    subst hkj
    split at hj
    · obtain rfl := Option.some.inj hj
      exact hfits
    · cases hj
  · exact fits_keep (h.sessions j other hj) (hkeep j (Ne.symm ‹_›))

/-- The same while the table stays. -/
theorem Sound.turn {phase : Phase} (h : Sound s) (hfits : Fits k s.table phase) :
    Sound (s.set k phase) :=
  h.set h.std (fun _ _ _ _ hd _ => hd) hfits

theorem failing_fits {m n : Nat} {t : Table Object} (h : Both k t m n) :
    Fits k t (.failing [m,n]) ∧ Fits k t (.failing [n,m]) := by
  have hne := both_ne h
  refine ⟨⟨by simp [hne],?_⟩,⟨by simp [hne.symm],?_⟩⟩
  · intro fd hfd
    rcases List.mem_pair.mp hfd with rfl | rfl
    · exact h.owns.1
    · exact h.owns.2
  · intro fd hfd
    rcases List.mem_pair.mp hfd with rfl | rfl
    · exact h.owns.2
    · exact h.owns.1

theorem std_close {t : Table Object} {fd : Nat}
    (h : ∀ fd ≤ 2, ∃ d, t.get fd = some d ∧ d.object = .other) (hfd : 2 < fd) :
    ∀ i ≤ 2, ∃ d, (t.close fd).get i = some d ∧ d.object = .other := by
  intro i hi
  obtain ⟨d,hd,ho⟩ := h i hi
  exact ⟨d,Table.get_close hd (by omega),ho⟩

theorem std_alloc {t : Table Object} (e : Descriptor Object)
    (h : ∀ fd ≤ 2, ∃ d, t.get fd = some d ∧ d.object = .other) :
    ∀ fd ≤ 2, ∃ d, (t.alloc e).get fd = some d ∧ d.object = .other := by
  intro fd hfd
  obtain ⟨d,hd,ho⟩ := h fd hfd
  exact ⟨d,Table.get_alloc hd e,ho⟩

/-- One side is closed after the other. -/
theorem failing_drop {fd : Nat} {left : List Nat} {t : Table Object}
    (h : Fits k t (.failing (fd :: left))) : Fits k (t.close fd) (.failing left) := by
  obtain ⟨hnd,hown⟩ := h
  obtain ⟨hnot,hnd⟩ := List.nodup_cons.mp hnd
  refine ⟨hnd,?_⟩
  intro i hi
  obtain ⟨hb,d,hd,ho⟩ := hown i (List.mem_cons_of_mem _ hi)
  exact ⟨hb,d,Table.get_close hd (fun he => hnot (he ▸ hi)),ho⟩

/-- Session `k` closes a descriptor of its own. -/
theorem Sound.shut {fd : Nat} {phase : Phase} (h : Sound s) (hown : Owns k s.table fd)
    (hfits : Fits k (s.table.close fd) phase) :
    Sound (State.set { s with table := s.table.close fd } k phase) := by
  apply h.set (std_close h.std hown.1)
  · exact fun j hj => keeps_owned hown (Ne.symm hj)
  · exact hfits

theorem exec_sound {master slave : Nat} {child : Table Object} (h : Sound s)
    (hfits : Both k s.table master slave) (hchild : Both k child master slave) :
    Sound (State.set { s with commands := s.commands ++ [(k,child.exec)] } k
      (.spawned master slave)) := by
  have hset : Sound (s.set k (.spawned master slave)) := h.turn hfits
  refine ⟨hset.std,hset.sessions,?_⟩
  intro c hc
  rcases List.mem_append.mp hc with hc | hc
  · exact h.commands c hc
  · obtain rfl := List.mem_singleton.mp hc
    exact ⟨master,slave,both_exec hchild⟩

theorem openpty_sound (h : Sound s) :
    Sound (State.set { s with table := (s.table.alloc ⟨.master k,false⟩).alloc ⟨.slave k,false⟩ } k
      (.opened s.table.lowest (s.table.alloc ⟨.master k,false⟩).lowest)) := by
  have hstd := std_alloc ⟨.master k,false⟩ h.std
  apply h.set (std_alloc _ hstd)
  · intro j _
    exact (keeps_alloc j _ _).trans (keeps_alloc j _ _)
  · refine ⟨Table.get_alloc (Table.get_alloc_new _ _) _,Table.get_alloc_new _ _,?_⟩
    exact ⟨lowest_behind h.std,lowest_behind hstd⟩

theorem step_sound (h : Sound s) (hstep : step s l = some t) : Sound t := by
  cases l with
  | call =>
    obtain rfl := Option.some.inj hstep
    refine ⟨h.std,?_,h.commands⟩
    intro k phase hk
    simp only [List.getElem?_append,List.getElem?_singleton] at hk
    split at hk
    · exact h.sessions k phase hk
    · split at hk <;> cases hk
      trivial
  | openpty k result =>
    simp only [step] at hstep
    split at hstep
    · cases result <;> cases hstep
      · exact h.turn trivial
      · exact openpty_sound h
    · cases hstep
  | setNonblocking k result =>
    simp only [step] at hstep
    split at hstep
    · rename_i m n hk
      have hfits : Both k s.table m n := h.sessions k _ hk
      cases result <;> cases hstep
      · exact h.turn (failing_fits hfits).1
      · exact h.turn hfits
    · cases hstep
  | fork k result =>
    simp only [step] at hstep
    split at hstep
    · rename_i m n hk
      have hfits : Both k s.table m n := h.sessions k _ hk
      cases result <;> cases hstep
      · exact h.turn (failing_fits hfits).2
      · exact h.turn ⟨hfits,both_fork hfits⟩
    · cases hstep
  | childSetup k result =>
    simp only [step] at hstep
    split at hstep
    · rename_i m n child hk
      obtain ⟨hfits,hchild⟩ : Both k s.table m n ∧ Both k child m n := h.sessions k _ hk
      obtain rfl := Option.some.inj hstep
      split
      · rename_i u hu
        cases result with
        | true => exact h.turn ⟨hfits,both_setup hchild hu⟩
        | false => cases hu
      · exact h.turn (failing_fits hfits).2
    · cases hstep
  | exec k result =>
    simp only [step] at hstep
    split at hstep
    · rename_i m n child hk
      obtain ⟨hfits,hchild⟩ : Both k s.table m n ∧ Both k child m n := h.sessions k _ hk
      cases result <;> cases hstep
      · exact h.turn (failing_fits hfits).2
      · exact exec_sound h hfits hchild
    · cases hstep
  | drop k =>
    simp only [step] at hstep
    split at hstep
    · rename_i m n hk
      have hfits : Both k s.table m n := h.sessions k _ hk
      cases hstep
      exact h.shut hfits.owns.2 ⟨Table.get_close hfits.master (both_ne hfits),hfits.behind.1⟩
    · rename_i fd left hk
      have hfits := h.sessions k _ hk
      have hown : Owns k s.table fd := hfits.2 fd List.mem_cons_self
      cases hstep
      exact h.shut hown (failing_drop hfits)
    · cases hstep
      exact h.turn trivial
    · cases hstep
  | terminate k =>
    simp only [step] at hstep
    split at hstep
    · rename_i m hk
      obtain ⟨hm,hb⟩ : s.table.get m = some ⟨.master k,false⟩ ∧ 2 < m := h.sessions k _ hk
      cases hstep
      exact h.shut ⟨hb,_,hm,.inl rfl⟩ trivial
    · cases hstep
  | stdOpen =>
    obtain rfl := Option.some.inj hstep
    refine ⟨std_alloc _ h.std,?_,h.commands⟩
    exact fun k phase hk => fits_keep (h.sessions k phase hk) (keeps_alloc k _ _)
  | stdClose fd =>
    simp only [step] at hstep
    split at hstep
    · rename_i d hd
      split at hstep <;> cases hstep
      rename_i hc
      refine ⟨std_close h.std hc.2,?_,h.commands⟩
      intro k phase hk
      exact fits_keep (h.sessions k phase hk) (keeps_close hd (by simp [hc.1]))
    · cases hstep

theorem reachable_sound (hr : system.Reachable s) : Sound s := by
  apply hr.invariant (I := Sound)
  · refine ⟨?_,?_,?_⟩
    · intro fd hfd
      refine ⟨⟨.other,false⟩,?_,rfl⟩
      match fd,hfd with
      | 0,_ | 1,_ | 2,_ => rfl
    · intro k phase hk
      simp [system,start] at hk
    · intro c hc
      simp [system,start] at hc
  · intro s l t _ h hstep
    exact step_sound h hstep

end Steps

/-- No command is isolated: each has both sides of its PTY open behind the first three. -/
theorem never_isolated {s : State} (hr : system.Reachable s) :
    ∀ c ∈ s.commands, ¬Isolated c.1 c.2 := by
  intro c hc
  obtain ⟨m,n,hb⟩ := (reachable_sound hr).commands c hc
  exact both_leaks hb

/-- A session is made and goes on running while a second one is. -/
def neighbourRun : List Label :=
  [.call,.openpty 0 true,.setNonblocking 0 true,.fork 0 true,.childSetup 0 true,.exec 0 true,.drop 0,
   .call,.openpty 1 true,.setNonblocking 1 true,.stdOpen,.fork 1 true,.stdClose 6,.childSetup 1 true,
   .exec 1 true]

/-- The second command has the PTY master of the first session. -/
theorem never_isolated_neighbour :
    ∃ s t, system.Reachable s ∧ (1,t) ∈ s.commands ∧ ¬Isolated 1 t ∧
      t.get 3 = some ⟨.master 0,false⟩ := by
  have hr := System.reachable_end (m := system) neighbourRun rfl
  exact ⟨_,_,hr,List.mem_cons_of_mem _ List.mem_cons_self,
    never_isolated hr (1,_) (List.mem_cons_of_mem _ List.mem_cons_self),rfl⟩

theorem neighbour_leak :
    ¬∀ s : State, system.Reachable s → ∀ c ∈ s.commands, Isolated c.1 c.2 := by
  intro h
  have hr := System.reachable_end (m := system) neighbourRun rfl
  have hi := h _ hr (1,_) (List.mem_cons_of_mem _ List.mem_cons_self)
  exact hi.master 3 ⟨.master 0,false⟩ 0 rfl rfl

end Terminald.Spawn
