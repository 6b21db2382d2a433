import Terminald.Model.Host
import Terminald.Proofs.Completion

namespace Terminald.Pty
open Machine Groups

/-- Between the look that reaps the child and the last signal nobody else takes the
lead of a group under the child's id. -/
def unclaimed (s : Host) : HostLabel → Bool
  | .os op => !(s.process.cleanup == .killing true && op.leads == some s.process.id)
  | .call _ => true

variable {p q : Process} {s : Host} {id : Nat} {rest : Elsewhere id}

/-- The points of the cleanup where the child is not reaped yet. -/
def Cleanup.holding : Cleanup → Bool
  | .terminating | .polling | .pausing | .killing false | .waiting => true
  | _ => false

def Holding (p : Process) : Prop := p.cleanup.holding = true → p.child.isReaped = false

theorem holding_terminate (h : Holding p) : Holding p.terminate := by
  cases hs : p.cleanupStarted with
  | true => rwa [terminate_started hs]
  | false =>
    rw [terminate_first hs]
    exact fun hc => by cases hc

theorem move_holding (hl : Locks p) (h : Holding p) (hm : Move p event q) : Holding q := by
  cases hm with
  | exited hc => exact fun _ => rfl
  | waitLocked hfree hw | waitFailed hw => exact h
  | @waited caller status hw hc =>
    -- the mutex is with the waiter
    intro hholding
    have hin : p.cleanup.inside = true := by
      change p.cleanup.holding = true at hholding
      cases hp : p.cleanup <;> simp_all [Cleanup.holding,Cleanup.inside]
    cases (hl.cleanup.mpr hin).symm.trans ((hl.wait caller).mpr hw)
  | there hc hs | alive hc hs =>
    intro _
    cases hp : p.child <;> simp_all [Child.status,Child.isReaped]
  | terminated hc hs | killedLate hc hs =>
    exact fun _ => h (by rw [hc]; rfl)
  | slept hc => exact fun _ => h (by rw [hc]; rfl)
  | locked hfree hc | checkFailed hc | pollFailed hc | gone hc hs | died hc hs | terminateFailed hc hs
  | killed hc hs | killFailed hc hs | reaped hc hs | reapFailed hc =>
    exact fun hholding => by cases hholding

theorem call_holding {c : Call} (hl : Locks p) (h : Holding p) (hc : p.call c = some q) : Holding q := by
  cases c with
  | terminate | drop =>
    cases hc
    exact holding_terminate h
  | wait =>
    cases hc
    exact h
  | event event => exact move_holding hl h (step_move hc)

theorem call_child {c : Call} (hc : p.call c = some q) : q.child = p.child ∨ q.child = p.child.reap ∨
    p.child = .running ∧ ∃ status, q.child = .exited status := by
  cases c with
  | terminate | drop =>
    cases hc
    cases hs : p.cleanupStarted with
    | true => rw [terminate_started hs]; exact .inl rfl
    | false => rw [terminate_first hs]; exact .inl rfl
  | wait =>
    cases hc
    exact .inl rfl
  | event event => exact move_child (step_move hc)

theorem isReaped_gone (child : Child) : child.isReaped = !child.gone.isEmpty := by
  cases child <;> rfl

/-- The child leaves the table with the step that reaps it. -/
theorem call_reaps {c : Call} (hc : p.call c = some q) :
    (reaps p c = [] ∧ q.child.isReaped = p.child.isReaped) ∨
      (reaps p c ≠ [] ∧ p.child.isReaped = false ∧ q.child.isReaped = true) := by
  have hgone := reaps_gone hc (call_child hc)
  simp only [isReaped_gone]
  cases hr : reaps p c with
  | nil =>
    rw [hr,List.append_nil] at hgone
    exact .inl ⟨rfl,by rw [hgone]⟩
  | cons status rest =>
    rw [hr] at hgone
    refine .inr ⟨by simp,?_,by simp [← hgone]⟩
    cases hp : p.child <;> cases hq : q.child <;> simp_all [Child.gone]

/-- The last signal after the child's end comes from the polling loop. -/
theorem call_killing {c : Call} (hc : p.call c = some q) (hq : q.cleanup = .killing true) :
    p.cleanup = .killing true ∨ p.cleanup = .polling := by
  cases c with
  | terminate | drop =>
    cases hc
    cases hs : p.cleanupStarted with
    | true => exact .inl (by rwa [terminate_started hs] at hq)
    | false =>
      rw [terminate_first hs] at hq
      cases hq
  | wait =>
    cases hc
    exact .inl hq
  | event event =>
    have hm := step_move hc
    clear hc
    cases hm with
    | exited hc | waitLocked hfree hw | waited hw hc | waitFailed hw => exact .inl hq
    | died hc hs => exact .inr hc
    | @slept expired hc => cases expired <;> cases hq
    | locked hfree hc | checkFailed hc | pollFailed hc | gone hc hs | there hc hs | alive hc hs
    | terminated hc hs | terminateFailed hc hs | killed hc hs | killedLate hc hs | killFailed hc hs
    | reaped hc hs | reapFailed hc => cases hq

/-- The process on its machine takes the steps it takes alone. -/
theorem host_account (hr : (host id rest).Reachable s) : ∃ past, Account id past s.process := by
  have hshows : System.Shows (host id rest) (system id) Host.process := by
    refine ⟨rfl,fun s l t hs => ?_⟩
    cases l with
    | call c =>
      simp only [host,Host.step,Option.ite_none_right_eq_some,Option.map_eq_some_iff] at hs
      obtain ⟨_,q,hc,rfl⟩ := hs
      exact .inr ⟨c,hc⟩
    | os op =>
      simp only [host,Host.step,Option.ite_none_right_eq_some,Option.map_eq_some_iff] at hs
      obtain ⟨_,table,_,rfl⟩ := hs
      exact .inl rfl
  obtain ⟨past,hp⟩ := hshows.reachable hr
  exact ⟨past,run_account hp⟩

/-- On a machine where ids are given again, the child's is its own until it is reaped. -/
structure Kept (id : Nat) (s : Host) : Prop where
  holding : Holding s.process
  led : s.process.child.isReaped = false → Led s.table id ∧ Owned s.table id
  marks : ∀ t ∈ s.table, t.marked = true → t.group = id
  reused : s.process.child.isReaped = true → Reused s.table id

/-- The first signals go out while the child has its id. -/
theorem Kept.owned (h : Kept id s) (hc : s.process.cleanup.holding = true) : Owned s.table id :=
  (h.led (h.holding hc)).2

theorem kept_start (id : Nat) (rest : Elsewhere id) : Kept id (host id rest).start := by
  have hothers : ∀ t ∈ leader id :: rest.tasks, t = leader id ∨ t.pid ≠ id ∧ t.group ≠ id ∧ t.marked = false := by
    intro t ht
    rcases List.mem_cons.mp ht with h | h
    · exact .inl h
    · exact .inr (rest.others t h)
  refine ⟨fun hc => (by cases hc),fun _ => ⟨⟨List.mem_cons_self,?_⟩,?_⟩,?_,fun hr => (by cases hr)⟩
  · intro t ht hp
    rcases hothers t ht with h | h
    · exact h
    · exact absurd hp h.1
  · intro t ht hg
    rcases hothers t ht with rfl | h
    · rfl
    · exact absurd hg h.2.1
  · intro t ht hk
    rcases hothers t ht with rfl | h
    · rfl
    · simp [h.2.2] at hk

theorem kept_step {t : Host} {l : HostLabel} (ha : Account id past s.process) (h : Kept id s) (hs : s.step l = some t) : Kept id t := by
  cases l with
  | call c =>
    simp only [Host.step,Option.ite_none_right_eq_some,Option.map_eq_some_iff] at hs
    obtain ⟨_,q,hc,rfl⟩ := hs
    have hholding := call_holding ha.locks h.holding hc
    rcases call_reaps hc with ⟨hr,he⟩ | ⟨hr,hp,hq⟩
    · simp only [hr,List.isEmpty_nil,if_true]
      exact ⟨hholding,fun hq => h.led (he ▸ hq),h.marks,fun hq => h.reused (he ▸ hq)⟩
    · have hne : (reaps s.process c).isEmpty = false := by simpa using hr
      simp only [hne,Bool.false_eq_true,if_false,ha.group]
      exact ⟨hholding,fun hn => by simp [hq] at hn,remove_marks h.marks id,
        fun _ => remove_reused s.table id⟩
  | os op =>
    simp only [Host.step,Option.ite_none_right_eq_some,Option.map_eq_some_iff] at hs
    obtain ⟨hallows,table,ho,rfl⟩ := hs
    refine ⟨h.holding,?_,step_marks h.marks ho,fun hr => step_reused (h.reused hr) ho⟩
    intro hr
    obtain ⟨hled,howned⟩ := h.led hr
    refine ⟨step_led hled ?_ ho,step_owned howned (fun _ => hled.occupied) ho⟩
    rintro rfl
    simp [Host.allows,ha.group,hr] at hallows

theorem reachable_kept (hr : (host id rest).Reachable s) : Kept id s := by
  refine hr.invariant (kept_start id rest) ?_
  intro s l t hr h hs
  obtain ⟨past,ha⟩ := host_account hr
  exact kept_step ha h hs

/-- While nobody claims the id in between, the group is the child's at the last signal too. -/
theorem only_owned (hr : ((host id rest).only unclaimed).Reachable s)
    (hc : s.process.cleanup = .killing true) : Owned s.table id := by
  refine hr.invariant (I := fun s => s.process.cleanup = .killing true → Owned s.table id)
    (fun hk => by cases hk) ?_ hc
  intro s l t hr h hstep hk
  obtain ⟨hu,hstep⟩ := System.only_step.mp hstep
  have hkept := reachable_kept hr.unrestrict
  cases l with
  | call c =>
    simp only [host,Host.step,Option.ite_none_right_eq_some,Option.map_eq_some_iff] at hstep
    obtain ⟨_,q,hcall,rfl⟩ := hstep
    have howned : Owned s.table id := by
      rcases call_killing hcall hk with hp | hp
      · exact h hp
      · exact hkept.owned (by rw [hp]; rfl)
    simp only
    split
    · exact howned
    · exact remove_owned howned _
  | os op =>
    simp only [host,Host.step,Option.ite_none_right_eq_some,Option.map_eq_some_iff] at hstep
    obtain ⟨_,table,ho,rfl⟩ := hstep
    refine step_owned (h hk) ?_ ho
    intro hl
    have hp : s.process.cleanup = .killing true := hk
    obtain ⟨_,ha⟩ := host_account hr.unrestrict
    simp [unclaimed,hp,hl,ha.group] at hu

/-- A signal goes to the group with the child's id, in the one or the other of two places. -/
theorem mem_deliveries {l : HostLabel} {d : Delivery} (h : d ∈ deliveries s l) :
    d.target ∈ s.table ∧ d.target.group = s.process.id ∧
      (s.process.cleanup = .terminating ∧ d.signal = .sigterm ∨
        ∃ childExited, s.process.cleanup = .killing childExited ∧ d.signal = .sigkill) := by
  unfold deliveries at h
  split at h
  · obtain ⟨sent,hsent,hd⟩ := List.mem_flatMap.mp h
    obtain ⟨t,ht,rfl⟩ := List.mem_map.mp hd
    simp only [signals] at hsent
    split at hsent
    · rename_i hc
      obtain rfl := List.mem_singleton.mp hsent
      exact ⟨(mem_members.mp ht).1,(mem_members.mp ht).2,.inl ⟨hc,rfl⟩⟩
    · rename_i childExited hc
      obtain rfl := List.mem_singleton.mp hsent
      exact ⟨(mem_members.mp ht).1,(mem_members.mp ht).2,.inr ⟨childExited,hc,rfl⟩⟩
    · cases hsent
  · cases h

/-- The last signal to a group that has members is delivered to all of them. -/
theorem kill_delivers {t : Task} (hc : s.process.cleanup = .killing childExited) (ht : t ∈ s.table)
    (hg : t.group = s.process.id) :
    (s.step (.call (.event (.signal (.ok ()))))).isSome = true ∧
      ⟨.sigkill,t⟩ ∈ deliveries s (.call (.event (.signal (.ok ())))) := by
  have hm : t ∈ members s.table s.process.id := mem_members.mpr ⟨ht,hg⟩
  constructor
  · have ha : s.answers (.event (.signal (.ok ()))) = true := by
      simpa [Host.answers,signals,hc] using List.ne_nil_of_mem hm
    cases childExited <;>
      simp [Host.step,ha,Process.call,Process.step,hc,killProcessGroup,signalProcessGroup]
  · simp [deliveries,signals,hc,hm]

/-- Whoever takes the lead under the reaped child's id takes the last signal, too. -/
theorem claim_astray {l : HostLabel} {t : Host} (hr : (host id rest).Reachable s) (hstep : s.step l = some t)
    (hu : unclaimed s l = false) : (t.step (.call (.event (.signal (.ok ()))))).isSome = true ∧
      ∃ d ∈ deliveries t (.call (.event (.signal (.ok ())))), d.signal = .sigkill ∧ d.target.marked = false := by
  cases l with
  | call c => cases hu
  | os op =>
    obtain ⟨_,ha⟩ := host_account hr
    simp only [unclaimed,Bool.not_eq_false',Bool.and_eq_true,beq_iff_eq,ha.group] at hu
    obtain ⟨hc,hl⟩ := hu
    simp only [Host.step,Option.ite_none_right_eq_some,Option.map_eq_some_iff] at hstep
    obtain ⟨_,table,ho,rfl⟩ := hstep
    have hreaped : s.process.child.isReaped = true := by
      have hstage := ha.stage
      rw [hc] at hstage
      obtain ⟨status,hs⟩ := hstage.2.2 rfl
      rw [hs]
      rfl
    obtain ⟨t,ht,hg,hk⟩ := step_leads ((reachable_kept hr).reused hreaped) hl ho
    obtain ⟨hsome,hd⟩ := kill_delivers (s := { s with table := table }) hc ht (hg.trans ha.group.symm)
    exact ⟨hsome,_,hd,rfl,hk⟩

/-- The mark is the child's own group. Every signal is delivered only there in a run where
nobody takes the lead under the child's id between the look that reaps the child and the last
signal; whoever does takes the signal in its place; the first signal never goes astray. -/
theorem signals_own_group (id : Nat) (rest : Elsewhere id) :
    (∀ ls s, ((host id rest).only unclaimed).run (host id rest).start ls = some s →
      ∀ d ∈ ((host id rest).only unclaimed).collect deliveries (host id rest).start ls,
        d.target.marked = true ∧ d.target.group = id) ∧
    (∀ s l t, (host id rest).Reachable s → s.step l = some t → unclaimed s l = false →
      (t.step (.call (.event (.signal (.ok ()))))).isSome = true ∧
        ∃ d ∈ deliveries t (.call (.event (.signal (.ok ())))),
          d.signal = .sigkill ∧ d.target.marked = false) ∧
    (∀ ls s, (host id rest).run (host id rest).start ls = some s →
      ∀ d ∈ (host id rest).collect deliveries (host id rest).start ls,
        d.signal = .sigterm → d.target.marked = true ∧ d.target.group = id) := by
  refine ⟨?_,?_,?_⟩
  · intro ls s hr
    refine System.collect_all (m := (host id rest).only unclaimed) ?_ hr
    intro s l t hr _ d hd
    have hkept := reachable_kept hr.unrestrict
    obtain ⟨_,ha⟩ := host_account hr.unrestrict
    obtain ⟨hin,hg,hpoint⟩ := mem_deliveries hd
    rw [ha.group] at hg
    refine ⟨?_,hg⟩
    rcases hpoint with ⟨hc,_⟩ | ⟨childExited,hc,_⟩
    · exact hkept.owned (by rw [hc]; rfl) _ hin hg
    · cases childExited with
      | false => exact hkept.owned (by rw [hc]; rfl) _ hin hg
      | true => exact only_owned hr hc _ hin hg
  · exact fun s l t hr hstep hu => claim_astray hr hstep hu
  · intro ls s hr
    refine System.collect_all (m := host id rest) ?_ hr
    intro s l t hr _ d hd hterm
    have hkept := reachable_kept hr
    obtain ⟨_,ha⟩ := host_account hr
    obtain ⟨hin,hg,hpoint⟩ := mem_deliveries hd
    rw [ha.group] at hg
    rcases hpoint with ⟨hc,_⟩ | ⟨_,_,hkill⟩
    · exact ⟨hkept.owned (by rw [hc]; rfl) _ hin hg,hg⟩
    · cases hkill.symm.trans hterm

/-- Only the first process of all runs elsewhere. -/
def initOnly : Elsewhere 71 := ⟨[⟨1,1,1,false⟩],by decide,by decide⟩

/-- The child dies of the first signal and is reaped, its group is gone with it, and a new
process takes its id and the lead of a group. -/
def reusedRun : List HostLabel :=
  [.call .terminate,.call (.event .lockCleanup),.call (.event (.tryWait (.ok none))),
    .call (.event (.signal (.ok ()))),.call (.event (.exit (.signaled 15))),
    .call (.event (.tryWait (.ok (some (.signaled 15))))),.os (.fork 1 71),.os (.setsid 71),
    .call (.event (.signal (.ok ())))]

theorem signals_stray_reused_id :
    ¬∀ (id : Nat) (rest : Elsewhere id) ls s, (host id rest).run (host id rest).start ls = some s →
      ∀ d ∈ (host id rest).collect deliveries (host id rest).start ls, d.target.marked = true := by
  intro h
  have hd : (⟨.sigkill,⟨71,71,71,false⟩⟩ : Delivery) ∈
      (host 71 initOnly).collect deliveries (host 71 initOnly).start reusedRun := by decide
  cases h 71 initOnly reusedRun _ rfl _ hd

end Terminald.Pty
