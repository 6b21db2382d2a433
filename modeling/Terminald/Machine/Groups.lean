import Mathlib.Data.List.Basic

/-! Processes in groups and sessions, with ids that are given again. -/

namespace Terminald.Machine.Groups

/-- An unreaped process. A mark belongs to one group, and not to a later one of
the same id. -/
structure Task where
  pid : Nat
  group : Nat
  session : Nat
  marked : Bool
deriving DecidableEq

abbrev Table := List Task

def look (table : Table) (pid : Nat) : Option Task := table.find? (fun t => t.pid == pid)

def members (table : Table) (group : Nat) : Table := table.filter (fun t => t.group == group)

/-- The id of no unreaped process and of no group. -/
def free (table : Table) (id : Nat) : Bool := table.all (fun t => t.pid != id && t.group != id)

def replace (table : Table) (task : Task) : Table :=
  table.map (fun t => if t.pid = task.pid then task else t)

def remove (table : Table) (pid : Nat) : Table := table.filter (fun t => t.pid != pid)

inductive Op where
  | fork (parent pid : Nat)
  | setsid (pid : Nat)
  | setpgid (pid group : Nat)
  | gone (pid : Nat)
deriving DecidableEq

/-- A new process stays in its parent's group; a new group has no mark; a group
that is there can be joined within its session. -/
def step (table : Table) : Op → Option Table
  | .fork parent pid =>
    (look table parent).bind (fun t =>
      if free table pid then some (⟨pid,t.group,t.session,t.marked⟩ :: table) else none)
  | .setsid pid =>
    (look table pid).bind (fun _ =>
      if members table pid = [] then some (replace table ⟨pid,pid,pid,false⟩) else none)
  | .setpgid pid group =>
    (look table pid).bind (fun t =>
      if t.session = pid then none
      else
        match members table group with
        | [] => if group = pid then some (replace table ⟨pid,pid,t.session,false⟩) else none
        | m :: _ =>
          if m.session = t.session then some (replace table ⟨pid,m.group,t.session,m.marked⟩) else none)
  | .gone pid => some (remove table pid)

/-- Whom the operation can make the leader of a new group. -/
def Op.leads : Op → Option Nat
  | .setsid pid => some pid
  | .setpgid pid group => if group = pid then some pid else none
  | _ => none

/-- All who are in the group have its mark. -/
def Owned (table : Table) (id : Nat) : Prop := ∀ t ∈ table, t.group = id → t.marked = true

/-- The first leader of a session and of its group. -/
def leader (id : Nat) : Task := ⟨id,id,id,true⟩

/-- The leader is there, and nobody else has its id. -/
structure Led (table : Table) (id : Nat) : Prop where
  here : leader id ∈ table
  alone : ∀ t ∈ table, t.pid = id → t = leader id

/-- Once the id is given again, the mark is gone from the group. -/
def Reused (table : Table) (id : Nat) : Prop :=
  (∃ t ∈ table, t.pid = id) → ∀ t ∈ table, t.group = id → t.marked = false

/-- Where a process of the next table comes from. -/
inductive Origin (table : Table) (op : Op) (t : Task) : Prop
  | stayed (ht : t ∈ table)
  | born (hf : free table t.pid = true) (hm : m ∈ table) (hg : t.group = m.group) (hk : t.marked = m.marked)
  | joined (hu : u ∈ table) (hp : u.pid = t.pid) (hs : u.session ≠ u.pid) (hm : m ∈ table)
      (hg : t.group = m.group) (hk : t.marked = m.marked)
  | led (hu : u ∈ table) (hp : u.pid = t.pid) (ho : op.leads = some t.pid)
      (he : members table t.pid = []) (hg : t.group = t.pid) (hk : t.marked = false)

variable {table next : Table} {op : Op} {t u m : Task} {id : Nat}

theorem look_some (h : look table id = some t) : t ∈ table ∧ t.pid = id :=
  ⟨List.mem_of_find?_eq_some h,by simpa using List.find?_some h⟩

theorem mem_members : t ∈ members table id ↔ t ∈ table ∧ t.group = id := by
  simp [members]

theorem not_free (ht : t ∈ table) (h : free table id = true) : t.pid ≠ id ∧ t.group ≠ id := by
  simpa using List.all_eq_true.mp h t ht

theorem mem_replace {task : Task} (h : t ∈ replace table task) : t = task ∨ t ∈ table := by
  obtain ⟨u,hu,he⟩ := List.mem_map.mp h
  split at he
  · exact .inl he.symm
  · exact .inr (he ▸ hu)

theorem replace_other {task : Task} (ht : t ∈ table) (hne : t.pid ≠ task.pid) : t ∈ replace table task :=
  List.mem_map.mpr ⟨t,ht,if_neg hne⟩

theorem step_origin (h : step table op = some next) (ht : t ∈ next) : Origin table op t := by
  cases op with
  | fork parent pid =>
    obtain ⟨u,hu,h⟩ := Option.bind_eq_some_iff.mp h
    split at h
    · rename_i hf
      cases h
      rcases List.mem_cons.mp ht with rfl | ht
      · exact .born hf (look_some hu).1 rfl rfl
      · exact .stayed ht
    · cases h
  | setsid pid =>
    obtain ⟨u,hu,h⟩ := Option.bind_eq_some_iff.mp h
    split at h
    · rename_i he
      cases h
      rcases mem_replace ht with rfl | ht
      · exact .led (look_some hu).1 (look_some hu).2 rfl he rfl rfl
      · exact .stayed ht
    · cases h
  | setpgid pid group =>
    obtain ⟨u,hu,h⟩ := Option.bind_eq_some_iff.mp h
    split at h
    · cases h
    · rename_i hs
      obtain ⟨hmem,rfl⟩ := look_some hu
      split at h
      · rename_i he
        split at h
        · rename_i hg
          cases h
          rcases mem_replace ht with rfl | ht
          · exact .led hmem rfl (by simp [Op.leads,hg]) (hg ▸ he) rfl rfl
          · exact .stayed ht
        · cases h
      · rename_i m rest hm
        split at h
        · cases h
          rcases mem_replace ht with rfl | ht
          · have hin : m ∈ members table group := hm ▸ List.mem_cons_self
            exact .joined hmem rfl hs (mem_members.mp hin).1 rfl rfl
          · exact .stayed ht
        · cases h
  | gone pid =>
    cases h
    exact .stayed (List.mem_filter.mp ht).1

/-- Only a new group under the id brings in processes without the mark. -/
theorem step_owned (h : Owned table id) (hl : op.leads = some id → members table id ≠ [])
    (hs : step table op = some next) : Owned next id := by
  intro t ht hg
  cases step_origin hs ht with
  | stayed ht => exact h t ht hg
  | born hf hm hg' hk => exact hk.trans (h _ hm (hg'.symm.trans hg))
  | joined hu hp hs hm hg' hk => exact hk.trans (h _ hm (hg'.symm.trans hg))
  | led hu hp ho he hg' hk =>
    have heq : t.pid = id := hg'.symm.trans hg
    exact absurd (heq ▸ he) (hl (heq ▸ ho))

/-- The mark does not leave its group. -/
theorem step_marks (h : ∀ t ∈ table, t.marked = true → t.group = id) (hs : step table op = some next) :
    ∀ t ∈ next, t.marked = true → t.group = id := by
  intro t ht hk
  cases step_origin hs ht with
  | stayed ht => exact h t ht hk
  | born hf hm hg hk' => exact hg.trans (h _ hm (hk'.symm.trans hk))
  | joined hu hp hs hm hg hk' => exact hg.trans (h _ hm (hk'.symm.trans hk))
  | led hu hp ho he hg hk' => cases hk.symm.trans hk'

theorem Led.occupied (h : Led table id) : members table id ≠ [] :=
  List.ne_nil_of_mem (mem_members.mpr ⟨h.here,rfl⟩)

/-- While the leader is there, it stays the leader and its id is not given again. -/
theorem step_led (h : Led table id) (hop : op ≠ .gone id) (hs : step table op = some next) : Led next id := by
  refine ⟨?_,?_⟩
  · have kept : ∀ {task : Task}, task.pid ≠ id → leader id ∈ replace table task :=
      fun hne => replace_other h.here (Ne.symm hne)
    cases op with
    | fork parent pid =>
      obtain ⟨u,_,hs⟩ := Option.bind_eq_some_iff.mp hs
      split at hs <;> cases hs
      exact List.mem_cons_of_mem _ h.here
    | setsid pid =>
      obtain ⟨u,_,hs⟩ := Option.bind_eq_some_iff.mp hs
      split at hs <;> cases hs
      rename_i he
      exact kept (fun hp => h.occupied (hp ▸ he))
    | setpgid pid group =>
      obtain ⟨u,hu,hs⟩ := Option.bind_eq_some_iff.mp hs
      obtain ⟨hmem,hpid⟩ := look_some hu
      split at hs
      · cases hs
      · rename_i hsession
        have hne : pid ≠ id := by
          rintro rfl
          exact hsession (by rw [h.alone u hmem hpid]; rfl)
        split at hs
        · split at hs <;> cases hs
          exact kept hne
        · split at hs <;> cases hs
          exact kept hne
    | gone pid =>
      cases hs
      have hne : id ≠ pid := fun he => hop (he ▸ rfl)
      exact List.mem_filter.mpr ⟨h.here,by simpa [leader] using hne⟩
  · intro t ht hp
    cases step_origin hs ht with
    | stayed ht => exact h.alone t ht hp
    | born hf hm hg hk => exact absurd hp.symm (not_free h.here hf).1
    | joined hu hpu hsession hm hg hk => exact absurd (by rw [h.alone _ hu (hpu.trans hp)]; rfl) hsession
    | led hu hpu ho he hg hk => exact absurd (hp ▸ he) h.occupied

theorem step_reused (h : Reused table id) (hs : step table op = some next) : Reused next id := by
  rintro ⟨v,hv,hpid⟩ t ht hg
  -- either somebody had the id, or nobody was in the group
  have hbefore : ∀ t ∈ table, t.group = id → t.marked = false := by
    intro t ht hg
    cases step_origin hs hv with
    | stayed hv => exact h ⟨v,hv,hpid⟩ t ht hg
    | born hf hm hg' hk => exact absurd hg (hpid ▸ (not_free ht hf).2)
    | joined hu hp hsession hm hg' hk => exact h ⟨_,hu,hp.trans hpid⟩ t ht hg
    | led hu hp ho he hg' hk => exact h ⟨_,hu,hp.trans hpid⟩ t ht hg
  cases step_origin hs ht with
  | stayed ht => exact hbefore t ht hg
  | born hf hm hg' hk => exact hk.trans (hbefore _ hm (hg'.symm.trans hg))
  | joined hu hp hsession hm hg' hk => exact hk.trans (hbefore _ hm (hg'.symm.trans hg))
  | led hu hp ho he hg' hk => exact hk

/-- Whoever takes the lead under an id given again is in a group without the mark. -/
theorem step_leads (h : Reused table id) (hl : op.leads = some id) (hs : step table op = some next) :
    ∃ t ∈ next, t.group = id ∧ t.marked = false := by
  have made : ∀ {u task : Task}, look table id = some u → task.pid = id → task ∈ replace table task := by
    intro u task hu hp
    obtain ⟨hmem,hpid⟩ := look_some hu
    exact List.mem_map.mpr ⟨u,hmem,if_pos (hpid.trans hp.symm)⟩
  cases op with
  | fork parent pid | gone pid => cases hl
  | setsid pid =>
    cases hl
    obtain ⟨u,hu,hs⟩ := Option.bind_eq_some_iff.mp hs
    split at hs <;> cases hs
    exact ⟨_,made hu rfl,rfl,rfl⟩
  | setpgid pid group =>
    simp only [Op.leads,Option.ite_none_right_eq_some,Option.some.injEq] at hl
    obtain ⟨rfl,rfl⟩ := hl
    obtain ⟨u,hu,hs⟩ := Option.bind_eq_some_iff.mp hs
    obtain ⟨hmem,hpid⟩ := look_some hu
    split at hs
    · cases hs
    · split at hs
      · simp only [if_true,Option.some.injEq] at hs
        subst hs
        exact ⟨_,made hu rfl,rfl,rfl⟩
      · rename_i m rest hm
        obtain ⟨hin,hg⟩ := mem_members.mp (hm ▸ List.mem_cons_self)
        split at hs <;> cases hs
        exact ⟨_,made hu rfl,hg,h ⟨u,hmem,hpid⟩ m hin hg⟩

section Gone

theorem remove_owned (h : Owned table id) (pid : Nat) : Owned (remove table pid) id :=
  fun t ht => h t (List.mem_filter.mp ht).1

theorem remove_marks (h : ∀ t ∈ table, t.marked = true → t.group = id) (pid : Nat) :
    ∀ t ∈ remove table pid, t.marked = true → t.group = id :=
  fun t ht => h t (List.mem_filter.mp ht).1

theorem remove_reused (table : Table) (id : Nat) : Reused (remove table id) id := by
  rintro ⟨t,ht,hp⟩
  simp [remove,hp] at ht

end Gone

end Terminald.Machine.Groups
