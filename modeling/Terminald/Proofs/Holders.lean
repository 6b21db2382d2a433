import Terminald.Proofs.Isolation

namespace Terminald.Spawn
open Machine

/-- The descriptors a session has yet to close. -/
def Phase.held : Phase → List Nat
  | .opening | .ended => []
  | .opened master slave | .registered master slave | .forked master slave _
  | .prepared master slave _ | .spawned master slave => [master,slave]
  | .running master => [master]
  | .failing left => left

/-- One side of the session's PTY. -/
def Of (k : Nat) (d : Descriptor Object) : Prop := d.object = .master k ∨ d.object = .slave k

def Holds (s : State) (k fd : Nat) : Prop := ∃ phase, s.sessions[k]? = some phase ∧ fd ∈ phase.held

/-- What one step does to the server's table and to what the sessions hold. -/
inductive Change (s t : State) : Label → Prop
  | kept (ht : t.table = s.table) (hs : ∀ k fd, Holds t k fd ↔ Holds s k fd) : Change s t l
  | opened (hm : m = s.table.lowest) (hn : n = (s.table.alloc ⟨.master k,false⟩).lowest)
      (ht : t.table = (s.table.alloc ⟨.master k,false⟩).alloc ⟨.slave k,false⟩)
      (hs : ∀ j fd, Holds t j fd ↔ Holds s j fd ∨ j = k ∧ (fd = m ∨ fd = n)) : Change s t (.openpty k true)
  | shut (hl : l = .drop k ∨ l = .terminate k) (hf : Holds s k fd) (ht : t.table = s.table.close fd)
      (hs : ∀ j i, Holds t j i ↔ Holds s j i ∧ ¬(j = k ∧ i = fd)) : Change s t l
  | stdOpened (ht : t.table = s.table.alloc ⟨.other,true⟩) (hs : ∀ k fd, Holds t k fd ↔ Holds s k fd) :
      Change s t .stdOpen
  | stdClosed (hd : s.table.get fd = some d) (ho : d.object = .other) (ht : t.table = s.table.close fd)
      (hs : ∀ k fd, Holds t k fd ↔ Holds s k fd) : Change s t (.stdClose fd)

/-- Every side of a PTY in the server's table is in some session's hands. -/
def Covered (s : State) : Prop := ∀ fd d k, s.table.get fd = some d → Of k d → Holds s k fd

section Sessions
variable {s t : State} {l : Label} {k : Nat} {p q : Phase}

theorem of_unique {j : Nat} {d : Descriptor Object} (h : Of j d) (hk : Of k d) : j = k := by
  rcases h with h | h <;> rcases hk with hk | hk <;> simpa using h.symm.trans hk

/-- Session `k` goes on, with other descriptors, and no other session does. -/
theorem holds_set {u : Table Object} {commands : List (Nat × Table Object)}
    (hk : s.sessions[k]? = some p) (j fd : Nat) :
    Holds (State.set ⟨u,s.sessions,commands⟩ k q) j fd ↔
      if j = k then fd ∈ q.held else Holds s j fd := by
  obtain ⟨hlt,_⟩ := List.getElem?_eq_some_iff.mp hk
  simp only [Holds,State.set,List.getElem?_set]
  by_cases hj : j = k
  · subst hj
    simp [hlt]
  · simp [hj,Ne.symm hj]

theorem holds_same {u : Table Object} {commands : List (Nat × Table Object)}
    (hk : s.sessions[k]? = some p) (hq : ∀ fd, fd ∈ q.held ↔ fd ∈ p.held) (j fd : Nat) :
    Holds (State.set ⟨u,s.sessions,commands⟩ k q) j fd ↔ Holds s j fd := by
  rw [holds_set hk]
  split
  · rename_i hj
    subst hj
    simp [Holds,hk,hq]
  · rfl

theorem Change.turn {commands : List (Nat × Table Object)} (hk : s.sessions[k]? = some p)
    (hq : ∀ fd, fd ∈ q.held ↔ fd ∈ p.held) :
    Change s (State.set ⟨s.table,s.sessions,commands⟩ k q) l :=
  .kept rfl (holds_same hk hq)

theorem Change.close {fd : Nat} (hk : s.sessions[k]? = some p) (hl : l = .drop k ∨ l = .terminate k)
    (hf : fd ∈ p.held) (hq : ∀ i, i ∈ q.held ↔ i ∈ p.held ∧ i ≠ fd) :
    Change s (State.set ⟨s.table.close fd,s.sessions,s.commands⟩ k q) l := by
  refine .shut hl ⟨p,hk,hf⟩ rfl (fun j i => ?_)
  rw [holds_set hk]
  split
  · rename_i hj
    subst hj
    simp [Holds,hk,hq]
  · rename_i hj
    simp [hj]

theorem swap_held {m n : Nat} (fd : Nat) : fd ∈ (Phase.failing [n,m]).held ↔ fd ∈ [m,n] := by
  simp [Phase.held,or_comm]

theorem step_change (h : Sound s) (hs : step s l = some t) : Change s t l := by
  cases l with
  | call =>
    obtain rfl := Option.some.inj hs
    refine .kept rfl (fun k fd => ?_)
    simp only [Holds,List.getElem?_append,List.getElem?_singleton]
    split
    · rfl
    · rename_i hk
      rw [List.getElem?_eq_none (Nat.le_of_not_lt hk)]
      split <;> simp [Phase.held]
  | openpty k result =>
    simp only [step] at hs
    split at hs
    · rename_i hk
      cases result <;> cases hs
      · exact .turn hk (fun _ => Iff.rfl)
      · refine .opened rfl rfl rfl (fun j fd => ?_)
        rw [holds_set hk]
        split
        · rename_i hj
          subst hj
          simp [Holds,hk,Phase.held]
        · rename_i hj
          simp [hj]
    · cases hs
  | setNonblocking k result =>
    simp only [step] at hs
    split at hs
    · rename_i hk
      cases result <;> cases hs <;> exact .turn hk (fun _ => Iff.rfl)
    · cases hs
  | fork k result =>
    simp only [step] at hs
    split at hs
    · rename_i hk
      cases result <;> cases hs
      · exact .turn hk swap_held
      · exact .turn hk (fun _ => Iff.rfl)
    · cases hs
  | childSetup k result =>
    simp only [step] at hs
    split at hs
    · rename_i hk
      obtain rfl := Option.some.inj hs
      split
      · exact .turn hk (fun _ => Iff.rfl)
      · exact .turn hk swap_held
    · cases hs
  | exec k result =>
    simp only [step] at hs
    split at hs
    · rename_i hk
      cases result <;> cases hs
      · exact .turn hk swap_held
      · exact .turn hk (fun _ => Iff.rfl)
    · cases hs
  | drop k =>
    simp only [step] at hs
    split at hs
    · rename_i m n hk
      have hne := both_ne (h.sessions k _ hk)
      cases hs
      refine .close hk (.inl rfl) (List.mem_cons_of_mem _ List.mem_cons_self) (fun i => ?_)
      simp only [Phase.held,List.mem_cons,List.not_mem_nil,or_false]
      omega
    · rename_i fd left hk
      obtain ⟨hnot,_⟩ := List.nodup_cons.mp (h.sessions k _ hk).1
      cases hs
      refine .close hk (.inl rfl) List.mem_cons_self (fun i => ?_)
      simp only [Phase.held,List.mem_cons]
      constructor
      · intro hi
        exact ⟨.inr hi,fun he => hnot (he ▸ hi)⟩
      · rintro ⟨hi,hne⟩
        exact hi.resolve_left hne
    · rename_i hk
      cases hs
      exact .turn hk (fun _ => Iff.rfl)
    · cases hs
  | terminate k =>
    simp only [step] at hs
    split at hs
    · rename_i m hk
      cases hs
      exact .close hk (.inr rfl) List.mem_cons_self (fun i => by simp [Phase.held])
    · cases hs
  | stdOpen =>
    obtain rfl := Option.some.inj hs
    exact .stdOpened rfl (fun _ _ => Iff.rfl)
  | stdClose fd =>
    simp only [step] at hs
    split at hs
    · rename_i d hd
      split at hs <;> cases hs
      rename_i hc
      exact .stdClosed hd hc.1 rfl (fun _ _ => Iff.rfl)
    · cases hs

end Sessions

section Tables
variable {u : Table Object} {d e : Descriptor Object} {fd i : Nat}

theorem alloc_cases (h : (u.alloc e).get i = some d) : u.get i = some d ∨ i = u.lowest ∧ d = e := by
  rw [Table.alloc,Table.get_put] at h
  split at h
  · exact .inr ⟨‹_›,(Option.some.inj h).symm⟩
  · exact .inl h

theorem close_cases (h : (u.close fd).get i = some d) : u.get i = some d ∧ i ≠ fd := by
  rw [Table.close,Table.get_put] at h
  split at h
  · cases h
  · exact ⟨h,‹_›⟩

end Tables

section Runs
variable {s t : State} {l : Label}

theorem step_covered (h : Covered s) (hc : Change s t l) : Covered t := by
  intro fd d k hd ho
  cases hc with
  | kept ht hs => exact (hs k fd).mpr (h fd d k (ht ▸ hd) ho)
  | @opened m n j hm hn ht hs =>
    rw [ht] at hd
    rcases alloc_cases hd with hd | ⟨rfl,rfl⟩
    · rcases alloc_cases hd with hd | ⟨rfl,rfl⟩
      · exact (hs k fd).mpr (.inl (h fd d k hd ho))
      · exact (hs k _).mpr (.inr ⟨of_unique ho (.inl rfl),.inl hm.symm⟩)
    · exact (hs k _).mpr (.inr ⟨of_unique ho (.inr rfl),.inr hn.symm⟩)
  | shut hl hf ht hs =>
    obtain ⟨hd,hne⟩ := close_cases (ht ▸ hd)
    exact (hs k fd).mpr ⟨h fd d k hd ho,fun he => hne he.2⟩
  | stdOpened ht hs =>
    rcases alloc_cases (ht ▸ hd) with hd | ⟨_,rfl⟩
    · exact (hs k fd).mpr (h fd d k hd ho)
    · rcases ho with ho | ho <;> cases ho
  | stdClosed hx hy ht hs =>
    obtain ⟨hd,_⟩ := close_cases (ht ▸ hd)
    exact (hs k fd).mpr (h fd d k hd ho)

theorem reachable_covered (hr : system.Reachable s) : Covered s := by
  refine hr.invariant (I := Covered) ?_
    (fun s l t hs h hstep => step_covered h (step_change (reachable_sound hs) hstep))
  intro fd d k hd ho
  have hother : d.object = .other := by
    match fd with
    | 0 | 1 | 2 =>
      cases hd
      rfl
    | fd + 3 => cases hd
  rcases ho with ho | ho <;> cases hother.symm.trans ho

/-- What a session holds is a side of its PTY. -/
theorem holds_own (h : Sound s) {k fd : Nat} (hf : Holds s k fd) : ∃ d, s.table.get fd = some d ∧ Of k d := by
  obtain ⟨phase,hk,hm⟩ := hf
  have hfits := h.sessions k phase hk
  have hboth : ∀ {m n}, Both k s.table m n → fd ∈ [m,n] → ∃ d, s.table.get fd = some d ∧ Of k d := by
    intro m n hb hm
    rcases List.mem_pair.mp hm with rfl | rfl
    · exact ⟨_,hb.master,.inl rfl⟩
    · exact ⟨_,hb.slave,.inr rfl⟩
  cases phase with
  | opening | ended => cases hm
  | opened m n | registered m n | spawned m n => exact hboth hfits hm
  | forked m n child | prepared m n child => exact hboth hfits.1 hm
  | running m =>
    obtain rfl := List.mem_singleton.mp hm
    exact ⟨_,hfits.1,.inl rfl⟩
  | failing left => exact (hfits.2 fd hm).2

theorem holds_iff (hr : system.Reachable s) (k fd : Nat) :
    (∃ d, s.table.get fd = some d ∧ Of k d) ↔ Holds s k fd :=
  ⟨fun ⟨d,hd,ho⟩ => reachable_covered hr fd d k hd ho,holds_own (reachable_sound hr)⟩

/-- No side of a PTY is leaked, closed twice or closed by another session, however many sessions are
being made and ended at once: those open in the server are those its sessions have yet to close, each
in the hands of one of them, which closes it itself; once all have ended none is left. -/
theorem descriptors_held (hr : system.Reachable s) :
    (∀ k fd, (∃ d, s.table.get fd = some d ∧ Of k d) ↔ Holds s k fd) ∧
    (∀ j k fd, Holds s j fd → Holds s k fd → j = k) ∧
    (∀ l t fd d k, step s l = some t → s.table.get fd = some d → Of k d →
      t.table.get fd = some d ∧ Holds t k fd ∨
      (l = .drop k ∨ l = .terminate k) ∧ t.table.get fd = none ∧ ¬Holds t k fd) ∧
    ((∀ phase ∈ s.sessions, phase = .ended) → ∀ fd d, s.table.get fd = some d → d.object = .other) := by
  have hsound := reachable_sound hr
  refine ⟨holds_iff hr,?_,?_,?_⟩
  · intro j k fd hj hk
    obtain ⟨d,hd,ho⟩ := holds_own hsound hj
    obtain ⟨e,he,hok⟩ := holds_own hsound hk
    obtain rfl := Option.some.inj (hd.symm.trans he)
    exact of_unique ho hok
  · intro l t fd d k hstep hd ho
    have hin := reachable_covered hr fd d k hd ho
    cases step_change hsound hstep with
    | kept ht hs => exact .inl ⟨ht ▸ hd,(hs k fd).mpr hin⟩
    | opened hm hn ht hs =>
      exact .inl ⟨ht ▸ Table.get_alloc (Table.get_alloc hd _) _,(hs k fd).mpr (.inl hin)⟩
    | @shut _ j fd' hl hf ht hs =>
      by_cases he : fd = fd'
      · subst he
        obtain ⟨e,hx,hoj⟩ := holds_own hsound hf
        obtain rfl := Option.some.inj (hd.symm.trans hx)
        obtain rfl := of_unique ho hoj
        refine .inr ⟨hl,?_,fun hn => ((hs k fd).mp hn).2 ⟨rfl,rfl⟩⟩
        rw [ht,Table.close,Table.get_put,if_pos rfl]
      · exact .inl ⟨ht ▸ Table.get_close hd he,(hs k fd).mpr ⟨hin,fun hn => he hn.2⟩⟩
    | stdOpened ht hs => exact .inl ⟨ht ▸ Table.get_alloc hd _,(hs k fd).mpr hin⟩
    | @stdClosed fd' e hx hy ht hs =>
      refine .inl ⟨ht ▸ Table.get_close hd ?_,(hs k fd).mpr hin⟩
      rintro rfl
      obtain rfl := Option.some.inj (hd.symm.trans hx)
      rcases ho with ho | ho <;> cases hy.symm.trans ho
  · intro hended fd d hd
    have hnone : ∀ k, ¬Of k d := by
      intro k ho
      obtain ⟨phase,hk,hm⟩ := reachable_covered hr fd d k hd ho
      rw [hended phase (List.mem_of_getElem? hk)] at hm
      cases hm
    cases ho : d.object with
    | other => rfl
    | master k => exact absurd (.inl ho) (hnone k)
    | slave k => exact absurd (.inr ho) (hnone k)

/-- One session fails between the steps of another, which runs and ends. -/
def crossedRun : List Label :=
  [.call,.call,.openpty 0 true,.openpty 1 true,.setNonblocking 0 true,.setNonblocking 1 false,.stdOpen,
   .fork 0 true,.drop 1,.childSetup 0 true,.exec 0 true,.drop 1,.drop 0,.drop 1,.terminate 0,.stdClose 7]

theorem descriptors_held_crossed :
    ∃ s, system.Reachable s ∧ s.commands.length = 1 ∧ ∀ fd d, s.table.get fd = some d → d.object = .other := by
  have hr := System.reachable_end (m := system) crossedRun rfl
  refine ⟨_,hr,rfl,(descriptors_held hr).2.2.2 ?_⟩
  intro phase hm
  rcases List.mem_pair.mp hm with rfl | rfl <;> rfl

end Runs
end Terminald.Spawn
