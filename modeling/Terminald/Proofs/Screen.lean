import Terminald.Machine.Link
import Terminald.Proofs.Display
import Terminald.Proofs.Site

namespace Terminald.GhosttyTerminal
open Machine Browser

/-- A terminal has a stretch of the writes, from where they stood when it was made. -/
structure Given (written : List Bytes) (x : Terminal) : Prop where
  made : x.since ≤ written.length
  stretch : x.written <+: written.drop x.since

/-- A later terminal belongs to a later run, and has none of the writes of an earlier one. -/
def Before (x y : Terminal) : Prop := x.run < y.run ∧ x.since + x.written.length ≤ y.since

/-- The runs that are over, and their terminals. -/
structure Past (gone : List Mounting) (old : List Terminal) (written : List Bytes) : Prop where
  runs : ∀ m ∈ gone, m.disposed = true
  disposed : ∀ x ∈ old, x.disposed = true
  made : ∀ x ∈ old, ∃ m, gone[x.run]? = some m ∧ m.resumed = true
  given : ∀ x ∈ old, Given written x
  order : old.Pairwise Before

/-- The run that is not over, with its terminal once it has one: that has all that was written
since it was made. -/
inductive Place (gone : List Mounting) (old : List Terminal) (written : List Bytes) :
    Bool → Component → Prop
  | away : Place gone old written false ⟨none,old,gone⟩
  | starting : Place gone old written true ⟨none,old,gone ++ [⟨false,false⟩]⟩
  | there (hs : since ≤ written.length) (hold : ∀ x ∈ old, x.since + x.written.length ≤ since) :
      Place gone old written true
        ⟨some old.length,old ++ [⟨gone.length,since,written.drop since,false⟩],gone ++ [⟨false,true⟩]⟩

structure Kept (gone : List Mounting) (old : List Terminal) (s : State) : Prop where
  past : Past gone old s.app.page.written
  place : Place gone old s.app.page.written s.app.mounted s.component

section Stretches
variable {written : List Bytes} {gone : List Mounting} {old : List Terminal} {x : Terminal}

theorem Given.grow (h : Given written x) (calls : List Bytes) : Given (written ++ calls) x := by
  constructor
  · rw [List.length_append]
    exact Nat.le_add_right_of_le h.made
  · rw [List.drop_append_of_le_length h.made]
    exact h.stretch.trans (List.prefix_append _ _)

theorem Given.ends (h : Given written x) : x.since + x.written.length ≤ written.length := by
  have hlen := h.stretch.length_le
  have hmade := h.made
  rw [List.length_drop] at hlen
  omega

/-- What a terminal has lies before any place its writes do not reach. -/
theorem Given.short {n : Nat} (h : Given written x) (hn : x.since + x.written.length ≤ n) :
    Given (written.take n) x := by
  constructor
  · rw [List.length_take]
    exact Nat.le_min.mpr ⟨Nat.le_trans (Nat.le_add_right _ _) hn,h.made⟩
  · rw [List.drop_take,List.prefix_take_iff]
    exact ⟨h.stretch,Nat.le_sub_of_add_le (Nat.add_comm _ _ ▸ hn)⟩

/-- Terminals in their order have pieces of the writes. -/
theorem pieces_of_order {xs : List Terminal} (ho : xs.Pairwise Before) (hg : ∀ x ∈ xs, Given written x) :
    Pieces (xs.map Terminal.written) written := by
  induction xs using List.reverseRecOn generalizing written with
  | nil => simpa using Pieces.nil.gap written
  | append_singleton xs x ih =>
    obtain ⟨ho,_,hb⟩ := List.pairwise_append.mp ho
    have hx := hg x (List.mem_append_right _ (List.mem_singleton.mpr rfl))
    obtain ⟨rest,hrest⟩ := hx.stretch
    have hfront : Pieces (xs.map Terminal.written) (written.take x.since) := by
      refine ih ho (fun y hy => (hg y (List.mem_append_left _ hy)).short ?_)
      exact (hb y hy x (List.mem_singleton.mpr rfl)).2
    have hwhole : written = written.take x.since ++ x.written ++ rest := by
      rw [List.append_assoc,hrest,List.take_append_drop]
    rw [hwhole,List.map_append]
    exact (hfront.piece x.written).gap rest

theorem Past.grow (h : Past gone old written) (calls : List Bytes) : Past gone old (written ++ calls) :=
  ⟨h.runs,h.disposed,h.made,fun x hx => (h.given x hx).grow calls,h.order⟩

theorem Past.run_lt (h : Past gone old written) (hx : x ∈ old) : x.run < gone.length := by
  obtain ⟨m,hm,_⟩ := h.made x hx
  exact (List.getElem?_eq_some_iff.mp hm).1

/-- A run ends that had no terminal. -/
theorem Past.run {m : Mounting} (h : Past gone old written) (hm : m.disposed = true) :
    Past (gone ++ [m]) old written := by
  refine ⟨?_,h.disposed,?_,h.given,h.order⟩
  · exact List.forall_mem_append.mpr ⟨h.runs,List.forall_mem_singleton.mpr hm⟩
  · intro x hx
    rw [List.getElem?_append_left (h.run_lt hx)]
    exact h.made x hx

/-- The run that is over last had its terminal. -/
theorem Past.terminal {since : Nat} (h : Past gone old written) (hs : since ≤ written.length)
    (hold : ∀ x ∈ old, x.since + x.written.length ≤ since) : Past (gone ++ [⟨true,true⟩])
      (old ++ [⟨gone.length,since,written.drop since,true⟩]) written := by
  have hrun := h.run (m := ⟨true,true⟩) rfl
  refine ⟨hrun.runs,?_,?_,?_,?_⟩
  · exact List.forall_mem_append.mpr ⟨h.disposed,List.forall_mem_singleton.mpr rfl⟩
  · refine List.forall_mem_append.mpr ⟨hrun.made,List.forall_mem_singleton.mpr ?_⟩
    exact ⟨⟨true,true⟩,List.getElem?_concat_length,rfl⟩
  · exact List.forall_mem_append.mpr ⟨h.given,List.forall_mem_singleton.mpr ⟨hs,List.prefix_refl _⟩⟩
  · refine List.pairwise_append.mpr ⟨h.order,List.pairwise_singleton _ _,fun x hx y hy => ?_⟩
    obtain rfl := List.mem_singleton.mp hy
    exact ⟨h.run_lt hx,hold x hx⟩

end Stretches

section Lists
variable {α : Type*} {f : α → α}

theorem modify_last (xs : List α) (x : α) : (xs ++ [x]).modify xs.length f = xs ++ [f x] := by
  induction xs with
  | nil => rfl
  | cons y xs ih => exact congrArg (y :: ·) ih

theorem modify_front {k : Nat} {xs : List α} (h : k < xs.length) (ys : List α) :
    (xs ++ ys).modify k f = xs.modify k f ++ ys := by
  induction xs generalizing k with
  | nil => cases h
  | cons x xs ih =>
    cases k with
    | zero => rfl
    | succ k => exact congrArg (x :: ·) (ih (Nat.lt_of_succ_lt_succ h))

theorem mem_modify {xs : List α} {k : Nat} {y : α} (h : y ∈ xs.modify k f) : y ∈ xs ∨ ∃ x ∈ xs, y = f x := by
  obtain ⟨i,hi⟩ := List.mem_iff_getElem?.mp h
  rw [List.getElem?_modify] at hi
  obtain ⟨x,hx,he⟩ := Option.map_eq_some_iff.mp hi
  have hm := List.mem_of_getElem? hx
  split at he
  · exact .inr ⟨x,hm,he.symm⟩
  · exact .inl (he ▸ hm)

end Lists

section Writes
variable {c : Component}

theorem write_last (old : List Terminal) (run since : Nat) (written calls : List Bytes) (ms : List Mounting) :
    calls.foldl Component.write ⟨some old.length,old ++ [⟨run,since,written,false⟩],ms⟩ =
      ⟨some old.length,old ++ [⟨run,since,written ++ calls,false⟩],ms⟩ := by
  induction calls generalizing written with
  | nil => simp
  | cons data calls ih =>
    have hw : Component.write ⟨some old.length,old ++ [⟨run,since,written,false⟩],ms⟩ data =
        ⟨some old.length,old ++ [⟨run,since,written ++ [data],false⟩],ms⟩ := by
      simp only [Component.write,modify_last]
    rw [List.foldl_cons,hw,ih,List.append_assoc]
    rfl

end Writes

section Steps
variable {js : Js} {s t : State} {l : Label} {gone : List Mounting} {old : List Terminal}
  {written : List Bytes} {c : Component}

/-- What is written goes to the terminal that is there, or nowhere. -/
theorem write_place {mounted : Bool} (h : Place gone old written mounted c) (calls : List Bytes) :
    Place gone old (written ++ calls) mounted (calls.foldl Component.write c) := by
  cases h with
  | away =>
    rw [write_none rfl]
    exact .away
  | starting =>
    rw [write_none rfl]
    exact .starting
  | @there since hs hold =>
    rw [write_last,← List.drop_append_of_le_length hs]
    exact .there (by rw [List.length_append]; exact Nat.le_add_right_of_le hs) hold

/-- A run ends, with its terminal. -/
theorem cleanup_place (hp : Past gone old written) (h : Place gone old written true c) :
    ∃ gone old, Past gone old written ∧ Place gone old written false c.cleanup := by
  cases h with
  | starting =>
    refine ⟨gone ++ [⟨true,false⟩],old,hp.run rfl,?_⟩
    have hc : Component.cleanup ⟨none,old,gone ++ [⟨false,false⟩]⟩ =
        ⟨none,old,gone ++ [⟨true,false⟩]⟩ := by
      simp [Component.cleanup,modify_last]
    rw [hc]
    exact .away
  | @there since hs hold =>
    refine ⟨gone ++ [⟨true,true⟩],_,hp.terminal hs hold,?_⟩
    have hc : Component.cleanup ⟨some old.length,old ++ [⟨gone.length,since,written.drop since,false⟩],
        gone ++ [⟨false,true⟩]⟩ =
          ⟨none,old ++ [⟨gone.length,since,written.drop since,true⟩],gone ++ [⟨true,true⟩]⟩ := by
      simp [Component.cleanup,modify_last]
    rw [hc]
    exact .away

theorem late_past {k : Nat} (h : Past gone old written) :
    Past (gone.modify k (fun m => { m with resumed := true })) old written := by
  refine ⟨?_,h.disposed,?_,h.given,h.order⟩
  · intro x hx
    rcases mem_modify hx with hx | ⟨y,hy,rfl⟩
    · exact h.runs x hx
    · exact h.runs y hy
  · intro x hx
    obtain ⟨m,hm,hr⟩ := h.made x hx
    rw [List.getElem?_modify,hm]
    refine ⟨_,rfl,?_⟩
    split
    · rfl
    · exact hr

/-- A run that is resumed too late is not the newest one, nor does it do anything. -/
theorem late_place {k : Nat} {m : Mounting} {mounted : Bool} (h : Place gone old written mounted c)
    (hk : c.mountings[k]? = some m) (hr : m.resumed = false) (hm : m.disposed = true ∨ mounted = false) :
    Place (gone.modify k (fun m => { m with resumed := true })) old written mounted (c.answered k) := by
  have front : ∀ {x : Mounting}, (gone ++ [x])[k]? = some m → m = x ∨ k < gone.length := by
    intro x hx
    by_cases hlt : k < gone.length
    · exact .inr hlt
    · rw [List.getElem?_append_right (Nat.le_of_not_lt hlt),List.getElem?_singleton] at hx
      split at hx
      · exact .inl (Option.some.inj hx).symm
      · cases hx
  cases h with
  | away => exact .away
  | starting =>
    rcases front hk with rfl | hlt
    · rcases hm with hm | hm <;> cases hm
    · rw [Component.answered,modify_front hlt]
      exact .starting
  | @there since hs hold =>
    rcases front hk with rfl | hlt
    · cases hr
    · have hplace : Place (gone.modify k (fun m => { m with resumed := true })) old written true _ :=
        .there hs hold
      rw [List.length_modify] at hplace
      rw [Component.answered,modify_front hlt]
      exact hplace

/-- The newest run is resumed once, and has its terminal then. -/
theorem resume_place {k : Nat} {m : Mounting} (hp : Past gone old written) (h : Place gone old written true c)
    (hk : c.mountings[k]? = some m) (hr : m.resumed = false) (hm : m.disposed = false) :
    Place gone old written true ((c.answered k).resume k written.length) := by
  have last : ∀ {x : Mounting}, (gone ++ [x])[k]? = some m → m = x ∧ k = gone.length := by
    intro x hx
    rcases List.getElem?_eq_some_iff.mp hx with ⟨hlt,_⟩
    rw [List.length_append,List.length_singleton] at hlt
    rcases Nat.lt_or_eq_of_le (Nat.le_of_lt_succ hlt) with hlt | rfl
    · rw [List.getElem?_append_left hlt] at hx
      exact absurd ((hp.runs m (List.mem_of_getElem? hx)).symm.trans hm) (by simp)
    · rw [List.getElem?_concat_length] at hx
      exact ⟨(Option.some.inj hx).symm,rfl⟩
  cases h with
  | starting =>
    obtain ⟨_,rfl⟩ := last hk
    have hplace : Place gone old written true _ :=
      .there (Nat.le_refl written.length) (fun x hx => (hp.given x hx).ends)
    rw [List.drop_length] at hplace
    simpa only [Component.answered,modify_last,Component.resume] using hplace
  | there hs hold =>
    obtain ⟨rfl,_⟩ := last hk
    cases hr

theorem step_kept (h : Kept gone old s) (hstep : step js s l = some t) : ∃ gone old, Kept gone old t := by
  cases l with
  | app l =>
    obtain ⟨happ,hcomp⟩ := step_app hstep
    have hpast := h.past.grow (App.outputs js s.app l)
    have hplace := write_place h.place (App.outputs js s.app l)
    rw [← App.step_written happ] at hpast hplace
    generalize (App.outputs js s.app l).foldl Component.write s.component = c at hplace hcomp
    rcases App.step_mounted happ with ⟨rfl,hm,ht⟩ | ⟨rfl,ht⟩ | ⟨hn,hn',ht⟩
    · refine ⟨gone,old,hpast,?_⟩
      rw [hm] at hplace
      rw [ht,hcomp]
      cases hplace with
      | away => exact .starting
    · have hm : s.app.mounted = true := by
        generalize t.app = app at happ
        cases App.step_move happ with
        | unmounted hm hc => exact hm
      rw [hm] at hplace
      obtain ⟨gone,old,hpast,hclean⟩ := cleanup_place hpast hplace
      refine ⟨gone,old,hpast,?_⟩
      rw [ht,hcomp]
      exact hclean
    · refine ⟨gone,old,hpast,?_⟩
      rw [ht,hcomp,follow_other _ hn hn']
      exact hplace
  | init k size =>
    obtain ⟨m,hk,hr,⟨hm,rfl⟩ | ⟨hd,hm,happ,hcomp⟩⟩ := step_init hstep
    · exact ⟨_,old,late_past h.past,late_place h.place hk hr hm⟩
    · have hwritten : t.app.page.written = s.app.page.written := by
        rw [App.step_written happ]
        exact List.append_nil _
      have hmounted : t.app.mounted = true := by
        rcases App.step_mounted happ with ⟨hn,_⟩ | ⟨hn,_⟩ | ⟨_,_,ht⟩
        · cases hn
        · cases hn
        · exact ht.trans hm
      have hplace := h.place
      rw [hm] at hplace
      refine ⟨gone,old,?_,?_⟩
      · rw [hwritten]
        exact h.past
      · rw [hwritten,hmounted,hcomp]
        exact resume_place h.past hplace hk hr hd

theorem reachable_kept (hr : (system js).Reachable s) : ∃ gone old, Kept gone old s := by
  refine hr.invariant (I := fun s => ∃ gone old, Kept gone old s) ⟨[],[],?_,.away⟩ ?_
  · constructor <;> simp
  · rintro s l t _ ⟨gone,old,h⟩ hs
    exact step_kept h hs

/-- Writing touches only the terminal that is there. -/
theorem write_terminal (k : Nat) (c : Component) (calls : List Bytes) :
    (calls.foldl Component.write c).terminals[k]? = c.terminals[k]?.map (fun x =>
      if c.terminalRef = some k then { x with written := x.written ++ calls } else x) ∧
    (calls.foldl Component.write c).terminalRef = c.terminalRef := by
  induction calls generalizing c with
  | nil => simp
  | cons data calls ih =>
    obtain ⟨hterm,href⟩ := ih (c.write data)
    have hw : (c.write data).terminals[k]? = c.terminals[k]?.map (fun x =>
        if c.terminalRef = some k then { x with written := x.written ++ [data] } else x) ∧
        (c.write data).terminalRef = c.terminalRef := by
      unfold Component.write
      split
      · rename_i j hj
        simp [hj,List.getElem?_modify]
      · rename_i hj
        simp [hj]
    rw [List.foldl_cons,hterm,href,hw.1,hw.2,Option.map_map]
    refine ⟨?_,rfl⟩
    congr 1
    funext x
    by_cases hk : c.terminalRef = some k <;> simp [hk]

theorem follow_terminal (k : Nat) (c : Component) (l : App.Label) :
    (follow c l).terminals[k]? = c.terminals[k]?.map (fun x =>
      if l = .unmount ∧ c.terminalRef = some k then { x with disposed := true } else x) := by
  cases l with
  | unmount =>
    simp only [follow,Component.cleanup]
    split
    · rename_i j hj
      simp [hj,List.getElem?_modify]
    · rename_i hj
      simp [hj]
  | mount | fetched j r | timer j | opened j | errored j | message j data | data text | closed j
  | resize size => simp [follow,Component.effect]

/-- A step writes to the terminal that is there, and leaves the others as they are. -/
theorem step_terminal {k : Nat} {x : Terminal} (hk : s.component.terminals[k]? = some x)
    (hstep : step js s l = some t) : ∃ calls y, t.app.page.written = s.app.page.written ++ calls ∧
      t.component.terminals[k]? = some y ∧ (s.component.terminalRef ≠ some k → y = x) ∧
      (s.component.terminalRef = some k → y.run = x.run ∧ y.since = x.since ∧ y.written = x.written ++ calls) := by
  cases l with
  | app l =>
    obtain ⟨happ,hcomp⟩ := step_app hstep
    obtain ⟨hterm,href⟩ := write_terminal k s.component (App.outputs js s.app l)
    have hy := follow_terminal k ((App.outputs js s.app l).foldl Component.write s.component) l
    rw [hterm,href,hk,← hcomp,Option.map_some,Option.map_some] at hy
    refine ⟨_,_,App.step_written happ,hy,?_,?_⟩
    · intro hne
      simp [hne]
    · intro he
      by_cases hl : l = .unmount <;> simp [he,hl]
  | init i size =>
    obtain ⟨m,_,_,⟨_,rfl⟩ | ⟨_,_,happ,hcomp⟩⟩ := step_init hstep
    · exact ⟨[],x,(List.append_nil _).symm,hk,fun _ => rfl,fun _ => ⟨rfl,rfl,(List.append_nil _).symm⟩⟩
    · refine ⟨[],x,App.step_written happ,?_,fun _ => rfl,fun _ => ⟨rfl,rfl,(List.append_nil _).symm⟩⟩
      rw [hcomp]
      exact (List.getElem?_append_left (List.getElem?_eq_some_iff.mp hk).1).trans hk

/-- A terminal is made when a run's `init` comes back, and the record says where. -/
theorem step_new {k : Nat} {y : Terminal} (hk : s.component.terminals[k]? = none)
    (hy : t.component.terminals[k]? = some y) (hstep : step js s l = some t) :
    ∃ run size, l = .init run size ∧ y = ⟨run,s.app.page.written.length,[],false⟩ := by
  cases l with
  | app l =>
    rw [(step_app hstep).2,follow_terminal,(write_terminal k _ _).1,hk] at hy
    cases hy
  | init i size =>
    refine ⟨i,size,rfl,?_⟩
    obtain ⟨m,_,_,⟨_,rfl⟩ | ⟨_,_,_,hcomp⟩⟩ := step_init hstep
    · cases hk.symm.trans hy
    · rw [hcomp] at hy
      have hlen := List.getElem?_eq_none_iff.mp hk
      have hlast : [(⟨i,s.app.page.written.length,[],false⟩ : Terminal)][k - s.component.terminals.length]? =
          some y := (List.getElem?_append_right hlen).symm.trans hy
      exact List.mem_singleton.mp (List.mem_of_getElem? hlast)

end Steps

/-- What is so of the terminals of a page. -/
structure Owned (s : State) : Prop where
  live : ∀ (k : Nat) (x : Terminal), s.component.terminals[k]? = some x →
    (x.disposed = false ↔ s.component.terminalRef = some k)
  newest : ∀ k, s.component.terminalRef = some k →
    s.app.mounted = true ∧ k + 1 = s.component.terminals.length
  made : ∀ x ∈ s.component.terminals, ∃ m, s.component.mountings[x.run]? = some m ∧ m.resumed = true ∧
    m.disposed = x.disposed
  order : s.component.terminals.Pairwise Before
  given : ∀ x ∈ s.component.terminals, Given s.app.page.written x
  whole : ∀ x ∈ s.component.terminals, x.disposed = false → x.written = s.app.page.written.drop x.since

section Owned
variable {gone : List Mounting} {old : List Terminal} {written : List Bytes} {mounted : Bool} {c : Component}

theorem place_live (h : Place gone old written mounted c) (hover : ∀ x ∈ old, x.disposed = true) {k : Nat}
    {x : Terminal} (hx : c.terminals[k]? = some x) : x.disposed = false ↔ c.terminalRef = some k := by
  have past : old[k]? = some x → x.disposed = true := fun hk => hover x (List.mem_of_getElem? hk)
  cases h with
  | away | starting => simp [past hx]
  | there hs hold =>
    rcases Nat.lt_trichotomy k old.length with hlt | rfl | hgt
    · have hk : old[k]? = some x := by rwa [List.getElem?_append_left hlt] at hx
      simp [past hk,Nat.ne_of_gt hlt]
    · obtain rfl := Option.some.inj (List.getElem?_concat_length.symm.trans hx)
      simp
    · rw [List.getElem?_eq_none (by rw [List.length_append]; exact hgt)] at hx
      cases hx

theorem place_ref (h : Place gone old written mounted c) {k : Nat} (hk : c.terminalRef = some k) :
    mounted = true ∧ k + 1 = c.terminals.length := by
  cases h with
  | away | starting => cases hk
  | there hs hold =>
    obtain rfl := Option.some.inj hk
    simp

theorem place_made (hp : Past gone old written) (h : Place gone old written mounted c) :
    ∀ x ∈ c.terminals, ∃ m, c.mountings[x.run]? = some m ∧ m.resumed = true ∧ m.disposed = x.disposed := by
  have past : ∀ x ∈ old, ∃ m, gone[x.run]? = some m ∧ m.resumed = true ∧ m.disposed = x.disposed := by
    intro x hx
    obtain ⟨m,hm,hr⟩ := hp.made x hx
    exact ⟨m,hm,hr,(hp.runs m (List.mem_of_getElem? hm)).trans (hp.disposed x hx).symm⟩
  have front : ∀ last : Mounting, ∀ x ∈ old, ∃ m, (gone ++ [last])[x.run]? = some m ∧ m.resumed = true ∧
      m.disposed = x.disposed := by
    intro last x hx
    rw [List.getElem?_append_left (hp.run_lt hx)]
    exact past x hx
  cases h with
  | away => exact past
  | starting => exact front _
  | there hs hold =>
    refine List.forall_mem_append.mpr ⟨front _,List.forall_mem_singleton.mpr ?_⟩
    exact ⟨_,List.getElem?_concat_length,rfl,rfl⟩

/-- The terminal that is there is one more in the row. -/
theorem place_row (hp : Past gone old written) (h : Place gone old written mounted c) :
    c.terminals.Pairwise Before ∧ ∀ x ∈ c.terminals, Given written x := by
  cases h with
  | away | starting => exact ⟨hp.order,hp.given⟩
  | there hs hold =>
    constructor
    · refine List.pairwise_append.mpr ⟨hp.order,List.pairwise_singleton _ _,fun x hx y hy => ?_⟩
      obtain rfl := List.mem_singleton.mp hy
      exact ⟨hp.run_lt hx,hold x hx⟩
    · exact List.forall_mem_append.mpr ⟨hp.given,List.forall_mem_singleton.mpr ⟨hs,List.prefix_refl _⟩⟩

theorem place_whole (hp : Past gone old written) (h : Place gone old written mounted c) :
    ∀ x ∈ c.terminals, x.disposed = false → x.written = written.drop x.since := by
  have past : ∀ x ∈ old, x.disposed = false → x.written = written.drop x.since :=
    fun x hx hd => absurd ((hp.disposed x hx).symm.trans hd) (by simp)
  cases h with
  | away | starting => exact past
  | there hs hold =>
    exact List.forall_mem_append.mpr ⟨past,List.forall_mem_singleton.mpr (fun _ => rfl)⟩

theorem reachable_owned {js : Js} {s : State} (hr : (system js).Reachable s) : Owned s := by
  obtain ⟨gone,old,hp,h⟩ := reachable_kept hr
  obtain ⟨horder,hgiven⟩ := place_row hp h
  exact ⟨fun _ _ => place_live h hp.disposed,fun _ => place_ref h,place_made hp h,horder,hgiven,place_whole hp h⟩

end Owned

/-- The page has one terminal at most, and none while it is not mounted; each belongs to a run of its
own, is disposed of with it, and has one stretch of what is written, from the place where it was made.
Nothing is done to a terminal disposed of, and the one that is there has everything up to now. -/
theorem terminals_owned {js : Js} {s : State} (hr : (system js).Reachable s) :
    Owned s ∧ ∀ l t, step js s l = some t → ∀ k : Nat,
      (∀ x, s.component.terminals[k]? = some x → ∃ y, t.component.terminals[k]? = some y ∧
        (x.disposed = true → y = x) ∧
        (x.disposed = false → y.run = x.run ∧ y.since = x.since ∧
          y.written = t.app.page.written.drop y.since)) ∧
      (∀ y, s.component.terminals[k]? = none → t.component.terminals[k]? = some y →
        ∃ run size, l = .init run size ∧ y = ⟨run,s.app.page.written.length,[],false⟩) := by
  have h := reachable_owned hr
  refine ⟨h,fun l t hstep k => ⟨fun x hk => ?_,fun y hk hy => step_new hk hy hstep⟩⟩
  obtain ⟨calls,y,hwritten,hy,hother,hthere⟩ := step_terminal hk hstep
  refine ⟨y,hy,fun hd => hother ?_,fun hd => ?_⟩
  · intro href
    rw [(h.live k x hk).mpr href] at hd
    cases hd
  · obtain ⟨hrun,hsince,he⟩ := hthere ((h.live k x hk).mp hd)
    have hx := List.mem_of_getElem? hk
    refine ⟨hrun,hsince,?_⟩
    rw [he,h.whole x hx hd,hsince,hwritten,List.drop_append_of_le_length (h.given x hx).made]

/-- The first run's `init` comes back in the second one, and one output message before the second's. -/
def strictRun : List Label :=
  [.app .mount,.app .unmount,.app .mount,.init 0 ⟨80,24⟩,.app (.fetched 1 (.ok 204)),.app (.opened 0),
   .app (.message 0 [2,36,32]),.init 1 ⟨80,24⟩,.app (.message 0 [2,104,105])]

theorem terminals_owned_strict :
    ∃ s, (system ⟨fun _ => "",fun _ => .integer 0⟩).Reachable s ∧
      s.app.page.written = [[36,32],[104,105]] ∧
      s.component.terminals = [⟨1,1,[[104,105]],false⟩] ∧ Owned s := by
  have hr := System.reachable_end (m := system ⟨fun _ => "",fun _ => .integer 0⟩) strictRun rfl
  exact ⟨_,hr,rfl,rfl,(terminals_owned hr).1⟩

section Site
variable {js : Js} {s t : State} {l : Label}

/-- What a step brings the page around the component, or takes from its user. -/
def entries (s : State) : Label → List App.Entry
  | .app l => App.entries s.app l
  | .init _ _ => []

def port : Label → Option Nat
  | .app l => App.port l
  | .init _ _ => none

theorem step_page (h : step js s l = some t) : t.app = s.app ∧ entries s l = [] ∨
    ∃ k, App.step js s.app k = some t.app ∧ App.entries s.app k = entries s l ∧ App.port k = port l := by
  cases l with
  | app l => exact .inr ⟨l,(step_app h).1,rfl,rfl⟩
  | init k size =>
    obtain ⟨m,_,_,⟨_,rfl⟩ | ⟨_,_,happ,_⟩⟩ := step_init h
    · exact .inl ⟨rfl,rfl⟩
    · exact .inr ⟨.resize size,happ,rfl,rfl⟩

theorem step_hub {s t : State × List App.Entry} (h : ((system js).logged entries).step s l = some t) :
    (t.1.app,t.2) = (s.1.app,s.2) ∨ ∃ k, (App.pageHub js).step (s.1.app,s.2) k = some (t.1.app,t.2) ∧
      (App.pageHub js).port k = port l := by
  obtain ⟨hstep,hlog⟩ := System.logged_step.mp h
  rcases step_page hstep with ⟨happ,hnone⟩ | ⟨k,hk,hentries,hport⟩
  · exact .inl (Prod.ext happ (by rw [hlog,hnone,List.append_nil]))
  · exact .inr ⟨k,System.logged_step.mpr ⟨hk,by rw [hlog,hentries]⟩,hport⟩

/-- The page with its terminal, as the other ends of its sockets see it. -/
def screenHub (js : Js) : Hub Nat (State × List App.Entry) Label Session.Message Session.Message :=
  (App.pageHub js).around ((system js).logged entries) (fun s => (s.1.app,s.2)) port rfl step_hub

/-- The page with its terminal, and the session behind each of its sockets. -/
def screen (js : Js) (json : Protocol.Json) :
    System ((State × List App.Entry) × (Nat → Session.State)) (Label ⊕ Nat × Session.Label) :=
  System.network (screenHub js) (fun _ => Session.server json)

theorem shows_site (js : Js) (json : Protocol.Json) :
    System.Shows (screen js json) (App.site js json) (fun s => ((s.1.1.app,s.1.2),s.2)) :=
  System.shows_around

/-- What the user sees is what the commands have written: what the page has given to its terminals
is the sessions' output, one session after another; each terminal has shown a stretch of it, from
the place where it was made and nothing twice, and the one that is there all from that place on. -/
theorem screen_shows {json : Protocol.Json} {s : (State × List App.Entry) × (Nat → Session.State)}
    (hr : (screen js json).Reachable s) :
    ∃ parts : List Bytes, parts.length = s.1.1.app.page.sockets.length ∧
      (∀ (i : Nat) bytes, parts[i]? = some bytes → bytes <+: Session.bytesRead (s.2 i).reads) ∧
      s.1.1.app.page.written.flatten = parts.flatten ∧
      Pieces (s.1.1.component.terminals.map (fun x => x.written.flatten)) parts.flatten ∧
      ∀ x ∈ s.1.1.component.terminals,
        (∃ rest, (s.1.1.app.page.written.take x.since).flatten ++ x.written.flatten ++ rest = parts.flatten) ∧
        (x.disposed = false →
          (s.1.1.app.page.written.take x.since).flatten ++ x.written.flatten = parts.flatten) := by
  have hsite := (shows_site js json).reachable hr
  have h := reachable_owned (System.logged_reachable (System.network_hub hr))
  have hwritten := App.written_parts hsite
  refine ⟨_,?_,fun i bytes => App.parts_within hsite,hwritten,?_,fun x hx => ⟨?_,fun hd => ?_⟩⟩
  · simp
  · have hpieces := (pieces_of_order h.order h.given).flatten
    rw [hwritten,List.map_map] at hpieces
    exact hpieces
  · obtain ⟨rest,hrest⟩ := (h.given x hx).stretch
    refine ⟨rest.flatten,?_⟩
    rw [← hwritten,← List.flatten_append,← List.flatten_append,List.append_assoc,hrest,List.take_append_drop]
  · rw [← hwritten,← List.flatten_append,h.whole x hx hd,List.take_append_drop]

end Site

/-- A session greets the page before it has its terminal, and goes on after that. -/
def greetedRun : List (Label ⊕ Nat × Session.Label) :=
  [.inl (.app .mount),.inl (.app (.fetched 0 (.ok 204))),.inl (.app (.opened 0)),.inr (0,.spawn (.ok 71)),
   .inr (0,.read (.result (.ok ⟨[36,32],Nat.le_of_ble_eq_true rfl⟩))),
   .inr (0,.post),.inr (0,.recv),.inr (0,.send (.ok ())),.inl (.app (.message 0 [2,36,32])),.inl (.init 0 ⟨80,24⟩),
   .inr (0,.read (.result (.ok ⟨[104,101,108,108,111],Nat.le_of_ble_eq_true rfl⟩))),
   .inr (0,.post),.inr (0,.recv),.inr (0,.send (.ok ())),.inl (.app (.message 0 [2,104,101,108,108,111]))]

theorem screen_shows_greeted : ∃ (s : _) (parts : List Bytes),
    (screen ⟨fun _ => "",fun _ => .integer 0⟩ (Protocol.serdeJson fun _ => "")).Reachable s ∧
    s.1.1.component.terminals = [⟨0,1,[[104,101,108,108,111]],false⟩] ∧
    (s.1.1.app.page.written.take 1).flatten ++ [104,101,108,108,111] = parts.flatten ∧
    ∀ (i : Nat) bytes, parts[i]? = some bytes → bytes <+: Session.bytesRead (s.2 i).reads := by
  have hr := System.reachable_end
    (m := screen ⟨fun _ => "",fun _ => .integer 0⟩ (Protocol.serdeJson fun _ => "")) greetedRun rfl
  obtain ⟨parts,_,hwithin,_,_,hterminals⟩ := screen_shows hr
  exact ⟨_,parts,hr,rfl,(hterminals _ List.mem_cons_self).2 rfl,hwithin⟩

end Terminald.GhosttyTerminal
