import Mathlib.Data.List.Basic
import Mathlib.Logic.Function.Basic
import Terminald.Machine.System

namespace Terminald.Machine

/-- One end of a connection, with all it has sent and all it has received so far.
Nothing that was sent is taken back. -/
structure End (τ κ α β : Type*) extends System τ κ where
  sent : τ → List α
  received : τ → List β
  fresh : received start = []
  grows : ∀ {s l t}, step s l = some t → sent s <+: sent t

/-- A program with any number of connections, which have names. A step receives on one
of them at most, and a connection is there from some moment on. -/
structure Hub (ν σ ι α β : Type*) extends System σ ι where
  connected : ν → σ → Bool
  sent : ν → σ → List α
  received : ν → σ → List β
  port : ι → Option ν
  fresh : ∀ n, received n start = []
  grows : ∀ {s l t}, step s l = some t → ∀ n, sent n s <+: sent n t
  still : ∀ {s l t}, step s l = some t → ∀ n, port l ≠ some n → received n t = received n s

/-- A program with a hub in it: each of its steps is one of the hub's on the same port, or none. -/
def Hub.around {ν σ ι ρ ο α β : Type*} (a : Hub ν σ ι α β) (m : System ρ ο) (f : ρ → σ) (p : ο → Option ν)
    (h0 : f m.start = a.start)
    (hs : ∀ {s l t}, m.step s l = some t →
      f t = f s ∨ ∃ k, a.step (f s) k = some (f t) ∧ a.port k = p l) : Hub ν ρ ο α β where
  toSystem := m
  connected n s := a.connected n (f s)
  sent n s := a.sent n (f s)
  received n s := a.received n (f s)
  port := p
  fresh n := (congrArg (a.received n) h0).trans (a.fresh n)
  grows h n := by
    rcases hs h with he | ⟨k,hk,_⟩
    · exact (congrArg (a.sent n) he) ▸ List.prefix_refl _
    · exact a.grows hk n
  still h n hn := by
    rcases hs h with he | ⟨k,hk,hp⟩
    · rw [he]
    · exact a.still hk n (hp ▸ hn)

namespace System
variable {ν σ τ ι κ α β : Type*}

section Network
variable [DecidableEq ν] [DecidableEq α] [DecidableEq β]

/-- A hub with a program at the other end of each connection. What an end receives is, in order,
what the other has sent; a connection that breaks delivers no more. -/
def network (a : Hub ν σ ι α β) (b : ν → End τ κ β α) : System (σ × (ν → τ)) (ι ⊕ ν × κ) where
  start := (a.start,fun n => (b n).start)
  step s
    | .inl l => (a.step s.1 l).bind (fun t =>
        if (a.port l).all (fun n => a.received n t <+: (b n).sent (s.2 n)) then some (t,s.2) else none)
    | .inr (n,k) => ((b n).step (s.2 n) k).bind (fun t =>
        if a.connected n s.1 = true ∧ (b n).received t <+: a.sent n s.1 then
          some (s.1,Function.update s.2 n t)
        else none)

variable {a : Hub ν σ ι α β} {b : ν → End τ κ β α}

theorem network_inl {s t : σ × (ν → τ)} {l : ι} (h : (network a b).step s (.inl l) = some t) :
    a.step s.1 l = some t.1 ∧ t.2 = s.2 ∧
      ∀ n, a.port l = some n → a.received n t.1 <+: (b n).sent (t.2 n) := by
  obtain ⟨u,hu,hif⟩ := Option.bind_eq_some_iff.mp h
  split at hif <;> cases hif
  rename_i hall
  refine ⟨hu,rfl,fun n hn => ?_⟩
  simpa [hn] using hall

theorem network_inr {s t : σ × (ν → τ)} {n : ν} {k : κ}
    (h : (network a b).step s (.inr (n,k)) = some t) :
    (b n).step (s.2 n) k = some (t.2 n) ∧ t.1 = s.1 ∧ (∀ o, o ≠ n → t.2 o = s.2 o) ∧
      a.connected n s.1 = true ∧ (b n).received (t.2 n) <+: a.sent n t.1 := by
  obtain ⟨u,hu,hif⟩ := Option.bind_eq_some_iff.mp h
  split at hif <;> cases hif
  rename_i hall
  exact ⟨by simpa using hu,rfl,fun o ho => Function.update_of_ne ho _ _,hall.1,by simpa using hall.2⟩

/-- A step of the hub's can be made as soon as what it receives was sent. -/
theorem network_hub_can {s : σ × (ν → τ)} {u : σ} {l : ι} (h : a.step s.1 l = some u)
    (hr : ∀ n, a.port l = some n → a.received n u <+: (b n).sent (s.2 n)) :
    (network a b).step s (.inl l) = some (u,s.2) := by
  have hall : (a.port l).all (fun n => a.received n u <+: (b n).sent (s.2 n)) = true := by
    cases hp : a.port l with
    | none => rfl
    | some n => simpa using hr n hp
  simp only [network,h,Option.bind_some,hall,if_true]

theorem network_end_can {s : σ × (ν → τ)} {n : ν} {u : τ} {k : κ} (h : (b n).step (s.2 n) k = some u)
    (hc : a.connected n s.1 = true) (hr : (b n).received u <+: a.sent n s.1) :
    (network a b).step s (.inr (n,k)) = some (s.1,Function.update s.2 n u) := by
  simp only [network,h,Option.bind_some]
  exact if_pos ⟨hc,hr⟩

/-- Each party behaves as it does alone. -/
theorem shows_hub : Shows (network a b) a.toSystem Prod.fst := by
  refine ⟨rfl,fun s l t h => ?_⟩
  cases l with
  | inl l => exact .inr ⟨l,(network_inl h).1⟩
  | inr k => exact .inl (network_inr h).2.1

theorem shows_end (n : ν) : Shows (network a b) (b n).toSystem (fun s => s.2 n) := by
  refine ⟨rfl,fun s l t h => ?_⟩
  cases l with
  | inl l => exact .inl (congrFun (network_inl h).2.1 n)
  | inr k =>
    obtain ⟨o,k⟩ := k
    obtain ⟨hstep,_,hother,_⟩ := network_inr h
    by_cases ho : n = o
    · subst ho
      exact .inr ⟨k,hstep⟩
    · exact .inl (hother n ho)

section Reachable
variable {s : σ × (ν → τ)} (hr : (network a b).Reachable s)
include hr

theorem network_hub : a.toSystem.Reachable s.1 := shows_hub.reachable hr

theorem network_end (n : ν) : (b n).toSystem.Reachable (s.2 n) := (shows_end n).reachable hr

/-- On every connection, at every moment, each end has received a first part of what the
other has sent. -/
theorem network_heard (n : ν) :
    a.received n s.1 <+: (b n).sent (s.2 n) ∧ (b n).received (s.2 n) <+: a.sent n s.1 := by
  refine hr.invariant (I := fun s => a.received n s.1 <+: (b n).sent (s.2 n) ∧
    (b n).received (s.2 n) <+: a.sent n s.1)
    ⟨a.fresh n ▸ List.nil_prefix,(b n).fresh ▸ List.nil_prefix⟩ ?_
  intro s l t _ h hl
  cases l with
  | inl l =>
    obtain ⟨hstep,he,hnew⟩ := network_inl hl
    refine ⟨?_,(he ▸ h.2).trans (a.grows hstep n)⟩
    by_cases hn : a.port l = some n
    · exact hnew n hn
    · rw [he,a.still hstep n hn]
      exact h.1
  | inr k =>
    obtain ⟨o,k⟩ := k
    obtain ⟨hstep,he,hother,_,hnew⟩ := network_inr hl
    by_cases ho : n = o
    · subst ho
      exact ⟨(he ▸ h.1).trans ((b n).grows hstep),hnew⟩
    · rw [he,hother n ho]
      exact h

end Reachable

/-- With a program around it, a hub has the same connections. -/
theorem shows_around {ρ ο : Type*} {m : System ρ ο} {f : ρ → σ} {p : ο → Option ν} {h0 : f m.start = a.start}
    {hs : ∀ {s l t}, m.step s l = some t → f t = f s ∨ ∃ k, a.step (f s) k = some (f t) ∧ a.port k = p l} :
    Shows (network (a.around m f p h0 hs) b) (network a b) (fun s => (f s.1,s.2)) := by
  refine ⟨Prod.ext h0 rfl,fun s l t h => ?_⟩
  cases l with
  | inl l =>
    obtain ⟨hstep,he,hnew⟩ := network_inl h
    rcases hs hstep with hf | ⟨k,hk,hp⟩
    · exact .inl (Prod.ext hf he)
    · refine .inr ⟨.inl k,?_⟩
      have hall : (a.port k).all (fun n => a.received n (f t.1) <+: (b n).sent (s.2 n)) = true := by
        rw [hp]
        cases hn : p l with
        | none => rfl
        | some n =>
          have hlt : a.received n (f t.1) <+: (b n).sent (s.2 n) := he ▸ hnew n hn
          simpa using hlt
      simp only [network,hk,Option.bind_some,hall,if_true,he]
  | inr k =>
    obtain ⟨n,k⟩ := k
    obtain ⟨u,hu,hif⟩ := Option.bind_eq_some_iff.mp h
    split at hif <;> cases hif
    rename_i hall
    refine .inr ⟨.inr (n,k),?_⟩
    simp only [network,hu,Option.bind_some]
    exact if_pos hall

end Network

section Logged
variable {m : System σ ι} {f : σ → ι → List α}

/-- The same system, with a record of what its steps bring. -/
def logged (m : System σ ι) (f : σ → ι → List α) : System (σ × List α) ι where
  start := (m.start,[])
  step s l := (m.step s.1 l).map (fun t => (t,s.2 ++ f s.1 l))

theorem logged_step {s t : σ × List α} {l : ι} :
    (m.logged f).step s l = some t ↔ m.step s.1 l = some t.1 ∧ t.2 = s.2 ++ f s.1 l := by
  obtain ⟨t,log⟩ := t
  simp only [logged,Option.map_eq_some_iff,Prod.mk.injEq]
  constructor
  · intro ⟨u,hu,ht,hlog⟩
    exact ⟨ht ▸ hu,hlog.symm⟩
  · intro ⟨hu,hlog⟩
    exact ⟨t,hu,rfl,hlog.symm⟩

theorem logged_reachable {s : σ × List α} (hr : (m.logged f).Reachable s) : m.Reachable s.1 :=
  Shows.reachable (f := Prod.fst) ⟨rfl,fun _ l _ h => .inr ⟨l,(logged_step.mp h).1⟩⟩ hr

end Logged
end System

section Tracks
variable {α : Type*} {xs ys : List (Nat × α)} {n : Nat}

/-- The items with one number. -/
def track (n : Nat) (xs : List (Nat × α)) : List α := (xs.filter (fun x => x.1 == n)).map Prod.snd

theorem track_append (n : Nat) : track n (xs ++ ys) = track n xs ++ track n ys := by
  rw [track,List.filter_append,List.map_append]
  rfl

theorem mem_track {a : α} : a ∈ track n xs ↔ (n,a) ∈ xs := by
  constructor
  · intro h
    obtain ⟨x,hx,rfl⟩ := List.mem_map.mp h
    obtain ⟨hm,hn⟩ := List.mem_filter.mp hx
    obtain rfl : x.1 = n := by simpa using hn
    exact hm
  · intro h
    exact List.mem_map.mpr ⟨_,List.mem_filter.mpr ⟨h,by simp⟩,rfl⟩

theorem track_nil (h : ∀ x ∈ xs, x.1 ≠ n) : track n xs = [] :=
  List.eq_nil_iff_forall_not_mem.mpr (fun _ ha => h _ (mem_track.mp ha) rfl)

theorem tracks_more {m : Nat} (h : ∀ x ∈ xs, x.1 < m) (hm : m ≤ n) :
    (List.range n).flatMap (fun i => track i xs) = (List.range m).flatMap (fun i => track i xs) := by
  induction hm with
  | refl => rfl
  | @step n hn ih =>
    rw [List.range_succ,List.flatMap_append,ih,List.flatMap_singleton,
      track_nil (fun x hx => Nat.ne_of_lt (Nat.lt_of_lt_of_le (h x hx) hn)),List.append_nil]

/-- The numbers of the items never fall, and all are known. -/
structure Rising (n : Nat) (xs : List (Nat × α)) : Prop where
  order : xs.Pairwise (fun x y => x.1 ≤ y.1)
  below : ∀ x ∈ xs, x.1 < n

theorem Rising.more {m : Nat} (h : Rising m xs) (hm : m ≤ n) : Rising n xs :=
  ⟨h.order,fun x hx => Nat.lt_of_lt_of_le (h.below x hx) hm⟩

theorem Rising.snoc (h : Rising n xs) {m : Nat} (hm : m + 1 = n) (a : α) : Rising n (xs ++ [(m,a)]) := by
  refine ⟨List.pairwise_append.mpr ⟨h.order,List.pairwise_singleton _ _,?_⟩,?_⟩
  · intro x hx y hy
    obtain rfl := List.mem_singleton.mp hy
    have hx := h.below x hx
    omega
  · intro x hx
    rcases List.mem_append.mp hx with hx | hx
    · exact h.below x hx
    · obtain rfl := List.mem_singleton.mp hx
      exact hm ▸ Nat.lt_succ_self m

/-- Rising items are their tracks, one after another. -/
theorem Rising.join (h : Rising n xs) : (List.range n).flatMap (fun i => track i xs) = xs.map Prod.snd := by
  induction xs using List.reverseRecOn with
  | nil => exact List.flatMap_eq_nil_iff.mpr (fun _ _ => rfl)
  | append_singleton xs x ih =>
    obtain ⟨hxs,_,hle⟩ := List.pairwise_append.mp h.order
    have hold : ∀ y ∈ xs, y.1 < x.1 + 1 :=
      fun y hy => Nat.lt_succ_of_le (hle y hy x (List.mem_singleton_self x))
    have hx : x.1 < n := h.below x (List.mem_append_right _ (List.mem_singleton_self x))
    have hjoin := ih ⟨hxs,fun y hy => h.below y (List.mem_append_left _ hy)⟩
    have hbelow : (List.range x.1).flatMap (fun i => track i (xs ++ [x])) =
        (List.range x.1).flatMap (fun i => track i xs) := by
      refine List.flatMap_congr (fun i hi => ?_)
      have hnone : track i [x] = [] := by
        refine track_nil (fun y hy he => ?_)
        obtain rfl := List.mem_singleton.mp hy
        exact Nat.lt_irrefl _ (he ▸ List.mem_range.mp hi)
      rw [track_append,hnone,List.append_nil]
    have hlast : track x.1 [x] = [x.2] := by simp [track]
    have hall : ∀ y ∈ xs ++ [x], y.1 < x.1 + 1 := by
      intro y hy
      rcases List.mem_append.mp hy with hy | hy
      · exact hold y hy
      · exact List.mem_singleton.mp hy ▸ Nat.lt_succ_self _
    rw [tracks_more hold hx,List.range_succ,List.flatMap_append,List.flatMap_singleton] at hjoin
    rw [tracks_more hall hx,List.range_succ,List.flatMap_append,hbelow,List.flatMap_singleton,
      track_append,hlast,← List.append_assoc,hjoin,List.map_append]
    rfl

end Tracks

section Pieces
variable {α : Type*}

/-- Pieces of a whole in their order, with what lies between them. -/
inductive Pieces : List (List α) → List α → Prop
  | nil : Pieces [] []
  | gap {ps whole} (h : Pieces ps whole) (between : List α) : Pieces ps (whole ++ between)
  | piece {ps whole} (h : Pieces ps whole) (p : List α) : Pieces (ps ++ [p]) (whole ++ p)

theorem Pieces.flatten {ps : List (List (List α))} {whole : List (List α)} (h : Pieces ps whole) :
    Pieces (ps.map List.flatten) whole.flatten := by
  induction h with
  | nil => exact .nil
  | gap h between ih =>
    rw [List.flatten_append]
    exact ih.gap _
  | piece h p ih =>
    rw [List.flatten_append,List.map_append]
    exact ih.piece _

end Pieces
end Terminald.Machine
