import Mathlib.Algebra.GroupWithZero.Nat
import Mathlib.Data.List.Induction

namespace Terminald.Machine

/-- Every choice, the program's own or its surroundings', is a label. A label
that cannot happen in a state leads nowhere. -/
structure System (σ ι : Type*) where
  start : σ
  step : σ → ι → Option σ

namespace System
variable {σ τ ι κ : Type*} {m : System σ ι} {n : System τ κ}

def run (m : System σ ι) : σ → List ι → Option σ
  | s, [] => some s
  | s, l :: ls => (m.step s l).bind (fun t => m.run t ls)

def Reachable (m : System σ ι) (s : σ) : Prop := ∃ ls, m.run m.start ls = some s

/-- No choice at all is left. -/
def Stuck (m : System σ ι) (s : σ) : Prop := ∀ l, m.step s l = none

@[simp] theorem run_nil (s : σ) : m.run s [] = some s := rfl

theorem run_cons (s : σ) (l : ι) (ls : List ι) :
    m.run s (l :: ls) = (m.step s l).bind (fun t => m.run t ls) := rfl

theorem run_one {s t : σ} {l : ι} (h : m.step s l = some t) : m.run s [l] = some t := by
  simp [run_cons, h]

theorem run_append (s : σ) (ls ks : List ι) :
    m.run s (ls ++ ks) = (m.run s ls).bind (fun t => m.run t ks) := by
  induction ls generalizing s with
  | nil => rfl
  | cons l ls ih =>
    simp only [List.cons_append, run_cons]
    cases m.step s l with
    | none => rfl
    | some t => exact ih t

theorem run_snoc_some {s t u : σ} {ls : List ι} {l : ι} (hr : m.run s ls = some t)
    (hs : m.step t l = some u) : m.run s (ls ++ [l]) = some u := by
  simp [run_append, hr, run_cons, hs]

/-- The last step of a nonempty run, with the run that leads to it. -/
theorem run_snoc_inv {s u : σ} {ls : List ι} {l : ι} (h : m.run s (ls ++ [l]) = some u) :
    ∃ t, m.run s ls = some t ∧ m.step t l = some u := by
  rw [run_append] at h
  obtain ⟨t, ht, hl⟩ := Option.bind_eq_some_iff.mp h
  simp only [run_cons, run_nil] at hl
  obtain ⟨v, hv, he⟩ := Option.bind_eq_some_iff.mp hl
  exact ⟨t, ht, hv.trans he⟩

/-- What the start establishes and every step of a run from it carries on, the
labels passed so far included. -/
theorem run_history {I : List ι → σ → Prop} (h0 : I [] m.start)
    (hs : ∀ past s l t, m.run m.start past = some s → I past s →
      m.step s l = some t → I (past ++ [l]) t)
    {ls : List ι} {s : σ} (hr : m.run m.start ls = some s) : I ls s := by
  induction ls using List.reverseRecOn generalizing s with
  | nil => cases hr; exact h0
  | append_singleton past l ih =>
    obtain ⟨t, ht, hl⟩ := run_snoc_inv hr
    exact hs past t l s ht (ih ht) hl

theorem reachable_start (m : System σ ι) : m.Reachable m.start := ⟨[], rfl⟩

/-- A run that comes to an end, by evaluation, ends in a reachable state. -/
theorem reachable_end (ls : List ι) (h : (m.run m.start ls).isSome = true) :
    m.Reachable ((m.run m.start ls).get h) :=
  ⟨ls,(Option.some_get h).symm⟩

theorem Reachable.step {s t : σ} {l : ι} (hr : m.Reachable s) (hs : m.step s l = some t) :
    m.Reachable t := by
  obtain ⟨ls, hls⟩ := hr
  exact ⟨ls ++ [l], run_snoc_some hls hs⟩

theorem Reachable.run {s t : σ} {ls : List ι} (hr : m.Reachable s) (hs : m.run s ls = some t) :
    m.Reachable t := by
  obtain ⟨ks, hks⟩ := hr
  exact ⟨ks ++ ls, by simp [run_append, hks, hs]⟩

/-- Invariant rule. The step may use that its source is reachable, so invariants
proved earlier are at hand. -/
theorem Reachable.invariant {I : σ → Prop} {s : σ} (hr : m.Reachable s) (h0 : I m.start)
    (hs : ∀ s l t, m.Reachable s → I s → m.step s l = some t → I t) : I s := by
  obtain ⟨ls, hls⟩ := hr
  exact run_history (I := fun _ => I) h0 (fun past s l t hp => hs s l t ⟨past, hp⟩) hls

/-- What holds along the steps of some labels holds after a run of them. -/
theorem run_within {I : σ → Prop} {P : ι → Prop} (h0 : I m.start)
    (hs : ∀ s l t, I s → P l → m.step s l = some t → I t) {ls : List ι} {s : σ}
    (hr : m.run m.start ls = some s) (hl : ∀ l ∈ ls, P l) : I s := by
  refine run_history (I := fun past s => (∀ l ∈ past, P l) → I s) (fun _ => h0) ?_ hr hl
  intro past s l t _ ih hstep hp
  exact hs s l t (ih (fun k hk => hp k (List.mem_append_left _ hk)))
    (hp l (List.mem_append_right _ List.mem_cons_self)) hstep

/-- The runs of a system whose steps all meet a condition. -/
def only (m : System σ ι) (c : σ → ι → Bool) : System σ ι :=
  ⟨m.start, fun s l => if c s l then m.step s l else none⟩

theorem only_step {c : σ → ι → Bool} {s t : σ} {l : ι} :
    (m.only c).step s l = some t ↔ c s l = true ∧ m.step s l = some t := by
  simp only [only]
  split <;> rename_i h <;> simp [h]

theorem only_run {c : σ → ι → Bool} {s t : σ} {ls : List ι} (h : (m.only c).run s ls = some t) :
    m.run s ls = some t := by
  induction ls generalizing s with
  | nil => exact h
  | cons l ls ih =>
    obtain ⟨u, hu, hr⟩ := Option.bind_eq_some_iff.mp h
    simp [run_cons, (only_step.mp hu).2, ih hr]

theorem Reachable.unrestrict {c : σ → ι → Bool} {s : σ} (hr : (m.only c).Reachable s) :
    m.Reachable s := by
  obtain ⟨ls, hls⟩ := hr
  exact ⟨ls, only_run hls⟩

/-- What the steps of a run bring with them, in order. -/
def collect {α : Type*} (m : System σ ι) (f : σ → ι → List α) : σ → List ι → List α
  | _, [] => []
  | s, l :: ls => f s l ++ ((m.step s l).map (fun t => m.collect f t ls)).getD []

section Collect
variable {α : Type*} {f : σ → ι → List α}

theorem collect_cons {s t : σ} {l : ι} (h : m.step s l = some t) (ls : List ι) :
    m.collect f s (l :: ls) = f s l ++ m.collect f t ls := by
  simp [collect, h]

theorem collect_append {s t : σ} {ls : List ι} (hr : m.run s ls = some t) (ks : List ι) :
    m.collect f s (ls ++ ks) = m.collect f s ls ++ m.collect f t ks := by
  induction ls generalizing s with
  | nil =>
    cases hr
    rfl
  | cons l ls ih =>
    obtain ⟨u, hu, hrest⟩ := Option.bind_eq_some_iff.mp hr
    rw [List.cons_append, collect_cons hu, collect_cons hu, ih hrest, List.append_assoc]

theorem collect_snoc {s t : σ} {ls : List ι} (hr : m.run s ls = some t) (l : ι) :
    m.collect f s (ls ++ [l]) = m.collect f s ls ++ f t l := by
  rw [collect_append hr]
  cases hl : m.step t l <;> simp [collect, hl]

/-- What every step from a reachable state brings, a whole run does. -/
theorem collect_all {P : α → Prop} (h : ∀ s l t, m.Reachable s → m.step s l = some t → ∀ d ∈ f s l, P d)
    {ls : List ι} {s : σ} (hr : m.run m.start ls = some s) : ∀ d ∈ m.collect f m.start ls, P d := by
  refine run_history (m := m) (I := fun past _ => ∀ d ∈ m.collect f m.start past, P d)
    (fun d hd => by cases hd) ?_ hr
  intro past s l t hp ih hs d hd
  rw [collect_snoc hp] at hd
  rcases List.mem_append.mp hd with hd | hd
  · exact ih d hd
  · exact h s l t ⟨past, hp⟩ hs d hd

/-- No step brings anything just if all meet the condition that it does not. -/
theorem collect_nil_iff {c : σ → ι → Bool} (hc : ∀ s l, c s l = true ↔ f s l = []) {s t : σ}
    {ls : List ι} (hr : m.run s ls = some t) :
    m.collect f s ls = [] ↔ (m.only c).run s ls = some t := by
  induction ls generalizing s with
  | nil => simpa [collect] using hr
  | cons l ls ih =>
    obtain ⟨u, hu, hrest⟩ := Option.bind_eq_some_iff.mp hr
    rw [collect_cons hu, List.append_eq_nil_iff, ← hc, ih hrest, run_cons]
    by_cases hl : c s l = true
    · rw [only_step.mpr ⟨hl, hu⟩]
      simp [hl]
    · simp [only, hl]

end Collect

section Sift
variable {c : σ → ι → Bool} {ls : List ι}

/-- The labels of a run that count, each in the state it comes in. -/
def sift (m : System σ ι) (c : σ → ι → Bool) : σ → List ι → List ι :=
  m.collect (fun s l => if c s l then [l] else [])

/-- Where only the label decides, the run does not matter. -/
theorem sift_filter {p : ι → Bool} {s t : σ} (hr : m.run s ls = some t) :
    m.sift (fun _ l => p l) s ls = ls.filter p := by
  induction ls generalizing s with
  | nil => rfl
  | cons l ls ih =>
    obtain ⟨u, hu, hrest⟩ := Option.bind_eq_some_iff.mp hr
    rw [sift, collect_cons hu, ← sift, ih hrest, List.filter_cons]
    split <;> rfl

/-- Unwinding. Of two states that look alike, a step that does not count leads the first to one
that still looks like the second, and a step that counts can be made in both. Then a run without
the steps that do not count is one, and its end looks like the other's. -/
theorem run_sift {R : σ → σ → Prop} (h0 : R m.start m.start)
    (hskip : ∀ s s' l t, m.Reachable s → R s s' → c s l = false → m.step s l = some t → R t s')
    (hkeep : ∀ s s' l t, m.Reachable s → R s s' → c s l = true → m.step s l = some t →
      ∃ t', m.step s' l = some t' ∧ R t t')
    {s : σ} (hr : m.run m.start ls = some s) :
    ∃ s', m.run m.start (m.sift c m.start ls) = some s' ∧ R s s' := by
  refine run_history (I := fun past s => ∃ s', m.run m.start (m.sift c m.start past) = some s' ∧ R s s')
    ⟨m.start, rfl, h0⟩ ?_ hr
  intro past s l t hp ⟨s', hrun, hs⟩ hl
  rw [sift, collect_snoc hp, ← sift]
  cases hc : c s l with
  | false =>
    simp only [Bool.false_eq_true, if_false, List.append_nil]
    exact ⟨s', hrun, hskip s s' l t ⟨past, hp⟩ hs hc hl⟩
  | true =>
    obtain ⟨t', ht, hrel⟩ := hkeep s s' l t ⟨past, hp⟩ hs hc hl
    simp only [if_true]
    exact ⟨t', run_snoc_some hrun ht, hrel⟩

end Sift

/-- Each step takes at least one from a potential, but for what its label brings. Then a run is no
longer than the potential lost and what its labels bring. -/
theorem run_potential {I : σ → Prop} {potential : σ → Int} {brings : ι → Nat}
    (hs : ∀ s l t, I s → m.step s l = some t → I t ∧ potential t + 1 ≤ potential s + brings l)
    {s t : σ} {ls : List ι} (h : I s) (hr : m.run s ls = some t) :
    I t ∧ ls.length + potential t ≤ potential s + (ls.map brings).sum := by
  induction ls generalizing s with
  | nil =>
    cases hr
    exact ⟨h, by simp⟩
  | cons l ls ih =>
    obtain ⟨u, hu, hrest⟩ := Option.bind_eq_some_iff.mp hr
    obtain ⟨hi, hle⟩ := hs s l u h hu
    obtain ⟨ht, hlen⟩ := ih hi hrest
    refine ⟨ht, ?_⟩
    simp only [List.length_cons, List.map_cons, List.sum_cons]
    omega

/-- One system shown by another: in the view through `f` every step is a step of
the other, or nothing happens. -/
def Shows (m : System σ ι) (n : System τ κ) (f : σ → τ) : Prop :=
  f m.start = n.start ∧
    ∀ s l t, m.step s l = some t → f t = f s ∨ ∃ k, n.step (f s) k = some (f t)

theorem Shows.reachable {f : σ → τ} (hv : Shows m n f) {s : σ} (hr : m.Reachable s) :
    n.Reachable (f s) := by
  apply hr.invariant (I := fun s => n.Reachable (f s)) (hv.1 ▸ n.reachable_start)
  intro s l t _ ih hl
  rcases hv.2 s l t hl with he | ⟨k, hk⟩
  · exact he ▸ ih
  · exact ih.step hk

/-- A run shown by a run: in the view through `f` every step is the step that its signal asks for,
or nothing happens. The signals without effect are left out. -/
theorem run_signals {f : σ → τ} {g : ι → Option κ} (h0 : f m.start = n.start)
    (hs : ∀ s l t, m.Reachable s → m.step s l = some t →
      f t = f s ∨ ∃ k, g l = some k ∧ n.step (f s) k = some (f t))
    {ls : List ι} {s : σ} (hr : m.run m.start ls = some s) :
    ∃ ks, List.Sublist ks (ls.filterMap g) ∧ n.run n.start ks = some (f s) := by
  refine run_history (I := fun past s => ∃ ks, List.Sublist ks (past.filterMap g) ∧
    n.run n.start ks = some (f s)) ⟨[], .slnil, congrArg some h0.symm⟩ ?_ hr
  intro past s l t hp ⟨ks, hks, hrun⟩ hl
  rw [List.filterMap_append]
  rcases hs s l t ⟨past, hp⟩ hl with he | ⟨k, hg, hk⟩
  · exact ⟨ks, hks.trans (List.sublist_append_left _ _), he ▸ hrun⟩
  · refine ⟨ks ++ [k], hks.append ?_, run_snoc_some hrun hk⟩
    rw [List.filterMap_cons_some hg]
    exact .refl _

end System
end Terminald.Machine
