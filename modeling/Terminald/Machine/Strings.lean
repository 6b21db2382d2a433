import Mathlib.Data.List.Basic
import Mathlib.Data.List.TakeWhile

namespace Terminald.Machine

/-- What is checked of each element in turn. -/
theorem forall_of_all {p : α → Prop} [DecidablePred p] {xs : List α} (h : xs.all (fun x => decide (p x)) = true) :
    ∀ x ∈ xs, p x :=
  fun x hx => of_decide_eq_true (List.all_eq_true.mp h x hx)

theorem dropWhile_id {p : α → Bool} {xs : List α} (h : ∀ x ∈ xs, p x = false) : xs.dropWhile p = xs := by
  cases xs with
  | nil => rfl
  | cons x xs => rw [List.dropWhile_cons_of_neg (Bool.eq_false_iff.mp (h x List.mem_cons_self))]

section Lists
variable {α : Type*} [DecidableEq α]

/-- The two sides of the first `c`. -/
def splitOnce (c : α) : List α → Option (List α × List α)
  | [] => none
  | x :: xs => if x = c then some ([],xs) else (splitOnce c xs).map (fun (u,v) => (x :: u,v))

def stripPrefix (pat xs : List α) : Option (List α) :=
  if pat.isPrefixOf xs then some (xs.drop pat.length) else none

/-- Where the pattern begins for the first time. -/
def find (pat : List α) : List α → Option Nat
  | [] => if pat = [] then some 0 else none
  | x :: xs => if pat.isPrefixOf (x :: xs) then some 0 else (find pat xs).map (· + 1)

/-- What follows the last `c`, or all of it. -/
def lastPart (c : α) (xs : List α) : List α := (xs.reverse.takeWhile (fun x => x != c)).reverse

theorem find_front (pat rest : List α) : find pat (pat ++ rest) = some 0 := by
  cases pat with
  | nil => cases rest <;> simp [find]
  | cons x xs => simp [find,List.isPrefixOf_iff_prefix]

/-- The pattern stands where it is found. -/
theorem find_some {pat xs : List α} {i : Nat} (h : find pat xs = some i) :
    ∃ front rest, xs = front ++ (pat ++ rest) ∧ front.length = i := by
  induction xs generalizing i with
  | nil =>
    simp only [find,Option.ite_none_right_eq_some,Option.some.injEq] at h
    exact ⟨[],[],by simp [h.1],h.2⟩
  | cons x xs ih =>
    simp only [find] at h
    split at h
    · rename_i hp
      obtain ⟨rest,hr⟩ := List.isPrefixOf_iff_prefix.mp hp
      exact ⟨[],rest,hr.symm,Option.some.inj h⟩
    · obtain ⟨j,hj,rfl⟩ := Option.map_eq_some_iff.mp h
      obtain ⟨front,rest,hxs,hl⟩ := ih hj
      exact ⟨x :: front,rest,by rw [hxs,List.cons_append],by rw [List.length_cons,hl]⟩

variable {c : α} {w s : List α}

theorem splitOnce_none (h : c ∉ s) : splitOnce c s = none := by
  induction s with
  | nil => rfl
  | cons x xs ih =>
    have hx : x ≠ c := fun e => h (e ▸ List.mem_cons_self)
    simp [splitOnce,hx,ih (List.not_mem_of_not_mem_cons h)]

theorem splitOnce_front {u : List α} (v : List α) (h : c ∉ u) :
    splitOnce c (u ++ c :: v) = some (u,v) := by
  induction u with
  | nil => simp [splitOnce]
  | cons x xs ih =>
    have hx : x ≠ c := fun e => h (e ▸ List.mem_cons_self)
    simp [splitOnce,hx,ih (List.not_mem_of_not_mem_cons h)]

/-- Joined again at the separator. -/
theorem splitOnce_join {u v : List α} (h : splitOnce c s = some (u,v)) : s = u ++ c :: v := by
  induction s generalizing u with
  | nil => cases h
  | cons x xs ih =>
    simp only [splitOnce] at h
    split at h
    · rename_i hx
      cases h
      rw [hx,List.nil_append]
    · obtain ⟨⟨a,b⟩,hs,he⟩ := Option.map_eq_some_iff.mp h
      cases he
      rw [ih hs,List.cons_append]

theorem stripPrefix_some {pat xs rest : List α} :
    stripPrefix pat xs = some rest ↔ xs = pat ++ rest := by
  simp only [stripPrefix,List.isPrefixOf_iff_prefix]
  constructor
  · intro h
    split at h
    · rename_i hp
      obtain ⟨t,ht⟩ := hp
      cases h
      rw [← ht,List.drop_left]
    · cases h
  · intro h
    rw [if_pos ⟨rest,h.symm⟩,h,List.drop_left]

/-- A word closed by `c` stands in front exactly when it is all before the first `c`. -/
theorem prefix_closed_iff (rest : List α) (hw : c ∉ w) (hs : c ∉ s) :
    w ++ [c] <+: s ++ c :: rest ↔ w = s := by
  constructor
  · intro h
    have before : ∀ {u : List α} (v : List α), c ∉ u → (u ++ c :: v).takeWhile (fun x => x != c) = u := by
      intro u v hu
      rw [List.takeWhile_append_of_pos (fun x hx => by simpa using ne_of_mem_of_not_mem hx hu)]
      simp
    obtain ⟨t,ht⟩ := h
    rw [← before rest hs,← ht,List.append_assoc,List.singleton_append,before _ hw]
  · intro heq
    subst heq
    exact ⟨rest,by simp⟩

/-- A closed word is found in the first part, at its end, or after it. -/
theorem find_closed {rest : List α} (hw : c ∉ w) (hs : c ∉ s) :
    find (w ++ [c]) (s ++ c :: rest) =
      if w <:+ s then some (s.length - w.length)
      else (find (w ++ [c]) rest).map (· + (s.length + 1)) := by
  induction s with
  | nil =>
    have hp := prefix_closed_iff rest hw hs
    simp only [List.nil_append] at hp
    by_cases hnil : w = []
    · simp [find,hnil]
    · simp [find,List.isPrefixOf_iff_prefix,hp,hnil]
  | cons x xs ih =>
    have hp := prefix_closed_iff rest hw hs
    have hx : c ∉ xs := List.not_mem_of_not_mem_cons hs
    simp only [List.cons_append] at hp
    simp only [List.cons_append,find,List.isPrefixOf_iff_prefix,hp,ih hx,List.suffix_cons_iff,
      List.length_cons]
    by_cases he : w = x :: xs
    · simp [he]
    · by_cases hsuf : w <:+ xs
      · have := hsuf.length_le
        simp only [he,hsuf,if_false,if_true,or_true,Option.map_some,Option.some.injEq]
        omega
      · simp only [he,hsuf,if_false,or_false,Option.map_map]
        rfl

theorem lastPart_same (hw : c ∉ w) : lastPart c w = w := by
  rw [lastPart,List.takeWhile_eq_self_iff.mpr,List.reverse_reverse]
  intro x hx
  simpa using ne_of_mem_of_not_mem (List.mem_reverse.mp hx) hw

theorem lastPart_closed (hw : c ∉ w) : lastPart c (s ++ c :: w) = w := by
  simp only [lastPart,List.reverse_append,List.reverse_cons,List.append_assoc]
  rw [List.takeWhile_append_of_pos (fun x hx => by
    simpa using ne_of_mem_of_not_mem (List.mem_reverse.mp hx) hw)]
  simp

end Lists

theorem splitOn_front {α : Type*} [BEq α] [LawfulBEq α] (c : α) (text : List α) :
    (c :: text).splitOn c = [] :: text.splitOn c := by
  rw [List.splitOn_cons_eq_if_modifyHead,if_pos (beq_self_eq_true c)]

/-- The parts between separators have no separator, and only what was there. -/
theorem mem_splitOnP {α : Type*} {p : α → Bool} {text part : List α} {x : α}
    (h : part ∈ text.splitOnP p) (hx : x ∈ part) : x ∈ text ∧ p x = false := by
  induction text generalizing part with
  | nil =>
    obtain rfl := List.mem_singleton.mp h
    cases hx
  | cons y ys ih =>
    rw [List.splitOnP_cons_eq_if_modifyHead] at h
    split at h
    · rcases List.mem_cons.mp h with rfl | h
      · cases hx
      · exact ⟨List.mem_cons_of_mem y (ih h hx).1,(ih h hx).2⟩
    · rename_i hy
      cases hs : ys.splitOnP p with
      | nil => exact absurd hs (List.splitOnP_ne_nil p ys)
      | cons first rest =>
        rw [hs] at h ih
        rcases List.mem_cons.mp h with rfl | h
        · rcases List.mem_cons.mp hx with rfl | hx
          · exact ⟨List.mem_cons_self,by simpa using hy⟩
          · have := ih List.mem_cons_self hx
            exact ⟨List.mem_cons_of_mem y this.1,this.2⟩
        · have := ih (List.mem_cons_of_mem first h) hx
          exact ⟨List.mem_cons_of_mem y this.1,this.2⟩

end Terminald.Machine
