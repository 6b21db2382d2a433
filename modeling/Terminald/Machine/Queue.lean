import Mathlib.Data.List.Basic

namespace Terminald.Machine

/-- First in, first out, and never more than `cap` items at once. -/
structure Queue (α : Type*) (cap : Nat) where
  items : List α
  bound : items.length ≤ cap
deriving DecidableEq

namespace Queue
variable {α : Type*} {cap : Nat}

def empty : Queue α cap := ⟨[],Nat.zero_le cap⟩

def room (q : Queue α cap) : Nat := cap - q.items.length

/-- All of `xs` goes in, or nothing does. -/
def push (q : Queue α cap) (xs : List α) : Option (Queue α cap) :=
  if h : (q.items ++ xs).length ≤ cap then some ⟨q.items ++ xs,h⟩ else none

def drop (q : Queue α cap) (n : Nat) : Queue α cap :=
  ⟨q.items.drop n,by have := q.bound; simp only [List.length_drop]; omega⟩

@[simp] theorem empty_items : (empty : Queue α cap).items = [] := rfl

@[simp] theorem drop_items (q : Queue α cap) (n : Nat) : (q.drop n).items = q.items.drop n := rfl

theorem push_items {q r : Queue α cap} {xs : List α} (h : q.push xs = some r) :
    r.items = q.items ++ xs := by
  unfold push at h
  split at h
  · cases h; rfl
  · cases h

theorem push_isSome {q : Queue α cap} {xs : List α} :
    (q.push xs).isSome = true ↔ q.items.length + xs.length ≤ cap := by
  unfold push
  split <;> rename_i h <;> simp only [List.length_append] at h <;> simp [h]

end Queue
end Terminald.Machine
