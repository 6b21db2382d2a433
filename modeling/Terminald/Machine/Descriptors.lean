import Mathlib.Data.List.Basic

namespace Terminald.Machine

/-- An open file of a process, and whether `exec` closes it. -/
structure Descriptor (α : Type*) where
  object : α
  cloexec : Bool
deriving DecidableEq

/-- The descriptors of a process, each at its number. -/
structure Table (α : Type*) where
  entries : List (Option (Descriptor α))
deriving DecidableEq

namespace Table
variable {α : Type*} {t : Table α} {d : Descriptor α} {i fd : Nat}

def get (t : Table α) (fd : Nat) : Option (Descriptor α) := t.entries[fd]?.join

/-- The table as far as `fd`. -/
def reach (t : Table α) (fd : Nat) : List (Option (Descriptor α)) :=
  t.entries ++ List.replicate (fd + 1 - t.entries.length) none

def put (t : Table α) (fd : Nat) (d : Option (Descriptor α)) : Table α := ⟨(t.reach fd).set fd d⟩

/-- The least number that is free. -/
def lowest (t : Table α) : Nat := t.entries.findIdx Option.isNone

/-- A new descriptor has the least number that is free. -/
def alloc (t : Table α) (d : Descriptor α) : Table α := t.put t.lowest (some d)

def close (t : Table α) (fd : Nat) : Table α := t.put fd none

/-- The copy is not closed by `exec`. -/
def dup2 (t : Table α) (source target : Nat) : Option (Table α) :=
  (t.get source).map (fun d =>
    if source = target then t else t.put target (some { d with cloexec := false }))

def exec (t : Table α) : Table α :=
  ⟨t.entries.map (fun e => e.bind (fun d => if d.cloexec then none else some d))⟩

theorem get_put (t : Table α) (fd i : Nat) (e : Option (Descriptor α)) :
    (t.put fd e).get i = if i = fd then e else t.get i := by
  have hlen : fd < (t.reach fd).length := by
    simp only [reach,List.length_append,List.length_replicate]
    omega
  have hreach : (t.reach fd)[i]?.join = t.get i := by
    simp only [reach,get,List.getElem?_append,List.getElem?_replicate]
    split
    · rfl
    · rw [List.getElem?_eq_none (Nat.le_of_not_lt ‹_›)]
      split <;> rfl
  simp only [put,get,List.getElem?_set]
  by_cases h : fd = i
  · subst h
    simp [hlen]
  · simp only [h,if_false,Ne.symm h]
    exact hreach

theorem get_put_other {e : Option (Descriptor α)} (h : i ≠ fd) : (t.put fd e).get i = t.get i := by
  rw [get_put,if_neg h]

@[simp] theorem get_lowest (t : Table α) : t.get t.lowest = none := by
  simp only [get,lowest]
  cases h : t.entries[t.entries.findIdx Option.isNone]? with
  | none => rfl
  | some e =>
    have hfound := List.findIdx_getElem (w := (List.getElem?_eq_some_iff.mp h).1)
    rw [(List.getElem?_eq_some_iff.mp h).2] at hfound
    simpa using hfound

theorem lowest_free (h : t.get fd = some d) : fd ≠ t.lowest := by
  intro he
  rw [he,get_lowest] at h
  cases h

/-- What is open keeps its number when something is opened. -/
theorem get_alloc (h : t.get i = some d) (e : Descriptor α) : (t.alloc e).get i = some d := by
  rw [alloc,get_put_other (lowest_free h),h]

theorem get_alloc_new (t : Table α) (d : Descriptor α) : (t.alloc d).get t.lowest = some d := by
  rw [alloc,get_put,if_pos rfl]

theorem get_close (h : t.get i = some d) (hne : i ≠ fd) : (t.close fd).get i = some d := by
  rw [close,get_put_other hne,h]

theorem get_dup2 {u : Table α} {source target : Nat} (hd : t.dup2 source target = some u)
    (h : t.get i = some d) (hne : i ≠ target) : u.get i = some d := by
  obtain ⟨e,_,hu⟩ := Option.map_eq_some_iff.mp hd
  subst hu
  split
  · exact h
  · rw [get_put_other hne,h]

theorem get_exec (t : Table α) (i : Nat) :
    t.exec.get i = (t.get i).bind (fun d => if d.cloexec then none else some d) := by
  simp only [exec,get,List.getElem?_map]
  cases t.entries[i]? <;> rfl

/-- A descriptor without the mark is still there after `exec`. -/
theorem get_exec_kept (h : t.get i = some d) (hc : d.cloexec = false) : t.exec.get i = some d := by
  rw [get_exec,h,Option.bind_some,hc]
  rfl

end Table
end Terminald.Machine
