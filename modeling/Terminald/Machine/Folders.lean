import Terminald.Machine.Strings

/-! File names as the system walks them. -/

namespace Terminald.Machine.Folders

def absolute (file : List Char) : Bool := "/".toList.isPrefixOf file

/-- What stands between slashes, apart from nothing and a dot. -/
def components (file : List Char) : List (List Char) :=
  (file.splitOn '/').filter (fun part => part != [] && part != ['.'])

def parent : List Char := ['.','.']

/-- The directory where a walk by names ends, with links left out. -/
def resolve : List (List Char) → List (List Char) → List (List Char)
  | folder, [] => folder
  | folder, part :: rest =>
    if part = parent then resolve folder.dropLast rest else resolve (folder ++ [part]) rest

/-- Where a file name leads from the working directory. -/
def locate (working : List (List Char)) (file : List Char) : List (List Char) :=
  resolve (if absolute file then [] else working) (components file)

variable {file rest : List Char}

theorem absolute_cons (c : Char) (rest : List Char) : absolute (c :: rest) = ('/' == c) := by
  simp [absolute,List.isPrefixOf]

theorem components_slash (front rest : List Char) :
    components (front ++ '/' :: rest) = components front ++ components rest := by
  simp only [components,List.splitOn_append_cons_self,List.filter_append]

theorem mem_components {part : List Char} (h : part ∈ components file) : part ∈ file.splitOn '/' :=
  (List.mem_filter.mp h).1

theorem resolve_append (folder first second : List (List Char)) :
    resolve folder (first ++ second) = resolve (resolve folder first) second := by
  induction first generalizing folder with
  | nil => rfl
  | cons part rest ih =>
    simp only [List.cons_append,resolve]
    split
    · exact ih folder.dropLast
    · exact ih (folder ++ [part])

/-- Without a step to the parent the walk only goes deeper. -/
theorem resolve_deeper {parts : List (List Char)} (h : parent ∉ parts) (folder : List (List Char)) :
    resolve folder parts = folder ++ parts := by
  induction parts generalizing folder with
  | nil => rw [resolve,List.append_nil]
  | cons part rest ih =>
    have hp : part ≠ parent := fun e => h (e ▸ List.mem_cons_self)
    rw [resolve,if_neg hp,ih (List.not_mem_of_not_mem_cons h),List.append_assoc,List.singleton_append]

/-- Leading slashes only add empty parts. -/
theorem splitOn_trimmed {part : List Char} (h : part ∈ (file.dropWhile (fun c => c == '/')).splitOn '/') :
    part ∈ file.splitOn '/' := by
  induction file with
  | nil => exact h
  | cons c cs ih =>
    rw [List.dropWhile_cons] at h
    split at h
    · rename_i hc
      obtain rfl : c = '/' := by simpa using hc
      rw [splitOn_front]
      exact List.mem_cons_of_mem _ (ih h)
    · exact h

theorem trimmed_relative (file : List Char) : absolute (file.dropWhile (fun c => c == '/')) = false := by
  induction file with
  | nil => rfl
  | cons c cs ih =>
    rw [List.dropWhile_cons]
    split
    · exact ih
    · rename_i hc
      have hne : c ≠ '/' := by simpa using hc
      simp [absolute_cons,hne.symm]

/-- A cut in front of a word and its slash leaves the word and the later parts. -/
theorem splitOn_cut {word part : List Char} (hw : '/' ∉ word) (front : List Char)
    (h : part ∈ (word ++ '/' :: rest).splitOn '/') :
    part = word ∨ part ∈ (front ++ (word ++ '/' :: rest)).splitOn '/' := by
  rw [List.splitOn_append_cons_self,List.splitOn_eq_singleton hw,List.singleton_append] at h
  rcases List.mem_cons.mp h with h | h
  · exact .inl h
  · refine .inr ?_
    rw [← List.append_assoc,List.splitOn_append_cons_self]
    exact List.mem_append_right _ h

end Terminald.Machine.Folders
