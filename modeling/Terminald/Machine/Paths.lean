import Mathlib.Data.List.Infix
import Terminald.Machine.Url

namespace Terminald.Machine.Url

theorem hexDigit_kept : ∀ n : Fin 16, kept (hexDigit n) = true := by decide

/-- An encoded text is made of percent signs, digits and the characters that stay. -/
theorem encode_mem {set : Char → Bool} {text : List Char} {p : Char → Prop} {c : Char} (hmark : p '%')
    (hdigits : ∀ n : Fin 16, p (hexDigit n)) (h : c ∈ encode set text) : p c ∨ c ∈ text ∧ set c = false := by
  obtain ⟨x,hx,hc⟩ := List.mem_flatMap.mp h
  split at hc
  · left
    obtain ⟨b,_,hb⟩ := List.mem_flatMap.mp hc
    have hlt := b.toNat_lt
    simp only [percentByte,List.mem_cons,List.not_mem_nil,or_false] at hb
    rcases hb with rfl | rfl | rfl
    · exact hmark
    · exact hdigits ⟨b.toNat / 16,by omega⟩
    · exact hdigits ⟨b.toNat % 16,by omega⟩
  · rename_i hset
    obtain rfl := List.mem_singleton.mp hc
    exact .inr ⟨hx,Bool.eq_false_iff.mpr hset⟩

theorem encode_kept {segment : List Char} {c : Char} (hs : '\\' ∉ segment)
    (h : c ∈ encode pathSet segment) : kept c = true := by
  rcases encode_mem (p := fun c => kept c = true) (by decide) hexDigit_kept h with h | ⟨hc,hset⟩
  · exact h
  · have hne : c ≠ '\\' := ne_of_mem_of_not_mem hc hs
    simp [kept,hset,hne]

theorem kept_path {c : Char} (h : kept c = true) : pathSet c = false := by
  simp only [kept,Bool.and_eq_true,Bool.not_eq_true'] at h
  exact h.1

/-- What has nothing to encode stays as it is. -/
theorem encode_id {set : Char → Bool} {text : List Char} (h : ∀ c ∈ text, set c = false) : encode set text = text := by
  induction text with
  | nil => rfl
  | cons c cs ih =>
    have hcs := ih (fun x hx => h x (List.mem_cons_of_mem c hx))
    simp only [encode,List.flatMap_cons,h c List.mem_cons_self] at hcs ⊢
    simp [hcs]

theorem encode_same {segment : List Char} (h : ∀ c ∈ segment, kept c = true) :
    encode pathSet segment = segment :=
  encode_id (fun c hc => kept_path (h c hc))

theorem dotSegment_nonempty {segment : List Char} (h : dotSegment segment = true) :
    0 < segment.length := by
  cases segment with
  | nil => exact absurd h (by decide)
  | cons c cs => simp

/-- Every segment of the outcome was there, is empty, or is one of those walked. -/
theorem walk_mem {path segments : List (List Char)} {s : List Char} (h : s ∈ walk path segments) :
    s ∈ path ∨ s = [] ∨ ∃ t ∈ segments, s = encode pathSet t := by
  have one : ∀ {path : List (List Char)} {last : Bool} {segment : List Char},
      s ∈ step path last segment → s ∈ path ∨ s = [] ∨ s = encode pathSet segment := by
    intro path last segment h
    unfold step at h
    split at h
    · cases last <;> simp at h
      · exact .inl (List.dropLast_subset path h)
      · exact h.elim (fun h => .inl (List.dropLast_subset path h)) (fun h => .inr (.inl h))
    · split at h
      · cases last <;> simp at h <;> tauto
      · simp at h
        tauto
  induction path, segments using walk.induct with
  | case1 path => exact .inl h
  | case2 path segment =>
    rcases one h with h | h | h
    · exact .inl h
    · exact .inr (.inl h)
    · exact .inr (.inr ⟨segment,by simp,h⟩)
  | case3 path segment next rest ih =>
    rcases ih h with h | h | ⟨t,ht,h⟩
    · rcases one h with h | h | h
      · exact .inl h
      · exact .inr (.inl h)
      · exact .inr (.inr ⟨segment,by simp,h⟩)
    · exact .inr (.inl h)
    · exact .inr (.inr ⟨t,List.mem_cons_of_mem segment ht,h⟩)

/-- A walk without dot segments adds them all. -/
theorem walk_plain {path segments : List (List Char)} (h : ∀ s ∈ segments, dotSegment s = false) :
    walk path segments = path ++ segments.map (encode pathSet) := by
  have one : ∀ {path : List (List Char)} {last : Bool} {segment : List Char},
      dotSegment segment = false → step path last segment = path ++ [encode pathSet segment] := by
    intro path last segment hd
    simp only [dotSegment,Bool.or_eq_false_iff] at hd
    simp [step,hd.1,hd.2]
  induction path, segments using walk.induct with
  | case1 path => simp [walk]
  | case2 path segment => simp [walk,one (h segment List.mem_cons_self)]
  | case3 path segment next rest ih =>
    rw [walk,ih (fun s hs => h s (List.mem_cons_of_mem segment hs)),one (h segment List.mem_cons_self)]
    simp

/-- An empty segment at the end stays there. -/
theorem walk_closed (path segments : List (List Char)) :
    ∃ front, walk path (segments ++ [[]]) = front ++ [[]] := by
  induction path, segments using walk.induct with
  | case1 path => exact ⟨path,rfl⟩
  | case2 path segment => exact ⟨step path false segment,rfl⟩
  | case3 path segment next rest ih => exact ih

/-- A walk over characters that are kept makes the path no longer than the segments, and
shorter by each dot segment. -/
theorem walk_length (path : List (List Char)) {segments : List (List Char)}
    (h : ∀ s ∈ segments, ∀ c ∈ s, kept c = true) :
    (joinPath (walk path segments)).length + segments.countP dotSegment ≤
      (joinPath path).length + (joinPath segments).length := by
  have drop : ∀ path : List (List Char), (joinPath path.dropLast).length ≤ (joinPath path).length := by
    intro path
    have hp := List.dropLast_prefix path
    exact (hp.flatMap (fun s => '/' :: s)).length_le
  have one : ∀ (path : List (List Char)) (last : Bool) (segment : List Char),
      (∀ c ∈ segment, kept c = true) →
      (joinPath (step path last segment)).length + (if dotSegment segment then 1 else 0) ≤
        (joinPath path).length + (segment.length + 1) := by
    intro path last segment hk
    have hd := drop path
    have hn : dotSegment segment = true → 0 < segment.length := dotSegment_nonempty
    unfold step
    cases hdd : doubleDot segment <;> cases hsd : singleDot segment <;> cases last <;>
      simp [hdd,hsd,dotSegment,encode_same hk,joinPath] at hn hd ⊢ <;> omega
  induction path, segments using walk.induct with
  | case1 path => simp [walk,joinPath]
  | case2 path segment =>
    have := one path true segment (h segment List.mem_cons_self)
    simpa [walk,List.countP_cons,joinPath] using this
  | case3 path segment next rest ih =>
    have hstep := one path false segment (h segment List.mem_cons_self)
    have hrest := ih (fun s hs => h s (List.mem_cons_of_mem segment hs))
    rw [walk,List.countP_cons]
    simp only [joinPath,List.flatMap_cons,List.length_append,List.length_cons] at hstep hrest ⊢
    omega

theorem joinPath_intercalate (s : List Char) (rest : List (List Char)) :
    joinPath (s :: rest) = '/' :: ['/'].intercalate (s :: rest) := by
  induction rest generalizing s with
  | nil => simp [joinPath,List.intercalate]
  | cons t rest ih =>
    have := ih t
    simp only [joinPath,List.flatMap_cons] at this ⊢
    rw [this]
    simp [List.intercalate]

theorem joinPath_splitOn (text : List Char) : joinPath (text.splitOn '/') = '/' :: text := by
  cases hs : text.splitOn '/' with
  | nil => exact absurd hs (List.splitOn_ne_nil '/' text)
  | cons s rest => rw [joinPath_intercalate,← hs,List.intercalate_splitOn]

theorem splitOnP_slash {text : List Char} (h : '\\' ∉ text) :
    text.splitOnP isSlash = text.splitOn '/' := by
  induction text with
  | nil => rfl
  | cons c cs ih =>
    have hc : isSlash c = (c == '/') := by
      have hne : c ≠ '\\' := fun e => h (e ▸ List.mem_cons_self)
      simp [isSlash,hne]
    rw [List.splitOnP_cons_eq_if_modifyHead,List.splitOn_cons_eq_if_modifyHead,hc,
      ih (List.not_mem_of_not_mem_cons h)]

theorem splitOnP_closed (text : List Char) :
    (text ++ ['/']).splitOnP isSlash = text.splitOnP isSlash ++ [[]] :=
  List.splitOnP_append_cons text [] (by decide)

/-- Between two slashes there is nothing to take away but breaks. -/
theorem clean_slashed (text : List Char) :
    clean ('/' :: (text ++ ['/'])) = '/' :: (text.filter (fun c => !isBreak c) ++ ['/']) := by
  have hb : isBreak '/' = false := by decide
  simp [clean,hb]

theorem cut_plain {text : List Char} (hq : '?' ∉ text) (hf : '#' ∉ text) :
    cut text = ⟨text,none,none⟩ := by
  simp [cut,splitOnce_none hq,splitOnce_none hf]

end Terminald.Machine.Url
