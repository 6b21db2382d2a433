import Mathlib.Data.List.Chain
import Terminald.Machine.Number

namespace Terminald.Machine.Utf16

/-- One unit, or the two that stand for a character above them. -/
def encodeChar (c : Char) : List UInt16 :=
  if c.toNat < 0x10000 then [UInt16.ofNat c.toNat]
  else [UInt16.ofNat (0xD800 + (c.toNat - 0x10000) / 0x400),UInt16.ofNat (0xDC00 + (c.toNat - 0x10000) % 0x400)]

def encode (text : List Char) : List UInt16 := text.flatMap encodeChar

def space : UInt16 := 32

/-- `\s`. No half of a pair is a space. -/
def isSpace (u : UInt16) : Bool := Number.isSpace (Char.ofNat u.toNat)

/-- `LineTerminator`. -/
def isLineTerminator (u : UInt16) : Bool := u == 10 || u == 13 || u == 0x2028 || u == 0x2029

section Runs
variable {α : Type*} (p : α → Bool) (instead : α)

/-- `replace` of every longest run, from the left: whether one goes on, and the rest. -/
def replaceRuns : Bool → List α → List α
  | _,[] => []
  | inRun,c :: rest =>
    if p c then
      if inRun then replaceRuns true rest else instead :: replaceRuns true rest
    else c :: replaceRuns false rest

/-- What is so of the elements at the ends is taken off. -/
def trim (text : List α) : List α := ((text.dropWhile p).reverse.dropWhile p).reverse

end Runs

section Apart
variable {α : Type*} {p : α → Bool} {c : α} {text rest : List α}

/-- No two of them side by side. -/
def Apart (p : α → Bool) (text : List α) : Prop := text.IsChain (fun a b => ¬ (p a = true ∧ p b = true))

theorem Apart.cons (h : Apart p text) (hc : p c = true → ∀ d ∈ text.head?, p d = false) : Apart p (c :: text) := by
  refine List.IsChain.cons h (fun d hd hb => ?_)
  have := hc hb.1 d hd
  rw [hb.2] at this
  cases this

theorem Apart.append (h : Apart p text) (hr : Apart p rest) (hfirst : ∀ d ∈ rest.head?, p d = false) :
    Apart p (text ++ rest) := by
  refine List.IsChain.append h hr (fun c _ d hd hb => ?_)
  have := hfirst d hd
  rw [hb.2] at this
  cases this

theorem apart_none (h : ∀ d ∈ text, p d = false) : Apart p text := by
  induction text with
  | nil => exact .nil
  | cons d rest ih =>
    obtain ⟨hd,hrest⟩ := List.forall_mem_cons.mp h
    exact (ih hrest).cons (fun hp => by rw [hd] at hp; cases hp)

/-- Inside a run nothing of it comes again. -/
theorem replaceRuns_apart (text : List α) (inRun : Bool) : Apart p (replaceRuns p c inRun text) ∧
    (inRun = true → ∀ d ∈ (replaceRuns p c inRun text).head?, p d = false) := by
  induction text generalizing inRun with
  | nil => exact ⟨.nil,fun _ d hd => by cases hd⟩
  | cons d rest ih =>
    rw [replaceRuns]
    by_cases hd : p d = true
    · rw [if_pos hd]
      cases inRun with
      | false => exact ⟨(ih true).1.cons (fun _ => (ih true).2 rfl),fun h => by cases h⟩
      | true => exact ih true
    · rw [if_neg hd]
      have hfalse : p d = false := Bool.eq_false_iff.mpr hd
      refine ⟨(ih false).1.cons (fun h => absurd h hd),fun _ e he => ?_⟩
      rw [List.head?_cons,Option.mem_some_iff] at he
      rwa [← he]

theorem replaceRuns_mem {inRun : Bool} {d : α} (h : d ∈ replaceRuns p c inRun text) (hd : p d = true) : d = c := by
  induction text generalizing inRun with
  | nil => cases h
  | cons e rest ih =>
    rw [replaceRuns] at h
    by_cases he : p e = true
    · rw [if_pos he] at h
      cases inRun with
      | false =>
        rcases List.mem_cons.mp h with rfl | h
        · rfl
        · exact ih h
      | true => exact ih h
    · rw [if_neg he] at h
      rcases List.mem_cons.mp h with rfl | h
      · exact absurd hd he
      · exact ih h

theorem dropWhile_first (text : List α) : ∀ d ∈ (text.dropWhile p).head?, p d = false := by
  intro d hd
  have h := List.head?_dropWhile_not p text
  rw [Option.mem_def.mp hd] at h
  simpa using h

/-- What is trimmed stands together in the text. -/
theorem trim_within (p : α → Bool) (text : List α) : ∃ front back, text = front ++ (trim p text ++ back) ∧
    text.dropWhile p = trim p text ++ back := by
  obtain ⟨back,hb⟩ := List.dropWhile_suffix p (l := (text.dropWhile p).reverse)
  obtain ⟨front,hf⟩ := List.dropWhile_suffix p (l := text)
  have hcut : text.dropWhile p = trim p text ++ back.reverse := by
    rw [trim,← List.reverse_append,hb,List.reverse_reverse]
  exact ⟨front,back.reverse,by rw [← hcut,hf],hcut⟩

theorem trim_first (text : List α) : ∀ d ∈ (trim p text).head?, p d = false := by
  intro d hd
  obtain ⟨_,back,_,hcut⟩ := trim_within p text
  apply dropWhile_first text
  rw [hcut,List.head?_append,Option.mem_def.mp hd]
  rfl

theorem Apart.trim (h : Apart p text) : Apart p (trim p text) := by
  obtain ⟨front,back,he,_⟩ := trim_within p text
  rw [he] at h
  exact (List.isChain_append.mp (List.isChain_append.mp h).2.1).1

theorem mem_trim {d : α} (h : d ∈ trim p text) : d ∈ text := by
  obtain ⟨front,back,he,_⟩ := trim_within p text
  rw [he]
  exact List.mem_append_right _ (List.mem_append_left _ h)

end Apart

theorem encode_length {text : List Char} (h : ∀ c ∈ text, (encodeChar c).length = 1) :
    (encode text).length = text.length := by
  induction text with
  | nil => rfl
  | cons c rest ih =>
    obtain ⟨hc,hrest⟩ := List.forall_mem_cons.mp h
    have hcons : encode (c :: rest) = encodeChar c ++ encode rest := rfl
    rw [hcons,List.length_append,hc,ih hrest,List.length_cons,Nat.add_comm]

theorem lineTerminator_space {u : UInt16} (h : isLineTerminator u = true) : isSpace u = true ∧ u ≠ space := by
  simp only [isLineTerminator,Bool.or_eq_true,beq_iff_eq] at h
  rcases h with ((rfl | rfl) | rfl) | rfl <;> decide

end Terminald.Machine.Utf16
