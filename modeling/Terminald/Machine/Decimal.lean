import Mathlib.Data.List.Basic

namespace Terminald.Machine.Decimal

def signed (negative : Bool) (n : Nat) : Int := if negative then -n else n

def allDigits (text : List Char) : Bool := text ≠ [] && text.all Char.isDigit

/-- The sign of a text, if it has one, and the rest. -/
def splitSign : List Char → Bool × List Char
  | '+' :: rest => (false,rest)
  | '-' :: rest => (true,rest)
  | text => (false,text)

/-- The integer that a text is, written with digits and at most a sign. -/
def integer? (text : List Char) : Option Int :=
  if allDigits (splitSign text).2 then
    some (signed (splitSign text).1 (Nat.ofDigitChars 10 (splitSign text).2 0))
  else none

inductive ParseIntError where
  | empty
  | invalidDigit
  | posOverflow
  | negOverflow
deriving DecidableEq, Repr

def ParseIntError.text : ParseIntError → String
  | .empty => "cannot parse integer from empty string"
  | .invalidDigit => "invalid digit found in string"
  | .posOverflow => "number too large to fit in target type"
  | .negOverflow => "number too small to fit in target type"

section Parse
variable (low high : Int)

/-- A digit is looked at before the product that it is added to. -/
def accumulate (negative : Bool) : Int → List Char → Except ParseIntError Int
  | result,[] => .ok result
  | result,c :: rest =>
    if c.isDigit then
      let mul := result * 10
      let next := if negative then mul - (c.toNat - '0'.toNat) else mul + (c.toNat - '0'.toNat)
      if low ≤ mul ∧ mul ≤ high ∧ low ≤ next ∧ next ≤ high then accumulate negative next rest
      else .error (if negative then .negOverflow else .posOverflow)
    else .error .invalidDigit

/-- `str::parse` at a signed type with these bounds. -/
def parse (text : List Char) : Except ParseIntError Int :=
  match text with
  | [] => .error .empty
  | ['+'] => .error .invalidDigit
  | ['-'] => .error .invalidDigit
  | text => accumulate low high (splitSign text).1 0 (splitSign text).2

end Parse

/-- What is to be shown of a digit is shown of the ten. -/
theorem digit_cases {p : Char → Prop} (h : ∀ n < 10, p (Char.ofNat (48 + n))) {c : Char}
    (hc : c.isDigit = true) : p c := by
  simp only [Char.isDigit,Bool.and_eq_true,decide_eq_true_eq] at hc
  have hr : 48 ≤ c.toNat ∧ c.toNat ≤ 57 := hc
  have he := h (c.toNat - 48) (by omega)
  rwa [Nat.add_sub_cancel' hr.1,Char.ofNat_toNat] at he

/-- Whatever is so of the signs and the ten digits is so all along. -/
theorem splitSign_all {p : Char → Prop} (hplus : p '+') (hminus : p '-')
    (hdigit : ∀ n < 10, p (Char.ofNat (48 + n))) {text : List Char}
    (h : allDigits (splitSign text).2 = true) : ∀ c ∈ text, p c := by
  have digits : ∀ {t : List Char}, allDigits t = true → ∀ c ∈ t, p c := by
    intro t ht c hc
    simp only [allDigits,Bool.and_eq_true,List.all_eq_true] at ht
    exact digit_cases hdigit (ht.2 c hc)
  unfold splitSign at h
  intro c hc
  split at h
  · rcases List.mem_cons.mp hc with rfl | hc
    · exact hplus
    · exact digits h c hc
  · rcases List.mem_cons.mp hc with rfl | hc
    · exact hminus
    · exact digits h c hc
  · exact digits h c hc

theorem le_ofDigitChars (digits : List Char) (n : Nat) : n ≤ Nat.ofDigitChars 10 digits n := by
  induction digits generalizing n with
  | nil => exact Nat.le_of_eq Nat.ofDigitChars_nil.symm
  | cons c rest ih =>
    rw [Nat.ofDigitChars_cons]
    exact Nat.le_trans (by omega) (ih _)

/-- Sums only grow, so what leaves the range on the way ends outside of it. -/
theorem accumulate_ok {low high v : Int} {negative : Bool} {digits : List Char} {n : Nat}
    (hlow : low ≤ 0) (hhigh : 0 ≤ high) (hn : low ≤ signed negative n ∧ signed negative n ≤ high) :
    accumulate low high negative (signed negative n) digits = .ok v ↔
      digits.all Char.isDigit ∧ v = signed negative (Nat.ofDigitChars 10 digits n) ∧
        low ≤ v ∧ v ≤ high := by
  induction digits generalizing n with
  | nil =>
    simp only [accumulate,Except.ok.injEq,List.all_nil,Nat.ofDigitChars_nil]
    constructor
    · intro h
      subst h
      exact ⟨trivial,rfl,hn⟩
    · intro ⟨_,h,_⟩
      exact h.symm
  | cons c rest ih =>
    simp only [accumulate,List.all_cons,Bool.and_eq_true,Nat.ofDigitChars_cons]
    by_cases hc : c.isDigit = true
    · rw [if_pos hc]
      have hd : '0'.toNat ≤ c.toNat := by
        simp only [Char.isDigit,Bool.and_eq_true,decide_eq_true_eq] at hc
        exact hc.1
      have hnext : (if negative then signed negative n * 10 - ((c.toNat : Int) - '0'.toNat)
          else signed negative n * 10 + ((c.toNat : Int) - '0'.toNat)) =
          signed negative (10 * n + (c.toNat - '0'.toNat)) := by
        unfold signed
        split <;> omega
      have hgrow := le_ofDigitChars rest (10 * n + (c.toNat - '0'.toNat))
      rw [hnext]
      split
      · rename_i hr
        rw [ih ⟨hr.2.2.1,hr.2.2.2⟩]
        simp [hc]
      · rename_i hr
        constructor
        · intro h
          cases h
        · intro ⟨_,hv,hin⟩
          apply absurd _ hr
          cases negative with
          | false =>
            simp only [signed,Bool.false_eq_true,if_false] at hv ⊢
            omega
          | true =>
            simp only [signed,if_true] at hv ⊢
            omega
    · rw [if_neg hc]
      simp [hc]

theorem integer?_eq {text : List Char} {v : Int} :
    integer? text = some v ↔ allDigits (splitSign text).2 = true ∧
      v = signed (splitSign text).1 (Nat.ofDigitChars 10 (splitSign text).2 0) := by
  unfold integer?
  by_cases h : allDigits (splitSign text).2 = true
  · rw [if_pos h,Option.some.injEq,eq_comm]
    exact (and_iff_right h).symm
  · rw [if_neg h]
    simp [h]

/-- Parsing takes the integers within the bounds, and nothing else. -/
theorem parse_ok {low high v : Int} {text : List Char} (hlow : low ≤ 0) (hhigh : 0 ≤ high) :
    parse low high text = .ok v ↔ integer? text = some v ∧ low ≤ v ∧ v ≤ high := by
  have main : ∀ t : List Char, (splitSign t).2 ≠ [] →
      (accumulate low high (splitSign t).1 0 (splitSign t).2 = .ok v ↔
        integer? t = some v ∧ low ≤ v ∧ v ≤ high) := by
    intro t ht
    have hz : signed (splitSign t).1 (0 : Nat) = 0 := by unfold signed; split <;> rfl
    have hin : low ≤ signed (splitSign t).1 (0 : Nat) ∧ signed (splitSign t).1 (0 : Nat) ≤ high := by
      rw [hz]
      exact ⟨hlow,hhigh⟩
    rw [← hz,accumulate_ok hlow hhigh hin,integer?_eq,allDigits]
    simp [ht,and_assoc]
  unfold parse
  split
  · simp [integer?,splitSign,allDigits]
  · simp [integer?,splitSign,allDigits]
  · simp [integer?,splitSign,allDigits]
  · rename_i t hnil hplus hminus
    apply main
    unfold splitSign
    split
    · rename_i rest
      intro h
      exact hplus (by rw [show rest = [] from h])
    · rename_i rest
      intro h
      exact hminus (by rw [show rest = [] from h])
    · exact hnil

/-- What is printed is read back. -/
theorem integer?_repr (v : Int) : integer? v.repr.toList = some v := by
  have digits : ∀ n : Nat, allDigits (Nat.toDigits 10 n) = true := by
    intro n
    simp only [allDigits,Bool.and_eq_true,decide_eq_true_eq,List.all_eq_true]
    exact ⟨Nat.toDigits_ne_nil,fun c hc => Nat.isDigit_of_mem_toDigits (by omega) (by omega) hc⟩
  have unsigned : ∀ n : Nat, splitSign (Nat.toDigits 10 n) = (false,Nat.toDigits 10 n) := by
    intro n
    unfold splitSign
    have h := digits n
    split
    · rename_i rest heq
      simp [heq,allDigits] at h
    · rename_i rest heq
      simp [heq,allDigits] at h
    · rfl
  rw [integer?_eq,Int.repr_eq_if]
  split
  · rename_i h
    rw [Nat.toList_repr,unsigned]
    refine ⟨digits _,?_⟩
    rw [Nat.ofDigitChars_ten_toDigits]
    simp only [signed,Bool.false_eq_true,if_false]
    omega
  · rename_i h
    have hs : splitSign ("-" ++ (-v).toNat.repr).toList = (true,Nat.toDigits 10 (-v).toNat) := by
      simp [splitSign]
    rw [hs]
    refine ⟨digits _,?_⟩
    rw [Nat.ofDigitChars_ten_toDigits]
    simp only [signed,if_true]
    omega

end Terminald.Machine.Decimal
