import Mathlib.Algebra.Group.Int.Defs
import Mathlib.Algebra.Group.Nat.Defs
import Mathlib.Data.List.TakeDrop
import Mathlib.Data.List.TakeWhile
import Terminald.Machine.Decimal
import Terminald.Machine.Strings

namespace Terminald.Machine.Number
open Decimal

/-- The nearest whole number of a quotient, the even one of two. -/
def nearest (num den : Nat) : Nat :=
  let q := num / den
  let r := num % den
  if den < 2 * r ∨ (2 * r = den ∧ q % 2 = 1) then q + 1 else q

/-- A finite double is a number of units of 2^-1074. -/
def finest : Nat := 1074

/-- From 2^1024 on there is none. -/
def limit : Nat := 1024

/-- The nearest double to a quotient, in units: no more than 53 bits of it count. -/
def units (num den : Nat) : Nat :=
  let p := Nat.log2 (num * 2 ^ finest / den) - 52
  nearest (num * 2 ^ finest) (den * 2 ^ p) * 2 ^ p

/-- What a text is read as. -/
inductive Reading where
  | integer (value : Int)
  | fraction (negative : Bool) (units : Nat)
  | infinity (negative : Bool)
  | nan
deriving DecidableEq

def rounded (negative : Bool) (num den : Nat) : Reading :=
  if 2 ^ (limit + finest) ≤ units num den then .infinity negative
  else if units num den % 2 ^ finest = 0 then .integer (signed negative (units num den / 2 ^ finest))
  else .fraction negative (units num den)

/-- `WhiteSpace` and `LineTerminator`. -/
def isSpace (c : Char) : Bool :=
  c ∈ ['\t','\x0b','\x0c',' ','\u00a0','\u1680','\u202f','\u205f','\u3000','\ufeff','\n','\r',
    '\u2028','\u2029'] || '\u2000' ≤ c && c ≤ '\u200a'

def trim (text : List Char) : List Char :=
  ((text.dropWhile isSpace).reverse.dropWhile isSpace).reverse

def digitValue (c : Char) : Nat :=
  if c.isDigit then c.toNat - 48
  else if 'a' ≤ c ∧ c ≤ 'f' then c.toNat - 87
  else if 'A' ≤ c ∧ c ≤ 'F' then c.toNat - 55
  else 16

/-- An integer of another base, without a sign. -/
def nonDecimal (base : Nat) (digits : List Char) : Reading :=
  if digits ≠ [] ∧ digits.all (fun c => digitValue c < base) then
    rounded false (digits.foldl (fun n c => base * n + digitValue c) 0) 1
  else .nan

def exponentPart : List Char → Option Int
  | [] => some 0
  | c :: rest =>
    if c = 'e' ∨ c = 'E' then
      if allDigits (splitSign rest).2 then
        some (signed (splitSign rest).1 (Nat.ofDigitChars 10 (splitSign rest).2 0))
      else none
    else none

/-- The digits after a point, and what follows them. -/
def fractionPart : List Char → List Char × List Char
  | '.' :: rest => rest.span Char.isDigit
  | rest => ([],rest)

def decimal (negative : Bool) (text : List Char) : Reading :=
  if text = "Infinity".toList then .infinity negative
  else
    let (whole,rest) := text.span Char.isDigit
    let (places,rest) := fractionPart rest
    match exponentPart rest with
    | none => .nan
    | some e =>
      if whole ++ places = [] then .nan
      else
        let e := e - places.length
        rounded negative (Nat.ofDigitChars 10 (whole ++ places) 0 * 10 ^ e.toNat) (10 ^ (-e).toNat)

/-- `StringToNumber`. -/
def stringToNumber (text : List Char) : Reading :=
  match trim text with
  | [] => .integer 0
  | '0' :: 'x' :: digits | '0' :: 'X' :: digits => nonDecimal 16 digits
  | '0' :: 'o' :: digits | '0' :: 'O' :: digits => nonDecimal 8 digits
  | '0' :: 'b' :: digits | '0' :: 'B' :: digits => nonDecimal 2 digits
  | text => decimal (splitSign text).1 (splitSign text).2

theorem nearest_exact {q d : Nat} (hd : 0 < d) : nearest (q * d) d = q := by
  simp only [nearest,Nat.mul_div_cancel q hd,Nat.mul_mod_left]
  rw [if_neg (by omega)]

theorem scaled_lt {n a p : Nat} (h : n < 2 ^ a) : n * 2 ^ p < 2 ^ (a + p) := by
  rw [Nat.pow_add]
  exact Nat.mul_lt_mul_of_pos_right h (Nat.two_pow_pos p)

theorem units_whole {n : Nat} (hn : n < 2 ^ 53) : units n 1 = n * 2 ^ finest := by
  have hp : Nat.log2 (n * 2 ^ finest) - 52 ≤ finest := by
    by_cases hz : n = 0
    · rw [hz,Nat.zero_mul,Nat.log2_zero]
      exact Nat.zero_le _
    · have hlt : n * 2 ^ finest < 2 ^ (53 + finest) := scaled_lt hn
      have hne : n * 2 ^ finest ≠ 0 := Nat.mul_ne_zero hz (Nat.two_pow_pos finest).ne'
      have := (Nat.log2_lt hne).mpr hlt
      omega
  simp only [units,Nat.div_one,Nat.one_mul]
  generalize Nat.log2 (n * 2 ^ finest) - 52 = p at hp
  have hsplit : n * 2 ^ finest = n * 2 ^ (finest - p) * 2 ^ p := by
    rw [Nat.mul_assoc,← Nat.pow_add,Nat.sub_add_cancel hp]
  rw [hsplit,nearest_exact (Nat.two_pow_pos p)]

/-- Every integer of 53 bits is a double. -/
theorem rounded_whole {negative : Bool} {n : Nat} (hn : n < 2 ^ 53) :
    rounded negative n 1 = .integer (signed negative n) := by
  have hsmall : ¬ 2 ^ (limit + finest) ≤ n * 2 ^ finest := by
    have hbits : 53 ≤ limit := by decide
    have hbig : n < 2 ^ limit := Nat.lt_of_lt_of_le hn (Nat.pow_le_pow_right (by omega) hbits)
    exact Nat.not_le.mpr (scaled_lt hbig)
  rw [rounded,units_whole hn,if_neg hsmall,if_pos (Nat.mul_mod_left _ _),
    Nat.mul_div_cancel n (Nat.two_pow_pos finest)]

theorem trim_spaceless {text : List Char} (h : ∀ c ∈ text, isSpace c = false) : trim text = text := by
  rw [trim,dropWhile_id h,dropWhile_id (fun c hc => h c (List.mem_reverse.mp hc)),List.reverse_reverse]

/-- Digits alone, and no more than 53 bits. -/
theorem decimal_digits {negative : Bool} {digits : List Char} (h : allDigits digits = true)
    (hn : Nat.ofDigitChars 10 digits 0 < 2 ^ 53) :
    decimal negative digits = .integer (signed negative (Nat.ofDigitChars 10 digits 0)) := by
  simp only [allDigits,Bool.and_eq_true,decide_eq_true_eq,List.all_eq_true] at h
  have hword : digits ≠ "Infinity".toList := by
    intro he
    subst he
    exact absurd (h.2 'I' (by decide)) (by decide)
  have hspan : digits.span Char.isDigit = (digits,[]) := by
    rw [List.span_eq_takeWhile_dropWhile,List.takeWhile_eq_self_iff.mpr h.2,
      List.dropWhile_eq_nil_iff.mpr h.2]
  simp only [decimal,if_neg hword,hspan,fractionPart,exponentPart,List.append_nil,if_neg h.1]
  simp only [List.length_nil,Int.ofNat_zero,Int.sub_zero,Int.toNat_zero,Int.neg_zero,Nat.pow_zero,
    Nat.mul_one]
  exact rounded_whole hn

/-- An integer that a double can hold is read as that integer. -/
theorem stringToNumber_integer {text : List Char} {v : Int} (h : integer? text = some v)
    (hv : v.natAbs < 2 ^ 53) : stringToNumber text = .integer v := by
  obtain ⟨hd,hv'⟩ := integer?_eq.mp h
  have hn : Nat.ofDigitChars 10 (splitSign text).2 0 < 2 ^ 53 := by
    have : v.natAbs = Nat.ofDigitChars 10 (splitSign text).2 0 := by
      rw [hv']
      unfold signed
      split <;> simp
    omega
  have hspace : ∀ c ∈ text, isSpace c = false :=
    splitSign_all (p := fun c => isSpace c = false) (by decide) (by decide) (by decide) hd
  rw [hv',← decimal_digits hd hn,stringToNumber,trim_spaceless hspace]
  split
  · simp [splitSign,allDigits] at hd
  · simp [splitSign,allDigits] at hd
  · simp [splitSign,allDigits] at hd
  · simp [splitSign,allDigits] at hd
  · simp [splitSign,allDigits] at hd
  · simp [splitSign,allDigits] at hd
  · simp [splitSign,allDigits] at hd
  · rfl

end Terminald.Machine.Number
