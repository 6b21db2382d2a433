import Mathlib.Data.List.Basic

namespace Terminald.Machine.Base64

/-- The alphabet: capitals, small letters, digits, plus and slash. -/
def digit (n : Nat) : UInt8 :=
  if n < 26 then UInt8.ofNat (65 + n)
  else if n < 52 then UInt8.ofNat (71 + n)
  else if n < 62 then UInt8.ofNat (n - 4)
  else if n = 62 then 43
  else 47

def padding : UInt8 := 61

/-- The padded encoding, three bytes at a time. -/
def encode : List UInt8 → List UInt8
  | [] => []
  | [a] => [digit (a.toNat / 4),digit (a.toNat % 4 * 16),padding,padding]
  | [a,b] =>
    [digit (a.toNat / 4),digit (a.toNat % 4 * 16 + b.toNat / 16),digit (b.toNat % 16 * 4),padding]
  | a :: b :: c :: rest =>
    digit (a.toNat / 4) :: digit (a.toNat % 4 * 16 + b.toNat / 16) ::
      digit (b.toNat % 16 * 4 + c.toNat / 64) :: digit (c.toNat % 64) :: encode rest

/-- The place of a character in the alphabet. -/
def sextet (b : UInt8) : Nat :=
  if b = 43 then 62
  else if b = 47 then 63
  else if b < 58 then b.toNat + 4
  else if b < 91 then b.toNat - 65
  else b.toNat - 71

def decode : List UInt8 → List UInt8
  | p :: q :: r :: s :: rest =>
    let a := UInt8.ofNat (sextet p * 4 + sextet q / 16)
    let b := UInt8.ofNat (sextet q % 16 * 16 + sextet r / 4)
    let c := UInt8.ofNat (sextet r % 4 * 64 + sextet s)
    if r = padding then [a] else if s = padding then [a,b] else a :: b :: c :: decode rest
  | _ => []

theorem digit_visible : ∀ n < 64, 32 ≤ digit n ∧ digit n < 127 := by decide

theorem digit_ne_padding : ∀ n < 64, digit n ≠ padding := by decide

theorem sextet_digit : ∀ n < 64, sextet (digit n) = n := by decide

/-- Four characters stand for three bytes. -/
theorem decode_encode (bytes : List UInt8) : decode (encode bytes) = bytes := by
  have byte : ∀ {n : Nat} {a : UInt8}, n = a.toNat → UInt8.ofNat n = a := by
    intro n a h
    rw [h,UInt8.ofNat_toNat]
  fun_induction encode bytes with
  | case1 => rfl
  | case2 a =>
    have ha := a.toNat_lt
    simp only [decode,if_true]
    rw [sextet_digit _ (by omega),sextet_digit _ (by omega),byte (a := a) (by omega)]
  | case3 a b =>
    have ha := a.toNat_lt
    have hb := b.toNat_lt
    simp only [decode,digit_ne_padding (b.toNat % 16 * 4) (by omega),if_true,if_false]
    rw [sextet_digit _ (by omega),sextet_digit _ (by omega),sextet_digit _ (by omega),
      byte (a := a) (by omega),byte (a := b) (by omega)]
  | case4 a b c rest ih =>
    have ha := a.toNat_lt
    have hb := b.toNat_lt
    have hc := c.toNat_lt
    simp only [decode,digit_ne_padding (b.toNat % 16 * 4 + c.toNat / 64) (by omega),
      digit_ne_padding (c.toNat % 64) (by omega),if_false,ih]
    rw [sextet_digit _ (by omega),sextet_digit _ (by omega),sextet_digit _ (by omega),
      sextet_digit _ (by omega),byte (a := a) (by omega),byte (a := b) (by omega),
      byte (a := c) (by omega)]

theorem encode_inj {a b : List UInt8} (h : encode a = encode b) : a = b := by
  rw [← decode_encode a,h,decode_encode]

theorem encode_visible {bytes : List UInt8} {b : UInt8} (h : b ∈ encode bytes) :
    32 ≤ b ∧ b < 127 := by
  have pad : 32 ≤ padding ∧ padding < 127 := by decide
  fun_induction encode bytes with
  | case1 => cases h
  | case2 a =>
    have ha := a.toNat_lt
    simp only [List.mem_cons,List.not_mem_nil,or_false] at h
    rcases h with rfl | rfl | rfl | rfl
    · exact digit_visible _ (by omega)
    · exact digit_visible _ (by omega)
    · exact pad
    · exact pad
  | case3 a b =>
    have ha := a.toNat_lt
    have hb := b.toNat_lt
    simp only [List.mem_cons,List.not_mem_nil,or_false] at h
    rcases h with rfl | rfl | rfl | rfl
    · exact digit_visible _ (by omega)
    · exact digit_visible _ (by omega)
    · exact digit_visible _ (by omega)
    · exact pad
  | case4 a b c rest ih =>
    have ha := a.toNat_lt
    have hb := b.toNat_lt
    have hc := c.toNat_lt
    simp only [List.mem_cons] at h
    rcases h with rfl | rfl | rfl | rfl | h
    · exact digit_visible _ (by omega)
    · exact digit_visible _ (by omega)
    · exact digit_visible _ (by omega)
    · exact digit_visible _ (by omega)
    · exact ih h

end Terminald.Machine.Base64
