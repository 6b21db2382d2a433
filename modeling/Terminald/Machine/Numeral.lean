import Mathlib.Data.Nat.Log
import Terminald.Machine.Number

namespace Terminald.Machine.Number
open Decimal

/-- There is no magnitude but zero up to 10^-324. -/
def lowest : Nat := 324

section Digits
variable (u k : Nat)

/-- The power of ten that a magnitude reaches, counted from the lowest. -/
def decade : Nat := Nat.log 10 (u * 10 ^ lowest / 2 ^ finest)

/-- With `k` digits, the last one stands for ten to the power of `above - below`. -/
def above : Nat := decade u + 1 - (lowest + k)

def below : Nat := lowest + k - (decade u + 1)

def readsBack (s : Nat) : Bool := units (s * 10 ^ above u k) (10 ^ below u k) = u

/-- The numbers of `k` digits next to it, the nearest one first. -/
def candidates : List Nat :=
  let num := u * 10 ^ below u k
  let den := 2 ^ finest * 10 ^ above u k
  [nearest num den,num / den,num / den + 1]

def pick : Option Nat := (candidates u k).find? (readsBack u k)

/-- As few digits as are read back, and how many. -/
def shortest : Option (Nat × Nat) := (List.range' 1 17).findSome? (fun k => (pick u k).map (fun s => (s,k)))

end Digits

/-- Digits with the point behind the first `n` of them. -/
def layout (digits : List Char) (n : Int) : List Char :=
  let k : Int := digits.length
  if k ≤ n ∧ n ≤ 21 then digits ++ List.replicate (n - k).toNat '0'
  else if 0 < n ∧ n ≤ 21 then digits.take n.toNat ++ '.' :: digits.drop n.toNat
  else if -6 < n ∧ n ≤ 0 then '0' :: '.' :: (List.replicate (-n).toNat '0' ++ digits)
  else
    let exponent := (if 0 < n - 1 then '+' else '-') :: Nat.toDigits 10 (n - 1).natAbs
    match digits with
    | [] => 'e' :: exponent
    | [d] => d :: 'e' :: exponent
    | d :: rest => d :: '.' :: (rest ++ 'e' :: exponent)

/-- A magnitude in units. -/
def magnitudeText (u : Nat) : List Char :=
  if u = 0 then ['0']
  else
    match shortest u with
    | none => []
    | some (s,k) =>
      let digits := Nat.toDigits 10 s
      layout (digits.reverse.dropWhile (· == '0')).reverse (digits.length + above u k - below u k)

def sign (negative : Bool) (text : List Char) : List Char := if negative then '-' :: text else text

/-- What a double can hold. -/
def Representable (u : Nat) : Prop := u < 2 ^ (limit + finest) ∧ ∃ q p, q < 2 ^ 53 ∧ u = q * 2 ^ p

def Reading.magnitude : Reading → Option Nat
  | .integer value => some (value.natAbs * 2 ^ finest)
  | .fraction _ u => some u
  | .infinity _ => none
  | .nan => none

def Reading.Finite (r : Reading) : Prop := ∀ u, r.magnitude = some u → Representable u

/-- A number of the language, zero with one sign. -/
structure Value where
  reading : Reading
  finite : reading.Finite

/-- `Number::toString`. -/
def Reading.text : Reading → List Char
  | .integer value => sign (value < 0) (magnitudeText (value.natAbs * 2 ^ finest))
  | .fraction negative u => sign negative (magnitudeText u)
  | .infinity negative => sign negative "Infinity".toList
  | .nan => "NaN".toList

theorem nearest_next (num den : Nat) : num / den ≤ nearest num den ∧ nearest num den ≤ num / den + 1 := by
  unfold nearest
  dsimp only
  split <;> omega

section Shortest
variable {u k : Nat}

theorem scale_cross (u k : Nat) :
    10 ^ (decade u + 1) * 10 ^ below u k = 10 ^ lowest * 10 ^ k * 10 ^ above u k := by
  rw [← Nat.pow_add,← Nat.pow_add,← Nat.pow_add]
  congr 1
  unfold below above
  omega

theorem finest_le : 2 ^ finest ≤ 10 ^ lowest := by
  have hsixth : 2 ^ 179 ≤ 10 ^ 54 := by decide
  have htwo : finest = 179 * 6 := by decide
  have hten : lowest = 54 * 6 := by decide
  rw [htwo,hten,Nat.pow_mul,Nat.pow_mul]
  exact Nat.pow_le_pow_left hsixth 6

theorem decade_spec (hu : 0 < u) :
    10 ^ decade u * 2 ^ finest ≤ u * 10 ^ lowest ∧ u * 10 ^ lowest < 10 ^ (decade u + 1) * 2 ^ finest := by
  have hpos : 0 < 2 ^ finest := Nat.two_pow_pos finest
  have hne : u * 10 ^ lowest / 2 ^ finest ≠ 0 := by
    apply Nat.ne_of_gt
    apply Nat.div_pos _ hpos
    exact Nat.le_trans finest_le (Nat.le_mul_of_pos_left _ hu)
  constructor
  · exact (Nat.le_div_iff_mul_le hpos).mp (Nat.pow_log_le_self 10 hne)
  · exact (Nat.div_lt_iff_lt_mul hpos).mp (Nat.lt_pow_succ_log_self (by decide) _)

/-- With `k` digits the magnitude begins with one that is not zero. -/
theorem leading (hu : 0 < u) (k : Nat) :
    10 ^ k * (2 ^ finest * 10 ^ above u k) ≤ 10 * (u * 10 ^ below u k) ∧
      u * 10 ^ below u k < 10 ^ k * (2 ^ finest * 10 ^ above u k) := by
  obtain ⟨hlow,hhigh⟩ := decade_spec hu
  have hcross := scale_cross u k
  have hten : 0 < 10 ^ lowest := Nat.pow_pos (by decide)
  have hb : 0 < 10 ^ below u k := Nat.pow_pos (by decide)
  rw [Nat.pow_succ'] at hhigh hcross
  generalize 10 ^ decade u = d,10 ^ lowest = t,2 ^ finest = f,10 ^ above u k = a,10 ^ below u k = b,10 ^ k = n at *
  constructor
  · apply Nat.le_of_mul_le_mul_left _ hten
    calc t * (n * (f * a)) = t * n * a * f := by ac_rfl
      _ = 10 * (d * f) * b := by rw [← hcross]; ac_rfl
      _ ≤ 10 * (u * t) * b := Nat.mul_le_mul_right b (Nat.mul_le_mul_left 10 hlow)
      _ = t * (10 * (u * b)) := by ac_rfl
  · apply @Nat.lt_of_mul_lt_mul_left t
    calc t * (u * b) = u * t * b := by ac_rfl
      _ < 10 * d * f * b := Nat.mul_lt_mul_of_pos_right hhigh hb
      _ = 10 * d * b * f := by ac_rfl
      _ = t * (n * (f * a)) := by rw [hcross]; ac_rfl

theorem shortest_spec (hu : 0 < u) {s : Nat} (h : shortest u = some (s,k)) :
    readsBack u k s = true ∧ k ≤ 17 ∧ s ≤ 10 ^ k := by
  obtain ⟨j,hj,he⟩ := List.exists_of_findSome?_eq_some h
  obtain ⟨t,ht,he⟩ := Option.map_eq_some_iff.mp he
  cases he
  refine ⟨List.find?_some ht,?_,?_⟩
  · have := List.mem_range'_1.mp hj
    omega
  · have hmem := List.mem_of_find?_eq_some ht
    have hden : 0 < 2 ^ finest * 10 ^ above u k := Nat.mul_pos (Nat.two_pow_pos finest) (Nat.pow_pos (by decide))
    have hlt := (Nat.div_lt_iff_lt_mul hden).mpr (leading hu k).2
    have hnext := nearest_next (u * 10 ^ below u k) (2 ^ finest * 10 ^ above u k)
    simp only [candidates,List.mem_cons,List.not_mem_nil,or_false] at hmem
    omega

end Shortest

/-- The units that numbers are written with. -/
def isNumeral (c : Char) : Bool := c.isDigit || c ∈ ".e+-InfityNa".toList

theorem numeral_cases {q : Char → Prop} (hdigit : ∀ n < 10, q (Char.ofNat (48 + n)))
    (hother : ∀ c ∈ ".e+-InfityNa".toList, q c) {c : Char} (hc : isNumeral c = true) : q c := by
  rcases Bool.or_eq_true_iff.mp hc with hd | ho
  · exact digit_cases hdigit hd
  · exact hother c (of_decide_eq_true ho)

theorem toDigits_numeral (n : Nat) : ∀ c ∈ Nat.toDigits 10 n, isNumeral c = true := by
  intro c hc
  rw [isNumeral,Nat.isDigit_of_mem_toDigits (by decide) (by decide) hc,Bool.true_or]

theorem layout_numeral {digits : List Char} (h : ∀ c ∈ digits, isNumeral c = true) (n : Int) :
    ∀ c ∈ layout digits n, isNumeral c = true := by
  have hzero : ∀ m, ∀ c ∈ List.replicate m '0', isNumeral c = true := by
    intro m c hc
    rw [List.eq_of_mem_replicate hc]
    decide
  have hexponent : ∀ c ∈ (if 0 < n - 1 then '+' else '-') :: Nat.toDigits 10 (n - 1).natAbs, isNumeral c = true := by
    refine List.forall_mem_cons.mpr ⟨?_,toDigits_numeral _⟩
    split <;> decide
  have he : isNumeral 'e' = true := by decide
  have hpoint : isNumeral '.' = true := by decide
  unfold layout
  dsimp only
  split
  · exact List.forall_mem_append.mpr ⟨h,hzero _⟩
  · split
    · refine List.forall_mem_append.mpr ⟨fun c hc => h c (List.mem_of_mem_take hc),?_⟩
      exact List.forall_mem_cons.mpr ⟨hpoint,fun c hc => h c (List.mem_of_mem_drop hc)⟩
    · split
      · refine List.forall_mem_cons.mpr ⟨by decide,List.forall_mem_cons.mpr ⟨hpoint,?_⟩⟩
        exact List.forall_mem_append.mpr ⟨hzero _,h⟩
      · split
        · exact List.forall_mem_cons.mpr ⟨he,hexponent⟩
        · exact List.forall_mem_cons.mpr ⟨h _ (by simp),List.forall_mem_cons.mpr ⟨he,hexponent⟩⟩
        · rename_i d rest _
          have hall := List.forall_mem_cons.mp h
          refine List.forall_mem_cons.mpr ⟨hall.1,List.forall_mem_cons.mpr ⟨hpoint,?_⟩⟩
          exact List.forall_mem_append.mpr ⟨hall.2,List.forall_mem_cons.mpr ⟨he,hexponent⟩⟩

theorem layout_length (digits : List Char) {n : Int} (hn : (n - 1).natAbs < 10 ^ 4) :
    (layout digits n).length ≤ digits.length + 21 := by
  have hexponent : (Nat.toDigits 10 (n - 1).natAbs).length ≤ 4 :=
    (Nat.length_toDigits_le_iff (by decide) (by decide)).mpr hn
  unfold layout
  dsimp only
  split
  · rw [List.length_append,List.length_replicate]
    omega
  · split
    · rw [List.length_append,List.length_cons,List.length_take,List.length_drop]
      omega
    · split
      · rw [List.length_cons,List.length_cons,List.length_append,List.length_replicate]
        omega
      · split
        · rw [List.length_cons,List.length_cons]
          omega
        · rw [List.length_cons,List.length_cons,List.length_cons,List.length_singleton]
          omega
        · rw [List.length_cons,List.length_cons,List.length_append,List.length_cons,List.length_cons,List.length_cons]
          omega

theorem magnitudeText_numeral (u : Nat) : ∀ c ∈ magnitudeText u, isNumeral c = true := by
  unfold magnitudeText
  split
  · exact forall_of_all (by decide)
  · split
    · simp
    · rename_i s k _
      refine layout_numeral (fun c hc => toDigits_numeral s c ?_) _
      exact List.mem_reverse.mp ((List.dropWhile_sublist _).mem (List.mem_reverse.mp hc))

theorem decade_lt {u n : Nat} (hu : u < 2 ^ n) : decade u < n + lowest := by
  have hpos : 0 < lowest := by decide
  apply Nat.log_lt_of_lt_pow' (Nat.ne_of_gt (Nat.add_pos_right n hpos))
  calc u * 10 ^ lowest / 2 ^ finest ≤ u * 10 ^ lowest := Nat.div_le_self _ _
    _ < 2 ^ n * 10 ^ lowest := Nat.mul_lt_mul_of_pos_right hu (Nat.pow_pos (by decide))
    _ ≤ 10 ^ n * 10 ^ lowest := Nat.mul_le_mul_right _ (Nat.pow_le_pow_left (by decide) n)
    _ = 10 ^ (n + lowest) := (Nat.pow_add ..).symm

theorem above_le (u k : Nat) : above u k ≤ decade u := by
  have hpos : 0 < lowest := by decide
  unfold above
  omega

theorem point_lt {n a b : Nat} (hn : n ≤ 18) (ha : a < 2422) (hb : b ≤ 341) :
    ((n : Int) + a - b - 1).natAbs < 10 ^ 4 := by
  omega

theorem magnitudeText_length {u : Nat} (hr : Representable u) : (magnitudeText u).length ≤ 39 := by
  unfold magnitudeText
  split
  · decide
  · rename_i hz
    split
    · decide
    · rename_i s k hs
      obtain ⟨-,hk,hle⟩ := shortest_spec (Nat.pos_of_ne_zero hz) hs
      have hlt : s < 10 ^ 18 :=
        Nat.lt_of_le_of_lt (Nat.le_trans hle (Nat.pow_le_pow_right (by decide) hk)) (by decide)
      have hdigits : (Nat.toDigits 10 s).length ≤ 18 := (Nat.length_toDigits_le_iff (by decide) (by decide)).mpr hlt
      have hstrip := (List.dropWhile_sublist (· == '0') (l := (Nat.toDigits 10 s).reverse)).length_le
      have hsum : limit + finest + lowest = 2422 := by decide
      have habove : above u k < 2422 := Nat.lt_of_le_of_lt (above_le u k) (hsum ▸ decade_lt hr.1)
      have hbelow : below u k ≤ 341 := Nat.le_trans (Nat.sub_le ..) (Nat.add_le_add_left hk 324)
      refine Nat.le_trans (layout_length _ (point_lt hdigits habove hbelow)) ?_
      · rw [List.length_reverse] at hstrip ⊢
        omega

theorem text_numeral (r : Reading) : ∀ c ∈ r.text, isNumeral c = true := by
  have hsign : ∀ {negative : Bool} {text : List Char}, (∀ c ∈ text, isNumeral c = true) →
      ∀ c ∈ sign negative text, isNumeral c = true := by
    intro negative text h
    unfold sign
    split
    · exact List.forall_mem_cons.mpr ⟨by decide,h⟩
    · exact h
  cases r with
  | integer value =>
    rw [Reading.text]
    exact hsign (magnitudeText_numeral _)
  | fraction negative u => exact hsign (magnitudeText_numeral u)
  | infinity negative => exact hsign (forall_of_all (by decide))
  | nan => exact forall_of_all (by decide)

theorem text_length (v : Value) : v.reading.text.length ≤ 40 := by
  have hsign : ∀ {negative : Bool} {text : List Char}, text.length ≤ 39 → (sign negative text).length ≤ 40 := by
    intro negative text h
    unfold sign
    split
    · exact Nat.succ_le_succ h
    · exact Nat.le_succ_of_le h
  obtain ⟨r,hr⟩ := v
  cases r with
  | integer value => exact hsign (magnitudeText_length (hr _ rfl))
  | fraction negative u => exact hsign (magnitudeText_length (hr u rfl))
  | infinity negative => exact hsign (by decide)
  | nan => exact (by decide : "NaN".toList.length ≤ 40)

/-- No more than 53 bits of what is rounded count. -/
theorem units_mantissa (num den : Nat) : ∃ q p, q < 2 ^ 53 ∧ units num den = q * 2 ^ p := by
  unfold units
  dsimp only
  generalize num * 2 ^ finest = a
  obtain ⟨p,hp⟩ : ∃ p, p = Nat.log2 (a / den) - 52 := ⟨_,rfl⟩
  rw [← hp]
  have hlt : a / den < 2 ^ 53 * 2 ^ p := by
    rw [← Nat.pow_add]
    by_cases hz : a / den = 0
    · rw [hz]
      exact Nat.two_pow_pos _
    · exact (Nat.log2_lt hz).mp (by omega)
  have hq : nearest a (den * 2 ^ p) ≤ 2 ^ 53 := by
    refine Nat.le_trans (nearest_next a (den * 2 ^ p)).2 ?_
    rw [← Nat.div_div_eq_div_mul]
    exact (Nat.div_lt_iff_lt_mul (Nat.two_pow_pos p)).mpr hlt
  rcases Nat.lt_or_eq_of_le hq with hlt | he
  · exact ⟨_,p,hlt,rfl⟩
  · refine ⟨1,53 + p,by decide,?_⟩
    rw [he,Nat.one_mul,Nat.pow_add]

theorem zero_representable : Representable 0 := ⟨Nat.two_pow_pos _,0,0,by decide,rfl⟩

theorem signed_natAbs (negative : Bool) (n : Nat) : (signed negative n).natAbs = n := by
  unfold signed
  split
  · rw [Int.natAbs_neg,Int.natAbs_natCast]
  · exact Int.natAbs_natCast n

/-- What a quotient is rounded to is a double, or beyond all of them. -/
theorem rounded_finite (negative : Bool) (num den : Nat) : (rounded negative num den).Finite := by
  have hunits : ¬ 2 ^ (limit + finest) ≤ units num den → Representable (units num den) :=
    fun h => ⟨Nat.lt_of_not_le h,units_mantissa num den⟩
  unfold rounded
  split
  · intro u h
    cases h
  · rename_i hlt
    split
    · rename_i hw
      intro u h
      have hwhole : (signed negative (units num den / 2 ^ finest)).natAbs * 2 ^ finest = units num den := by
        rw [signed_natAbs,Nat.div_mul_cancel (Nat.dvd_of_mod_eq_zero hw)]
      rw [Reading.magnitude,hwhole] at h
      cases h
      exact hunits hlt
    · intro u h
      cases h
      exact hunits hlt

theorem nonDecimal_finite (base : Nat) (digits : List Char) : (nonDecimal base digits).Finite := by
  unfold nonDecimal
  split
  · exact rounded_finite _ _ _
  · exact fun u h => by cases h

theorem decimal_finite (negative : Bool) (text : List Char) : (decimal negative text).Finite := by
  unfold decimal
  split
  · exact fun u h => by cases h
  · dsimp only
    split
    · exact fun u h => by cases h
    · split
      · exact fun u h => by cases h
      · exact rounded_finite _ _ _

/-- `Number` of a text is a double. -/
theorem stringToNumber_finite (text : List Char) : (stringToNumber text).Finite := by
  unfold stringToNumber
  split
  · intro u h
    rw [Reading.magnitude,Int.natAbs_zero,Nat.zero_mul] at h
    cases h
    exact zero_representable
  · exact nonDecimal_finite 16 _
  · exact nonDecimal_finite 16 _
  · exact nonDecimal_finite 8 _
  · exact nonDecimal_finite 8 _
  · exact nonDecimal_finite 2 _
  · exact nonDecimal_finite 2 _
  · exact decimal_finite _ _

def Value.ofText (text : List Char) : Value := ⟨stringToNumber text,stringToNumber_finite text⟩

section Whole
variable {n k s : Nat}

/-- A whole number has the decade of its digits. -/
theorem decade_whole (hn : 0 < n) : decade (n * 2 ^ finest) = Nat.log 10 n + lowest := by
  have hne : n ≠ 0 := Nat.ne_of_gt hn
  have hten : 0 < 10 ^ lowest := Nat.pow_pos (by decide)
  have hunits : n * 2 ^ finest * 10 ^ lowest / 2 ^ finest = n * 10 ^ lowest := by
    rw [Nat.mul_right_comm,Nat.mul_div_cancel _ (Nat.two_pow_pos finest)]
  rw [decade,hunits]
  apply Nat.log_eq_of_pow_le_of_lt_pow
  · rw [Nat.pow_add]
    exact Nat.mul_le_mul_right _ (Nat.pow_log_le_self 10 hne)
  · rw [Nat.add_right_comm,Nat.pow_add]
    exact Nat.mul_lt_mul_of_pos_right (Nat.lt_pow_succ_log_self (by decide) n) hten

/-- With no more digits than it has, none is below the point. -/
theorem scale_whole (hn : 0 < n) (hk : k ≤ Nat.log 10 n + 1) :
    above (n * 2 ^ finest) k = Nat.log 10 n + 1 - k ∧ below (n * 2 ^ finest) k = 0 := by
  rw [above,below,decade_whole hn]
  omega

theorem readsBack_whole (hn : 0 < n) (hk : k ≤ Nat.log 10 n + 1)
    (hs : s * 10 ^ (Nat.log 10 n + 1 - k) < 2 ^ 53) :
    readsBack (n * 2 ^ finest) k s = true ↔ s * 10 ^ (Nat.log 10 n + 1 - k) = n := by
  obtain ⟨ha,hb⟩ := scale_whole hn hk
  rw [readsBack,ha,hb,Nat.pow_zero,units_whole hs,decide_eq_true_eq]
  exact ⟨fun h => Nat.eq_of_mul_eq_mul_right (Nat.two_pow_pos finest) h,fun h => by rw [h]⟩

/-- What is tried is at most one too large. -/
theorem candidate_whole (hn : 0 < n) (hk : k ≤ Nat.log 10 n + 1) (hs : s ∈ candidates (n * 2 ^ finest) k) :
    s ≤ n / 10 ^ (Nat.log 10 n + 1 - k) + 1 := by
  obtain ⟨ha,hb⟩ := scale_whole hn hk
  have hdiv : n * 2 ^ finest * 10 ^ below (n * 2 ^ finest) k / (2 ^ finest * 10 ^ above (n * 2 ^ finest) k) =
      n / 10 ^ (Nat.log 10 n + 1 - k) := by
    rw [ha,hb,Nat.pow_zero,Nat.mul_one,Nat.mul_comm n,Nat.mul_div_mul_left _ _ (Nat.two_pow_pos finest)]
  have hnext := (nearest_next (n * 2 ^ finest * 10 ^ below (n * 2 ^ finest) k)
    (2 ^ finest * 10 ^ above (n * 2 ^ finest) k)).2
  simp only [candidates,List.mem_cons,List.not_mem_nil,or_false] at hs
  omega

theorem pick_whole (hn : 0 < n) (hlt : n < 2 ^ 52) (hpos : 0 < k) (hk : k ≤ Nat.log 10 n + 1)
    (h : pick (n * 2 ^ finest) k = some s) : s * 10 ^ (Nat.log 10 n + 1 - k) = n := by
  refine (readsBack_whole hn hk ?_).mp (List.find?_some h)
  have hle := candidate_whole hn hk (List.mem_of_find?_eq_some h)
  have hpow : 10 ^ (Nat.log 10 n + 1 - k) ≤ n :=
    Nat.le_trans (Nat.pow_le_pow_right (by decide) (by omega)) (Nat.pow_log_le_self 10 (Nat.ne_of_gt hn))
  have hdiv := Nat.div_mul_le_self n (10 ^ (Nat.log 10 n + 1 - k))
  have hmul := Nat.mul_le_mul_right (10 ^ (Nat.log 10 n + 1 - k)) hle
  rw [Nat.add_one_mul] at hmul
  omega

/-- All its digits are enough. -/
theorem pick_all (hn : 0 < n) (hlt : n < 2 ^ 52) : (pick (n * 2 ^ finest) (Nat.log 10 n + 1)).isSome = true := by
  obtain ⟨ha,hb⟩ := scale_whole hn (Nat.le_refl (Nat.log 10 n + 1))
  have hdiv : n * 2 ^ finest / 2 ^ finest = n := Nat.mul_div_cancel n (Nat.two_pow_pos finest)
  rw [pick,List.find?_isSome]
  refine ⟨n,?_,?_⟩
  · simp only [candidates,ha,hb,Nat.sub_self,Nat.pow_zero,Nat.mul_one,hdiv]
    simp
  · refine (readsBack_whole hn (Nat.le_refl _) ?_).mpr ?_
    · rw [Nat.sub_self,Nat.pow_zero,Nat.mul_one]
      omega
    · rw [Nat.sub_self,Nat.pow_zero,Nat.mul_one]

theorem log_whole (hlt : n < 2 ^ 52) : Nat.log 10 n < 16 :=
  Nat.log_lt_of_lt_pow' (by decide) (Nat.lt_trans hlt (by decide))

/-- The digits found are its own, up to the zeros at their end. -/
theorem shortest_whole (hn : 0 < n) (hlt : n < 2 ^ 52) : ∃ s k, shortest (n * 2 ^ finest) = some (s,k) ∧
    k ≤ Nat.log 10 n + 1 ∧ s * 10 ^ (Nat.log 10 n + 1 - k) = n := by
  have hlog := log_whole hlt
  have hmem : Nat.log 10 n + 1 ∈ List.range' 1 17 := List.mem_range'_1.mpr (by omega)
  have hall : ((pick (n * 2 ^ finest) (Nat.log 10 n + 1)).map
      (fun s => (s,Nat.log 10 n + 1))).isSome = true := by
    rw [Option.isSome_map]
    exact pick_all hn hlt
  have hsome : (shortest (n * 2 ^ finest)).isSome = true := by
    rw [shortest,List.findSome?_isSome_iff]
    exact ⟨_,hmem,hall⟩
  obtain ⟨⟨s,k⟩,hs⟩ := Option.isSome_iff_exists.mp hsome
  obtain ⟨before,j,after,hrange,hj,hnone⟩ := List.findSome?_eq_some_iff.mp hs
  obtain ⟨s',hpick,he⟩ := Option.map_eq_some_iff.mp hj
  cases he
  have hk : k ≤ Nat.log 10 n + 1 := by
    have hsorted : (before ++ k :: after).Pairwise (· < ·) := hrange ▸ List.pairwise_lt_range'
    rw [hrange] at hmem
    rcases List.mem_append.mp hmem with hb | hb
    · rw [hnone _ hb] at hall
      cases hall
    · rcases List.mem_cons.mp hb with hb | hb
      · exact Nat.le_of_eq hb.symm
      · exact Nat.le_of_lt ((List.pairwise_cons.mp (List.pairwise_append.mp hsorted).2.1).1 _ hb)
  have hpos : 0 < k := by
    have hin : k ∈ List.range' 1 17 := hrange ▸ List.mem_append_right _ List.mem_cons_self
    exact (List.mem_range'_1.mp hin).1
  exact ⟨s,k,hs,hk,pick_whole hn hlt hpos hk hpick⟩

theorem toDigits_zeros (hs : 0 < s) (a : Nat) :
    Nat.toDigits 10 (s * 10 ^ a) = Nat.toDigits 10 s ++ List.replicate a '0' := by
  induction a with
  | zero => simp
  | succ a ih =>
    have hpos : 0 < s * 10 ^ a := Nat.mul_pos hs (Nat.pow_pos (by decide))
    have hnext : s * 10 ^ (a + 1) = 10 * (s * 10 ^ a) + 0 := by
      rw [Nat.pow_succ,← Nat.mul_assoc,Nat.mul_comm,Nat.add_zero]
    rw [hnext,← Nat.toDigits_append_toDigits (by decide) hpos (by decide),ih,List.append_assoc,
      Nat.toDigits_zero,List.replicate_succ']

/-- The zeros that are left out of the digits are put in again before the point. -/
theorem layout_whole (digits : List Char) {a : Nat} (h : digits.length + a ≤ 21) :
    layout (digits.reverse.dropWhile (· == '0')).reverse ((digits.length : Int) + a - 0) =
      digits ++ List.replicate a '0' := by
  obtain ⟨z,hz⟩ : ∃ z, digits = (digits.reverse.dropWhile (· == '0')).reverse ++ List.replicate z '0' := by
    refine ⟨(digits.reverse.takeWhile (· == '0')).length,?_⟩
    have hzeros : digits.reverse.takeWhile (· == '0') =
        List.replicate (digits.reverse.takeWhile (· == '0')).length '0' :=
      List.eq_replicate_iff.mpr ⟨rfl,fun c hc => by simpa using List.mem_takeWhile_imp hc⟩
    have hsplit := congrArg List.reverse (List.takeWhile_append_dropWhile (p := (· == '0')) (l := digits.reverse))
    rw [List.reverse_append,List.reverse_reverse,hzeros,List.reverse_replicate] at hsplit
    exact hsplit.symm
  generalize (digits.reverse.dropWhile (· == '0')).reverse = stripped at hz ⊢
  subst hz
  rw [List.length_append,List.length_replicate] at h ⊢
  unfold layout
  dsimp only
  rw [if_pos ⟨by omega,by omega⟩,List.append_assoc,List.replicate_append_replicate]
  congr 2
  omega

theorem length_whole (n : Nat) : (Nat.toDigits 10 n).length ≤ Nat.log 10 n + 1 :=
  (Nat.length_toDigits_le_iff (by decide) (Nat.succ_pos _)).mpr (Nat.lt_pow_succ_log_self (by decide) n)

/-- A whole number of that size is shown by its digits. -/
theorem magnitudeText_whole (hlt : n < 2 ^ 52) : magnitudeText (n * 2 ^ finest) = Nat.toDigits 10 n := by
  rcases Nat.eq_zero_or_pos n with rfl | hn
  · simp [magnitudeText]
  · obtain ⟨s,k,hs,hk,he⟩ := shortest_whole hn hlt
    have hne : n * 2 ^ finest ≠ 0 := Nat.ne_of_gt (Nat.mul_pos hn (Nat.two_pow_pos finest))
    have hpos : 0 < s := Nat.pos_of_ne_zero (by rintro rfl; omega)
    obtain ⟨ha,hb⟩ := scale_whole hn hk
    have hdigits : Nat.toDigits 10 n = Nat.toDigits 10 s ++ List.replicate (Nat.log 10 n + 1 - k) '0' := by
      rw [← toDigits_zeros hpos,he]
    have hlen := length_whole n
    have hlog := log_whole hlt
    rw [hdigits,List.length_append,List.length_replicate] at hlen
    rw [magnitudeText,if_neg hne,hs]
    simp only [ha,hb]
    rw [hdigits]
    exact layout_whole _ (by omega)

/-- An integer of that size is shown as everywhere else. -/
theorem text_whole {v : Int} (h : v.natAbs < 2 ^ 52) : (Reading.integer v).text = v.repr.toList := by
  rw [Reading.text,magnitudeText_whole h]
  cases v with
  | ofNat n => simp [sign,Int.repr,Nat.repr]
  | negSucc n => simp [sign,Int.repr,Nat.repr]

end Whole
end Terminald.Machine.Number
