import Mathlib.Data.List.Basic

namespace Terminald.Machine.Utf8

def replacement : Char := '\uFFFD'

def isTail (b : UInt8) : Bool := 0x80 ≤ b && b ≤ 0xBF

/-- What the first byte of three allows in the second place. -/
def secondOfThree (b c : UInt8) : Bool :=
  if b = 0xE0 then 0xA0 ≤ c && c ≤ 0xBF
  else if b = 0xED then 0x80 ≤ c && c ≤ 0x9F
  else isTail c

def secondOfFour (b c : UInt8) : Bool :=
  if b = 0xF0 then 0x90 ≤ c && c ≤ 0xBF
  else if b = 0xF4 then 0x80 ≤ c && c ≤ 0x8F
  else isTail c

/-- By chunks: a character after the other, each longest beginning of one that
goes no further replaced as a whole. -/
def lossy : List UInt8 → List Char
  | [] => []
  | b :: rest =>
    if b < 0x80 then Char.ofNat b.toNat :: lossy rest
    else if 0xC2 ≤ b ∧ b ≤ 0xDF then
      match rest with
      | [] => [replacement]
      | c :: rest =>
        if isTail c then Char.ofNat (b.toNat % 32 * 64 + c.toNat % 64) :: lossy rest
        else replacement :: lossy (c :: rest)
    else if 0xE0 ≤ b ∧ b ≤ 0xEF then
      match rest with
      | [] => [replacement]
      | c :: rest =>
        if secondOfThree b c then
          match rest with
          | [] => [replacement]
          | d :: rest =>
            if isTail d then
              Char.ofNat ((b.toNat % 16 * 64 + c.toNat % 64) * 64 + d.toNat % 64) :: lossy rest
            else replacement :: lossy (d :: rest)
        else replacement :: lossy (c :: rest)
    else if 0xF0 ≤ b ∧ b ≤ 0xF4 then
      match rest with
      | [] => [replacement]
      | c :: rest =>
        if secondOfFour b c then
          match rest with
          | [] => [replacement]
          | d :: rest =>
            if isTail d then
              match rest with
              | [] => [replacement]
              | e :: rest =>
                if isTail e then
                  Char.ofNat (((b.toNat % 8 * 64 + c.toNat % 64) * 64 + d.toNat % 64) * 64
                    + e.toNat % 64) :: lossy rest
                else replacement :: lossy (e :: rest)
            else replacement :: lossy (d :: rest)
        else replacement :: lossy (c :: rest)
    else replacement :: lossy rest

/-- A decoder inside a character: how many bytes follow the next one, the value so far,
and where the next byte has to be. -/
structure Pending where
  more : Nat
  point : Nat
  lower : UInt8
  upper : UInt8
deriving DecidableEq

def two (b : UInt8) : Pending := ⟨0,b.toNat % 32,0x80,0xBF⟩

def three (b : UInt8) : Pending :=
  ⟨1,b.toNat % 16,if b = 0xE0 then 0xA0 else 0x80,if b = 0xED then 0x9F else 0xBF⟩

def four (b : UInt8) : Pending :=
  ⟨2,b.toNat % 8,if b = 0xF0 then 0x90 else 0x80,if b = 0xF4 then 0x8F else 0xBF⟩

def begin (b : UInt8) : List Char × Option Pending :=
  if b < 0x80 then ([Char.ofNat b.toNat],none)
  else if 0xC2 ≤ b ∧ b ≤ 0xDF then ([],some (two b))
  else if 0xE0 ≤ b ∧ b ≤ 0xEF then ([],some (three b))
  else if 0xF0 ≤ b ∧ b ≤ 0xF4 then ([],some (four b))
  else ([replacement],none)

/-- A byte out of range ends the character and is looked at again. -/
def step : Option Pending → UInt8 → List Char × Option Pending
  | none,b => begin b
  | some p,b =>
    if p.lower ≤ b ∧ b ≤ p.upper then
      let point := p.point * 64 + b.toNat % 64
      match p.more with
      | 0 => ([Char.ofNat point],none)
      | more + 1 => ([],some ⟨more,point,0x80,0xBF⟩)
    else (replacement :: (begin b).1,(begin b).2)

def stream : Option Pending → List UInt8 → List Char
  | none,[] => []
  | some _,[] => [replacement]
  | pending,b :: rest => (step pending b).1 ++ stream (step pending b).2 rest

section Stream
variable {p : Pending} {b : UInt8} {rest : List UInt8}

theorem stream_none (b : UInt8) (rest : List UInt8) :
    stream none (b :: rest) = (begin b).1 ++ stream (begin b).2 rest := by
  simp [stream,step]

theorem stream_two (h : ¬ b < 0x80) (h2 : 0xC2 ≤ b ∧ b ≤ 0xDF) :
    stream none (b :: rest) = stream (some (two b)) rest := by
  simp [stream_none,begin,h,h2]

theorem stream_three (h : ¬ b < 0x80) (h2 : ¬ (0xC2 ≤ b ∧ b ≤ 0xDF)) (h3 : 0xE0 ≤ b ∧ b ≤ 0xEF) :
    stream none (b :: rest) = stream (some (three b)) rest := by
  simp only [stream_none,begin,if_neg h,if_neg h2,if_pos h3,List.nil_append]

theorem stream_four (h : ¬ b < 0x80) (h2 : ¬ (0xC2 ≤ b ∧ b ≤ 0xDF)) (h3 : ¬ (0xE0 ≤ b ∧ b ≤ 0xEF))
    (h4 : 0xF0 ≤ b ∧ b ≤ 0xF4) : stream none (b :: rest) = stream (some (four b)) rest := by
  simp only [stream_none,begin,if_neg h,if_neg h2,if_neg h3,if_pos h4,List.nil_append]

theorem stream_end : stream (some p) [] = [replacement] := rfl

theorem stream_last (hm : p.more = 0) (h : p.lower ≤ b ∧ b ≤ p.upper) :
    stream (some p) (b :: rest) = Char.ofNat (p.point * 64 + b.toNat % 64) :: stream none rest := by
  simp [stream,step,h,hm]

theorem stream_next {more : Nat} (hm : p.more = more + 1) (h : p.lower ≤ b ∧ b ≤ p.upper) :
    stream (some p) (b :: rest) =
      stream (some ⟨more,p.point * 64 + b.toNat % 64,0x80,0xBF⟩) rest := by
  simp [stream,step,h,hm]

theorem stream_out (h : ¬ (p.lower ≤ b ∧ b ≤ p.upper)) :
    stream (some p) (b :: rest) = replacement :: stream none (b :: rest) := by
  simp [stream,step,h]

theorem isTail_iff : isTail b = true ↔ 0x80 ≤ b ∧ b ≤ 0xBF := by simp [isTail]

theorem secondOfThree_iff {c : UInt8} :
    secondOfThree b c = true ↔ (three b).lower ≤ c ∧ c ≤ (three b).upper := by
  unfold secondOfThree three
  by_cases h0 : b = 0xE0
  · simp [h0]
  · by_cases hd : b = 0xED <;> simp [h0,hd,isTail]

theorem secondOfFour_iff {c : UInt8} :
    secondOfFour b c = true ↔ (four b).lower ≤ c ∧ c ≤ (four b).upper := by
  unfold secondOfFour four
  by_cases h0 : b = 0xF0
  · simp [h0]
  · by_cases h4 : b = 0xF4 <;> simp [h0,h4,isTail]

end Stream

/-- Byte by byte comes out what comes out by chunks. -/
theorem stream_eq_lossy (bytes : List UInt8) : stream none bytes = lossy bytes := by
  fun_induction lossy bytes with
  | case1 => rfl
  | case2 b rest hb ih => simp [stream_none,begin,hb,ih]
  | case3 b hb h2 => rw [stream_two hb h2,stream_end]
  | case4 b hb h2 c rest hc ih =>
    rw [stream_two hb h2,stream_last rfl (isTail_iff.mp hc),ih]
    rfl
  | case5 b hb h2 c rest hc ih => rw [stream_two hb h2,stream_out (mt isTail_iff.mpr hc),ih]
  | case6 b hb h2 h3 => rw [stream_three hb h2 h3,stream_end]
  | case7 b hb h2 h3 c hc =>
    rw [stream_three hb h2 h3,stream_next rfl (secondOfThree_iff.mp hc),stream_end]
  | case8 b hb h2 h3 c hc d rest hd ih =>
    rw [stream_three hb h2 h3,stream_next rfl (secondOfThree_iff.mp hc),
      stream_last rfl (isTail_iff.mp hd),ih]
    rfl
  | case9 b hb h2 h3 c hc d rest hd ih =>
    rw [stream_three hb h2 h3,stream_next rfl (secondOfThree_iff.mp hc),
      stream_out (mt isTail_iff.mpr hd),ih]
  | case10 b hb h2 h3 c rest hc ih =>
    rw [stream_three hb h2 h3,stream_out (mt secondOfThree_iff.mpr hc),ih]
  | case11 b hb h2 h3 h4 => rw [stream_four hb h2 h3 h4,stream_end]
  | case12 b hb h2 h3 h4 c hc =>
    rw [stream_four hb h2 h3 h4,stream_next rfl (secondOfFour_iff.mp hc),stream_end]
  | case13 b hb h2 h3 h4 c hc d hd =>
    rw [stream_four hb h2 h3 h4,stream_next rfl (secondOfFour_iff.mp hc),
      stream_next rfl (isTail_iff.mp hd),stream_end]
  | case14 b hb h2 h3 h4 c hc d hd e rest he ih =>
    rw [stream_four hb h2 h3 h4,stream_next rfl (secondOfFour_iff.mp hc),
      stream_next rfl (isTail_iff.mp hd),stream_last rfl (isTail_iff.mp he),ih]
    rfl
  | case15 b hb h2 h3 h4 c hc d hd e rest he ih =>
    rw [stream_four hb h2 h3 h4,stream_next rfl (secondOfFour_iff.mp hc),
      stream_next rfl (isTail_iff.mp hd),stream_out (mt isTail_iff.mpr he),ih]
  | case16 b hb h2 h3 h4 c hc d rest hd ih =>
    rw [stream_four hb h2 h3 h4,stream_next rfl (secondOfFour_iff.mp hc),
      stream_out (mt isTail_iff.mpr hd),ih]
  | case17 b hb h2 h3 h4 c rest hc ih =>
    rw [stream_four hb h2 h3 h4,stream_out (mt secondOfFour_iff.mpr hc),ih]
  | case18 b rest hb h2 h3 h4 ih =>
    simp only [stream_none,begin,if_neg hb,if_neg h2,if_neg h3,if_neg h4,ih]
    rfl

section Characters
variable {b c d e : UInt8} {rest : List UInt8}

theorem between_iff {low high b : UInt8} :
    low ≤ b ∧ b ≤ high ↔ low.toNat ≤ b.toNat ∧ b.toNat ≤ high.toNat := by
  rw [UInt8.le_iff_toNat_le,UInt8.le_iff_toNat_le]

theorem tail_range (h : 128 ≤ c.toNat ∧ c.toNat ≤ 191) : 0x80 ≤ c ∧ c ≤ 0xBF := between_iff.mpr h

theorem stream_one (h : b.toNat < 128) :
    stream none (b :: rest) = Char.ofNat b.toNat :: stream none rest := by
  simp [stream_none,begin,UInt8.lt_iff_toNat_lt,h]

theorem not_ascii (h : 128 ≤ b.toNat) : ¬ b < 0x80 := by
  simp only [UInt8.lt_iff_toNat_lt,UInt8.reduceToNat]
  omega

theorem not_two (h : 224 ≤ b.toNat) : ¬ (0xC2 ≤ b ∧ b ≤ 0xDF) := by
  simp only [between_iff,UInt8.reduceToNat]
  omega

theorem isTail_toNat : isTail b = true ↔ 128 ≤ b.toNat ∧ b.toNat ≤ 191 := by
  rw [isTail_iff,between_iff]
  rfl

theorem secondOfThree_toNat : secondOfThree b c = true ↔ 128 ≤ c.toNat ∧ c.toNat ≤ 191 ∧
    (b.toNat = 224 → 160 ≤ c.toNat) ∧ (b.toNat = 237 → c.toNat ≤ 159) := by
  unfold secondOfThree
  simp only [← UInt8.toNat_inj,UInt8.reduceToNat]
  split
  · simp only [Bool.and_eq_true,decide_eq_true_eq,between_iff,UInt8.reduceToNat]
    omega
  · split
    · simp only [Bool.and_eq_true,decide_eq_true_eq,between_iff,UInt8.reduceToNat]
      omega
    · rw [isTail_toNat]
      omega

theorem secondOfFour_toNat : secondOfFour b c = true ↔ 128 ≤ c.toNat ∧ c.toNat ≤ 191 ∧
    (b.toNat = 240 → 144 ≤ c.toNat) ∧ (b.toNat = 244 → c.toNat ≤ 143) := by
  unfold secondOfFour
  simp only [← UInt8.toNat_inj,UInt8.reduceToNat]
  split
  · simp only [Bool.and_eq_true,decide_eq_true_eq,between_iff,UInt8.reduceToNat]
    omega
  · split
    · simp only [Bool.and_eq_true,decide_eq_true_eq,between_iff,UInt8.reduceToNat]
      omega
    · rw [isTail_toNat]
      omega

theorem read_two (hb : 194 ≤ b.toNat ∧ b.toNat ≤ 223) (hc : 128 ≤ c.toNat ∧ c.toNat ≤ 191) :
    stream none (b :: c :: rest) =
      Char.ofNat (b.toNat % 32 * 64 + c.toNat % 64) :: stream none rest := by
  rw [stream_two (not_ascii (by omega)) (between_iff.mpr hb),stream_last rfl (tail_range hc)]
  rfl

theorem read_three (hb : 224 ≤ b.toNat ∧ b.toNat ≤ 239) (hc : 128 ≤ c.toNat ∧ c.toNat ≤ 191)
    (hd : 128 ≤ d.toNat ∧ d.toNat ≤ 191) (hlow : b.toNat = 224 → 160 ≤ c.toNat)
    (hhigh : b.toNat = 237 → c.toNat ≤ 159) :
    stream none (b :: c :: d :: rest) =
      Char.ofNat ((b.toNat % 16 * 64 + c.toNat % 64) * 64 + d.toNat % 64) :: stream none rest := by
  have hs : secondOfThree b c = true := secondOfThree_toNat.mpr ⟨hc.1,hc.2,hlow,hhigh⟩
  rw [stream_three (not_ascii (by omega)) (not_two (by omega)) (between_iff.mpr hb),
    stream_next rfl (secondOfThree_iff.mp hs),stream_last rfl (tail_range hd)]
  rfl

theorem read_four (hb : 240 ≤ b.toNat ∧ b.toNat ≤ 244) (hc : 128 ≤ c.toNat ∧ c.toNat ≤ 191)
    (hd : 128 ≤ d.toNat ∧ d.toNat ≤ 191) (he : 128 ≤ e.toNat ∧ e.toNat ≤ 191)
    (hlow : b.toNat = 240 → 144 ≤ c.toNat) (hhigh : b.toNat = 244 → c.toNat ≤ 143) :
    stream none (b :: c :: d :: e :: rest) =
      Char.ofNat (((b.toNat % 8 * 64 + c.toNat % 64) * 64 + d.toNat % 64) * 64 + e.toNat % 64) ::
        stream none rest := by
  have h3 : ¬ (0xE0 ≤ b ∧ b ≤ 0xEF) := by
    simp only [between_iff,UInt8.reduceToNat]
    omega
  have hs : secondOfFour b c = true := secondOfFour_toNat.mpr ⟨hc.1,hc.2,hlow,hhigh⟩
  rw [stream_four (not_ascii (by omega)) (not_two (by omega)) h3 (between_iff.mpr hb),
    stream_next rfl (secondOfFour_iff.mp hs),stream_next rfl (tail_range hd),stream_last rfl (tail_range he)]
  rfl

/-- A character written out is read as itself. -/
theorem stream_encodeChar (c : Char) (rest : List UInt8) :
    stream none (String.utf8EncodeChar c ++ rest) = c :: stream none rest := by
  have hv : c.toNat < 0xD800 ∨ 0xDFFF < c.toNat ∧ c.toNat < 0x110000 := c.valid
  have byte : ∀ {n}, n < 256 → (UInt8.ofNat n).toNat = n := fun h => UInt8.toNat_ofNat_of_lt' h
  have back : ∀ {n}, n = c.toNat → Char.ofNat n = c := by
    intro n h
    rw [h,Char.ofNat_toNat]
  simp only [String.utf8EncodeChar,Char.toNat_val]
  generalize hn : c.toNat = n at hv back ⊢
  split
  · have h1 := byte (n := n) (by omega)
    simp only [List.cons_append,List.nil_append]
    rw [stream_one (by omega),back (by omega)]
  · split
    · have h1 := byte (n := n / 64 % 32 + 192) (by omega)
      have h2 := byte (n := n % 64 + 128) (by omega)
      simp only [List.cons_append,List.nil_append]
      rw [read_two (by omega) (by omega),back (by omega)]
    · split
      · have h1 := byte (n := n / 4096 % 16 + 224) (by omega)
        have h2 := byte (n := n / 64 % 64 + 128) (by omega)
        have h3 := byte (n := n % 64 + 128) (by omega)
        simp only [List.cons_append,List.nil_append]
        rw [read_three (by omega) (by omega) (by omega) (by omega) (by omega),back (by omega)]
      · have h1 := byte (n := n / 262144 % 8 + 240) (by omega)
        have h2 := byte (n := n / 4096 % 64 + 128) (by omega)
        have h3 := byte (n := n / 64 % 64 + 128) (by omega)
        have h4 := byte (n := n % 64 + 128) (by omega)
        simp only [List.cons_append,List.nil_append]
        rw [read_four (by omega) (by omega) (by omega) (by omega) (by omega) (by omega),
          back (by omega)]


theorem lossy_encode (text : List Char) : lossy (text.flatMap String.utf8EncodeChar) = text := by
  rw [← stream_eq_lossy]
  induction text with
  | nil => rfl
  | cons c rest ih => rw [List.flatMap_cons,stream_encodeChar,ih]

/-- The mark of byte order is a character like any other here. -/
theorem lossy_mark (rest : List UInt8) :
    lossy (0xEF :: 0xBB :: 0xBF :: rest) = '\uFEFF' :: lossy rest := by
  rw [← stream_eq_lossy,read_three (by decide) (by decide) (by decide) (by decide) (by decide),
    stream_eq_lossy]
  rfl

theorem toNat_ofNat {n : Nat} (h : n.isValidChar) : (Char.ofNat n).toNat = n := by
  rw [Char.ofNat,dif_pos h]
  rfl

theorem lossy_of_ascii {bytes : List UInt8} (h : ∀ b ∈ bytes, b.toNat < 128) :
    lossy bytes = bytes.map (fun b => Char.ofNat b.toNat) := by
  rw [← stream_eq_lossy]
  induction bytes with
  | nil => rfl
  | cons b rest ih =>
    rw [stream_one (h b List.mem_cons_self),ih (fun c hc => h c (List.mem_cons_of_mem _ hc)),
      List.map_cons]

/-- Nothing but ASCII comes out of nothing but ASCII. -/
theorem ascii_of_lossy {bytes : List UInt8} (h : ∀ c ∈ lossy bytes, c.toNat < 128) :
    bytes = (lossy bytes).map (fun c => UInt8.ofNat c.toNat) := by
  have big : ∀ {n : Nat} {rest : List Char}, 128 ≤ n → n.isValidChar →
      ¬ ∀ c ∈ Char.ofNat n :: rest, c.toNat < 128 := by
    intro n rest hn hv hall
    have := hall _ List.mem_cons_self
    rw [toNat_ofNat hv] at this
    omega
  have mark : ∀ {rest : List Char}, ¬ ∀ c ∈ replacement :: rest, c.toNat < 128 := by
    intro rest hall
    exact absurd (hall _ List.mem_cons_self) (by decide)
  fun_induction lossy bytes with
  | case1 => rfl
  | case2 b rest hb ih =>
    have hb' : b.toNat < 128 := UInt8.lt_iff_toNat_lt.mp hb
    rw [List.map_cons,← ih (fun c hc => h c (List.mem_cons_of_mem _ hc)),
      toNat_ofNat (Or.inl (by omega)),UInt8.ofNat_toNat]
  | case4 b hb h2 c rest hc ih =>
    rw [between_iff] at h2
    simp only [UInt8.reduceToNat] at h2
    exact absurd h (big (by omega) (Or.inl (by omega)))
  | case8 b hb h2 h3 c hc d rest hd ih =>
    rw [between_iff] at h3
    simp only [UInt8.reduceToNat] at h3
    rw [secondOfThree_toNat] at hc
    rw [isTail_toNat] at hd
    refine absurd h (big (by omega) ?_)
    change _ ∨ _
    omega
  | case14 b hb h2 h3 h4 c hc d hd e rest he ih =>
    rw [between_iff] at h4
    simp only [UInt8.reduceToNat] at h4
    rw [secondOfFour_toNat] at hc
    rw [isTail_toNat] at hd he
    refine absurd h (big (by omega) ?_)
    change _ ∨ _
    omega
  | case3 | case5 | case6 | case7 | case9 | case10 | case11 | case12 | case13 | case15 | case16 | case17
  | case18 => exact absurd h mark

end Characters
end Terminald.Machine.Utf8
