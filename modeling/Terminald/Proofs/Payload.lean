import Terminald.Model.Payload
import Terminald.Proofs.Frames

namespace Terminald.Protocol
open Machine Machine.Json Browser

/-- A number in decimal digits. -/
def number (n : Nat) : Bytes := (Nat.toDigits 10 n).map (fun c => UInt8.ofNat c.toNat)

theorem utf8_append (a b : String) : utf8 (a ++ b) = utf8 a ++ utf8 b := by
  rw [utf8_eq,utf8_eq,utf8_eq,String.toList_append,List.flatMap_append]

theorem utf8_number (n : Nat) : utf8 (toString n) = number n := by
  have ascii : ∀ t : List Char, (∀ c ∈ t, c.toNat < 128) →
      t.flatMap String.utf8EncodeChar = t.map (fun c => UInt8.ofNat c.toNat) := by
    intro t ht
    induction t with
    | nil => rfl
    | cons c rest ih =>
      have hc := ht c List.mem_cons_self
      rw [List.flatMap_cons,ih (fun d hd => ht d (List.mem_cons_of_mem _ hd)),List.map_cons]
      simp only [String.utf8EncodeChar,Char.toNat_val,if_pos (show c.toNat ≤ 0x7f by omega)]
      rfl
  rw [utf8_eq,Nat.toString_eq_repr,Nat.toList_repr,number,ascii]
  intro c hc
  exact Decimal.digit_cases (p := fun c => c.toNat < 128) (by decide)
    (Nat.isDigit_of_mem_toDigits (by omega) (by omega) hc)

theorem number_all {p : UInt8 → Prop} (h : ∀ m < 10, p (UInt8.ofNat (Char.ofNat (48 + m)).toNat))
    {n : Nat} {b : UInt8} (hb : b ∈ number n) : p b := by
  obtain ⟨c,hc,he⟩ := List.mem_map.mp hb
  subst he
  exact Decimal.digit_cases (p := fun c => p (UInt8.ofNat c.toNat)) h
    (Nat.isDigit_of_mem_toDigits (by omega) (by omega) hc)

theorem isDigit_number {n : Nat} {b : UInt8} (h : b ∈ number n) : Json.isDigit b = true :=
  number_all (p := fun b => Json.isDigit b = true) (by decide) h

theorem number_ne_nil (n : Nat) : number n ≠ [] :=
  fun h => Nat.toDigits_ne_nil (List.map_eq_nil_iff.mp h)

theorem fold_number (n : Nat) : (number n).foldl (fun n b => 10 * n + (b.toNat - 48)) 0 = n := by
  have fold : ∀ (t : List Char) (k : Nat), (∀ c ∈ t, c.isDigit = true) →
      (t.map (fun c => UInt8.ofNat c.toNat)).foldl (fun n b => 10 * n + (b.toNat - 48)) k =
        Nat.ofDigitChars 10 t k := by
    intro t
    induction t with
    | nil => exact fun k _ => Nat.ofDigitChars_nil.symm
    | cons c rest ih =>
      intro k hc
      have hb : (UInt8.ofNat c.toNat).toNat = c.toNat :=
        Decimal.digit_cases (p := fun c => (UInt8.ofNat c.toNat).toNat = c.toNat) (by decide)
          (hc c List.mem_cons_self)
      rw [List.map_cons,List.foldl_cons,ih _ (fun d hd => hc d (List.mem_cons_of_mem _ hd)),hb,
        Nat.ofDigitChars_cons]
      rfl
  rw [number,fold _ _ (fun c hc => Nat.isDigit_of_mem_toDigits (by omega) (by omega) hc),
    Nat.ofDigitChars_ten_toDigits]

/-- No number but zero begins with a zero. -/
theorem number_head {n : Nat} (hn : 0 < n) : (number n).head? ≠ some 48 := by
  have digit : ∀ m < 10, 0 < m → UInt8.ofNat (Nat.digitChar m).toNat ≠ 48 := by decide
  induction n using Nat.strong_induction_on with
  | _ n ih =>
    by_cases hs : n < 10
    · rw [number,Nat.toDigits_of_lt_base hs]
      intro h
      exact digit n hs hn (Option.some.inj h)
    · have hd := ih (n / 10) (by omega) (by omega)
      rw [number,Nat.toDigits_of_base_le (by omega) (by omega),List.map_append]
      change (number (n / 10) ++ _).head? ≠ some 48
      rw [List.head?_append_of_ne_nil _ (number_ne_nil _)]
      exact hd

theorem whole_number {n : Nat} {b : UInt8} (rest : Bytes) (hb : Json.isDigit b = false) :
    whole (number n ++ b :: rest) = some (number n,b :: rest) := by
  have hspan : (number n ++ b :: rest).span Json.isDigit = (number n,b :: rest) := by
    rw [List.span_eq_takeWhile_dropWhile,List.takeWhile_append_of_pos (fun _ => isDigit_number),
      List.dropWhile_append_of_pos (fun _ => isDigit_number)]
    simp [hb]
  simp only [whole,hspan]
  split
  · rename_i heq
    exact absurd (Prod.mk.inj heq).1 (number_ne_nil n)
  · rename_i c t r heq
    by_cases hn : 0 < n
    · exact absurd (by rw [(Prod.mk.inj heq).1]; rfl) (number_head hn)
    · have hz : n = 0 := by omega
      subst hz
      exact absurd (congrArg List.length (Prod.mk.inj heq).1) (by simp [number])
  · rename_i heq
    rw [← (Prod.mk.inj heq).1,← (Prod.mk.inj heq).2]

theorem readU16_number {n : Nat} {b : UInt8} (rest : Bytes) (hn : n < 65536)
    (hb : Json.isDigit b = false) (hf : startsFraction (b :: rest) = false) :
    readU16 (number n ++ b :: rest) = some (UInt16.ofNat n,b :: rest) := by
  have hskip : skip (number n ++ b :: rest) = number n ++ b :: rest := by
    cases h : number n with
    | nil => exact absurd h (number_ne_nil n)
    | cons c t =>
      have hc : isSpace c = false :=
        number_all (p := fun b => isSpace b = false) (by decide) (h ▸ List.mem_cons_self)
      rw [skip,List.cons_append,List.dropWhile_cons_of_neg (by simp [hc])]
  have hsmall : ¬ (startsFraction (b :: rest) = true ∨ 65536 ≤ n) := by
    simp only [hf,Bool.false_eq_true,false_or]
    omega
  simp only [readU16,hskip,whole_number rest hb]
  simp [fold_number,hsmall]

theorem serialize_eq (size : Resize) : serialize size =
    openBrace :: quote :: (colsKey ++ quote :: colon :: (number size.cols.toNat ++
      comma :: quote :: (rowsKey ++ quote :: colon :: (number size.rows.toNat ++ [closeBrace])))) := by
  simp only [serialize,utf8_append,utf8_number,List.append_assoc]
  rfl

theorem readString_cols (rest : Bytes) : readString (colsKey ++ quote :: rest) = some (colsKey,rest) := by
  rfl

theorem readString_rows (rest : Bytes) : readString (rowsKey ++ quote :: rest) = some (rowsKey,rest) := by
  rfl

section Visit
variable {fuel : Nat} {fields : Fields} {value rest : Bytes} {n : UInt16}

theorem visitMap_cols (hf : fields.cols = none) (hv : readU16 value = some (n,rest)) :
    visitMap (fuel + 1) true fields (quote :: (colsKey ++ quote :: colon :: value)) =
      visitMap fuel false { fields with cols := some n } rest := by
  have hskip : skip (quote :: (colsKey ++ quote :: colon :: value)) =
    quote :: (colsKey ++ quote :: colon :: value) := rfl
  have hquote : expect quote (quote :: (colsKey ++ quote :: colon :: value)) =
    some (colsKey ++ quote :: colon :: value) := rfl
  have hcolon : expect colon (colon :: value) = some value := rfl
  have hb : quote ≠ closeBrace := by decide
  simp only [visitMap,hskip,if_neg hb,if_true,Option.bind_eq_bind,Option.bind_some,hquote,
    readString_cols,hcolon,hf,hv]
  rfl

theorem visitMap_rows (hf : fields.rows = none) (hv : readU16 value = some (n,rest)) :
    visitMap (fuel + 1) false fields (comma :: quote :: (rowsKey ++ quote :: colon :: value)) =
      visitMap fuel false { fields with rows := some n } rest := by
  have hskip : skip (comma :: quote :: (rowsKey ++ quote :: colon :: value)) =
    comma :: quote :: (rowsKey ++ quote :: colon :: value) := rfl
  have hquote : expect quote (quote :: (rowsKey ++ quote :: colon :: value)) =
    some (rowsKey ++ quote :: colon :: value) := rfl
  have hcolon : expect colon (colon :: value) = some value := rfl
  have hb : comma ≠ closeBrace := by decide
  have hk : rowsKey ≠ colsKey := by decide
  simp only [visitMap,hskip,if_neg hb,if_true,Bool.false_eq_true,if_false,Option.bind_eq_bind,
    Option.bind_some,hquote,readString_rows,hcolon,if_neg hk,hf,hv]
  rfl

end Visit

/-- What is written is read back, neither value changed nor in the other's place. -/
theorem deserialize_serialize (size : Resize) : deserialize (serialize size) = some size := by
  have hc := size.cols.toNat_lt
  have hr := size.rows.toNat_lt
  have hcols : ∀ rest, readU16 (number size.cols.toNat ++ comma :: rest) =
      some (size.cols,comma :: rest) := by
    intro rest
    rw [readU16_number rest hc rfl rfl,UInt16.ofNat_toNat]
  have hrows : readU16 (number size.rows.toNat ++ [closeBrace]) = some (size.rows,[closeBrace]) := by
    rw [readU16_number [] hr rfl rfl,UInt16.ofNat_toNat]
  have hbrace : skip (openBrace :: (quote :: (colsKey ++ quote :: colon :: (number size.cols.toNat ++
      comma :: quote :: (rowsKey ++ quote :: colon :: (number size.rows.toNat ++ [closeBrace])))))) =
    openBrace :: (quote :: (colsKey ++ quote :: colon :: (number size.cols.toNat ++
      comma :: quote :: (rowsKey ++ quote :: colon :: (number size.rows.toNat ++ [closeBrace]))))) := rfl
  have hb : openBrace ≠ openBracket := by decide
  rw [serialize_eq,deserialize]
  simp only [hbrace,if_neg hb,if_true,List.length_cons]
  rw [visitMap_cols rfl (hcols _),visitMap_rows rfl hrows]
  rfl

theorem decode_resize (describe : Bytes → String) (cols rows : UInt16) :
    ClientMessage.decode (serdeJson describe) (encodeResize cols.toNat rows.toNat) =
      .ok (.resize ⟨cols,rows⟩) := by
  have hd : deserialize (serialize ⟨cols,rows⟩) = some ⟨cols,rows⟩ := deserialize_serialize _
  have hframe : encodeResize cols.toNat rows.toNat = clientResize :: serialize ⟨cols,rows⟩ := rfl
  rw [hframe]
  simp only [ClientMessage.decode,if_true,Resize.fromPayload,serdeJson,hd,Except.mapError]

/-- The page, the client and the server mean the same by a frame: any two numbers of 16 bits,
and any bytes, whatever they look like. -/
theorem client_frames_agree (describe : Bytes → String) :
    (∀ cols rows : UInt16,
      ClientMessage.encode (serdeJson describe) (.resize ⟨cols,rows⟩) =
        .ok (encodeResize cols.toNat rows.toNat) ∧
      ClientMessage.decode (serdeJson describe) (encodeResize cols.toNat rows.toNat) =
        .ok (.resize ⟨cols,rows⟩)) ∧
    (∀ data : Bytes,
      ClientMessage.encode (serdeJson describe) (.input data) = .ok (encodeInput data) ∧
      ClientMessage.decode (serdeJson describe) (encodeInput data) = .ok (.input data)) ∧
    (∀ text : String,
      ClientMessage.encode (serdeJson describe) (.input (utf8 text)) = .ok (encodeInput (utf8 text)) ∧
      ClientMessage.decode (serdeJson describe) (encodeInput (utf8 text)) =
        .ok (.input (utf8 text))) := by
  refine ⟨?_,fun _ => ⟨rfl,rfl⟩,fun _ => ⟨rfl,rfl⟩⟩
  exact fun cols rows => ⟨rfl,decode_resize describe cols rows⟩

end Terminald.Protocol
