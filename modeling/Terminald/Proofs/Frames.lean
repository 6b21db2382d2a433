import Terminald.Model.Browser

namespace Terminald.Browser
open Protocol Machine

theorem utf8_eq (text : String) : utf8 text = text.toList.flatMap String.utf8EncodeChar := by
  have h : text.toUTF8 = text.toList.utf8Encode := String.utf8Encode_toList.symm
  rw [utf8,h,List.utf8Encode]
  simp

theorem fromUtf8Lossy_utf8 (text : String) : fromUtf8Lossy (utf8 text) = text := by
  rw [fromUtf8Lossy,utf8_eq,Utf8.lossy_encode,String.ofList_toList]

theorem parseI32_ok {text : String} {code : Int32} :
    parseI32 text = .ok code ↔ Decimal.integer? text.toList = some code.toInt := by
  unfold parseI32
  have hlow := code.le_toInt
  have hhigh := code.toInt_lt
  constructor
  · intro h
    split at h
    · rename_i v hv
      obtain ⟨hi,hl,hr⟩ := (Decimal.parse_ok (by decide) (by decide)).mp hv
      cases h
      rw [Int32.toInt_ofInt_of_le hl (by omega),hi]
    · cases h
  · intro h
    have hp : Decimal.parse (-2 ^ 31) (2 ^ 31 - 1) text.toList = .ok code.toInt :=
      (Decimal.parse_ok (by decide) (by decide)).mpr ⟨h,hlow,by omega⟩
    rw [hp]
    exact congrArg Except.ok (Int32.ofInt_toInt code)

theorem integer?_ascii {text : List Char} {v : Int} (h : Decimal.integer? text = some v) :
    ∀ c ∈ text, c.toNat < 128 :=
  Decimal.splitSign_all (p := fun c => c.toNat < 128) (by decide) (by decide) (by decide)
    (Decimal.integer?_eq.mp h).1

/-- The integer that a payload is, in ASCII digits with at most a sign. -/
def exitPayload (payload : Bytes) : Option Int :=
  Decimal.integer? (payload.map (fun b => Char.ofNat b.toNat))

theorem exitPayload_iff {payload : Bytes} {v : Int} :
    Decimal.integer? (Utf8.lossy payload) = some v ↔ exitPayload payload = some v := by
  have chars : ∀ b : UInt8, (Char.ofNat b.toNat).toNat = b.toNat := by
    intro b
    have := b.toNat_lt
    exact Utf8.toNat_ofNat (Or.inl (by omega))
  constructor
  · intro h
    have hascii := Utf8.ascii_of_lossy (integer?_ascii h)
    have hall : ∀ b ∈ payload, b.toNat < 128 := by
      intro b hb
      rw [hascii] at hb
      obtain ⟨c,hc,he⟩ := List.mem_map.mp hb
      have := integer?_ascii h c hc
      rw [← he,UInt8.toNat_ofNat_of_lt' (Nat.lt_trans this (by decide))]
      exact this
    rwa [Utf8.lossy_of_ascii hall] at h
  · intro h
    have hall : ∀ b ∈ payload, b.toNat < 128 := by
      intro b hb
      rw [← chars b]
      exact integer?_ascii h _ (List.mem_map_of_mem hb)
    rwa [exitPayload,← Utf8.lossy_of_ascii hall] at h

/-- Marks apart, the two text decoders agree. -/
theorem textDecoder_plain {payload : Bytes} (h : ¬ mark <+: payload) :
    textDecoder payload = fromUtf8Lossy payload := by
  rw [textDecoder,if_neg h,Utf8.stream_eq_lossy,fromUtf8Lossy]

/-- A mark is a character to the one and nothing to the other. -/
theorem textDecoder_marked {payload : Bytes} (h : mark <+: payload) :
    textDecoder payload ≠ fromUtf8Lossy payload := by
  obtain ⟨rest,he⟩ := h
  subst he
  rw [textDecoder,if_pos (List.prefix_append _ _),List.drop_left,Utf8.stream_eq_lossy,fromUtf8Lossy]
  intro heq
  have hl := String.ofList_inj.mp heq
  rw [show mark ++ rest = 0xEF :: 0xBB :: 0xBF :: rest from rfl,Utf8.lossy_mark] at hl
  exact absurd (congrArg List.length hl) (by simp)

theorem not_marked {payload : Bytes} {v : Int} (h : exitPayload payload = some v) :
    ¬ mark <+: payload := by
  intro ⟨rest,he⟩
  have hl := exitPayload_iff.mpr h
  rw [← he,show mark ++ rest = 0xEF :: 0xBB :: 0xBF :: rest from rfl,Utf8.lossy_mark] at hl
  exact absurd (integer?_ascii hl _ List.mem_cons_self) (by decide)

section Decoders
variable {shown : Bool → Nat → String}

/-- The page reads what Rust reads, where Rust reads an integer. -/
theorem number_of_exitPayload {payload : Bytes} {code : Int32}
    (h : exitPayload payload = some code.toInt) :
    (standard shown).number ((standard shown).decode payload) = .integer code.toInt := by
  have hb : code.toInt.natAbs < 2 ^ 53 := by
    have hlow := code.le_toInt
    have hhigh := code.toInt_lt
    omega
  have ht : (textDecoder payload).toList = Utf8.lossy payload := by
    rw [textDecoder_plain (not_marked h),fromUtf8Lossy,String.toList_ofList]
  simp only [standard,ht,Number.stringToNumber_integer (exitPayload_iff.mpr h) hb,ofReading]

theorem decode_exited {payload : Bytes} {code : Int32} :
    ServerMessage.decode (serverExited :: payload) = .ok (.exited code) ↔
      exitPayload payload = some code.toInt := by
  have hp : parseI32 (fromUtf8Lossy payload) = .ok code ↔ exitPayload payload = some code.toInt := by
    rw [parseI32_ok,fromUtf8Lossy,String.toList_ofList,exitPayload_iff]
  rw [← hp]
  have hk : serverExited ≠ serverOutput ∧ serverExited ≠ serverError := by decide
  simp only [ServerMessage.decode,if_neg hk.1,if_neg hk.2,if_true]
  cases parseI32 (fromUtf8Lossy payload) <;> simp

theorem exitPayload_encode (code : Int32) : exitPayload (utf8 (toString code.toInt)) = some code.toInt := by
  rw [← exitPayload_iff,utf8_eq,Utf8.lossy_encode,Int.toString_eq_repr]
  exact Decimal.integer?_repr _

theorem decode_encode (m : ServerMessage) : ServerMessage.decode m.encode = .ok m := by
  cases m with
  | output data => rfl
  | error message =>
    have hk : serverError ≠ serverOutput := by decide
    simp only [ServerMessage.encode,ServerMessage.decode,if_neg hk,if_true,fromUtf8Lossy_utf8]
  | exited code => exact decode_exited.mpr (exitPayload_encode code)

/-- What the server sends, both of its readers take as it was. -/
theorem server_frames_survive (shown : Bool → Nat → String) :
    (∀ m : ServerMessage, ServerMessage.decode m.encode = .ok m) ∧
    (∀ m m' : ServerMessage, m.encode = m'.encode → m = m') ∧
    (∀ data, decodeServerFrame (standard shown) (ServerMessage.output data).encode =
      .ok (.output data)) ∧
    (∀ code : Int32, decodeServerFrame (standard shown) (ServerMessage.exited code).encode =
      .ok (.exited (.integer code.toInt))) := by
  refine ⟨decode_encode,?_,fun _ => rfl,?_⟩
  · intro m m' h
    have hd := decode_encode m
    rw [h,decode_encode m'] at hd
    exact (Except.ok.inj hd).symm
  · intro code
    have hk : serverExited ≠ serverOutput ∧ serverExited ≠ serverError := by decide
    simp only [ServerMessage.encode,decodeServerFrame,if_neg hk.1,if_neg hk.2,if_true,
      number_of_exitPayload (exitPayload_encode code)]

/-- Both refuse, or both take the frame for the same message. -/
def Agree : Except Error ServerMessage → Except String ServerFrame → Prop
  | .error _,.error _ => True
  | .ok (.output data),.ok (.output data') => data = data'
  | .ok (.error message),.ok (.error message') => message = message'
  | .ok (.exited code),.ok (.exited number) => number = .integer code.toInt
  | _,_ => False

/-- No mark before an error text, and nothing but an integer of 32 bits for an exit. -/
def Plain : Bytes → Prop
  | [] => True
  | kind :: payload =>
    (kind = serverError → ¬ mark <+: payload) ∧
    (kind = serverExited → ∃ code, exitPayload payload = some code ∧ -2 ^ 31 ≤ code ∧ code < 2 ^ 31)

theorem decodeServerFrame_exited (js : Js) (payload : Bytes) :
    decodeServerFrame js (serverExited :: payload) = .ok (.exited (js.number (js.decode payload))) := by
  have hk : serverExited ≠ serverOutput ∧ serverExited ≠ serverError := by decide
  simp only [decodeServerFrame,if_neg hk.1,if_neg hk.2,if_true]

theorem agree_error {payload : Bytes} :
    Agree (ServerMessage.decode (serverError :: payload))
      (decodeServerFrame (standard shown) (serverError :: payload)) ↔ ¬ mark <+: payload := by
  have hk : serverError ≠ serverOutput := by decide
  simp only [ServerMessage.decode,decodeServerFrame,if_neg hk,if_true,Agree,standard]
  constructor
  · intro h hm
    exact textDecoder_marked hm h.symm
  · intro h
    exact (textDecoder_plain h).symm

/-- The page takes every payload for an exit, so they agree where Rust does too. -/
theorem agree_exited {payload : Bytes} :
    Agree (ServerMessage.decode (serverExited :: payload))
      (decodeServerFrame (standard shown) (serverExited :: payload)) ↔
      ∃ code, exitPayload payload = some code ∧ -2 ^ 31 ≤ code ∧ code < 2 ^ 31 := by
  rw [decodeServerFrame_exited]
  constructor
  · intro h
    cases hd : ServerMessage.decode (serverExited :: payload) with
    | error e =>
      rw [hd] at h
      exact h.elim
    | ok m =>
      rw [hd] at h
      cases m with
      | output data => exact h.elim
      | error message => exact h.elim
      | exited code => exact ⟨code.toInt,decode_exited.mp hd,code.le_toInt,code.toInt_lt⟩
  · intro ⟨v,hv,hlow,hhigh⟩
    have hcode : (Int32.ofInt v).toInt = v := Int32.toInt_ofInt_of_le hlow hhigh
    rw [← hcode] at hv
    rw [decode_exited.mpr hv,number_of_exitPayload hv]
    rfl

/-- The two decoders agree on the plain frames and on no others. -/
theorem decoders_agree_iff (shown : Bool → Nat → String) (frame : Bytes) :
    Agree (ServerMessage.decode frame) (decodeServerFrame (standard shown) frame) ↔ Plain frame := by
  have hk : serverError ≠ serverExited := by decide
  cases frame with
  | nil => exact ⟨fun _ => trivial,fun _ => trivial⟩
  | cons kind payload =>
    by_cases he : kind = serverError
    · subst he
      rw [agree_error]
      exact ⟨fun h => ⟨fun _ => h,fun e => absurd e hk⟩,fun h => h.1 rfl⟩
    · by_cases hx : kind = serverExited
      · subst hx
        rw [agree_exited]
        exact ⟨fun h => ⟨fun e => absurd e he,fun _ => h⟩,fun h => h.2 rfl⟩
      · apply iff_of_true
        · simp only [ServerMessage.decode,decodeServerFrame,if_neg he,if_neg hx]
          by_cases ho : kind = serverOutput
          · rw [if_pos ho,if_pos ho]
            rfl
          · rw [if_neg ho,if_neg ho]
            trivial
        · exact ⟨fun e => absurd e he,fun e => absurd e hx⟩

/-- A frame of one byte is an exit with code 0 to the page, and no message to Rust. -/
theorem decoders_differ :
    ¬ ∀ frame, Agree (ServerMessage.decode frame) (decodeServerFrame (standard fun _ _ => "") frame) := by
  intro h
  have hrust : ServerMessage.decode [4] =
      .error ⟨["invalid exit code payload","cannot parse integer from empty string"]⟩ := by rfl
  have hpage : decodeServerFrame (standard fun _ _ => "") [4] = .ok (.exited (.integer 0)) := by rfl
  have := h [4]
  rw [hrust,hpage] at this
  exact this

end Decoders
end Terminald.Browser
