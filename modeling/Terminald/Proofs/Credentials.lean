import Terminald.Model.Auth

namespace Terminald.Auth
open Machine

variable {v w : Text} {cv cw : Credential}

theorem xor_eq_zero {a b : Nat} : a ^^^ b = 0 ↔ a = b := by
  constructor
  · intro h
    rw [← Nat.xor_zero a,← Nat.xor_self b,← Nat.xor_assoc,h,Nat.zero_xor]
  · intro h
    rw [h,Nat.xor_self]

theorem foldl_or_zero {f : Nat → Nat} {indexes : List Nat} {diff : Nat} :
    indexes.foldl (fun diff index => diff ||| f index) diff = 0 ↔
      diff = 0 ∧ ∀ i ∈ indexes, f i = 0 := by
  induction indexes generalizing diff with
  | nil => simp
  | cons i rest ih => simp [ih,Nat.or_eq_zero_iff,and_assoc]

/-- The differences leave zero exactly when there are none, in length or at any place. -/
theorem constantTimeEq_iff {left right : Bytes} : constantTimeEq left right = true ↔ left = right := by
  simp only [constantTimeEq,beq_iff_eq,foldl_or_zero,xor_eq_zero,List.mem_range]
  constructor
  · intro ⟨hlen,hall⟩
    apply List.ext_getElem hlen
    intro i hl hr
    have h := hall i (by omega)
    rw [List.getElem?_eq_getElem hl,List.getElem?_eq_getElem hr] at h
    simp only [Option.getD_some,UInt8.toNat_xor,xor_eq_zero] at h
    exact UInt8.toNat_inj.mp h
  · intro h
    subst h
    exact ⟨rfl,fun i _ => by simp⟩

theorem utf8_inj (h : v.utf8 = w.utf8) : v = w := by
  apply Option.some.inj
  rw [← Text.ofUtf8_utf8 v,h,Text.ofUtf8_utf8]

/-- The colon that was split at is put back. -/
theorem Credential.toBasicPair_new (h : Credential.new v = some cv) : cv.toBasicPair = v := by
  unfold Credential.new at h
  split at h
  · rename_i username password hs
    cases h
    exact (splitOnce_join hs).symm
  · cases h

theorem Credential.encoded_new (h : Credential.new v = some cv) : cv.encoded = Base64.encode v.utf8 :=
  congrArg (fun pair => Base64.encode (Text.utf8 pair)) (Credential.toBasicPair_new h)

theorem basicAuthHeader_new (h : Credential.new w = some cw) :
    basicAuthHeader (some cw) = some (utf8 "Basic " ++ Base64.encode w.utf8) := by
  simp [basicAuthHeader,Credential.toBasicPair_new h]

/-- The header is text whatever the credential is. -/
theorem headerText_basic (bytes : Bytes) :
    headerText (utf8 "Basic " ++ Base64.encode bytes) = some (utf8 "Basic " ++ Base64.encode bytes) := by
  unfold headerText
  rw [if_pos]
  rw [List.all_append,Bool.and_eq_true]
  constructor
  · decide
  · rw [List.all_eq_true]
    intro b hb
    obtain ⟨hlow,hhigh⟩ := Base64.encode_visible hb
    simp [hlow,hhigh]

/-- Accepted is one value only. -/
theorem validateHeaders_iff (h : Credential.new v = some cv) (headers : HeaderMap) :
    (AuthConfig.basic cv).validateHeaders headers = true ↔
      headers.get "authorization" = some (utf8 "Basic " ++ Base64.encode v.utf8) := by
  simp only [AuthConfig.validateHeaders,AuthConfig.basic]
  constructor
  · intro hv
    cases hg : headers.get "authorization" with
    | none => simp [hg] at hv
    | some value =>
      simp only [hg] at hv
      cases ht : headerText value with
      | none => simp [ht] at hv
      | some text =>
        simp only [ht] at hv
        cases hp : stripPrefix (utf8 "Basic ") text with
        | none => simp [hp] at hv
        | some encoded =>
          simp only [hp] at hv
          have he := constantTimeEq_iff.mp hv
          have hx := stripPrefix_some.mp hp
          have : value = text := by
            unfold headerText at ht
            split at ht
            · exact Option.some.inj ht
            · cases ht
          rw [this,hx,he,Credential.encoded_new h]
  · intro hg
    have hp : stripPrefix (utf8 "Basic ") (utf8 "Basic " ++ Base64.encode v.utf8) =
        some (Base64.encode v.utf8) := stripPrefix_some.mpr rfl
    simp only [hg,headerText_basic,hp]
    exact constantTimeEq_iff.mpr (Credential.encoded_new h).symm

/-- A server accepts the header of a client exactly when both have the same credential, and
of all header maps those whose first value is its encoding. -/
theorem credentials_match :
    (∀ v w cv cw headers, Credential.new v = some cv → Credential.new w = some cw →
      headers.get "authorization" = basicAuthHeader (some cw) →
      ((AuthConfig.basic cv).validateHeaders headers = true ↔ v = w)) ∧
    (∀ v cv headers, Credential.new v = some cv →
      ((AuthConfig.basic cv).validateHeaders headers = true ↔
        headers.get "authorization" = some (utf8 "Basic " ++ Base64.encode (Text.utf8 v)))) := by
  refine ⟨?_,fun v cv headers hv => validateHeaders_iff hv headers⟩
  intro v w cv cw headers hv hw hg
  rw [validateHeaders_iff hv,hg,basicAuthHeader_new hw,Option.some.injEq,
    List.append_cancel_left_eq]
  constructor
  · intro h
    exact (utf8_inj (Base64.encode_inj h)).symm
  · intro h
    rw [h]

/-- Further colons are part of the password, and either part may be empty. -/
theorem credentials_match_colons :
    (AuthConfig.basic ⟨"é".toList," :".toList,by decide⟩).validateHeaders
        [("authorization",utf8 "Basic w6k6IDo=")] = true ∧
      (AuthConfig.basic ⟨[],"a:b".toList,by decide⟩).validateHeaders
        [("authorization",utf8 "Basic w6k6IDo=")] = false := by
  have hv : Credential.new "é: :".toList = some ⟨"é".toList," :".toList,by decide⟩ := by decide
  have hw : Credential.new ":a:b".toList = some ⟨[],"a:b".toList,by decide⟩ := by decide
  have hg : HeaderMap.get [("authorization",utf8 "Basic w6k6IDo=")] "authorization" =
      basicAuthHeader (some ⟨"é".toList," :".toList,by decide⟩) := by decide
  refine ⟨(credentials_match.1 _ _ _ _ _ hv hv hg).mpr rfl,?_⟩
  rw [Bool.eq_false_iff]
  intro h
  exact absurd ((credentials_match.1 _ _ _ _ _ hw hv hg).mp h) (by decide)

end Terminald.Auth
