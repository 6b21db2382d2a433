import Terminald.Machine.Strings
import Terminald.Model.Status

namespace Terminald.Status
open Machine Machine.Utf16 App

/-- `basic` at the beginning of a word, white space and something behind it. -/
def basicValue : Regex :=
  .seq .boundary (Regex.word "basic".toList (.seq (oneOrMore isSpace) (.one (fun u => !isSpace u))))

/-- A text for one line that carries no value of an authorization header. -/
structure Clean (shown : Text) : Prop where
  authorization : ¬ authorization.Found shown
  basic : ¬ basicValue.Found shown
  apart : Apart isSpace shown
  blanks : ∀ u ∈ shown, isSpace u = true → u = space

section Detail
variable {shown : Text}

/-- Of what is not white space, one unit is as good as more of them. -/
theorem basic_of_value (h : basicValue.Found shown) : basic.Found shown := by
  have more : ∀ {p : UInt16 → Bool} {before mid after : Text},
      Regex.Matches (.one p) before mid after → Regex.Matches (oneOrMore p) before mid after := by
    intro p before mid after hm
    have hnone : ∀ c ∈ ([] : Text), p c = true := fun c hc => by cases hc
    cases hm with
    | one hp => exact .seq (.one hp) (.many hnone)
  obtain ⟨before,mid,after,he,hm⟩ := h
  exact ⟨before,mid,after,he,hm.behind (Regex.Matches.word (Regex.Matches.behind more))⟩

theorem Clean.take (h : Clean shown) (n : Nat) : Clean (shown.take n) where
  authorization := fun hf => h.authorization (hf.take rfl)
  basic := fun hf => h.basic (hf.take rfl)
  apart := List.IsChain.take h.apart n
  blanks := fun u hu => h.blanks u (List.mem_of_mem_take hu)

/-- A detail: clean, short, and with no white space in front. -/
structure Normal (shown : Text) : Prop extends Clean shown where
  short : shown.length ≤ maxDetailLength
  front : ∀ u ∈ shown.head?, isSpace u = false

/-- White space folded and trimmed, as the tests get to see it. -/
def folded (detail : Text) : Text := trim isSpace (replaceRuns isSpace space false detail)

theorem folded_first (detail : Text) : ∀ u ∈ (folded detail).head?, isSpace u = false := trim_first _

theorem folded_clean {detail : Text} (ha : ¬ Status.authorization.Found (folded detail))
    (hb : ¬ Status.basic.Found (folded detail)) : Clean (folded detail) where
  authorization := ha
  basic := fun h => hb (basic_of_value h)
  apart := (replaceRuns_apart detail false).1.trim
  blanks := fun _ hu => replaceRuns_mem (mem_trim hu)

/-- A text that the tests can be run on as it is. -/
def plain (shown : Text) : Bool :=
  folded shown == shown && !authorization.test shown && !basic.test shown && decide (shown.length ≤ maxDetailLength)

theorem normal_of_plain (h : plain shown = true) : Normal shown := by
  simp only [plain,Bool.and_eq_true,Bool.not_eq_true',beq_iff_eq,decide_eq_true_eq] at h
  obtain ⟨⟨⟨hsame,hauthorization⟩,hbasic⟩,hshort⟩ := h
  have hnone : ∀ {r : Regex}, r.test shown = false → ¬ r.Found (folded shown) := by
    intro r hr hf
    rw [hsame,← Regex.test_iff,hr] at hf
    cases hf
  rw [← hsame]
  exact ⟨folded_clean (hnone hauthorization) (hnone hbasic),by rwa [hsame],folded_first shown⟩

/-- Whatever is left after the tests holds none of it, and a part of it neither. -/
theorem normalizeStatusDetail_normal (detail : Text) : Normal (normalizeStatusDetail detail) := by
  unfold normalizeStatusDetail
  dsimp only
  split
  · exact normal_of_plain (by decide +kernel)
  · rename_i ht
    simp only [Bool.or_eq_true,not_or,Regex.test_iff] at ht
    have hclean := folded_clean ht.1.1 ht.1.2
    split
    · refine ⟨hclean.take _,List.length_take_le ..,fun u hu => folded_first detail u ?_⟩
      rw [List.head?_take] at hu
      split at hu
      · cases hu
      · exact hu
    · rename_i hlen
      exact ⟨hclean,Nat.le_of_not_lt hlen,folded_first detail⟩

/-- A detail, or what stands for one. -/
theorem shownDetail_normal (state : ConnectionState) {otherwise : String} (h : Normal (text otherwise)) :
    Normal (state.shownDetail otherwise) := by
  unfold ConnectionState.shownDetail
  split
  · exact h
  · exact h
  · exact normalizeStatusDetail_normal _

theorem inWord_reported : Regex.inWord reported.getLast? = false := by decide +kernel

/-- Nothing begins in the words before a reported detail. -/
theorem reported_clean (h : Normal shown) : Clean (reported ++ shown) where
  authorization := fun hf => h.authorization (hf.skip rfl (forall_of_all (by decide +kernel)) inWord_reported)
  basic := fun hf => h.basic (hf.skip rfl (forall_of_all (by decide +kernel)) inWord_reported)
  apart := by
    have hreported : reported.IsChain (fun a b => ¬ (isSpace a = true ∧ isSpace b = true)) := by decide +kernel
    exact Apart.append hreported h.apart h.front
  blanks := by
    have hreported : ∀ u ∈ reported, isSpace u = true → u = space := forall_of_all (by decide +kernel)
    exact List.forall_mem_append.mpr ⟨hreported,h.blanks⟩

/-- Neither white space nor a letter that both words have got to have. -/
def harmless (u : UInt16) : Bool := !isSpace u && !Regex.letter 'u' u && !Regex.letter 'b' u

/-- The characters of a numeral are single units of that kind. -/
theorem numeral_harmless {c : Char} (hc : Number.isNumeral c = true) :
    (encodeChar c).length = 1 ∧ (encodeChar c).all harmless = true := by
  have hdigits : ∀ n < 10, (encodeChar (Char.ofNat (48 + n))).length = 1 ∧
      (encodeChar (Char.ofNat (48 + n))).all harmless = true := by
    decide +kernel
  have hothers : ∀ c ∈ ".e+-InfityNa".toList, (encodeChar c).length = 1 ∧ (encodeChar c).all harmless = true :=
    forall_of_all (by decide +kernel)
  exact Number.numeral_cases hdigits hothers hc

theorem encode_numeral (r : Number.Reading) : (encode r.text).length = r.text.length ∧
    ∀ u ∈ encode r.text, isSpace u = false ∧ Regex.letter 'u' u = false ∧ Regex.letter 'b' u = false := by
  have hall := fun c hc => numeral_harmless (Number.text_numeral r c hc)
  refine ⟨encode_length (fun c hc => (hall c hc).1),fun u hu => ?_⟩
  obtain ⟨c,hc,hu⟩ := List.mem_flatMap.mp hu
  have hharmless := List.all_eq_true.mp (hall c hc).2 u hu
  simp only [harmless,Bool.and_eq_true,Bool.not_eq_true'] at hharmless
  exact ⟨hharmless.1.1,hharmless.1.2,hharmless.2⟩

/-- An exit code is shown with neither word, and in one piece. -/
theorem exited_normal (v : Number.Value) : Normal (text "remote exited " ++ encode v.reading.text) := by
  obtain ⟨hlen,hnumeral⟩ := encode_numeral v.reading
  have hletters : ∀ u ∈ text "remote exited ", Regex.letter 'u' u = false ∧ Regex.letter 'b' u = false :=
    forall_of_all (by decide +kernel)
  have hblanks : ∀ u ∈ text "remote exited ", isSpace u = true → u = space := forall_of_all (by decide +kernel)
  have hapart : (text "remote exited ").IsChain (fun a b => ¬ (isSpace a = true ∧ isSpace b = true)) := by
    decide +kernel
  have hnone := List.forall_mem_append.mpr ⟨hletters,fun u hu => (hnumeral u hu).2⟩
  refine ⟨⟨fun hf => ?_,fun hf => ?_,?_,?_⟩,?_,fun u hu => ?_⟩
  · obtain ⟨u,hu,hl⟩ := hf.word 'u' (by decide)
    rw [(hnone u hu).1] at hl
    cases hl
  · obtain ⟨u,hu,hl⟩ := hf.right.word 'b' (by decide)
    rw [(hnone u hu).2] at hl
    cases hl
  · refine Apart.append hapart (apart_none (fun u hu => (hnumeral u hu).1)) (fun u hu => ?_)
    exact (hnumeral u (List.mem_of_mem_head? hu)).1
  · refine List.forall_mem_append.mpr ⟨hblanks,fun u hu hs => ?_⟩
    rw [(hnumeral u hu).1] at hs
    cases hs
  · have hexited : (text "remote exited ").length = 14 := by decide +kernel
    have hvalue := Number.text_length v
    rw [List.length_append,hexited,hlen]
    exact Nat.le_trans (Nat.add_le_add_left hvalue 14) (by decide)
  · have hfirst : (text "remote exited ").head? = some 114 := by decide +kernel
    rw [List.head?_append,hfirst] at hu
    cases hu
    decide

end Detail

section View
variable {state : ConnectionState}

def ConnectionState.serverError (state : ConnectionState) : Prop :=
  state.phase = .error ∧ state.reason = some .serverError

theorem errorStatusView_normal (h : state.reason ≠ some .serverError) :
    ∃ shown, (errorStatusView state).detail = some shown ∧ Normal shown := by
  unfold errorStatusView
  split
  · exact ⟨_,rfl,normal_of_plain (by decide +kernel)⟩
  · exact ⟨_,rfl,normal_of_plain (by decide +kernel)⟩
  · exact ⟨_,rfl,shownDetail_normal state (normal_of_plain (by decide +kernel))⟩
  · exact ⟨_,rfl,normal_of_plain (by decide +kernel)⟩
  · exact ⟨_,rfl,shownDetail_normal state (normal_of_plain (by decide +kernel))⟩
  · rename_i hr
    exact absurd hr h
  · exact ⟨_,rfl,shownDetail_normal state (normal_of_plain (by decide +kernel))⟩

theorem connectionStatusView_normal (h : ¬ state.serverError) :
    ∃ shown, (connectionStatusView state).detail = some shown ∧ Normal shown := by
  unfold connectionStatusView
  split
  · exact ⟨_,rfl,normal_of_plain (by decide +kernel)⟩
  · split
    · exact ⟨_,rfl,normal_of_plain (by decide +kernel)⟩
    · exact ⟨_,rfl,shownDetail_normal state (normal_of_plain (by decide +kernel))⟩
    · exact ⟨_,rfl,shownDetail_normal state (normal_of_plain (by decide +kernel))⟩
    · split
      · exact ⟨_,rfl,exited_normal _⟩
      · exact ⟨_,rfl,shownDetail_normal state (normal_of_plain (by decide +kernel))⟩
    · rename_i hp
      exact errorStatusView_normal (fun hr => h ⟨hp,hr⟩)

theorem connectionStatusView_reported (h : state.serverError) : ∃ shown,
    (connectionStatusView state).detail = some (reported ++ shown) ∧ Normal shown := by
  refine ⟨state.shownDetail "unknown error",?_,shownDetail_normal state (normal_of_plain (by decide +kernel))⟩
  simp only [connectionStatusView,errorStatusView,h.1,h.2]
  rfl

theorem Clean.unbroken (h : Clean shown) : ∀ u ∈ shown, isLineTerminator u = false := by
  intro u hu
  by_contra hl
  obtain ⟨hs,hne⟩ := lineTerminator_space (Bool.not_eq_false _ ▸ hl)
  exact hne (h.blanks u hu hs)

end View

/-- The status line never shows an authorization value, and stays one short line. -/
theorem status_clean (state : ConnectionState) : ∃ shown, (connectionStatusView state).detail = some shown ∧
    ¬ authorization.Found shown ∧ ¬ basicValue.Found shown ∧
    (∀ u ∈ shown, isLineTerminator u = false) ∧ Apart isSpace shown ∧
    if state.phase = .error ∧ state.reason = some .serverError then
      ∃ detail, shown = reported ++ detail ∧ detail.length ≤ 120
    else shown.length ≤ 120 := by
  by_cases h : state.phase = .error ∧ state.reason = some .serverError
  · obtain ⟨detail,he,hn⟩ := connectionStatusView_reported h
    have hclean := reported_clean hn
    refine ⟨_,he,hclean.authorization,hclean.basic,hclean.unbroken,hclean.apart,?_⟩
    rw [if_pos h]
    exact ⟨detail,rfl,hn.short⟩
  · obtain ⟨shown,he,hn⟩ := connectionStatusView_normal h
    refine ⟨shown,he,hn.authorization,hn.basic,hn.unbroken,hn.apart,?_⟩
    rw [if_neg h]
    exact hn.short

end Terminald.Status
