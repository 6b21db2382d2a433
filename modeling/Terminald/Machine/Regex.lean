import Mathlib.Data.List.Basic

namespace Terminald.Machine

/-- A pattern over the units of a text: a class, a class any number of times, `\b`, an
option, one pattern after the other. -/
inductive Regex where
  | one (p : UInt16 → Bool)
  | many (p : UInt16 → Bool)
  | boundary
  | maybe (r : Regex)
  | seq (r s : Regex)

namespace Regex

def isWordChar (c : UInt16) : Bool :=
  48 ≤ c && c ≤ 57 || 65 ≤ c && c ≤ 90 || c == 95 || 97 ≤ c && c ≤ 122

/-- There is no word beyond the ends of a text. -/
def inWord (c : Option UInt16) : Bool := c.any isWordChar

/-- A small letter in either case; without the flag `u` nothing beyond ASCII is taken for one. -/
def letter (c : Char) (u : UInt16) : Bool := u.toNat == c.toNat || u.toNat + 32 == c.toNat

/-- The letters of a word, and what follows them. -/
def word (letters : List Char) (next : Regex) : Regex :=
  letters.foldr (fun c r => .seq (.one (letter c)) r) next

/-- What a pattern takes between what stands before and after. -/
inductive Matches : Regex → List UInt16 → List UInt16 → List UInt16 → Prop where
  | one (hp : p c = true) : Matches (.one p) before [c] after
  | many (hp : ∀ c ∈ mid, p c = true) : Matches (.many p) before mid after
  | boundary (hw : inWord before.getLast? ≠ inWord after.head?) : Matches .boundary before [] after
  | absent : Matches (.maybe r) before [] after
  | present (hr : Matches r before mid after) : Matches (.maybe r) before mid after
  | seq (hr : Matches r before mid (rest ++ after)) (hs : Matches s (before ++ mid) rest after) :
      Matches (.seq r s) before (mid ++ rest) after

def Found (r : Regex) (text : List UInt16) : Prop :=
  ∃ before mid after, text = before ++ (mid ++ after) ∧ Matches r before mid after

/-- As long as the class takes a unit, what follows may go on behind it. -/
def repeated (p : UInt16 → Bool) (last : Option UInt16) (text : List UInt16)
    (next : Option UInt16 → List UInt16 → Bool) : Bool :=
  next last text ||
    match text with
    | [] => false
    | c :: rest => p c && repeated p (some c) rest next

/-- The matcher: the unit before, the text from here on, and what has to match behind. -/
def run : Regex → Option UInt16 → List UInt16 → (Option UInt16 → List UInt16 → Bool) → Bool
  | .one _,_,[],_ => false
  | .one p,_,c :: rest,next => p c && next (some c) rest
  | .many p,last,text,next => repeated p last text next
  | .boundary,last,text,next => inWord last != inWord text.head? && next last text
  | .maybe r,last,text,next => run r last text next || next last text
  | .seq r s,last,text,next => run r last text (fun last text => run s last text next)

/-- A match that starts here, or further on. -/
def search (r : Regex) (last : Option UInt16) (text : List UInt16) : Bool :=
  run r last text (fun _ _ => true) ||
    match text with
    | [] => false
    | c :: rest => search r (some c) rest

/-- `RegExp.prototype.test`. -/
def test (r : Regex) (text : List UInt16) : Bool := search r none text

section Matcher
variable {r : Regex} {p : UInt16 → Bool} {before text : List UInt16}
variable {next : Option UInt16 → List UInt16 → Bool}

theorem repeated_iff : repeated p before.getLast? text next = true ↔
    ∃ mid after, text = mid ++ after ∧ (∀ c ∈ mid, p c = true) ∧ next (before ++ mid).getLast? after = true := by
  induction text generalizing before with
  | nil =>
    simp only [repeated,Bool.or_false]
    constructor
    · intro h
      exact ⟨[],[],rfl,by simp,by rwa [List.append_nil]⟩
    · rintro ⟨mid,after,ht,_,hn⟩
      obtain ⟨rfl,rfl⟩ := List.append_eq_nil_iff.mp ht.symm
      rwa [List.append_nil] at hn
  | cons c rest ih =>
    have hlast : (before ++ [c]).getLast? = some c := List.getLast?_concat
    rw [repeated,Bool.or_eq_true,Bool.and_eq_true,← hlast,ih]
    constructor
    · rintro (h | ⟨hc,mid,after,rfl,hm,hn⟩)
      · exact ⟨[],_,rfl,by simp,by rwa [List.append_nil]⟩
      · refine ⟨c :: mid,after,rfl,?_,by rwa [List.append_cons]⟩
        exact List.forall_mem_cons.mpr ⟨hc,hm⟩
    · rintro ⟨mid,after,ht,hm,hn⟩
      cases mid with
      | nil =>
        left
        rwa [ht,List.nil_append,List.append_nil] at *
      | cons d mid =>
        right
        obtain ⟨rfl,rfl⟩ := List.cons.inj ht
        have hall := List.forall_mem_cons.mp hm
        exact ⟨hall.1,mid,after,rfl,hall.2,by rwa [List.append_cons] at hn⟩

/-- The matcher finds what the pattern takes, in front of what follows. -/
theorem run_iff : run r before.getLast? text next = true ↔
    ∃ mid after, text = mid ++ after ∧ Matches r before mid after ∧ next (before ++ mid).getLast? after = true := by
  induction r generalizing before text next with
  | one p =>
    constructor
    · cases text with
      | nil => simp [run]
      | cons c rest =>
        intro h
        simp only [run,Bool.and_eq_true] at h
        exact ⟨[c],rest,rfl,.one h.1,by rw [List.getLast?_concat]; exact h.2⟩
    · rintro ⟨mid,after,rfl,hm,hn⟩
      cases hm with
      | @one _ c _ _ hp =>
        rw [List.getLast?_concat] at hn
        simp [run,hp,hn]
  | many p =>
    rw [run,repeated_iff]
    constructor
    · rintro ⟨mid,after,ht,hp,hn⟩
      exact ⟨mid,after,ht,.many hp,hn⟩
    · rintro ⟨mid,after,ht,hm,hn⟩
      cases hm with
      | many hp => exact ⟨mid,after,ht,hp,hn⟩
  | boundary =>
    rw [run,Bool.and_eq_true,bne_iff_ne]
    constructor
    · intro ⟨hw,hn⟩
      exact ⟨[],text,rfl,.boundary hw,by rwa [List.append_nil]⟩
    · rintro ⟨mid,after,rfl,hm,hn⟩
      cases hm with
      | boundary hw => exact ⟨hw,by rwa [List.append_nil] at hn⟩
  | maybe r ih =>
    rw [run,Bool.or_eq_true,ih]
    constructor
    · rintro (⟨mid,after,ht,hm,hn⟩ | hn)
      · exact ⟨mid,after,ht,.present hm,hn⟩
      · exact ⟨[],text,rfl,.absent,by rwa [List.append_nil]⟩
    · rintro ⟨mid,after,rfl,hm,hn⟩
      cases hm with
      | absent => exact .inr (by rwa [List.append_nil] at hn)
      | present hr => exact .inl ⟨mid,after,rfl,hr,hn⟩
  | seq r s ihr ihs =>
    rw [run,ihr]
    constructor
    · rintro ⟨mid,behind,rfl,hr,hn⟩
      obtain ⟨rest,after,rfl,hs,hn⟩ := ihs.mp hn
      exact ⟨mid ++ rest,after,(List.append_assoc ..).symm,.seq hr hs,by rwa [← List.append_assoc]⟩
    · rintro ⟨_,after,rfl,hm,hn⟩
      cases hm with
      | @seq _ _ mid rest _ _ hr hs =>
        refine ⟨mid,rest ++ after,List.append_assoc ..,hr,?_⟩
        exact ihs.mpr ⟨rest,after,rfl,hs,by rwa [List.append_assoc]⟩

theorem search_iff : search r before.getLast? text = true ↔
    ∃ skipped mid after, text = skipped ++ (mid ++ after) ∧ Matches r (before ++ skipped) mid after := by
  have here : ∀ {before text : List UInt16}, run r before.getLast? text (fun _ _ => true) = true ↔
      ∃ mid after, text = mid ++ after ∧ Matches r before mid after := by
    simp [run_iff]
  induction text generalizing before with
  | nil =>
    rw [search,Bool.or_false,here]
    constructor
    · rintro ⟨mid,after,ht,hm⟩
      exact ⟨[],mid,after,ht,by rwa [List.append_nil]⟩
    · rintro ⟨skipped,mid,after,ht,hm⟩
      obtain ⟨rfl,hrest⟩ := List.append_eq_nil_iff.mp ht.symm
      exact ⟨mid,after,hrest.symm,by rwa [List.append_nil] at hm⟩
  | cons c rest ih =>
    have hlast : (before ++ [c]).getLast? = some c := List.getLast?_concat
    rw [search,Bool.or_eq_true,here,← hlast]
    constructor
    · rintro (⟨mid,after,ht,hm⟩ | hrest)
      · exact ⟨[],mid,after,ht,by rwa [List.append_nil]⟩
      · obtain ⟨skipped,mid,after,rfl,hm⟩ := ih.mp hrest
        exact ⟨c :: skipped,mid,after,rfl,by rwa [List.append_cons]⟩
    · rintro ⟨skipped,mid,after,ht,hm⟩
      cases skipped with
      | nil => exact .inl ⟨mid,after,ht,by rwa [List.append_nil] at hm⟩
      | cons d skipped =>
        obtain ⟨rfl,rfl⟩ := List.cons.inj ht
        exact .inr (ih.mpr ⟨skipped,mid,after,rfl,by rwa [List.append_cons] at hm⟩)

theorem test_iff : test r text = true ↔ Found r text :=
  @search_iff r [] text

instance : Decidable (Found r text) := decidable_of_iff _ test_iff

end Matcher

/-- The pattern may match nothing. -/
def empty : Regex → Bool
  | .one _ => false
  | .many _ => true
  | .boundary => true
  | .maybe _ => true
  | .seq r s => r.empty && s.empty

/-- The pattern may depend on the unit behind its match. -/
def ahead : Regex → Bool
  | .one _ => false
  | .many _ => false
  | .boundary => true
  | .maybe r => r.ahead
  | .seq r s => s.ahead || r.ahead && s.empty

section Ends
variable {r s : Regex} {before mid after text : List UInt16}

/-- No more than one unit behind a match counts. -/
theorem Matches.next (h : Matches r before mid after) :
    ∀ {rest : List UInt16}, after.head? = rest.head? → Matches r before mid rest := by
  induction h with
  | one hp => exact fun _ => .one hp
  | many hp => exact fun _ => .many hp
  | boundary hw => exact fun he => .boundary (he ▸ hw)
  | absent => exact fun _ => .absent
  | present _ ih => exact fun he => .present (ih he)
  | @seq r _ mid behind _ s hr hs ihr ihs =>
    intro rest he
    refine .seq (ihr ?_) (ihs he)
    rw [List.head?_append,List.head?_append,he]

theorem Matches.ne_nil (h : Matches r before mid after) (hr : r.empty = false) : mid ≠ [] := by
  induction h with
  | one hp => simp
  | many hp => cases hr
  | boundary hw => cases hr
  | absent => cases hr
  | present _ ih => cases hr
  | @seq r _ mid rest _ s _ _ ihr ihs =>
    rw [ne_eq,List.append_eq_nil_iff]
    intro ⟨hm,hn⟩
    rcases Bool.and_eq_false_iff.mp hr with h | h
    · exact ihr h hm
    · exact ihs h hn

/-- A pattern that does not look further matches whatever follows. -/
theorem Matches.extend (h : Matches r before mid after) (hr : r.ahead = false) (rest : List UInt16) :
    Matches r before mid rest := by
  induction h generalizing rest with
  | one hp => exact .one hp
  | many hp => exact .many hp
  | boundary hw => cases hr
  | absent => exact .absent
  | present _ ih => exact .present (ih hr rest)
  | @seq r _ mid behind after s h hs ihr ihs =>
    obtain ⟨hlast,hfirst⟩ := Bool.or_eq_false_iff.mp hr
    refine .seq ?_ (ihs hlast rest)
    rcases Bool.and_eq_false_iff.mp hfirst with hn | hn
    · exact ihr hn _
    · obtain ⟨c,behind,rfl⟩ := List.exists_cons_of_ne_nil (hs.ne_nil hn)
      exact h.next rfl

/-- So a text that is cut off has no new match. -/
theorem Found.extend (h : Found r text) (hr : r.ahead = false) (rest : List UInt16) : Found r (text ++ rest) := by
  obtain ⟨before,mid,after,rfl,hm⟩ := h
  refine ⟨before,mid,after ++ rest,?_,hm.extend hr _⟩
  rw [List.append_assoc,List.append_assoc]

theorem Found.take {n : Nat} (h : Found r (text.take n)) (hr : r.ahead = false) : Found r text := by
  have hlong := h.extend hr (text.drop n)
  rwa [List.take_append_drop] at hlong

theorem Found.left (h : Found (.seq r s) text) : Found r text := by
  obtain ⟨before,_,after,rfl,hm⟩ := h
  cases hm with
  | @seq _ _ mid rest _ _ hr hs =>
    refine ⟨before,mid,rest ++ after,?_,hr⟩
    rw [List.append_assoc]

theorem Found.right (h : Found (.seq r s) text) : Found s text := by
  obtain ⟨before,_,after,rfl,hm⟩ := h
  cases hm with
  | @seq _ _ mid rest _ _ hr hs =>
    refine ⟨before ++ mid,rest,after,?_,hs⟩
    rw [List.append_assoc,List.append_assoc]

theorem Found.letter {p : UInt16 → Bool} (h : Found (.one p) text) : ∃ c ∈ text, p c = true := by
  obtain ⟨before,mid,after,rfl,hm⟩ := h
  cases hm with
  | one hp => exact ⟨_,by simp,hp⟩

/-- All letters of a word that is found are in the text. -/
theorem Found.word {letters : List Char} (h : Found (word letters r) text) :
    ∀ c ∈ letters, ∃ u ∈ text, Regex.letter c u = true := by
  induction letters with
  | nil => exact fun c hc => by cases hc
  | cons c letters ih => exact List.forall_mem_cons.mpr ⟨h.left.letter,ih h.right⟩

end Ends

/-- The units that what the pattern takes may begin with. -/
def begins : Regex → UInt16 → Bool
  | .one p,c => p c
  | .many p,c => p c
  | .boundary,_ => false
  | .maybe r,c => r.begins c
  | .seq r s,c => r.begins c || r.empty && s.begins c

/-- A pattern may be given way to one that takes all the same, behind another one. -/
theorem Matches.behind {r s t : Regex}
    (h : ∀ {before mid after}, Matches s before mid after → Matches t before mid after) {before mid after : List UInt16}
    (hm : Matches (.seq r s) before mid after) : Matches (.seq r t) before mid after := by
  cases hm with
  | seq hr hs => exact .seq hr (h hs)

theorem Matches.word {r s : Regex} {letters : List Char}
    (h : ∀ {before mid after}, Matches r before mid after → Matches s before mid after) :
    ∀ {before mid after}, Matches (word letters r) before mid after → Matches (word letters s) before mid after := by
  induction letters with
  | nil => exact h
  | cons c letters ih => exact fun hm => hm.behind ih

section Front
variable {r : Regex} {before mid after front text : List UInt16}

theorem Matches.begins {c : UInt16} (h : Matches r before mid after) (hc : mid.head? = some c) :
    r.begins c = true := by
  induction h with
  | one hp =>
    cases hc
    exact hp
  | many hp => exact hp c (List.mem_of_mem_head? hc)
  | boundary => cases hc
  | absent => cases hc
  | present _ ih => exact ih hc
  | @seq r before mid rest _ s hr hs ihr ihs =>
    rw [Regex.begins,Bool.or_eq_true,Bool.and_eq_true]
    cases mid with
    | nil =>
      right
      refine ⟨?_,ihs hc⟩
      by_contra he
      exact hr.ne_nil (Bool.eq_false_iff.mpr he) rfl
    | cons d mid => exact .inl (ihr hc)

/-- Of the text before, only whether a word goes on counts. -/
theorem Matches.last (h : Matches r before mid after) :
    ∀ {other : List UInt16}, inWord before.getLast? = inWord other.getLast? → Matches r other mid after := by
  induction h with
  | one hp => exact fun _ => .one hp
  | many hp => exact fun _ => .many hp
  | boundary hw => exact fun he => .boundary (he ▸ hw)
  | absent => exact fun _ => .absent
  | present _ ih => exact fun he => .present (ih he)
  | @seq r before mid rest _ s _ _ ihr ihs =>
    intro other he
    refine .seq (ihr he) (ihs ?_)
    rw [List.getLast?_append,List.getLast?_append]
    cases mid.getLast? with
    | none => exact he
    | some c => rfl

/-- No match reaches into a text that it cannot begin in. -/
theorem Found.skip (h : Found r (front ++ text)) (hr : r.empty = false)
    (hfront : ∀ c ∈ front, r.begins c = false) (hword : inWord front.getLast? = false) : Found r text := by
  obtain ⟨before,mid,after,he,hm⟩ := h
  obtain ⟨c,mid,rfl⟩ := List.exists_cons_of_ne_nil (hm.ne_nil hr)
  have hc := hm.begins rfl
  rcases List.append_eq_append_iff.mp he with ⟨skipped,rfl,ht⟩ | ⟨cut,rfl,ht⟩
  · refine ⟨skipped,c :: mid,after,ht,hm.last ?_⟩
    rw [List.getLast?_append]
    cases skipped.getLast? with
    | none => exact hword
    | some d => rfl
  · cases cut with
    | nil =>
      refine ⟨[],c :: mid,after,ht.symm,hm.last ?_⟩
      rw [List.append_nil] at hword
      exact hword
    | cons d cut =>
      obtain ⟨rfl,_⟩ := List.cons.inj ht
      rw [hfront c (by simp)] at hc
      cases hc

end Front
end Regex

end Terminald.Machine
