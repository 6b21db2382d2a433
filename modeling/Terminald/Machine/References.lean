import Mathlib.Data.List.TakeWhile
import Terminald.Machine.Paths

namespace Terminald.Machine.Url

variable {H : Type} {parseHost : List Char → Option H} {base url : Url H}

theorem resolve_rooted {rest : List Char} (hn : authorityIn ('/' :: rest) = none)
    (hq : '?' ∉ rest) (hf : '#' ∉ rest) :
    resolveClean parseHost base ('/' :: rest) =
      some { base with path := walk [] (rest.splitOnP isSlash),query := none,fragment := none } := by
  rw [resolveClean,hn,cut_plain (by simp [hq]) (by simp [hf])]
  simp [isSlash]

/-- Two slashes at least stand before an authority, and it has none. -/
theorem authorityIn_parts {text authority rest : List Char}
    (h : authorityIn text = some (authority,rest)) :
    (∃ front, text = front ++ (authority ++ rest) ∧ 2 ≤ front.length) ∧
      ∀ c ∈ authority, isSlash c = false := by
  match text with
  | [] => cases h
  | [_] => cases h
  | c :: d :: more =>
    simp only [authorityIn] at h
    split at h
    · rw [List.span_eq_takeWhile_dropWhile] at h
      cases h
      constructor
      · refine ⟨c :: d :: more.takeWhile isSlash,?_,by simp⟩
        simp [List.takeWhile_append_dropWhile]
      · intro x hx
        have := List.mem_takeWhile_imp hx
        simp only [Bool.and_eq_true,Bool.not_eq_true'] at this
        exact this.1.1
    · cases h

theorem dropSlash_suffix (text : List Char) : dropSlash text <:+ text := by
  cases text with
  | nil => exact List.suffix_rfl
  | cons c cs =>
    change (if isSlash c then cs else c :: cs) <:+ c :: cs
    split
    · exact List.suffix_cons c cs
    · exact List.suffix_rfl

theorem resolve_authority {text authority rest : List Char}
    (h : authorityIn text = some (authority,rest)) (hq : '?' ∉ text) (hf : '#' ∉ text) :
    resolveClean parseHost base text = (parseAuthority parseHost base.scheme authority).map
      (fun a => ⟨base.scheme,a,walk [] ((dropSlash rest).splitOnP isSlash),none,none⟩) := by
  obtain ⟨⟨front,he,_⟩,_⟩ := authorityIn_parts h
  have hin : ∀ c ∈ dropSlash rest, c ∈ text := by
    intro c hc
    have := (dropSlash_suffix rest).subset hc
    simp [he,this]
  rw [resolveClean,h]
  simp only [cut_plain (fun h => hq (hin _ h)) (fun h => hf (hin _ h))]
  cases parseAuthority parseHost base.scheme authority <;> rfl

theorem parseAuthority_nonempty {scheme : Scheme} {text : List Char} {a : Authority H}
    (h : parseAuthority parseHost scheme text = some a) : text ≠ [] := by
  intro heq
  subst heq
  simp [parseAuthority,lastPart,splitPort] at h

theorem joinPath_closed (front : List (List Char)) : ∃ text, joinPath (front ++ [[]]) = text ++ ['/'] :=
  ⟨joinPath front,by simp [joinPath]⟩

/-- What a walk writes is kept. -/
theorem walked_kept {text : List Char} {c : Char}
    (h : c ∈ joinPath (walk [] (text.splitOnP isSlash))) : kept c = true := by
  obtain ⟨s,hs,hc⟩ := List.mem_flatMap.mp h
  rcases List.mem_cons.mp hc with rfl | hc
  · decide
  · rcases walk_mem hs with h | rfl | ⟨t,ht,rfl⟩
    · cases h
    · cases hc
    · refine encode_kept (fun hb => ?_) hc
      exact absurd (mem_splitOnP ht hb).2 (by decide)

theorem kept_not_break {c : Char} (h : kept c = true) : isBreak c = false := by
  rw [Bool.eq_false_iff]
  intro hb
  simp only [isBreak,Bool.or_eq_true,beq_iff_eq] at hb
  rcases hb with (rfl | rfl) | rfl <;> exact absurd h (by decide)

theorem kept_filter {text : List Char} (h : ∀ c ∈ text, kept c = true) :
    text.filter (fun c => !isBreak c) = text :=
  List.filter_eq_self.mpr (fun c hc => by simp [kept_not_break (h c hc)])

/-- Kept characters: no more of them than there were, and fewer for each dot segment. -/
theorem walked_length {text : List Char} (h : ∀ c ∈ text, kept c = true) :
    (joinPath (walk [] (text.splitOnP isSlash))).length + (text.splitOn '/').countP dotSegment ≤
      text.length + 1 := by
  have hslash : '\\' ∉ text := fun hm => absurd (h _ hm) (by decide)
  have hk : ∀ s ∈ text.splitOnP isSlash, ∀ c ∈ s, kept c = true :=
    fun s hs c hc => h c (mem_splitOnP hs hc).1
  have := walk_length [] hk
  rw [splitOnP_slash hslash] at this ⊢
  rw [joinPath_splitOn] at this
  simpa [joinPath,Nat.add_comm] using this

theorem settled_iff {text : List Char} : settled ('/' :: text) = true ↔
    (∀ c ∈ text, kept c = true) ∧ ∀ s ∈ text.splitOn '/', dotSegment s = false := by
  have hslash : kept '/' = true := by decide
  have hnil : dotSegment [] = false := by decide
  simp [settled,splitOn_front,hslash,hnil]

/-- The walk along a closed text writes that text exactly when the rules leave it as it is. -/
theorem walked_settled_iff (text : List Char) :
    joinPath (walk [] ((text.filter (fun c => !isBreak c) ++ ['/']).splitOnP isSlash)) =
      '/' :: (text ++ ['/']) ↔ settled ('/' :: text) = true := by
  have hslash : kept '/' = true := by decide
  have hsplit : (text ++ ['/']).splitOn '/' = text.splitOn '/' ++ [[]] :=
    List.splitOn_append_cons_self text []
  have hall : (∀ c ∈ text, kept c = true) → ∀ c ∈ text ++ ['/'], kept c = true := by
    intro hk c hc
    rcases List.mem_append.mp hc with hc | hc
    · exact hk c hc
    · exact List.mem_singleton.mp hc ▸ hslash
  rw [settled_iff]
  constructor
  · intro h
    have hk : ∀ c ∈ text, kept c = true := by
      intro c hc
      have hmem : c ∈ '/' :: (text ++ ['/']) := by simp [hc]
      rw [← h] at hmem
      exact walked_kept hmem
    refine ⟨hk,?_⟩
    rw [kept_filter hk] at h
    have hlen := walked_length (hall hk)
    rw [h,hsplit,List.countP_append] at hlen
    simp only [List.length_cons,List.length_append,List.length_nil] at hlen
    have hzero : (text.splitOn '/').countP dotSegment = 0 := by omega
    intro s hs
    exact Bool.eq_false_iff.mpr (List.countP_eq_zero.mp hzero s hs)
  · intro hex
    obtain ⟨hk,hd⟩ := hex
    have hback : '\\' ∉ text ++ ['/'] := fun hm => absurd (hall hk _ hm) (by decide)
    have hplain : ∀ s ∈ (text ++ ['/']).splitOn '/', dotSegment s = false := by
      intro s hs
      rw [hsplit] at hs
      rcases List.mem_append.mp hs with hs | hs
      · exact hd s hs
      · exact List.mem_singleton.mp hs ▸ by decide
    have hsame : ((text ++ ['/']).splitOn '/').map (encode pathSet) = (text ++ ['/']).splitOn '/' := by
      refine List.map_congr_left (fun s hs => ?_) |>.trans (List.map_id _)
      rw [← splitOnP_slash hback] at hs
      exact encode_same (fun c hc => hall hk c (mem_splitOnP hs hc).1)
    rw [kept_filter hk,splitOnP_slash hback,walk_plain hplain,hsame,List.nil_append,joinPath_splitOn]

/-- The path after an authority is never the whole reference. -/
theorem authority_path_ne {text authority rest : List Char}
    (h : authorityIn ('/' :: (text.filter (fun c => !isBreak c) ++ ['/'])) = some (authority,rest)) :
    joinPath (walk [] ((dropSlash rest).splitOnP isSlash)) ≠ '/' :: (text ++ ['/']) := by
  intro hp
  have hk : ∀ c ∈ '/' :: (text ++ ['/']), kept c = true := fun c hc => walked_kept (hp ▸ hc)
  rw [kept_filter (fun c hc => hk c (by simp [hc]))] at h
  obtain ⟨⟨front,he,hfront⟩,_⟩ := authorityIn_parts h
  have hsub : ∀ c ∈ dropSlash rest, kept c = true := by
    intro c hc
    have := (dropSlash_suffix rest).subset hc
    exact hk c (by rw [he]; simp [this])
  have hlen := walked_length hsub
  have hrest := (dropSlash_suffix rest).length_le
  have htotal := congrArg List.length he
  rw [hp] at hlen
  simp only [List.length_append] at htotal
  omega

/-- Whatever a closed reference names, its path is closed. -/
theorem resolve_closed {text : List Char} (hq : '?' ∉ text) (hf : '#' ∉ text)
    (h : resolveClean parseHost base ('/' :: (text ++ ['/'])) = some url) :
    ∃ front, url.pathText = front ++ ['/'] := by
  have closed : ∀ text, ∃ front, joinPath (walk [] ((text ++ ['/']).splitOnP isSlash)) = front ++ ['/'] := by
    intro text
    obtain ⟨front,hw⟩ := walk_closed [] (text.splitOnP isSlash)
    rw [splitOnP_closed,hw]
    exact joinPath_closed front
  cases ha : authorityIn ('/' :: (text ++ ['/'])) with
  | none =>
    rw [resolve_rooted ha (by simp [hq]) (by simp [hf])] at h
    cases h
    exact closed text
  | some parts =>
    obtain ⟨authority,rest⟩ := parts
    rw [resolve_authority ha (by simp [hq]) (by simp [hf])] at h
    obtain ⟨a,hparse,rfl⟩ := Option.map_eq_some_iff.mp h
    obtain ⟨⟨front,he,_⟩,hslash⟩ := authorityIn_parts ha
    -- the last slash is after the authority, since an authority has none
    have hlast : ∃ more, rest = more ++ ['/'] := by
      have hl := congrArg List.getLast? he
      rw [← List.cons_append,List.getLast?_concat] at hl
      rcases List.eq_nil_or_concat rest with rfl | ⟨more,x,rfl⟩
      · obtain ⟨init,x,hx⟩ := (List.eq_nil_or_concat authority).resolve_left
          (parseAuthority_nonempty hparse)
        rw [List.append_nil,hx,List.concat_eq_append,← List.append_assoc,List.getLast?_concat] at hl
        have := hslash '/' (by rw [hx,Option.some.inj hl]; simp)
        exact absurd this (by decide)
      · rw [List.concat_eq_append,← List.append_assoc,← List.append_assoc,List.getLast?_concat] at hl
        exact ⟨more,by rw [← Option.some.inj hl,List.concat_eq_append]⟩
    obtain ⟨more,rfl⟩ := hlast
    cases more with
    | nil => exact ⟨[],rfl⟩
    | cons c more =>
      change ∃ front, joinPath (walk [] ((if isSlash c then more ++ ['/'] else c :: (more ++ ['/'])).splitOnP
        isSlash)) = front ++ ['/']
      split
      · exact closed more
      · exact closed (c :: more)

end Terminald.Machine.Url
