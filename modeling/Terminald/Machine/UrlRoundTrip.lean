import Terminald.Machine.Decimal
import Terminald.Machine.UrlText
import Terminald.Machine.Utf8

namespace Terminald.Machine.Url

variable {H : Type} {hosts : Hosts H} {url : Url H} {text rest : List Char} {c : Char}

section Encoding
variable {set : Char → Bool}

theorem encode_free (hmark : set '%' = false) (hdigits : ∀ n : Fin 16, set (hexDigit n) = false)
    (h : c ∈ encode set text) : set c = false := by
  rcases encode_mem (p := fun c => set c = false) hmark hdigits h with h | ⟨_,h⟩
  · exact h
  · exact h

/-- The full stop is no part of another character. -/
theorem encodeChar_stop {bytes : List UInt8} (h : String.utf8EncodeChar c = 0x2E :: bytes) : c = '.' := by
  have hc := Utf8.lossy_encode [c]
  rw [List.flatMap_singleton,h,← Utf8.stream_eq_lossy,Utf8.stream_one (by decide)] at hc
  exact (List.cons.inj hc).1.symm

/-- What follows a percent sign in a dot segment. -/
def stopFollows : List Char → Bool
  | '%' :: x :: y :: _ => x == '2' && y == 'e'
  | _ => true

theorem dotSegment_follows {segment : List Char} (h : dotSegment segment = true)
    (hs : text <:+ segment.map Char.toLower) : stopFollows text = true := by
  have hall : ∀ dots ∈ [".".toList,"%2e".toList,"..".toList,".%2e".toList,"%2e.".toList,"%2e%2e".toList],
      ∀ t ∈ dots.tails, stopFollows t = true := by decide
  have hmem : segment.map Char.toLower ∈
      [".".toList,"%2e".toList,"..".toList,".%2e".toList,"%2e.".toList,"%2e%2e".toList] := by
    simp only [dotSegment,singleDot,doubleDot,List.contains_iff_mem,Bool.or_eq_true] at h
    rcases h with h | h
    · exact List.mem_append_left _ h
    · exact List.mem_append_right [".".toList,"%2e".toList] h
  exact hall _ hmem _ ((List.mem_tails _ _).mpr hs)

/-- The digits of a byte read as a full stop's only where it is one. -/
theorem percentByte_stop {b : UInt8} (h : stopFollows ((percentByte b ++ rest).map Char.toLower) = true) :
    b = 0x2E := by
  have hdigit : ∀ n : Fin 16, ((hexDigit n).toLower = '2' → n = 2) ∧ ((hexDigit n).toLower = 'e' → n = 14) := by
    decide
  have hb := b.toNat_lt
  have hp : '%'.toLower = '%' := by decide
  simp only [percentByte,List.cons_append,List.nil_append,List.map_cons,hp,stopFollows,Bool.and_eq_true,
    beq_iff_eq] at h
  have hhigh := (hdigit ⟨b.toNat / 16,by omega⟩).1 h.1
  have hlow := (hdigit ⟨b.toNat % 16,by omega⟩).2 h.2
  simp only [Fin.ext_iff,Fin.isValue] at hhigh hlow
  apply UInt8.toNat_inj.mp
  change b.toNat = 46
  omega

/-- An encoded segment is a dot segment only if it was one. -/
theorem dotSegment_encode {segment : List Char} (h : dotSegment segment = false) :
    dotSegment (encode pathSet segment) = false := by
  by_cases hfree : ∀ c ∈ segment, pathSet c = false
  · rwa [encode_id hfree]
  · simp only [not_forall,Bool.not_eq_false] at hfree
    obtain ⟨c,hc,hset⟩ := hfree
    obtain ⟨front,back,rfl⟩ := List.append_of_mem hc
    rw [Bool.eq_false_iff]
    intro hdot
    obtain ⟨b,bytes,hb⟩ : ∃ b bytes, String.utf8EncodeChar c = b :: bytes :=
      List.exists_cons_of_ne_nil (by simp)
    have hcode : encode pathSet (front ++ c :: back) =
        encode pathSet front ++ (percentByte b ++ (bytes.flatMap percentByte ++ encode pathSet back)) := by
      simp [encode,hset,hb]
    rw [hcode] at hdot
    have hsuffix := List.suffix_append (encode pathSet front)
      (percentByte b ++ (bytes.flatMap percentByte ++ encode pathSet back))
    obtain rfl := percentByte_stop (dotSegment_follows hdot (hsuffix.map Char.toLower))
    rw [encodeChar_stop hb] at hset
    exact absurd hset (by decide)

end Encoding

section Visible

/-- A set with the blank and the controls leaves characters that cleaning leaves too. -/
theorem free_visible (h : controlSet c = false) (hc : c ≠ ' ') : 0x20 < c.val := by
  have hlow : ¬c.val < 0x20 := by
    simp only [controlSet,Bool.or_eq_false_iff,decide_eq_false_iff_not] at h
    exact h.1
  have hne : c.val ≠ 0x20 := fun he => hc (Char.ext he)
  simp only [UInt32.lt_iff_toNat_lt,ne_eq,← UInt32.toNat_inj] at hlow hne ⊢
  change ¬c.val.toNat < 32 at hlow
  change ¬c.val.toNat = 32 at hne
  change 32 < c.val.toNat
  omega

theorem fragment_visible (h : fragmentSet c = false) : 0x20 < c.val := by
  simp only [fragmentSet,Bool.or_eq_false_iff] at h
  refine free_visible h.1 ?_
  rintro rfl
  exact absurd h.2 (by decide)

theorem query_visible (h : querySet c = false) : 0x20 < c.val := by
  simp only [querySet,Bool.or_eq_false_iff] at h
  refine free_visible h.1 ?_
  rintro rfl
  exact absurd h.2 (by decide)

theorem path_query (h : pathSet c = false) : querySet c = false := by
  simp only [pathSet,Bool.or_eq_false_iff] at h
  exact h.1

theorem userinfo_path (h : userinfoSet c = false) : pathSet c = false := by
  simp only [userinfoSet,Bool.or_eq_false_iff] at h
  exact h.1

theorem specialQuery_query (h : specialQuerySet c = false) : querySet c = false := by
  simp only [specialQuerySet,Bool.or_eq_false_iff] at h
  exact h.1

/-- Nothing is cleaned off a text without blanks and controls. -/
theorem clean_same (h : ∀ c ∈ text, 0x20 < c.val) : clean text = text := by
  have houter : ∀ c ∈ text, decide (c.val ≤ 0x20) = false := by
    intro c hc
    simpa using h c hc
  simp only [clean]
  rw [dropWhile_id houter,dropWhile_id (fun c hc => houter c (List.mem_reverse.mp hc)),List.reverse_reverse]
  refine List.filter_eq_self.mpr (fun c hc => ?_)
  simp only [isBreak,Bool.not_eq_true',Bool.or_eq_false_iff,beq_eq_false_iff_ne]
  refine ⟨⟨?_,?_⟩,?_⟩ <;>
    · rintro rfl
      exact absurd (h _ hc) (by decide)

end Visible

section Parsed
variable {scheme : Scheme} {authority : Authority H} {path segments : List (List Char)} {s : List Char}

theorem walk_nonempty (path : List (List Char)) (h : segments ≠ []) : walk path segments ≠ [] := by
  induction path, segments using walk.induct with
  | case1 path => exact absurd rfl h
  | case2 path segment =>
    simp only [walk,step]
    split
    · simp
    · split <;> simp
  | case3 path segment next rest ih => exact ih (by simp)

theorem walk_dots (h : ∀ s ∈ path, dotSegment s = false) : ∀ s ∈ walk path segments, dotSegment s = false := by
  have one : ∀ {path : List (List Char)} {last : Bool} {segment : List Char},
      (∀ s ∈ path, dotSegment s = false) → ∀ s ∈ step path last segment, dotSegment s = false := by
    intro path last segment h s hs
    have hend : ∀ {front : List (List Char)}, (∀ s ∈ front, dotSegment s = false) →
        s ∈ front ++ (if last then [[]] else []) → dotSegment s = false := by
      intro front hf hs
      rcases List.mem_append.mp hs with hs | hs
      · exact hf s hs
      · cases last
        · cases hs
        · exact List.mem_singleton.mp hs ▸ by decide
    unfold step at hs
    split at hs
    · exact hend (fun t ht => h t (List.dropLast_subset path ht)) hs
    · split at hs
      · exact hend h hs
      · rename_i hd hsingle
        rcases List.mem_append.mp hs with hs | hs
        · exact h s hs
        · rw [List.mem_singleton.mp hs]
          exact dotSegment_encode (by simp [dotSegment,hd,hsingle])
  induction path, segments using walk.induct with
  | case1 path => exact h
  | case2 path segment => exact one h
  | case3 path segment next rest ih => exact ih (one h)

/-- A parsed path has no dot segment, and only characters that stay as they are. -/
theorem walk_segments (h : s ∈ walk [] (text.splitOnP isSlash)) :
    (∀ c ∈ s, kept c = true ∧ c ≠ '/') ∧ dotSegment s = false := by
  refine ⟨?_,walk_dots (by simp) s h⟩
  intro c hc
  rcases walk_mem h with h | rfl | ⟨t,ht,rfl⟩
  · cases h
  · cases hc
  · refine ⟨encode_kept (fun hb => absurd (mem_splitOnP ht hb).2 (by decide)) hc,?_⟩
    rcases encode_mem (p := fun c => c ≠ '/') (by decide) (by decide) hc with h | ⟨hc,_⟩
    · exact h
    · rintro rfl
      exact absurd (mem_splitOnP ht hc).2 (by decide)

theorem encode_userinfo : ∀ c ∈ encode userinfoSet text, userinfoSet c = false :=
  fun _ => encode_free (by decide) (by decide)

theorem parsePort_some {port : Option Nat} {p : Nat} (h : parsePort scheme text = some port)
    (hp : port = some p) : p ≤ 65535 ∧ p ≠ scheme.defaultPort := by
  subst hp
  simp only [parsePort] at h
  split at h
  · cases h
  · split at h
    · cases h
    · split at h
      · cases h
      · split at h
        · cases h
        · rename_i hle hne
          cases h
          exact ⟨Nat.le_of_not_lt hle,hne⟩

/-- What an authority is read as. -/
theorem parseAuthority_some (h : parseAuthority hosts.parse scheme text = some authority) :
    (∃ t, hosts.parse t = some authority.host) ∧ (∀ c ∈ authority.username, userinfoSet c = false) ∧
      (∀ c ∈ authority.password, userinfoSet c = false) ∧
      ∀ port, authority.port = some port → port ≤ 65535 ∧ port ≠ scheme.defaultPort := by
  simp only [parseAuthority] at h
  split at h
  · cases h
  · obtain ⟨host,hhost,h⟩ := Option.bind_eq_some_iff.mp h
    obtain ⟨port,hport,h⟩ := Option.bind_eq_some_iff.mp h
    cases h
    exact ⟨⟨_,hhost⟩,encode_userinfo,encode_userinfo,fun p hp => parsePort_some hport hp⟩

theorem cut_parts (text : List Char) :
    (∀ q, (cut text).query = some q → ∀ c ∈ q, specialQuerySet c = false) ∧
      ∀ f, (cut text).fragment = some f → ∀ c ∈ f, fragmentSet c = false := by
  have hquery : ∀ {v : List Char}, ∀ c ∈ encode specialQuerySet v, specialQuerySet c = false :=
    fun _ => encode_free (by decide) (by decide)
  have hfragment : ∀ {v : List Char}, ∀ c ∈ encode fragmentSet v, fragmentSet c = false :=
    fun _ => encode_free (by decide) (by decide)
  have nothing : ∀ {p : List Char → Prop}, ∀ v, (none : Option (List Char)) = some v → p v :=
    fun _ h => by cases h
  have cutOff : ∀ {p : List Char → Prop} {v : List Char}, p v → ∀ w, some v = some w → p w :=
    fun hv _ h => Option.some.inj h ▸ hv
  simp only [cut]
  cases splitOnce '#' text with
  | none =>
    cases splitOnce '?' text with
    | none => exact ⟨nothing,nothing⟩
    | some parts => exact ⟨cutOff hquery,nothing⟩
  | some parts =>
    dsimp only
    cases splitOnce '?' parts.1 with
    | none => exact ⟨nothing,cutOff hfragment⟩
    | some inner => exact ⟨cutOff hquery,cutOff hfragment⟩

theorem parseAfter_normal (h : parseAfter hosts scheme text = some url) :
    Normal hosts url ∧ url.scheme = scheme := by
  simp only [parseAfter,Option.map_eq_some_iff] at h
  obtain ⟨authority,ha,rfl⟩ := h
  obtain ⟨hhost,huser,hpass,hport⟩ := parseAuthority_some ha
  exact ⟨⟨hhost,huser,hpass,hport,walk_nonempty [] (List.splitOnP_ne_nil _ _),
    fun s hs => walk_segments hs,(cut_parts _).1,(cut_parts _).2⟩,rfl⟩

/-- A parsed URL is in the form of one. -/
theorem parse_normal (h : parse hosts text = some url) : Normal hosts url := by
  obtain ⟨⟨name,rest⟩,_,h⟩ := Option.bind_eq_some_iff.mp h
  obtain ⟨scheme,_,h⟩ := Option.bind_eq_some_iff.mp h
  exact (parseAfter_normal h).1

end Parsed

section Written
variable {scheme : Scheme} {authority : Authority H} {host port : List Char} {path : List (List Char)}

theorem splitPort_enclosed {inside : Bool} (h : enclosed inside host = true) (port : List Char) :
    splitPort inside (host ++ ':' :: port) = (host,port) ∧ splitPort inside host = (host,[]) := by
  induction host generalizing inside with
  | nil =>
    obtain rfl : inside = false := by simpa [enclosed] using h
    exact ⟨rfl,rfl⟩
  | cons c cs ih =>
    simp only [enclosed,Bool.and_eq_true] at h
    have hc : (c = ':' && !inside) = false := by
      by_cases he : c = ':' <;> simp_all
    have hrest := ih h.2
    simp only [List.cons_append,splitPort,hc,hrest.1,hrest.2]
    exact ⟨rfl,rfl⟩

theorem parsePort_text {p : Nat} (hp : p ≤ 65535) (hne : p ≠ scheme.defaultPort) :
    parsePort scheme (Nat.toDigits 10 p) = some (some p) := by
  have hempty : (Nat.toDigits 10 p).isEmpty = false := by simp
  have hall : (Nat.toDigits 10 p).all Char.isDigit = true :=
    List.all_eq_true.mpr (fun c hc => Nat.isDigit_of_mem_toDigits (by omega) (by omega) hc)
  have hvalue : (Nat.toDigits 10 p).foldl (fun n c => n * 10 + (c.toNat - 48)) 0 = p := by
    have := Nat.ofDigitChars_ten_toDigits (n := p)
    rw [Nat.ofDigitChars] at this
    simpa [Nat.mul_comm] using this
  simp only [parsePort,hempty,hall,hvalue,Bool.not_true,Bool.false_eq_true,if_false]
  rw [if_neg (by omega),if_neg hne]

theorem splitPort_text (hs : hosts.Standard) (h : hosts.parse text = some host') (port : Option Nat)
    (hp : ∀ p, port = some p → p ≤ 65535 ∧ p ≠ scheme.defaultPort) :
    ∃ digits, splitPort false (hosts.text host' ++ portText port) = (hosts.text host',digits) ∧
      parsePort scheme digits = some port := by
  have hsplit := splitPort_enclosed (hs.enclosed h)
  cases port with
  | none => exact ⟨[],by simpa [portText] using (hsplit []).2,rfl⟩
  | some p =>
    obtain ⟨hle,hne⟩ := hp p rfl
    exact ⟨_,(hsplit _).1,parsePort_text hle hne⟩

theorem free_marks {set : Char → Bool} {marks : List Char} (hm : ∀ m ∈ marks, set m = true)
    (h : set c = false) : marks.contains c = false := by
  rw [Bool.eq_false_iff]
  intro hc
  rw [hm c (List.contains_iff_mem.mp hc)] at h
  cases h

/-- A character of a user name or a password ends and separates nothing. -/
theorem userinfo_host (h : userinfoSet c = false) : hostChar c = true ∧ c ≠ ':' := by
  have hvisible := query_visible (path_query (userinfo_path h))
  constructor
  · simp only [hostChar,hvisible,decide_true,Bool.true_and,Bool.not_eq_true']
    exact free_marks (forall_of_all (by decide)) h
  · rintro rfl
    exact absurd h (by decide)

theorem host_at (h : hostChar c = true) : c ≠ '@' := by
  rintro rfl
  exact absurd h (by decide)

theorem hostport_chars (hs : hosts.Standard) {host : H} (h : hosts.parse text = some host) (port : Option Nat) :
    ∀ c ∈ hosts.text host ++ portText port, hostChar c = true := by
  intro c hc
  rcases List.mem_append.mp hc with hc | hc
  · exact hs.chars h c hc
  · cases port with
    | none => cases hc
    | some p =>
      rcases List.mem_cons.mp hc with rfl | hc
      · decide
      · exact Decimal.digit_cases (p := fun c => hostChar c = true) (by decide) (Nat.isDigit_of_mem_toDigits (by omega) (by omega) hc)

/-- An authority as it stands in a URL. -/
structure Settled (hosts : Hosts H) (scheme : Scheme) (authority : Authority H) : Prop where
  host : ∃ text, hosts.parse text = some authority.host
  username : ∀ c ∈ authority.username, userinfoSet c = false
  password : ∀ c ∈ authority.password, userinfoSet c = false
  port : ∀ port, authority.port = some port → port ≤ 65535 ∧ port ≠ scheme.defaultPort

theorem Normal.settled (h : Normal hosts url) : Settled hosts url.scheme url.authority :=
  ⟨h.host,h.username,h.password,h.port⟩

def userinfoText (authority : Authority H) : List Char :=
  authority.username ++ (if authority.password = [] then [] else ':' :: authority.password)

/-- The first colon, if there is one, stands in front of the password. -/
theorem userinfo_split (h : Settled hosts scheme authority) :
    splitOnce ':' (userinfoText authority) = some (authority.username,authority.password) ∨
      splitOnce ':' (userinfoText authority) = none ∧ userinfoText authority = authority.username ∧
        authority.password = [] := by
  have hname : ':' ∉ authority.username := fun hc => (userinfo_host (h.username _ hc)).2 rfl
  unfold userinfoText
  split_ifs with hp
  · exact .inr ⟨by rw [List.append_nil,splitOnce_none hname],List.append_nil _,hp⟩
  · exact .inl (splitOnce_front _ hname)

theorem parseAuthority_text (hs : hosts.Standard) (h : Settled hosts scheme authority) :
    parseAuthority hosts.parse scheme (authorityText hosts authority) = some authority := by
  obtain ⟨t,ht⟩ := h.host
  obtain ⟨digits,hsplit,hport⟩ := splitPort_text hs ht authority.port h.port
  have hat : '@' ∉ hosts.text authority.host ++ portText authority.port :=
    fun hm => host_at (hostport_chars hs ht authority.port '@' hm) rfl
  have hempty : (hosts.text authority.host).isEmpty = false := by simpa using hs.nonempty ht
  -- the user's part, if there is one, ends at the last at sign
  have hparts : lastPart '@' (authorityText hosts authority) =
        hosts.text authority.host ++ portText authority.port ∧
      (authorityText hosts authority).take ((authorityText hosts authority).length -
        (hosts.text authority.host ++ portText authority.port).length - 1) = userinfoText authority := by
    have hcredentials : credentialsText authority =
      if authority.username = [] ∧ authority.password = [] then [] else userinfoText authority ++ ['@'] := rfl
    rw [authorityText,hcredentials]
    split_ifs with hnone
    · rw [List.nil_append]
      exact ⟨lastPart_same hat,by simp [userinfoText,hnone]⟩
    · rw [List.append_assoc,List.singleton_append]
      refine ⟨lastPart_closed hat,?_⟩
      have hlen : (userinfoText authority ++ '@' :: (hosts.text authority.host ++ portText authority.port)).length -
          (hosts.text authority.host ++ portText authority.port).length - 1 = (userinfoText authority).length := by
        simp only [List.length_append,List.length_cons]
        omega
      rw [hlen,List.take_left]
  have huser := encode_id h.username
  have hpass := encode_id h.password
  simp only [parseAuthority,hparts.1,hparts.2,hsplit,hempty,hs.back ht,hport,Bool.false_eq_true,if_false,
    bind,Option.bind_some,pure,Option.some.injEq]
  rcases userinfo_split h with hu | ⟨hu,hname,hnone⟩
  · simp only [hu,huser,hpass]
  · have hempty : encode userinfoSet [] = authority.password := hnone.symm
    simp only [hu]
    rw [hname,huser,hempty]

/-- A part is cut off at its mark. -/
theorem cut_text {path : List Char} {query fragment : Option (List Char)} (hq : '?' ∉ path) (hf : '#' ∉ path)
    (hquery : ∀ q, query = some q → ∀ c ∈ q, specialQuerySet c = false)
    (hfragment : ∀ f, fragment = some f → ∀ c ∈ f, fragmentSet c = false) :
    cut (path ++ (partText '?' query ++ partText '#' fragment)) = ⟨path,query,fragment⟩ := by
  have hmark : '#' ∉ path ++ partText '?' query := by
    intro hm
    rcases List.mem_append.mp hm with hm | hm
    · exact hf hm
    · cases query with
      | none => cases hm
      | some q =>
        rcases List.mem_cons.mp hm with hm | hm
        · exact absurd hm (by decide)
        · exact absurd (hquery q rfl _ hm) (by decide)
  have hquestion : splitOnce '?' (path ++ partText '?' query) = query.map (fun q => (path,q)) := by
    cases query with
    | none => exact (congrArg _ (List.append_nil path)).trans (splitOnce_none hq)
    | some q => exact splitOnce_front q hq
  have hsharp : splitOnce '#' ((path ++ partText '?' query) ++ partText '#' fragment) =
      fragment.map (fun f => (path ++ partText '?' query,f)) := by
    cases fragment with
    | none => exact (congrArg _ (List.append_nil _)).trans (splitOnce_none hmark)
    | some f => exact splitOnce_front f hmark
  rw [← List.append_assoc]
  simp only [cut,hsharp]
  cases fragment with
  | none =>
    have hend : path ++ partText '?' query ++ partText '#' none = path ++ partText '?' query := List.append_nil _
    simp only [Option.map_none,hend,hquestion]
    cases query with
    | none => exact congrArg (Tail.mk · none none) (List.append_nil path)
    | some q => simp only [Option.map_some,encode_id (hquery q rfl)]
  | some f =>
    simp only [Option.map_some,hquestion,encode_id (hfragment f rfl)]
    cases query with
    | none => exact congrArg (Tail.mk · none (some f)) (List.append_nil path)
    | some q => simp only [Option.map_some,encode_id (hquery q rfl)]

/-- A path in its form is walked along as it stands. -/
theorem walk_joined (hn : path ≠ []) (h : ∀ s ∈ path, (∀ c ∈ s, kept c = true ∧ c ≠ '/') ∧ dotSegment s = false) :
    ∃ rest, joinPath path = '/' :: rest ∧ walk [] (rest.splitOnP isSlash) = path ∧ ∀ c ∈ rest, kept c = true := by
  cases path with
  | nil => exact absurd rfl hn
  | cons s segments =>
    have hkept : ∀ c ∈ joinPath (s :: segments), kept c = true := by
      intro c hc
      obtain ⟨t,ht,hc⟩ := List.mem_flatMap.mp hc
      rcases List.mem_cons.mp hc with rfl | hc
      · decide
      · exact ((h t ht).1 c hc).1
    have hrest : ∀ c ∈ ['/'].intercalate (s :: segments), kept c = true := by
      intro c hc
      exact hkept c (by rw [joinPath_intercalate]; exact List.mem_cons_of_mem _ hc)
    refine ⟨_,joinPath_intercalate s segments,?_,hrest⟩
    have hback : '\\' ∉ ['/'].intercalate (s :: segments) := fun hm => absurd (hrest _ hm) (by decide)
    have hsame : (s :: segments).map (encode pathSet) = s :: segments := by
      refine (List.map_congr_left (fun t ht => ?_)).trans (List.map_id _)
      exact encode_same (fun c hc => ((h t ht).1 c hc).1)
    rw [splitOnP_slash hback,List.splitOn_intercalate '/' (fun t ht hm => ((h t ht).1 _ hm).2 rfl) hn,
      walk_plain (fun t ht => (h t ht).2),hsame,List.nil_append]

theorem host_ends (h : hostChar c = true) : (!isSlash c && c != '?' && c != '#') = true ∧ 0x20 < c.val := by
  simp only [hostChar,Bool.and_eq_true,decide_eq_true_eq,Bool.not_eq_true'] at h
  refine ⟨?_,h.1⟩
  rw [← Bool.not_eq_false]
  intro he
  have hmarks : c = '/' ∨ c = '\\' ∨ c = '?' ∨ c = '#' := by
    simp only [isSlash,Bool.and_eq_false_iff,Bool.not_eq_false',Bool.or_eq_true,beq_iff_eq,bne_eq_false_iff_eq] at he
    tauto
  rcases hmarks with rfl | rfl | rfl | rfl <;> exact absurd h.2 (by decide)

/-- An authority ends at the first slash after it. -/
theorem authorityText_chars (hs : hosts.Standard) (h : Settled hosts scheme authority) :
    ∀ c ∈ authorityText hosts authority, (!isSlash c && c != '?' && c != '#') = true ∧ 0x20 < c.val := by
  obtain ⟨t,ht⟩ := h.host
  intro c hc
  rcases List.mem_append.mp hc with hc | hc
  · unfold credentialsText at hc
    split at hc
    · cases hc
    · have hparts : c ∈ authority.username ∨ c = ':' ∨ c ∈ authority.password ∨ c = '@' := by
        simp only [List.mem_append,List.mem_singleton] at hc
        rcases hc with (hc | hc) | hc
        · exact .inl hc
        · split at hc
          · cases hc
          · exact .inr ((List.mem_cons.mp hc).imp_right .inl)
        · exact .inr (.inr (.inr hc))
      rcases hparts with hc | rfl | hc | rfl
      · exact host_ends (userinfo_host (h.username c hc)).1
      · exact ⟨by decide,by decide⟩
      · exact host_ends (userinfo_host (h.password c hc)).1
      · exact ⟨by decide,by decide⟩
  · exact host_ends (hostport_chars hs ht authority.port c hc)

theorem authorityText_nonempty (hs : hosts.Standard) (h : Settled hosts scheme authority) :
    authorityText hosts authority ≠ [] := by
  obtain ⟨t,ht⟩ := h.host
  simp [authorityText,hs.nonempty ht]

theorem parseAfter_text (hs : hosts.Standard) (h : Normal hosts url) :
    parseAfter hosts url.scheme (authorityText hosts url.authority ++
      (url.pathText ++ (partText '?' url.query ++ partText '#' url.fragment))) = some url := by
  obtain ⟨rest,hpath,hwalk,hkept⟩ := walk_joined h.nonempty h.segments
  have hspan : (authorityText hosts url.authority ++ (url.pathText ++
      (partText '?' url.query ++ partText '#' url.fragment))).span (fun c => !isSlash c && c != '?' && c != '#') =
      (authorityText hosts url.authority,'/' :: (rest ++ (partText '?' url.query ++ partText '#' url.fragment))) := by
    have hall := fun c hc => (authorityText_chars hs h.settled c hc).1
    rw [List.span_eq_takeWhile_dropWhile,List.takeWhile_append_of_pos hall,List.dropWhile_append_of_pos hall,
      pathText,hpath]
    simp [isSlash]
  have hcut := cut_text (fun hm => absurd (hkept _ hm) (by decide)) (fun hm => absurd (hkept _ hm) (by decide))
    h.query h.fragment
  have hdrop : ∀ text, dropSlash ('/' :: text) = text := fun _ => rfl
  simp only [parseAfter,hspan,parseAuthority_text hs h.settled,hdrop,hcut,hwalk,Option.map_some]

theorem schemeIn_text (scheme : Scheme) (rest : List Char) :
    schemeIn (scheme.text ++ ':' :: rest) = some (scheme.text,rest) := by
  have hc : ':' ∉ scheme.text := by cases scheme <;> decide
  rw [schemeIn,splitOnce_front rest hc]
  cases scheme <;> rfl

theorem ofText_text (scheme : Scheme) : Scheme.ofText scheme.text = some scheme := by
  cases scheme <;> rfl

theorem serialize_visible (hs : hosts.Standard) (h : Normal hosts url) :
    ∀ c ∈ serialize hosts url, 0x20 < c.val := by
  have hscheme : ∀ scheme : Scheme, ∀ c ∈ scheme.text, 0x20 < c.val := by
    intro scheme
    cases scheme <;> exact forall_of_all (by decide)
  have hpart : ∀ {mark : Char} {part : Option (List Char)}, 0x20 < mark.val →
      (∀ text, part = some text → ∀ c ∈ text, 0x20 < c.val) → ∀ c ∈ partText mark part, 0x20 < c.val := by
    intro mark part hm hp c hc
    cases part with
    | none => cases hc
    | some text =>
      rcases List.mem_cons.mp hc with rfl | hc
      · exact hm
      · exact hp text rfl c hc
  intro c hc
  simp only [serialize,List.mem_append,List.mem_cons] at hc
  rcases hc with hc | rfl | rfl | rfl | hc | hc | hc | hc
  · exact hscheme url.scheme c hc
  · decide
  · decide
  · decide
  · exact (authorityText_chars hs h.settled c hc).2
  · obtain ⟨rest,hpath,_,hkept⟩ := walk_joined h.nonempty h.segments
    rw [pathText,hpath] at hc
    rcases List.mem_cons.mp hc with rfl | hc
    · decide
    · exact query_visible (path_query (kept_path (hkept c hc)))
  · exact hpart (by decide) (fun q hq c hc => query_visible (specialQuery_query (h.query q hq c hc))) c hc
  · exact hpart (by decide) (fun f hf c hc => fragment_visible (h.fragment f hf c hc)) c hc

/-- A URL in its form is read back from its text. -/
theorem parse_serialize (hs : hosts.Standard) (h : Normal hosts url) :
    parse hosts (serialize hosts url) = some url := by
  have hslashes : ∀ text : List Char, text ≠ [] → (∀ c ∈ text, isSlash c = false) → ∀ rest,
      ('/' :: '/' :: (text ++ rest)).dropWhile isSlash = text ++ rest := by
    intro text hn ht rest
    cases text with
    | nil => exact absurd rfl hn
    | cons c cs =>
      have hslash : isSlash '/' = true := by decide
      simp [hslash,ht c List.mem_cons_self]
  have hauthority := hslashes _ (authorityText_nonempty hs h.settled) (fun c hc => by
    have := (authorityText_chars hs h.settled c hc).1
    simp only [Bool.and_eq_true,Bool.not_eq_true'] at this
    exact this.1.1)
  rw [parse,clean_same (serialize_visible hs h),serialize,schemeIn_text]
  simp only [Option.bind_some,ofText_text,hauthority]
  exact parseAfter_text hs h

end Written

section Below
variable {base : Url H} {path front : List (List Char)} {reference : List Char}

/-- A reference to something below a folder, in its form. -/
structure Plain (reference : List Char) : Prop where
  scheme : schemeIn reference = none
  kept : ∀ c ∈ reference, kept c = true
  head : ∃ c rest, reference = c :: rest ∧ isSlash c = false
  dots : ∀ s ∈ reference.splitOn '/', dotSegment s = false

theorem setPath_joined (url : Url H) (hn : path ≠ [])
    (h : ∀ s ∈ path, (∀ c ∈ s, kept c = true ∧ c ≠ '/') ∧ dotSegment s = false) :
    setPath url (joinPath path) = { url with path := path } := by
  obtain ⟨rest,hpath,hwalk,hkept⟩ := walk_joined hn h
  have hbreak : isBreak '/' = false := by decide
  have hdrop : dropSlash ('/' :: rest) = rest := rfl
  simp only [setPath,hpath,List.filter_cons,hbreak,Bool.not_false,if_true,kept_filter hkept,hdrop,hwalk]

theorem join_plain (hosts : Hosts H) (h : Plain reference) (hb : base.path = front ++ [[]]) :
    join hosts base reference =
      some { base with path := front ++ reference.splitOn '/',query := none,fragment := none } := by
  have hclean : clean reference = reference :=
    clean_same (fun c hc => query_visible (path_query (kept_path (h.kept c hc))))
  have hcut : cut reference = ⟨reference,none,none⟩ :=
    cut_plain (fun hm => absurd (h.kept _ hm) (by decide)) (fun hm => absurd (h.kept _ hm) (by decide))
  have hback : '\\' ∉ reference := fun hm => absurd (h.kept _ hm) (by decide)
  have hsame : (reference.splitOn '/').map (encode pathSet) = reference.splitOn '/' := by
    refine (List.map_congr_left (fun t ht => ?_)).trans (List.map_id _)
    rw [← splitOnP_slash hback] at ht
    exact encode_same (fun c hc => h.kept c (mem_splitOnP ht hc).1)
  obtain ⟨c,rest,hr,hc⟩ := h.head
  have hauthority : authorityIn reference = none := by
    rw [hr]
    cases rest with
    | nil => rfl
    | cons d rest => simp [authorityIn,hc]
  rw [join,hclean,h.scheme]
  simp only [resolve,hclean,resolveClean,hauthority,hcut,hb,List.dropLast_concat]
  rw [splitOnP_slash hback,walk_plain h.dots,hsame,hr]
  simp [hc]

theorem joinPath_closed_iff (h : Normal hosts url) :
    "/".toList.isSuffixOf url.pathText = true ↔ ∃ front, url.path = front ++ [[]] := by
  obtain ⟨front,last,hp⟩ := (List.eq_nil_or_concat url.path).resolve_left h.nonempty
  rw [List.concat_eq_append] at hp
  have hjoin : url.pathText = joinPath front ++ '/' :: last := by simp [pathText,hp,joinPath]
  have hslash : '/' ∉ last := fun hm => ((h.segments last (by simp [hp])).1 _ hm).2 rfl
  constructor
  · intro hs
    refine ⟨front,?_⟩
    obtain ⟨more,hmore⟩ := List.isSuffixOf_iff_suffix.mp hs
    rcases List.eq_nil_or_concat last with rfl | ⟨init,c,rfl⟩
    · exact hp
    · exfalso
      rw [hjoin,List.concat_eq_append,← List.cons_append,← List.append_assoc] at hmore
      have he : ['/'] = [c] := List.append_inj_right' hmore rfl
      cases he
      exact hslash (by simp)
  · rintro ⟨front',hf⟩
    obtain ⟨rfl,hlast⟩ := List.append_inj' (hp.symm.trans hf) rfl
    cases hlast
    exact List.isSuffixOf_iff_suffix.mpr ⟨joinPath front,hjoin.symm⟩

end Below

end Terminald.Machine.Url
