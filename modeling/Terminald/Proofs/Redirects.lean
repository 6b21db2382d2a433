import Terminald.Machine.References
import Terminald.Proofs.Gate

namespace Terminald.Routes
open Machine Auth Assets

/-- The path of a request's target: a question mark or a number sign would end it. -/
structure RequestPath where
  rest : Text
  noQuery : '?' ∉ rest
  noFragment : '#' ∉ rest

def RequestPath.text (path : RequestPath) : Text := '/' :: path.rest

/-- The reference that a redirect sends. -/
def RequestPath.target (path : RequestPath) : Text := path.text ++ ['/']

def hasDots (path : Text) : Bool :=
  (path.splitOn '/').any (fun s => s == ".".toList || s == "..".toList)

/-- The extractor's own responses redirect nobody. -/
def World.NoRedirects (world : World) : Prop :=
  ∀ request, match world.upgrade request with
    | .ok response => response.isRedirect = false
    | .error rejection => rejection.isRedirect = false

variable {world : World} {state : AppState} {request : Request}

/-- What the classifier asks of a path's end. -/
theorem extensionless_ends {path : Text} {method : Method}
    (h : isExtensionlessWithoutTrailingSlash path method = true) :
    "/".toList.isSuffixOf path = false ∧ "/ws".toList.isSuffixOf path = false ∧
      "/auth/check".toList.isSuffixOf path = false := by
  unfold isExtensionlessWithoutTrailingSlash at h
  rw [Bool.and_eq_true,Bool.and_eq_true,Bool.and_eq_true,Bool.and_eq_true,Bool.not_eq_true',
    Bool.not_eq_true',Bool.not_eq_true'] at h
  exact ⟨h.1.1.1.2,h.1.1.2,h.1.2⟩

theorem beq_of_suffix {suffix path : Text} (h : suffix.isSuffixOf path = false) :
    (path == suffix) = false := by
  rw [beq_eq_false_iff_ne]
  intro heq
  subst heq
  rw [List.isSuffixOf_iff_suffix.mpr List.suffix_rfl] at h
  cases h

theorem dispatch_extensionless (hv : state.auth.validateHeaders request.headers = true)
    (h : isExtensionlessWithoutTrailingSlash request.path request.method = true) :
    dispatch world state request = (redirectPermanent (request.path ++ ['/']),[]) := by
  obtain ⟨_,hws,hcheck⟩ := extensionless_ends h
  unfold dispatch
  simp only [hws,hcheck,beq_of_suffix hws,beq_of_suffix hcheck,authorize_accepted hv,h,Bool.or_self,
    if_true,Bool.false_eq_true,if_false]

/-- Any other request is not redirected. -/
theorem dispatch_settled (hw : world.NoRedirects)
    (h : isExtensionlessWithoutTrailingSlash request.path request.method = false) :
    (dispatch world state request).1.isRedirect = false := by
  cases hv : state.auth.validateHeaders request.headers with
  | false =>
    rw [dispatch_rejected hv]
    rfl
  | true =>
    unfold dispatch
    simp only [authCheck,authorize_accepted hv,h]
    split
    · rfl
    · split
      · have := hw request
        split at this <;> rename_i he <;> rw [he] <;> exact this
      · simp only [Bool.false_eq_true,if_false]
        split <;> rfl

theorem redirectPermanent_isRedirect (location : Text) :
    (redirectPermanent location).isRedirect = (headerValue location).isSome := by
  unfold redirectPermanent
  cases headerValue location <;> rfl

theorem redirectPermanent_location {location : Text} (h : (headerValue location).isSome = true) :
    (redirectPermanent location).location = some location := by
  unfold redirectPermanent headerValue at *
  split at h
  · rename_i hs
    rw [if_pos hs]
    simp [Response.location,HeaderMap.get]
  · cases h

/-- A path with a slash at its end is not sent elsewhere. -/
theorem closed_settles (hw : world.NoRedirects) {front : Text} (h : request.path = front ++ ['/']) :
    (dispatch world state request).1.isRedirect = false := by
  apply dispatch_settled hw
  rw [Bool.eq_false_iff]
  intro he
  have hs : "/".toList.isSuffixOf request.path = true :=
    List.isSuffixOf_iff_suffix.mpr ⟨front,h.symm⟩
  rw [(extensionless_ends he).1] at hs
  cases hs

section Sites
variable {H : Type} (parseHost : Text → Option H) (base : Url H)

/-- Followed from the base, a redirect stays at its host and port, ends at the path with
a slash more, and is the last one. -/
def StaysOnSite (world : World) (state : AppState) (request : Request) : Prop :=
  (dispatch world state request).1.isRedirect = true →
    ∃ location url, (dispatch world state request).1.location = some location ∧
      Url.resolve parseHost base location = some url ∧ url.scheme = base.scheme ∧
      url.authority.host = base.authority.host ∧ url.authority.port = base.authority.port ∧
      (hasDots request.path = false → url.pathText = request.path ++ ['/']) ∧
      (dispatch world state { request with path := url.pathText }).1.isRedirect = false

def NamesOwn (authority : Text) : Prop :=
  ∃ own, Url.parseAuthority parseHost base.scheme authority = some own ∧
    own.host = base.authority.host ∧ own.port = base.authority.port

/-- The path is not redirected, or it does not begin like an authority and the URL
rules keep it as it is. -/
def Harmless (path : RequestPath) : Prop :=
  isExtensionlessWithoutTrailingSlash path.text .get = false ∨ headerValue path.target = none ∨
    match Url.authorityIn (Url.clean path.target) with
    | none => hasDots path.text = true ∨ Url.settled path.text = true
    | some (authority,_) => hasDots path.text = true ∧ NamesOwn parseHost base authority

variable {parseHost base}

theorem target_clean (path : RequestPath) :
    Url.clean path.target = '/' :: (path.rest.filter (fun c => !Url.isBreak c) ++ ['/']) :=
  Url.clean_slashed path.rest

theorem filter_plain {c : Char} {text : Text} (h : c ∉ text) :
    c ∉ text.filter (fun c => !Url.isBreak c) :=
  fun hm => h (List.mem_of_mem_filter hm)

theorem target_closed {path : RequestPath} {url : Url H}
    (h : Url.resolve parseHost base path.target = some url) : ∃ front, url.pathText = front ++ ['/'] := by
  rw [Url.resolve,target_clean] at h
  exact Url.resolve_closed (filter_plain path.noQuery) (filter_plain path.noFragment) h

/-- Where the reference leads, by what it begins with. -/
theorem target_resolves_iff (path : RequestPath) :
    (∃ url, Url.resolve parseHost base path.target = some url ∧ url.scheme = base.scheme ∧
      url.authority.host = base.authority.host ∧ url.authority.port = base.authority.port ∧
      (hasDots path.text = false → url.pathText = path.target)) ↔
      match Url.authorityIn (Url.clean path.target) with
      | none => hasDots path.text = true ∨ Url.settled path.text = true
      | some (authority,_) => hasDots path.text = true ∧ NamesOwn parseHost base authority := by
  have hq := filter_plain path.noQuery
  have hf := filter_plain path.noFragment
  rw [Url.resolve,target_clean]
  cases ha : Url.authorityIn ('/' :: (path.rest.filter (fun c => !Url.isBreak c) ++ ['/'])) with
  | none =>
    rw [Url.resolve_rooted ha (by simp [hq]) (by simp [hf])]
    have hpath := Url.walked_settled_iff path.rest
    cases hd : hasDots path.text with
    | true => simp
    | false =>
      simp only [Option.some.injEq,exists_eq_left',true_and,true_implies,Bool.false_eq_true,false_or]
      exact hpath
  | some parts =>
    obtain ⟨authority,rest⟩ := parts
    rw [Url.resolve_authority ha (by simp [hq]) (by simp [hf])]
    have hne := Url.authority_path_ne ha
    constructor
    · intro hex
      obtain ⟨url,h,_,hhost,hport,hp⟩ := hex
      obtain ⟨own,hown,rfl⟩ := Option.map_eq_some_iff.mp h
      refine ⟨?_,own,hown,hhost,hport⟩
      rw [← Bool.not_eq_false]
      exact fun hd => hne (hp hd)
    · intro hex
      obtain ⟨hd,own,hown,hhost,hport⟩ := hex
      rw [hown]
      exact ⟨_,rfl,rfl,hhost,hport,fun h => by simp [hd] at h⟩

/-- Every redirect of a path stays on the site exactly when the path is harmless. -/
theorem redirect_stays_iff {headers : HeaderMap} (hw : world.NoRedirects)
    (hv : state.auth.validateHeaders headers = true) (path : RequestPath) :
    StaysOnSite parseHost base world state ⟨.get,path.text,headers⟩ ↔ Harmless parseHost base path := by
  cases he : isExtensionlessWithoutTrailingSlash path.text .get with
  | false =>
    have : (dispatch world state ⟨.get,path.text,headers⟩).1.isRedirect = false := dispatch_settled hw he
    simp [StaysOnSite,Harmless,this,he]
  | true =>
    have hd : dispatch world state ⟨.get,path.text,headers⟩ = (redirectPermanent path.target,[]) :=
      dispatch_extensionless hv he
    have hred : (redirectPermanent path.target).isRedirect = (headerValue path.target).isSome :=
      redirectPermanent_isRedirect path.target
    unfold StaysOnSite Harmless
    rw [hd]
    cases hh : headerValue path.target with
    | none => simp [hred,hh]
    | some value =>
      have hloc : (redirectPermanent path.target).location = some path.target :=
        redirectPermanent_location (by simp [hh])
      rw [hh] at hred
      rw [← target_resolves_iff]
      constructor
      · intro h
        obtain ⟨location,url,hl,hurl,hs,hhost,hport,hp,_⟩ := h hred
        obtain rfl := Option.some.inj (hloc.symm.trans hl)
        exact .inr (.inr ⟨url,hurl,hs,hhost,hport,hp⟩)
      · rintro (h | h | ⟨url,hurl,hs,hhost,hport,hp⟩) _
        · rw [he] at h
          cases h
        · cases h
        · obtain ⟨front,hfront⟩ := target_closed hurl
          exact ⟨path.target,url,hloc,hurl,hs,hhost,hport,hp,closed_settles hw hfront⟩

end Sites

/-- A host of letters, digits, hyphens and dots. -/
def asciiHost (text : Text) : Option Text :=
  if text.all (fun c => c.isAlphanum || c == '-' || c == '.') then some (text.map Char.toLower) else none

def site (path : List Text) : Url Text := ⟨.http,⟨[],[],"host.example".toList,none⟩,path,none,none⟩

def openState : AppState := ⟨.disabled,.embedded,["bash"]⟩

theorem bareWorld_noRedirects : bareWorld.NoRedirects := fun _ => rfl

theorem redirect_stays_aaa :
    StaysOnSite asciiHost (site ["aaa".toList]) bareWorld openState ⟨.get,"/aaa".toList,[]⟩ :=
  (redirect_stays_iff bareWorld_noRedirects rfl ⟨"aaa".toList,by decide,by decide⟩).mpr
    (.inr (.inr (.inr (by decide))))

def evilTarget : Text := "//evil.example/x/".toList

def evilSite : Url Text := site [[],"evil.example".toList,"x".toList]

/-- `GET //evil.example/x` sends the client to another host. -/
theorem redirect_leaves :
    (dispatch bareWorld openState ⟨.get,"//evil.example/x".toList,[]⟩).1.location = some evilTarget ∧
    (Url.resolve asciiHost evilSite evilTarget).map (fun url => (url.authority.host,url.pathText)) =
      some ("evil.example".toList,"/x/".toList) ∧
    ¬ StaysOnSite asciiHost evilSite bareWorld openState ⟨.get,"//evil.example/x".toList,[]⟩ := by
  have hheader : (headerValue evilTarget).isSome = true := by decide
  have hd : dispatch bareWorld openState ⟨.get,"//evil.example/x".toList,[]⟩ =
      (redirectPermanent evilTarget,[]) := dispatch_extensionless (by decide) (by decide)
  have hloc : (redirectPermanent evilTarget).location = some evilTarget :=
    redirectPermanent_location hheader
  have hurl : (Url.resolve asciiHost evilSite evilTarget).map
      (fun url => (url.authority.host,url.pathText)) =
        some ("evil.example".toList,"/x/".toList) := by decide
  refine ⟨by rw [hd]; exact hloc,hurl,fun h => ?_⟩
  rw [StaysOnSite,hd] at h
  obtain ⟨location,url,hl,hr,_,hhost,_⟩ := h ((redirectPermanent_isRedirect evilTarget).trans hheader)
  obtain rfl := Option.some.inj (hloc.symm.trans hl)
  rw [hr,Option.map_some] at hurl
  have : evilSite.authority.host = "evil.example".toList :=
    hhost.symm.trans (congrArg Prod.fst (Option.some.inj hurl))
  exact absurd this (by decide)

end Terminald.Routes
