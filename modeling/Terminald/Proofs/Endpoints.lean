import Terminald.Machine.UrlRoundTrip
import Terminald.Model.Routes
import Terminald.Model.Urls

namespace Terminald.Routes
open Machine Auth

/-- What `dispatch` does on its way to a web socket. -/
def webSocket (world : World) (state : AppState) (request : Request) : Response × List Action :=
  match state.auth.authorizeRequest request.headers with
  | .error _ => (rejection,[])
  | .ok () =>
    match world.upgrade request with
    | .error rejection => (rejection,[])
    | .ok response => (response,[.handleSocket state.command])

variable {world : World} {state : AppState} {request : Request} {front : Text}

theorem dispatch_webSocket (h : request.path = front ++ "/ws".toList) :
    dispatch world state request = webSocket world state request := by
  have hcheck : "/auth/check".toList.isSuffixOf (front ++ "/ws".toList) = false := by
    simp [List.isSuffixOf,List.isPrefixOf]
  have hne : (front ++ "/ws".toList == "/auth/check".toList) = false := by
    rw [beq_eq_false_iff_ne]
    intro he
    rw [he] at hcheck
    exact absurd hcheck (by decide)
  have hws : "/ws".toList.isSuffixOf (front ++ "/ws".toList) = true :=
    List.isSuffixOf_iff_suffix.mpr ⟨front,rfl⟩
  simp only [dispatch,h,hcheck,hne,hws,Bool.or_self,Bool.true_or,Bool.false_eq_true,if_true,if_false]
  rfl

theorem dispatch_authCheck (h : request.path = front ++ "/auth/check".toList) :
    dispatch world state request = (authCheck state.auth request,[]) := by
  have hcheck : "/auth/check".toList.isSuffixOf (front ++ "/auth/check".toList) = true :=
    List.isSuffixOf_iff_suffix.mpr ⟨front,rfl⟩
  simp only [dispatch,h,hcheck,Bool.true_or,if_true]

end Terminald.Routes

namespace Terminald.Urls
open Machine Auth Url Routes

/-- With one slash more where none is at the end. -/
def slashed (path : Text) : Text := if endsWithSlash path then path else path ++ ['/']

def webSocketScheme : Scheme → Scheme
  | .http | .ws => .ws
  | .https | .wss => .wss

/-- A URL of the server's, with nothing behind its path. -/
structure Endpoint {H : Type} (url : Url H) (scheme : Scheme) (authority : Authority H) (path : Text) : Prop where
  scheme : url.scheme = scheme
  authority : url.authority = authority
  path : url.pathText = path
  query : url.query = none
  fragment : url.fragment = none

variable {H : Type} {hosts : Hosts H} {url : Url H} {text : Text} {front : List Text} {refusal : Text → String}

theorem plain_ws : Plain "ws".toList :=
  ⟨by decide,forall_of_all (by decide),⟨'w',['s'],rfl,by decide⟩,by decide⟩

theorem plain_check : Plain "auth/check".toList :=
  ⟨by decide,forall_of_all (by decide),⟨'a',"uth/check".toList,rfl,by decide⟩,by decide⟩

theorem joinPath_below (front : List Text) (reference : Text) :
    joinPath (front ++ reference.splitOn '/') = joinPath (front ++ [[]]) ++ reference := by
  have hsplit := joinPath_splitOn reference
  simp only [joinPath,List.flatMap_append] at hsplit ⊢
  rw [hsplit]
  simp

/-- Both ways end in a folder with the path of the page. -/
theorem close_path (h : Normal hosts url) :
    ∃ front, (if endsWithSlash url.pathText then url else setPath url (url.pathText ++ ['/'])) =
        { url with path := front ++ [[]] } ∧
      joinPath (front ++ [[]]) = slashed url.pathText ∧ Normal hosts { url with path := front ++ [[]] } := by
  unfold slashed
  split_ifs with hs
  · obtain ⟨front,hf⟩ := (joinPath_closed_iff h).mp hs
    refine ⟨front,by rw [← hf],by rw [← hf]; rfl,?_⟩
    rw [← hf]
    exact h
  · have hsegments : ∀ s ∈ url.path ++ [[]], (∀ c ∈ s, kept c = true ∧ c ≠ '/') ∧ dotSegment s = false := by
      intro s hs
      rcases List.mem_append.mp hs with hs | hs
      · exact h.segments s hs
      · rw [List.mem_singleton.mp hs]
        exact ⟨by simp,by decide⟩
    have hjoin : joinPath (url.path ++ [[]]) = url.pathText ++ ['/'] := by simp [joinPath,pathText]
    refine ⟨url.path,?_,hjoin,?_⟩
    · rw [← hjoin]
      exact setPath_joined url (by simp) hsegments
    · exact ⟨h.host,h.username,h.password,h.port,by simp,hsegments,h.query,h.fragment⟩

/-- The server's URL under the folder. -/
def Url.at (url : Url H) (scheme : Scheme) (front : List Text) (reference : Text) : Url H :=
  ⟨scheme,url.authority,front ++ reference.splitOn '/',none,none⟩

theorem endpoint_at (url : Url H) (scheme : Scheme) (reference : Text)
    (hf : joinPath (front ++ [[]]) = slashed url.pathText) :
    Endpoint (Url.at url scheme front reference) scheme url.authority (slashed url.pathText ++ reference) :=
  ⟨rfl,rfl,by rw [← hf,← joinPath_below]; rfl,rfl,rfl⟩

theorem join_at (url : Url H) (front : List Text) {reference : Text} (hr : Plain reference) :
    join hosts { url with path := front ++ [[]] } reference = some (Url.at url url.scheme front reference) :=
  join_plain hosts hr rfl

/-- The two schemes have the same default port, so the port stays. -/
theorem setScheme_at (h : Normal hosts url) (front : List Text) (reference : Text) :
    setScheme (Url.at url url.scheme front reference) (webSocketScheme url.scheme) =
      Url.at url (webSocketScheme url.scheme) front reference := by
  have hdefault : (webSocketScheme url.scheme).defaultPort = url.scheme.defaultPort := by
    cases url.scheme <;> rfl
  have hne : (Url.at url url.scheme front reference).authority.port ≠
      some (webSocketScheme url.scheme).defaultPort := by
    intro he
    exact (h.port _ he).2 hdefault
  simp only [setScheme,if_neg hne]
  rfl

theorem ensureTrailingSlash_ok (hp : parse hosts text = some url)
    (hc : (if endsWithSlash url.pathText then url else setPath url (url.pathText ++ ['/'])) =
      { url with path := front ++ [[]] }) :
    ensureTrailingSlash (standard hosts refusal) text = .ok (serialize hosts { url with path := front ++ [[]] }) := by
  simp only [ensureTrailingSlash,standard,hp,Option.elim_some,bind,Except.bind,pure,Except.pure]
  exact congrArg (fun base => Except.ok (serialize hosts base)) hc

/-- The page reads its own text back and goes on from there. -/
theorem newUrl_ok (hs : hosts.Standard) {reference : Text} (hr : Plain reference)
    (hn : Normal hosts { url with path := front ++ [[]] }) :
    newUrl (standard hosts refusal) reference (serialize hosts { url with path := front ++ [[]] }) =
      .ok (Url.at url url.scheme front reference) := by
  simp only [newUrl,standard,parse_serialize hs hn,Option.elim_some,bind,Except.bind,join_at url front hr]

theorem resolveWebSocketUrl_ok (hs : hosts.Standard) (hp : parse hosts text = some url)
    (hscheme : url.scheme = .http ∨ url.scheme = .https)
    (hc : (if endsWithSlash url.pathText then url else setPath url (url.pathText ++ ['/'])) =
      { url with path := front ++ [[]] }) (hn : Normal hosts { url with path := front ++ [[]] }) :
    resolveWebSocketUrl (standard hosts refusal) text =
      .ok (serialize hosts (Url.at url (webSocketScheme url.scheme) front "ws".toList)) := by
  have hset := setScheme_at (parse_normal hp) front "ws".toList
  have hname : Scheme.ofText (if url.scheme.text = "https".toList then "wss".toList else "ws".toList) =
      some (webSocketScheme url.scheme) := by
    rcases hscheme with h | h <;> rw [h] <;> rfl
  simp only [resolveWebSocketUrl,ensureTrailingSlash_ok hp hc,newUrl_ok hs plain_ws hn,bind,Except.bind,
    pure,Except.pure]
  have htext : (Url.at url url.scheme front "ws".toList).scheme = url.scheme := rfl
  simp only [standard,htext,hname,Option.map_some,Option.getD_some,hset]

theorem resolveWsUrl_ok (hp : parse hosts text = some url)
    (hscheme : url.scheme = .http ∨ url.scheme = .https)
    (hc : (if endsWithSlash url.pathText then url else setPath url (url.pathText ++ ['/'])) =
      { url with path := front ++ [[]] }) :
    resolveWsUrl (standard hosts refusal) text =
      .ok (Url.at url (webSocketScheme url.scheme) front "ws".toList) := by
  have hset := setScheme_at (parse_normal hp) front "ws".toList
  have hparse : (standard hosts refusal).parse text = .ok url := by simp only [standard,hp,Option.elim_some]
  have hbase : (if endsWithSlash ((standard hosts refusal).path url) then url
      else (standard hosts refusal).setPath url ((standard hosts refusal).path url ++ ['/'])) =
      { url with path := front ++ [[]] } := hc
  have hjoin : (standard hosts refusal).join { url with path := front ++ [[]] } "ws".toList =
      .ok (Url.at url url.scheme front "ws".toList) := by
    simp only [standard,join_at url front plain_ws,Option.elim_some]
  simp only [resolveWsUrl,hparse,Except.mapError,bind,Except.bind,hbase,hjoin]
  have htext : (standard hosts refusal).scheme (Url.at url url.scheme front "ws".toList) = url.scheme.text := rfl
  rw [htext]
  rcases hscheme with h | h
  · rw [h] at hset ⊢
    exact congrArg Except.ok hset
  · rw [h] at hset ⊢
    exact congrArg Except.ok hset

/-- From one page the client and the browser come to the same web socket, the browser to its
check beside it, and the server knows both. -/
theorem endpoints_agree (hs : hosts.Standard) (refusal : Text → String)
    (hp : parse hosts text = some url) (hscheme : url.scheme = .http ∨ url.scheme = .https) :
    ∃ ws check : Url H,
      resolveWsUrl (standard hosts refusal) text = .ok ws ∧
      resolveWebSocketUrl (standard hosts refusal) text = .ok (serialize hosts ws) ∧
      resolveAuthCheckUrl (standard hosts refusal) text = .ok (serialize hosts check) ∧
      Endpoint ws (webSocketScheme url.scheme) url.authority (slashed url.pathText ++ "ws".toList) ∧
      Endpoint check url.scheme url.authority (slashed url.pathText ++ "auth/check".toList) ∧
      ∀ world state request,
        (request.path = ws.pathText → dispatch world state request = webSocket world state request) ∧
        (request.path = check.pathText → dispatch world state request = (authCheck state.auth request,[])) := by
  obtain ⟨front,hc,hf,hn⟩ := close_path (parse_normal hp)
  have hfolder : slashed url.pathText = joinPath front ++ ['/'] := by simp [← hf,joinPath]
  have hws := endpoint_at url (webSocketScheme url.scheme) "ws".toList hf
  have hcheck := endpoint_at url url.scheme "auth/check".toList hf
  refine ⟨_,_,resolveWsUrl_ok hp hscheme hc,resolveWebSocketUrl_ok hs hp hscheme hc hn,?_,hws,hcheck,?_⟩
  · simp only [resolveAuthCheckUrl,ensureTrailingSlash_ok hp hc,newUrl_ok hs plain_check hn,bind,Except.bind,
      pure,Except.pure]
    rfl
  · intro world state request
    constructor
    · intro hr
      refine dispatch_webSocket (?_ : _ = joinPath front ++ _)
      rw [hr,hws.path,hfolder,List.append_assoc]
      rfl
    · intro hr
      refine dispatch_authCheck (?_ : _ = joinPath front ++ _)
      rw [hr,hcheck.path,hfolder,List.append_assoc]
      rfl

/-- Names in lower case, which stand for themselves. -/
def domains : Hosts Text where
  parse text :=
    if text ≠ [] ∧ text.all (fun c => c.isLower || c.isDigit || c == '.' || c == '-') then some text else none
  text name := name

theorem domains_standard : domains.Standard := by
  have named : ∀ {text name : Text}, domains.parse text = some name →
      name = text ∧ text ≠ [] ∧ ∀ c ∈ text, hostChar c = true ∧ c ≠ ':' ∧ c ≠ '[' := by
    intro text name h
    simp only [domains,Option.ite_none_right_eq_some,Option.some.injEq] at h
    refine ⟨h.2.symm,h.1.1,fun c hc => ?_⟩
    have hchar := List.all_eq_true.mp h.1.2 c hc
    have hmarks : ∀ m ∈ "/\\?#@:[".toList, (m.isLower || m.isDigit || m == '.' || m == '-') = false :=
      forall_of_all (by decide)
    have hout : ∀ m ∈ "/\\?#@:[".toList, c ≠ m := by
      rintro m hm rfl
      rw [hmarks c hm] at hchar
      cases hchar
    have hvisible : 0x20 < c.val := by
      simp only [Bool.or_eq_true,beq_iff_eq] at hchar
      rcases hchar with ((hc | hc) | rfl) | rfl
      · have hlow : (decide ('a' ≤ c) && decide (c ≤ 'z')) = true := hc
        exact Std.lt_of_lt_of_le (by decide) (of_decide_eq_true (Bool.and_eq_true_iff.mp hlow).1)
      · simp only [Char.isDigit,Bool.and_eq_true,decide_eq_true_eq] at hc
        exact Std.lt_of_lt_of_le (by decide) hc.1
      · decide
      · decide
    refine ⟨?_,hout _ (by decide),hout _ (by decide)⟩
    simp only [hostChar,hvisible,decide_true,Bool.true_and,Bool.not_eq_true']
    rw [Bool.eq_false_iff]
    intro hm
    exact hout c (List.mem_append_left ":[".toList (List.contains_iff_mem.mp hm)) rfl
  refine ⟨?_,?_,?_,?_⟩
  · intro text name h
    obtain ⟨rfl,_⟩ := named h
    exact h
  · intro text name h c hc
    obtain ⟨rfl,_,hchars⟩ := named h
    exact (hchars c hc).1
  · intro text name h
    obtain ⟨rfl,hn,_⟩ := named h
    exact hn
  · intro text name h
    obtain ⟨rfl,_,hchars⟩ := named h
    have plain : ∀ {t : Text}, (∀ c ∈ t, c ≠ ':' ∧ c ≠ '[') → Url.enclosed false t = true := by
      intro t ht
      induction t with
      | nil => rfl
      | cons c cs ih =>
        have hc := ht c List.mem_cons_self
        simpa [Url.enclosed,hc.1,hc.2] using ih (fun d hd => ht d (List.mem_cons_of_mem c hd))
    exact plain (fun c hc => (hchars c hc).2)

def pageText : Text := "https://me:x@example.org:8443/term/a?q=1#top".toList

theorem endpoints_agree_page : ∃ ws : Url Text,
    resolveWsUrl (standard domains (fun _ => "")) pageText = .ok ws ∧
    resolveWebSocketUrl (standard domains (fun _ => "")) pageText =
      .ok "wss://me:x@example.org:8443/term/a/ws".toList := by
  have hp : parse domains pageText = some ⟨.https,⟨"me".toList,"x".toList,"example.org".toList,some 8443⟩,
      ["term".toList,"a".toList],some "q=1".toList,some "top".toList⟩ := by decide
  obtain ⟨ws,_,hclient,hpage,_,hws,_⟩ := endpoints_agree domains_standard (fun _ => "") hp (.inr rfl)
  refine ⟨ws,hclient,hpage.trans ?_⟩
  rw [serialize,hws.scheme,hws.authority,hws.path,hws.query,hws.fragment]
  rfl

end Terminald.Urls
