import Terminald.Model.Payload
import Terminald.Model.Serving
import Terminald.Proofs.Gate
import Terminald.Proofs.Inside

namespace Terminald.Server
open Machine Auth Assets Routes

/-- The request of a stranger does not count. -/
def known (config : ServerConfig) : Label → Bool
  | .request _ request => config.auth.validateHeaders request.headers
  | .upgraded _ _ | .session _ _ => true

def admitted (config : ServerConfig) (x : Request × Response) : Bool :=
  config.auth.validateHeaders x.1.headers

/-- Nothing but the answers to strangers tells the states apart. -/
structure Alike (config : ServerConfig) (s t : State) : Prop where
  connections : t.connections = s.connections
  looked : t.looked = s.looked
  answered : t.answered = s.answered.filter (admitted config)

/-- A web socket comes from an admitted request, is there for the configured command, and its
session does what a session does alone. -/
structure Granted (json : Protocol.Json) (config : ServerConfig) (c : Connection) : Prop where
  headers : config.auth.validateHeaders c.request.headers = true
  path : "/ws".toList <:+ c.request.path
  command : c.command = config.command
  session : ∀ session, c.socket = .handled session → (Session.system json).Reachable session

structure Guarded (json : Protocol.Json) (config : ServerConfig) (s : State) : Prop where
  connections : ∀ c ∈ s.connections, Granted json config c
  looked : ∀ file, .file file ∈ s.looked →
    ∃ root relative, config.assets.externalDist = some root ∧ Inside root relative file
  answered : ∀ x ∈ s.answered, admitted config x = false → x.2 = rejection

theorem load_inside {config : AssetConfig} {files : Files} {requestPath file : Text}
    (hf : .file file ∈ (config.load files requestPath).2) :
    ∃ root relative, config.externalDist = some root ∧ Inside root relative file := by
  unfold AssetConfig.load at hf
  split at hf
  · cases hf
  · rename_i hparent
    have hparts := assetRelativePath_parts (fun h => hparent (hasParentSegment_iff.mpr h))
    have hin := fun root => @join_below root _ (assetRelativePath_relative requestPath) hparts
    dsimp only at hf
    split at hf
    · simp at hf
    · rename_i root hroot
      refine ⟨root,assetRelativePath requestPath,hroot,?_⟩
      split at hf
      · obtain rfl := Lookup.file.inj (List.mem_singleton.mp hf)
        exact hin root
      · rcases List.mem_cons.mp hf with he | he
        · obtain rfl := Lookup.file.inj he
          exact hin root
        · simp at he

section Actions
variable {world : World} {app : AppState} {request : Request}

/-- What an action may be, and of which request. -/
inductive Permitted (app : AppState) (request : Request) : Action → Prop
  | lookup {place : Lookup} (h : ∀ file, place = .file file →
      ∃ root relative, app.assets.externalDist = some root ∧ Inside root relative file) :
      Permitted app request (.lookup place)
  | handleSocket (h : app.auth.validateHeaders request.headers = true) (hp : "/ws".toList <:+ request.path) :
      Permitted app request (.handleSocket app.command)

theorem dispatch_permitted : ∀ a ∈ (dispatch world app request).2, Permitted app request a := by
  intro a ha
  cases hv : app.auth.validateHeaders request.headers with
  | false =>
    rw [dispatch_rejected hv] at ha
    cases ha
  | true =>
    unfold dispatch at ha
    dsimp only at ha
    split at ha
    · cases ha
    · split at ha
      · rename_i hws
        rw [authorize_accepted hv] at ha
        dsimp only at ha
        split at ha
        · cases ha
        · obtain rfl := List.mem_singleton.mp ha
          refine .handleSocket hv ?_
          rcases Bool.or_eq_true_iff.mp hws with h | h
          · exact List.isSuffixOf_iff_suffix.mp h
          · exact (eq_of_beq h) ▸ List.suffix_refl _
      · rw [authorize_accepted hv] at ha
        dsimp only at ha
        split at ha
        · cases ha
        · have looked : ∀ place ∈ (app.assets.load world.files request.path).2, Permitted app request (.lookup place) := by
            intro place hp
            refine .lookup (fun file hf => ?_)
            subst hf
            exact load_inside hp
          split at ha <;> rename_i hl <;> rw [hl] at looked <;>
            (obtain ⟨place,hp,rfl⟩ := List.mem_map.mp ha; exact looked place hp)

end Actions

section Runs
variable {json : Protocol.Json} {config : ServerConfig} {s t u : State} {l : Label} {ls : List Label}

theorem serve_state : (serve config).2 = app config := by
  unfold serve
  split <;> rfl

/-- Actions do the same to states that look alike, and are not seen in the answers. -/
theorem act_alike (request : Request) (actions : List Action) (h : Alike config s t) :
    Alike config (actions.foldl (State.act request) s) (actions.foldl (State.act request) t) := by
  induction actions generalizing s t with
  | nil => exact h
  | cons a as ih =>
    refine ih ?_
    cases a with
    | lookup place => exact ⟨h.connections,congrArg (· ++ [place]) h.looked,h.answered⟩
    | handleSocket command =>
      exact ⟨congrArg (· ++ [(⟨request,command,.upgrading⟩ : Connection)]) h.connections,h.looked,h.answered⟩

theorem answer_alike (h : Alike config s t) {request : Request} (hv : config.auth.validateHeaders request.headers = true)
    (response : Response) : Alike config (s.answer request response) (t.answer request response) := by
  refine ⟨h.connections,h.looked,?_⟩
  simp [State.answer,h.answered,admitted,hv]

theorem turn_alike (h : Alike config s t) {i : Nat} {turn : Connection → Option Connection}
    (hs : s.turn i turn = some u) : ∃ v, t.turn i turn = some v ∧ Alike config u v := by
  obtain ⟨c,hc,rfl⟩ := Option.map_eq_some_iff.mp hs
  refine ⟨{ t with connections := t.connections.set i c },?_,?_⟩
  · simp only [State.turn,h.connections,hc,Option.map_some]
  · exact ⟨congrArg (·.set i c) h.connections,h.looked,h.answered⟩

theorem step_alike (h : Alike config s t) (hk : known config l = true)
    (hs : (system json config).step s l = some u) : ∃ v, (system json config).step t l = some v ∧ Alike config u v := by
  cases l with
  | request world request =>
    cases hs
    exact ⟨_,rfl,act_alike request _ (answer_alike h hk _)⟩
  | upgraded i result | session i l => exact turn_alike h hs

theorem stranger_alike (h : Alike config s t) (hk : known config l = false)
    (hs : (system json config).step s l = some u) : Alike config u t := by
  cases l with
  | request world request =>
    have hd : dispatch world (serve config).2 request = (rejection,[]) := by
      rw [serve_state]
      exact dispatch_rejected hk
    simp only [system,step,hd,List.foldl_nil] at hs
    obtain rfl := Option.some.inj hs
    refine ⟨h.connections,h.looked,?_⟩
    have hx : admitted config (request,rejection) = false := hk
    simp [State.answer,h.answered,hx]
  | upgraded i result | session i l => cases hk

theorem turn_guarded (h : Guarded json config s) {i : Nat} {turn : Connection → Option Connection}
    (hturn : ∀ c d, Granted json config c → turn c = some d → Granted json config d)
    (hs : s.turn i turn = some t) : Guarded json config t := by
  obtain ⟨d,hd,rfl⟩ := Option.map_eq_some_iff.mp hs
  obtain ⟨c,hc,hcd⟩ := Option.bind_eq_some_iff.mp hd
  refine ⟨fun e he => ?_,h.looked,h.answered⟩
  rcases List.mem_or_eq_of_mem_set he with he | rfl
  · exact h.connections e he
  · exact hturn c _ (h.connections c (List.mem_of_getElem? hc)) hcd

theorem upgraded_granted {c d : Connection} {result : Except Error Unit} (h : Granted json config c)
    (hu : c.upgraded result = some d) : Granted json config d := by
  unfold Connection.upgraded at hu
  split at hu <;> cases hu
  · refine ⟨h.headers,h.path,h.command,fun session he => ?_⟩
    cases he
    exact System.reachable_start _
  · exact ⟨h.headers,h.path,h.command,fun session he => by cases he⟩

theorem step_granted {c d : Connection} {l : Session.Label} (h : Granted json config c)
    (hs : c.step json l = some d) : Granted json config d := by
  unfold Connection.step at hs
  split at hs
  · rename_i session hc
    obtain ⟨next,hn,rfl⟩ := Option.map_eq_some_iff.mp hs
    refine ⟨h.headers,h.path,h.command,fun session' he => ?_⟩
    cases he
    exact (h.session session hc).step hn
  · cases hs

theorem act_guarded {request : Request} {a : Action} (h : Guarded json config s)
    (hp : Permitted (app config) request a) : Guarded json config (s.act request a) := by
  cases hp with
  | lookup hfile =>
    refine ⟨h.connections,fun file hf => ?_,h.answered⟩
    rcases List.mem_append.mp hf with hf | hf
    · exact h.looked file hf
    · exact hfile file (List.mem_singleton.mp hf).symm
  | handleSocket hv hpath =>
    refine ⟨fun c hc => ?_,h.looked,h.answered⟩
    rcases List.mem_append.mp hc with hc | hc
    · exact h.connections c hc
    · obtain rfl := List.mem_singleton.mp hc
      exact ⟨hv,hpath,rfl,fun session he => by cases he⟩

theorem acts_guarded {request : Request} {actions : List Action} (h : Guarded json config s)
    (hp : ∀ a ∈ actions, Permitted (app config) request a) :
    Guarded json config (actions.foldl (State.act request) s) := by
  induction actions generalizing s with
  | nil => exact h
  | cons a as ih =>
    exact ih (act_guarded h (hp a List.mem_cons_self)) (fun b hb => hp b (List.mem_cons_of_mem a hb))

theorem step_guarded (h : Guarded json config s) (hs : (system json config).step s l = some t) :
    Guarded json config t := by
  cases l with
  | request world request =>
    simp only [system,step,serve_state,Option.some.injEq] at hs
    subst hs
    refine acts_guarded ⟨h.connections,h.looked,fun x hx ha => ?_⟩ dispatch_permitted
    rcases List.mem_append.mp hx with hx | hx
    · exact h.answered x hx ha
    · obtain rfl := List.mem_singleton.mp hx
      exact congrArg Prod.fst (@dispatch_rejected _ (app config) _ ha)
  | upgraded i result => exact turn_guarded h (fun _ _ => upgraded_granted) hs
  | session i l => exact turn_guarded h (fun _ _ => step_granted) hs

end Runs

/-- Without its requests from strangers a run of the server is one that ends in the same web sockets
and lookups, and with the same answers to all others; the strangers all got the challenge. Web
sockets are those of admitted requests, and no file outside the external folder is ever read. -/
theorem strangers_traceless {json : Protocol.Json} {config : ServerConfig} {ls : List Label} {s : State}
    (hr : (system json config).run (system json config).start ls = some s) :
    (∃ t, (system json config).run (system json config).start (ls.filter (known config)) = some t ∧
      t.connections = s.connections ∧ t.looked = s.looked ∧
      t.answered = s.answered.filter (admitted config)) ∧
    Guarded json config s := by
  constructor
  · obtain ⟨t,ht,h⟩ := System.run_sift (m := system json config) (c := fun _ l => known config l)
      (R := Alike config) ⟨rfl,rfl,rfl⟩ (fun _ _ _ _ _ h hk hs => stranger_alike h hk hs)
      (fun _ _ _ _ _ h hk hs => step_alike h hk hs) hr
    rw [System.sift_filter hr] at ht
    exact ⟨t,ht,h.connections,h.looked,h.answered⟩
  · refine System.Reachable.invariant (m := system json config) (I := Guarded json config) ⟨ls,hr⟩ ?_
      (fun _ _ _ _ h hs => step_guarded h hs)
    exact ⟨List.forall_mem_nil _,fun file hf => absurd hf List.not_mem_nil,List.forall_mem_nil _⟩

/-- A folder with every file, and an extractor that takes every request. -/
def openHouse : World := ⟨⟨fun _ => some [104],fun _ => none⟩,fun _ => .ok (.ofStatus 101)⟩

def guardedServer : ServerConfig :=
  ⟨none,.unspecified,7681,["bash"],.basic user,.withExternalDist "/srv".toList⟩

/-- A stranger asks for a web socket and a file, and the user for a web socket. -/
def strangerRun : List Label :=
  [.request openHouse ⟨.get,"/ws".toList,[]⟩,.request openHouse ⟨.get,"/a.js".toList,[]⟩,
   .request openHouse ⟨.get,"/ws".toList,[("authorization",utf8 "Basic dXNlcjpwYXNz")]⟩,
   .upgraded 0 (.ok ()),.session 0 (.spawn (.ok 71))]

theorem strangers_traceless_shell :
    ∃ s t, (system (Protocol.serdeJson fun _ => "") guardedServer).run ⟨[],[],[]⟩ strangerRun = some s ∧
      (system (Protocol.serdeJson fun _ => "") guardedServer).run ⟨[],[],[]⟩ (strangerRun.drop 2) = some t ∧
      t.connections = s.connections ∧ s.looked = [] ∧
      s.answered.map (fun x => x.2.status) = [401,401,101] := by
  have hr : (system (Protocol.serdeJson fun _ => "") guardedServer).run ⟨[],[],[]⟩ strangerRun = some _ :=
    (Option.some_get (h := rfl)).symm
  obtain ⟨⟨t,ht,hc,_⟩,_⟩ := strangers_traceless hr
  exact ⟨_,t,hr,ht,hc,rfl,rfl⟩

end Terminald.Server
