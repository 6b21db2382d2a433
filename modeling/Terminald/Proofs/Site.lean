import Mathlib.Data.List.Flatten
import Mathlib.Data.List.Infix
import Terminald.Proofs.Peer
import Terminald.Proofs.Sockets

namespace Terminald.App
open Machine Browser Protocol
open Session (Message)

section Hub
variable (js : Js)

/-- What a page has sent and shown is what its record tells. -/
structure Followed (s : State) (log : List Entry) : Prop where
  heard : Rising s.page.sockets.length (heard log)
  typed : Rising s.page.sockets.length (typed log)
  written : s.page.written = (App.heard log).filterMap (fun x => payloadOf js x.2)
  sent : ∀ i, (sentOn s.page i).flatMap keysOf = (track i (App.typed log)).flatten
  shut : s.page.connectionState.phase = .closed → ∃ i data, i + 1 = s.page.sockets.length ∧
    (i,data) ∈ App.heard log ∧ Shut js data s.page.connectionState

variable {js : Js} {s t : State} {l : Label} {log : List Entry}

theorem heard_append (log entries : List Entry) : heard (log ++ entries) = heard log ++ heard entries :=
  List.filterMap_append

theorem typed_append (log entries : List Entry) : typed (log ++ entries) = typed log ++ typed entries :=
  List.filterMap_append

theorem typed_current (s : State) (l : Label) :
    typed (entries s l) = [] ∨ ∃ i keys, s.page.socketRef = some i ∧ typed (entries s l) = [(i,keys)] := by
  cases l with
  | data text =>
    cases ho : s.page.open with
    | none => exact .inl (by simp [entries,ho,typed,Entry.keys])
    | some i =>
      obtain ⟨href,_⟩ := Option.filter_eq_some_iff.mp ho
      exact .inr ⟨i,utf8 text,href,by simp [entries,ho,typed,Entry.keys]⟩
  | mount | unmount | fetched j r | timer j | opened j | errored j | message j data | closed j
  | resize size => exact .inl rfl

theorem heard_other (s : State) (l : Label) :
    heard (entries s l) = [] ∧ outputs js s l = [] ∨ ∃ i data, l = .message i data := by
  cases l with
  | message i data => exact .inr ⟨i,data,rfl⟩
  | mount | unmount | fetched j r | timer j | opened j | errored j | data text | closed j
  | resize size => exact .inl ⟨rfl,rfl⟩

theorem step_followed (hr : (system js).Reachable s) (h : Followed js s log) (hs : step js s l = some t) :
    Followed js t (log ++ entries s l) := by
  have hmore : s.page.sockets.length ≤ t.page.sockets.length := by
    rcases step_sockets hs with ⟨hlen,_⟩ | ⟨hlen,_⟩ <;> omega
  have hlast : ∀ {i}, s.page.socketRef = some i → i + 1 = s.page.sockets.length := current_last hr
  refine ⟨?_,?_,?_,?_,?_⟩
  · rw [heard_append]
    refine Rising.more ?_ hmore
    rcases @heard_other js s l with ⟨hn,_⟩ | ⟨i,data,rfl⟩
    · rw [hn,List.append_nil]
      exact h.heard
    · exact h.heard.snoc (hlast (message_outputs hr hs).2) data
  · rw [typed_append]
    refine Rising.more ?_ hmore
    rcases typed_current s l with hn | ⟨i,keys,href,hk⟩
    · rw [hn,List.append_nil]
      exact h.typed
    · rw [hk]
      exact h.typed.snoc (hlast href) keys
  · rw [step_written hs,heard_append,List.filterMap_append,h.written]
    rcases @heard_other js s l with ⟨hn,ho⟩ | ⟨i,data,rfl⟩
    · rw [hn,ho]
      rfl
    · rw [(message_outputs hr hs).1]
      cases hp : payloadOf js data <;> simp [entries,App.heard,Entry.bytes,hp]
  · intro i
    rw [step_keys hs,h.sent,typed_append,track_append,List.flatten_append]
  · intro hc
    rw [heard_append]
    rcases step_sets hs with hsame | ⟨_,hn⟩ | ⟨i,data,rfl,hx⟩
    · rw [hsame] at hc ⊢
      obtain ⟨i,data,hi,hm,hx⟩ := h.shut hc
      have hlen : t.page.sockets.length = s.page.sockets.length := by
        rcases step_sockets hs with ⟨hlen,_,_,j,rfl⟩ | ⟨hlen,_⟩
        · exact absurd hc (created_open hr hs hlen)
        · exact hlen
      exact ⟨i,data,hlen ▸ hi,List.mem_append_left _ hm,hx⟩
    · exact absurd hc hn
    · have hlen : t.page.sockets.length = s.page.sockets.length := by
        rcases step_sockets hs with ⟨_,_,_,j,he⟩ | ⟨hlen,_⟩
        · cases he
        · exact hlen
      refine ⟨i,data,hlen ▸ hlast (message_outputs hr hs).2,List.mem_append_right _ ?_,hx⟩
      exact List.mem_singleton_self _

theorem reachable_followed {s : State × List Entry} (hr : ((system js).logged entries).Reachable s) :
    Followed js s.1 s.2 := by
  refine hr.invariant (I := fun s => Followed js s.1 s.2)
    ⟨⟨.nil,fun _ hx => by cases hx⟩,⟨.nil,fun _ hx => by cases hx⟩,rfl,fun _ => rfl,fun hc => by cases hc⟩ ?_
  intro s l t hs h hl
  obtain ⟨hstep,hlog⟩ := System.logged_step.mp hl
  exact hlog ▸ step_followed (System.logged_reachable hs) h hstep

/-- The socket that a step receives on. -/
def port : Label → Option Nat
  | .message i _ => some i
  | _ => none

/-- The page, as the other ends of its sockets see it. -/
def pageHub (js : Js) : Hub Nat (State × List Entry) Label Message Message where
  toSystem := (system js).logged entries
  connected i s := i < s.1.page.sockets.length
  sent i s := (sentOn s.1.page i).map .binary
  received i s := (track i (App.heard s.2)).map .binary
  port := port
  fresh _ := rfl
  grows h i := (step_grown (System.logged_step.mp h).1 i).map _
  still := by
    intro s l t h i hi
    obtain ⟨_,hlog⟩ := System.logged_step.mp h
    have hnone : track i (App.heard (entries s.1 l)) = [] := by
      rcases @heard_other js s.1 l with ⟨hn,_⟩ | ⟨j,data,rfl⟩
      · rw [hn]
        rfl
      · refine track_nil (fun x hx he => ?_)
        obtain rfl := List.mem_singleton.mp hx
        exact hi (congrArg some he)
    rw [hlog,heard_append,track_append,hnone,List.append_nil]

/-- The page and the session behind each of its sockets. -/
def site (js : Js) (json : Json) :
    System ((State × List Entry) × (Nat → Session.State)) (Label ⊕ Nat × Session.Label) :=
  System.network (pageHub js) (fun _ => Session.server json)

end Hub

section Shown
variable {js : Js} {json : Json} {s : (State × List Entry) × (Nat → Session.State)}

/-- What the page makes of a message that is not its own transport's. -/
def brought (js : Js) : Message → Bytes
  | .binary data => (payloadOf js data).getD []
  | _ => []

theorem brought_frames (js : Js) (frames : List Session.Frame) :
    ((frames.map Session.Frame.wire).filter Message.isData).flatMap (brought js) =
      Session.outputSent frames := by
  induction frames with
  | nil => rfl
  | cons f frames ih =>
    have hone : (if f.wire.isData then brought js f.wire else []) =
        ((f.message.map Session.payload).getD []) := by
      cases f with
      | queued m => cases m <;> rfl
      | reply r => cases r <;> rfl
    have hout : Session.outputSent (f :: frames) =
        (f.message.map Session.payload).getD [] ++ Session.outputSent frames := by
      cases f <;> rfl
    rw [hout,← ih,← hone,List.map_cons,List.filter_cons]
    split <;> rfl

theorem exits_wire {f : Session.Frame} {data : Bytes} {shown : Number} (h : f.wire = .binary data)
    (hd : decodeServerFrame js data = .ok (.exited shown)) :
    ∃ code, f = .queued (.exited code) ∧ shown = js.number (js.decode (utf8 (toString code.toInt))) := by
  cases f with
  | queued m =>
    cases m with
    | exited code =>
      cases h
      cases hd
      exact ⟨code,rfl,rfl⟩
    | output bytes | error text => cases h; cases hd
  | reply r =>
    cases r with
    | refused text => cases h; cases hd
    | pong bytes => cases h

theorem site_heard (hr : (site js json).Reachable s) (i : Nat) :
    (track i (heard s.1.2)).map .binary <+: ((s.2 i).sent.map Session.Frame.wire).filter Message.isData ∧
    (s.2 i).received.filter Message.isData <+: (sentOn s.1.1.page i).map .binary :=
  System.network_heard hr i

theorem site_followed (hr : (site js json).Reachable s) : Followed js s.1.1 s.1.2 :=
  reachable_followed (System.network_hub hr)

theorem site_session (hr : (site js json).Reachable s) (i : Nat) :
    (Session.system json).Reachable (s.2 i) := System.network_end hr i

/-- What the terminal was given of one socket. -/
def part (js : Js) (log : List Entry) (i : Nat) : Bytes :=
  ((track i (heard log)).map Message.binary).flatMap (brought js)

theorem part_within (hr : (site js json).Reachable s) (i : Nat) :
    part js s.1.2 i <+: Session.bytesRead (s.2 i).reads := by
  have hpart := ((site_heard hr i).1).flatMap (brought js)
  rw [brought_frames] at hpart
  exact hpart.trans (Session.output_within (Session.reachable_flow (site_session hr i)))

theorem part_all (hr : (site js json).Reachable s) {i : Nat} {data : Bytes} {shown : Number}
    (hm : (i,data) ∈ heard s.1.2) (hx : decodeServerFrame js data = .ok (.exited shown)) :
    part js s.1.2 i = Session.bytesRead (s.2 i).reads ∧ ∃ code : Int32,
      .queued (.exited code) ∈ (s.2 i).sent ∧ shown = js.number (js.decode (utf8 (toString code.toInt))) := by
  have hheard := (site_heard hr i).1
  have hin : Message.binary data ∈ (track i (heard s.1.2)).map .binary :=
    List.mem_map_of_mem (mem_track.mpr hm)
  obtain ⟨f,hf,hw⟩ := List.mem_map.mp (List.mem_filter.mp (hheard.subset hin)).1
  obtain ⟨code,rfl,hcode⟩ := exits_wire hw hx
  refine ⟨?_,code,hf,hcode⟩
  have hsession := site_session hr i
  obtain ⟨hall,pre,hsplit,hpre⟩ := Session.heard_exit hsession hheard (hw ▸ hin)
  have hsent := Session.sent_all (Session.reachable_flow hsession) (Session.reachable_shape hsession) hsplit
  have hqueued : Session.queuedSent (s.2 i).sent = Session.queuedSent pre ++ [.exited code] := by
    rw [hsplit,Session.queuedSent_snoc]
    rfl
  rw [part,hall,brought_frames,Session.outputSent,hqueued,hsent,List.flatMap_append,
    Session.produced_payload]
  exact List.append_nil _

theorem flatten_payloads (js : Js) (frames : List Bytes) :
    (frames.filterMap (payloadOf js)).flatten = (frames.map Message.binary).flatMap (brought js) := by
  induction frames with
  | nil => rfl
  | cons frame frames ih =>
    rw [List.map_cons,List.flatMap_cons,← ih]
    cases hp : payloadOf js frame <;> simp [brought,hp]

theorem written_parts (hr : (site js json).Reachable s) : s.1.1.page.written.flatten =
    ((List.range s.1.1.page.sockets.length).map (part js s.1.2)).flatten := by
  have hf := site_followed hr
  have hmap : (heard s.1.2).filterMap (fun x => payloadOf js x.2) =
      ((heard s.1.2).map Prod.snd).filterMap (payloadOf js) := by
    rw [List.filterMap_map]
    rfl
  rw [hf.written,hmap,flatten_payloads,← hf.heard.join,List.map_flatMap,List.flatMap_assoc]
  rfl

theorem parts_within (hr : (site js json).Reachable s) {i : Nat} {bytes : Bytes}
    (hi : ((List.range s.1.1.page.sockets.length).map (part js s.1.2))[i]? = some bytes) :
    bytes <+: Session.bytesRead (s.2 i).reads := by
  simp only [List.getElem?_map,Option.map_eq_some_iff] at hi
  obtain ⟨j,hj,rfl⟩ := hi
  obtain ⟨_,rfl⟩ := List.getElem?_eq_some_iff.mp hj
  simpa using part_within hr i

/-- The remote exit shown is that of the last session, all of whose output is there. -/
theorem shut_exit (hr : (site js json).Reachable s) (hc : s.1.1.page.connectionState.phase = .closed) :
    ∃ (i : Nat) (code : Int32), i + 1 = s.1.1.page.sockets.length ∧
      part js s.1.2 i = Session.bytesRead (s.2 i).reads ∧ .queued (.exited code) ∈ (s.2 i).sent ∧
      s.1.1.page.connectionState = ⟨.closed,some .remoteExit,none,
        some (js.number (js.decode (utf8 (toString code.toInt)))),none⟩ := by
  obtain ⟨i,data,hi,hm,shown,hx,hshown⟩ := (site_followed hr).shut hc
  obtain ⟨hall,code,hsent,rfl⟩ := part_all hr hm hx
  exact ⟨i,code,hi,hall,hsent,hshown⟩

/-- The terminal in the page shows the sessions one after another, each a first part of what was
read from its PTY, nothing twice and nothing of one in another; once the page shows the remote exit,
the last session is there to its end, and its exit code is the one shown. -/
theorem page_shows (hr : (site js json).Reachable s) :
    ∃ parts : List Bytes, parts.length = s.1.1.page.sockets.length ∧
      s.1.1.page.written.flatten = parts.flatten ∧
      (∀ i bytes, parts[i]? = some bytes → bytes <+: Session.bytesRead (s.2 i).reads) ∧
      (s.1.1.page.connectionState.phase = .closed → ∃ (i : Nat) (code : Int32), i + 1 = parts.length ∧
        parts[i]? = some (Session.bytesRead (s.2 i).reads) ∧ .queued (.exited code) ∈ (s.2 i).sent ∧
        s.1.1.page.connectionState = ⟨.closed,some .remoteExit,none,
          some (js.number (js.decode (utf8 (toString code.toInt)))),none⟩) := by
  refine ⟨(List.range s.1.1.page.sockets.length).map (part js s.1.2),by simp,written_parts hr,
    fun i bytes => parts_within hr,?_⟩
  · intro hc
    obtain ⟨i,code,hi,hall,hsent,hshown⟩ := shut_exit hr hc
    have hlt : i < s.1.1.page.sockets.length := by omega
    exact ⟨i,code,by simpa using hi,by simp [List.getElem?_range hlt,hall],hsent,hshown⟩

/-- The first session is lost, the second one runs to its end. -/
def secondSession : List (Label ⊕ Nat × Session.Label) :=
  [.inl .mount,.inl (.data "a"),.inl (.fetched 0 (.ok 204)),.inl (.opened 0),.inr (0,.spawn (.ok 71)),
   .inl (.data "l"),.inr (0,.receive (.ok (.binary [1,108]))),.inr (0,.write (.result (.ok 1))),
   .inr (0,.read (.result (.ok ⟨[104,101,121,10],Nat.le_of_ble_eq_true rfl⟩))),.inr (0,.post),.inr (0,.recv),
   .inr (0,.send (.ok ())),.inl (.message 0 [2,104,101,121,10]),.inl (.closed 0),.inl (.data "b"),
   .inl (.timer 0),.inl (.fetched 1 (.ok 204)),.inl (.opened 1),.inr (1,.spawn (.ok 72)),.inl (.data "s"),
   .inr (1,.receive (.ok (.binary [1,115]))),.inr (1,.write (.result (.ok 1))),
   .inr (1,.read (.result (.ok ⟨[98,121,101,10],Nat.le_of_ble_eq_true rfl⟩))),.inr (1,.post),.inr (1,.recv),
   .inr (1,.send (.ok ())),.inl (.message 1 [2,98,121,101,10]),.inr (1,.process (.exit (.exited 3))),
   .inr (1,.read (.result (.error .eio))),.inr (1,.process (.lockWait 0)),
   .inr (1,.process (.waitReturns 0 (.ok (.exited 3)))),.inr (1,.waited),.inr (1,.post),.inr (1,.recv),
   .inr (1,.send (.ok ())),.inl (.message 1 [4,51])]

/-- The page and the sessions of that run. -/
def visited : System ((State × List Entry) × (Nat → Session.State)) (Label ⊕ Nat × Session.Label) :=
  site ⟨fun _ => "3",fun _ => .integer 3⟩ (serdeJson fun _ => "")

theorem page_shows_second :
    ∃ (s : _) (parts : List Bytes), visited.Reachable s ∧ s.1.1.page.written = [[104,101,121,10],[98,121,101,10]] ∧
      s.1.1.page.written.flatten = parts.flatten ∧
      ∃ i, i + 1 = parts.length ∧ parts[i]? = some (Session.bytesRead (s.2 i).reads) := by
  have hr := System.reachable_end (m := visited) secondSession rfl
  obtain ⟨parts,_,hflat,_,hlast⟩ := page_shows hr
  obtain ⟨i,_,hi,hpart,_⟩ := hlast rfl
  exact ⟨_,parts,hr,rfl,hflat,i,hi,hpart⟩

end Shown

section Typed
open scoped List
variable {js : Js} {json : Json} {s : (State × List Entry) × (Nat → Session.State)}

/-- The keys a session takes from a frame are the keys in it. -/
theorem accepted_frame (json : Json) (frame : Bytes) :
    Session.accepted (Session.effect json (.binary frame)) = keysOf frame := by
  cases frame with
  | nil => rfl
  | cons kind payload =>
    by_cases hi : kind = clientInput
    · subst hi
      simp [Session.effect,decode_input,Session.accepted,keysOf,List.filterMap_map,Function.comp_def,
        Session.PtyOp.value]
    · rw [keysOf,if_neg hi]
      by_cases hk : kind = clientResize
      · cases hd : Resize.fromPayload json payload <;>
          simp [Session.effect,ClientMessage.decode,hk,hd,Session.accepted,Session.PtyOp.value]
      · simp [Session.effect,ClientMessage.decode,hk,hi,Session.accepted]

theorem accepted_frames (json : Json) (frames : List Bytes) :
    Session.accepted (Session.effects json (frames.map .binary)) = frames.flatMap keysOf := by
  induction frames with
  | nil => rfl
  | cons frame frames ih =>
    rw [List.map_cons,List.flatMap_cons,← ih,← accepted_frame json frame,Session.accepted,
      Session.accepted,Session.accepted,← List.filterMap_append]
    rfl

/-- What a session has accepted was typed while its socket was the open one. -/
theorem accepted_within (hr : (site js json).Reachable s) (i : Nat) :
    Session.accepted (s.2 i).ops <+: (track i (typed s.1.2)).flatten ∧
    ((s.2 i).driver = .select →
      (s.2 i).received.filter Message.isData = (sentOn s.1.1.page i).map .binary →
      Session.accepted (s.2 i).ops = (track i (typed s.1.2)).flatten) := by
  obtain ⟨frames,hpre,hframes⟩ := List.prefix_map_iff.mp (site_heard hr i).2
  have happlied := Session.reachable_applied (site_session hr i)
  have hkeys : Session.accepted (Session.effects json (s.2 i).received) = frames.flatMap keysOf := by
    rw [Session.effects_data,hframes,accepted_frames]
  rw [← (site_followed hr).sent i]
  constructor
  · obtain ⟨rest,hsplit,_⟩ := happlied.split
    calc Session.accepted (s.2 i).ops
        <+: Session.accepted (Session.effects json (s.2 i).received) :=
          (show (s.2 i).ops <+: _ from ⟨rest,hsplit⟩).filterMap _
      _ = frames.flatMap keysOf := hkeys
      _ <+: (sentOn s.1.1.page i).flatMap keysOf := hpre.flatMap keysOf
  · intro hd hall
    have hframes' : frames = sentOn s.1.1.page i := by
      refine hpre.eq_of_length ?_
      rw [hframes] at hall
      simpa using congrArg List.length hall
    rw [happlied.idle hd,hkeys,hframes']

theorem typed_keyboard (log : List Entry) : (typed log).map Prod.snd <+ keyboard log := by
  induction log with
  | nil => exact .slnil
  | cons entry log ih =>
    cases entry with
    | heard i data => exact ih
    | typed i text =>
      cases i with
      | none => exact ih.cons _
      | some i => exact ih.cons_cons _

/-- No key is sent twice, to two sessions, or before one typed earlier: what the PTYs of all
sessions have accepted, in the order of the sessions, is among the keys typed, in their order. Of the
keys typed while its socket was open each session has a first part, and all of them once it has taken
all messages and is back at its select. -/
theorem page_types (hr : (site js json).Reachable s) :
    (List.range s.1.1.page.sockets.length).flatMap (fun i => Session.accepted (s.2 i).ops) <+
      (keyboard s.1.2).flatten ∧
    ∀ i, Session.accepted (s.2 i).ops <+: (track i (typed s.1.2)).flatten ∧
      ((s.2 i).driver = .select →
        (s.2 i).received.filter Message.isData = (sentOn s.1.1.page i).map .binary →
        Session.accepted (s.2 i).ops = (track i (typed s.1.2)).flatten) := by
  refine ⟨?_,accepted_within hr⟩
  have hjoin : (List.range s.1.1.page.sockets.length).flatMap (fun i => (track i (typed s.1.2)).flatten) =
      ((typed s.1.2).map Prod.snd).flatten := by
    rw [← (site_followed hr).typed.join,← List.flatMap_id,List.flatMap_assoc]
    simp
  calc (List.range s.1.1.page.sockets.length).flatMap (fun i => Session.accepted (s.2 i).ops)
      <+ (List.range s.1.1.page.sockets.length).flatMap (fun i => (track i (typed s.1.2)).flatten) :=
        List.Sublist.flatMap_right _ (fun i _ => (accepted_within hr i).1.sublist)
    _ = ((typed s.1.2).map Prod.snd).flatten := hjoin
    _ <+ (keyboard s.1.2).flatten := (typed_keyboard s.1.2).flatten

theorem page_types_second :
    ∃ s, visited.Reachable s ∧ keyboard s.1.2 = [[97],[108],[98],[115]] ∧
      Session.accepted (s.2 0).ops = [108] ∧ Session.accepted (s.2 1).ops = [115] ∧
      (List.range s.1.1.page.sockets.length).flatMap (fun i => Session.accepted (s.2 i).ops) <+
        (keyboard s.1.2).flatten := by
  have hr := System.reachable_end (m := visited) secondSession rfl
  exact ⟨_,hr,rfl,rfl,rfl,(page_types hr).1⟩

end Typed
end Terminald.App
