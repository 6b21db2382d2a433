import Terminald.Proofs.Payload
import Terminald.Proofs.Peer
import Terminald.Proofs.Typed

namespace Terminald.Run
open Machine Protocol
open Session (Message server)

section Client
variable {U : Type} (urls : Urls.UrlType U) (config : Args.ClientConfig) (size : Resize) (json : Json)

/-- The frame of a message, if it has one. -/
def frames (m : ClientMessage) : List Message :=
  match m.encode json with
  | .ok frame => [.binary frame]
  | .error _ => []

/-- The frame of a message, with the JSON library as it is. -/
def frameOf : ClientMessage → Bytes
  | .resize size => clientResize :: serialize size
  | .input data => clientInput :: data

/-- The command-line client, as the web socket sees it. -/
def client : Hub Unit State Label Message Message where
  toSystem := system urls config size
  connected _ s := match s.stage with
    | .entering | .resolving => false
    | _ => true
  sent _ s := s.client.sent.flatMap (frames json)
  received _ s := s.received.filter Message.isData
  port _ := some ()
  fresh _ := rfl
  grows h _ := by
    rcases move_client (step_move h) with he | ⟨k,hk⟩
    · rw [he]
    · exact (Client.sent_grows hk).flatMap _
  still _ _ hn := absurd rfl hn

/-- The client and the session it is connected to. -/
def wire : System (State × (Unit → Session.State)) (Label ⊕ Unit × Session.Label) :=
  System.network (client urls config size json) (fun _ => server json)

end Client

section Shown

theorem shown_data (messages : List Message) :
    messages.flatMap shown = (messages.filter Message.isData).flatMap shown := by
  induction messages with
  | nil => rfl
  | cons m messages ih =>
    rw [List.flatMap_cons,ih]
    cases m with
    | binary frame | text text => rw [List.filter_cons_of_pos rfl,List.flatMap_cons]
    | close | ping data | pong data =>
      rw [List.filter_cons_of_neg (by simp [Message.isData])]
      rfl

/-- What a frame of the session puts on the client's stdout. -/
theorem shown_wire (f : Session.Frame) : shown f.wire =
    match f with
    | .queued (.output data) => data
    | .queued (.exited code) => exitNotice code
    | _ => [] := by
  cases f with
  | queued m => cases m <;> simp [Session.Frame.wire,shown,Browser.decode_encode]
  | reply r => cases r <;> simp [Session.Frame.wire,shown,Browser.decode_encode]

theorem shown_frames (fs : List Session.Frame) (h : ∀ code, .queued (.exited code) ∉ fs) :
    (fs.map Session.Frame.wire).flatMap shown = Session.outputSent fs := by
  induction fs with
  | nil => rfl
  | cons f fs ih =>
    have hf := ih (fun code hm => h code (List.mem_cons_of_mem _ hm))
    rw [List.map_cons,List.flatMap_cons,hf,shown_wire]
    cases f with
    | reply r => rfl
    | queued m =>
      cases m with
      | output data | error text => rfl
      | exited code => exact absurd List.mem_cons_self (h code)

/-- All frames of a session together show what it has read, and at last the exit. -/
theorem session_shown {json : Json} {s : Session.State} {pre : List Session.Frame} {code : Int32}
    (hr : (Session.system json).Reachable s) (hs : s.sent = pre ++ [.queued (.exited code)])
    (hpre : ∀ code', .queued (.exited code') ∉ pre) :
    (s.sent.map Session.Frame.wire).flatMap shown = Session.bytesRead s.reads ++ exitNotice code := by
  have hall := Session.sent_all (Session.reachable_flow hr) (Session.reachable_shape hr) hs
  rw [hs,List.map_append,List.flatMap_append,shown_frames pre hpre,Session.outputSent,hall,
    Session.produced_payload]
  simp [shown_wire]

end Shown

section Wired
variable {U : Type} {urls : Urls.UrlType U} {config : Args.ClientConfig} {size : Resize} {json : Json}
  {s : State × (Unit → Session.State)}

theorem wire_client (hr : (wire urls config size json).Reachable s) :
    (system urls config size).Reachable s.1 := System.network_hub hr

theorem wire_session (hr : (wire urls config size json).Reachable s) :
    (Session.system json).Reachable (s.2 ()) := System.network_end hr ()

theorem wire_heard (hr : (wire urls config size json).Reachable s) :
    s.1.received.filter Message.isData <+:
      ((s.2 ()).sent.map Session.Frame.wire).filter Message.isData ∧
    (s.2 ()).received.filter Message.isData <+: s.1.client.sent.flatMap (frames json) :=
  System.network_heard hr ()

/-- What the client shows, the session has sent. -/
theorem received_within (hr : (wire urls config size json).Reachable s) :
    s.1.received.flatMap shown <+: ((s.2 ()).sent.map Session.Frame.wire).flatMap shown := by
  rw [shown_data s.1.received,shown_data ((s.2 ()).sent.map _)]
  exact (wire_heard hr).1.flatMap shown

/-- A client that has heard of the exit has heard all. -/
theorem received_all (hr : (wire urls config size json).Reachable s) {code : Int32}
    (hm : .binary (ServerMessage.exited code).encode ∈ s.1.received) :
    s.1.received.flatMap shown = Session.bytesRead (s.2 ()).reads ++ exitNotice code := by
  have hdata : .binary (ServerMessage.exited code).encode ∈ s.1.received.filter Message.isData :=
    List.mem_filter.mpr ⟨hm,rfl⟩
  obtain ⟨hall,pre,hsplit,hpre⟩ := Session.heard_exit (wire_session hr) (wire_heard hr).1 hdata
  rw [shown_data,hall,← shown_data,session_shown (wire_session hr) hsplit hpre]

/-- The user sees what the command has written, and nothing else: at every moment stdout has
taken a first part of the bytes the session has read from the terminal, and of the exit notice
after all of them. Once the client has taken the exit frame and is done with it, all of it is out. -/
theorem console_shows (hr : (wire urls config size json).Reachable s) :
    (s.1.stdout <+: Session.bytesRead (s.2 ()).reads ∨
      ∃ pre code, (s.2 ()).sent = pre ++ [.queued (.exited code)] ∧
        s.1.stdout <+: Session.bytesRead (s.2 ()).reads ++ exitNotice code) ∧
    ∀ code, .binary (ServerMessage.exited code).encode ∈ s.1.received → s.1.stage.dirty = false →
      s.1.stage.failed = false →
      s.1.stdout = Session.bytesRead (s.2 ()).reads ++ exitNotice code ∧
      s.1.flushed = s.1.stdout.length := by
  obtain ⟨ls,hrun⟩ := wire_client hr
  have hprinted := run_printed hrun
  have hsession := wire_session hr
  constructor
  · obtain ⟨rest,he,_⟩ := hprinted.split
    have hout : s.1.stdout <+: ((s.2 ()).sent.map Session.Frame.wire).flatMap shown :=
      List.IsPrefix.trans ⟨rest,he⟩ (received_within hr)
    rcases Session.exit_place hsession with hnone | ⟨pre,code,hsplit,hpre⟩
    · rw [shown_frames _ hnone] at hout
      exact .inl (hout.trans (Session.output_within (Session.reachable_flow hsession)))
    · rw [session_shown hsession hsplit hpre] at hout
      exact .inr ⟨pre,code,hsplit,hout⟩
  · intro code hm hd hf
    obtain ⟨hout,hflushed⟩ := hprinted.all hd (.inl hf)
    exact ⟨hout.trans (received_all hr hm),hflushed⟩

/-- The user types a command and sees its line and its exit. -/
def servedRun : List (Label ⊕ Unit × Session.Label) :=
  [.inl (.enter (.ok ())),.inl (.request (.ok ())),.inr ((),.spawn (.ok 71)),.inl (.connect (.ok ())),
   .inl (.client .new),.inl (.client (.initial true)),.inl (.client (.first (.ok ()))),
   .inr ((),.receive (.ok (.binary (frameOf (.resize ⟨100,40⟩))))),.inr ((),.ioctl (.ok ())),
   .inl (.client (.stdin (.ok [108,115]))),.inl (.client (.send (.ok ()))),
   .inr ((),.receive (.ok (.binary [1,108,115]))),.inr ((),.write (.result (.ok 2))),
   .inr ((),.read (.result (.ok ⟨[104,105,10],Nat.le_of_ble_eq_true rfl⟩))),.inr ((),.post),.inr ((),.recv),
   .inr ((),.send (.ok ())),.inl (.next (some (.ok (.binary [2,104,105,10])))),.inl (.write (.ok 3)),
   .inl (.flush (.ok ())),.inr ((),.process (.exit (.exited 3))),.inr ((),.read (.result (.error .eio))),
   .inr ((),.process (.lockWait 0)),.inr ((),.process (.waitReturns 0 (.ok (.exited 3)))),
   .inr ((),.waited),.inr ((),.post),.inr ((),.recv),.inr ((),.send (.ok ())),
   .inl (.next (some (.ok (.binary [4,51])))),.inl (.write (.ok 29)),.inl (.flush (.ok ())),
   .inl (.drop (.ok ()))]

/-- The two ends of that run. -/
def served : System (State × (Unit → Session.State)) (Label ⊕ Unit × Session.Label) :=
  wire (Urls.standard Urls.domains fun _ => "") plainConfig ⟨100,40⟩ (serdeJson fun _ => "")

theorem console_shows_served :
    ∃ s, served.Reachable s ∧ s.1.stage = .returned (.ok ()) ∧ s.1.stdout = [104,105,10] ++ exitNotice 3 := by
  have hr := System.reachable_end (m := served) servedRun rfl
  have hm : .binary (ServerMessage.exited 3).encode ∈ [Message.binary [2,104,105,10],.binary [4,51]] :=
    List.mem_cons_of_mem _ List.mem_cons_self
  exact ⟨_,hr,rfl,((console_shows hr).2 3 hm rfl rfl).1⟩

end Wired

section Input
variable {U : Type} {urls : Urls.UrlType U} {config : Args.ClientConfig} {size : Resize}
  {describe : Bytes → String} {s : State × (Unit → Session.State)}

theorem encode_frameOf (m : ClientMessage) : m.encode (serdeJson describe) = .ok (frameOf m) := by
  cases m <;> rfl

theorem frames_eq (m : ClientMessage) : frames (serdeJson describe) m = [.binary (frameOf m)] := by
  rw [frames,encode_frameOf]

theorem decode_frameOf (m : ClientMessage) :
    ClientMessage.decode (serdeJson describe) (frameOf m) = .ok m := by
  cases m with
  | resize size =>
    simp [frameOf,ClientMessage.decode,Resize.fromPayload,serdeJson,deserialize_serialize,Except.mapError]
  | input data => exact decode_input _ data

theorem flatMap_frames (messages : List ClientMessage) :
    messages.flatMap (frames (serdeJson describe)) = messages.map (fun m => .binary (frameOf m)) := by
  rw [← List.flatMap_pure_eq_map]
  exact congrArg (fun f => messages.flatMap f) (funext frames_eq)

/-- What the session has received is a first part of the client's messages, each in its frame. -/
theorem messages_heard (hr : (wire urls config size (serdeJson describe)).Reachable s) :
    ∃ heard, heard <+: s.1.client.sent ∧
      (s.2 ()).received.filter Message.isData = heard.map (fun m => .binary (frameOf m)) := by
  have hheard := (wire_heard hr).2
  rw [flatMap_frames] at hheard
  obtain ⟨heard,hpre,he⟩ := List.prefix_map_iff.mp hheard
  exact ⟨heard,hpre,he⟩

/-- What a message of the client is to do to the PTY. -/
def deed : ClientMessage → List Session.PtyOp
  | .resize size => [.resize size]
  | .input data => data.map .byte

theorem effects_frames (heard : List ClientMessage) :
    Session.effects (serdeJson describe) (heard.map (fun m => .binary (frameOf m))) = heard.flatMap deed := by
  induction heard with
  | nil => rfl
  | cons m heard ih =>
    have hone : Session.effect (serdeJson describe) (.binary (frameOf m)) = deed m := by
      cases m <;> simp [Session.effect,decode_frameOf,deed]
    rw [List.map_cons,List.flatMap_cons,← ih,← hone]
    rfl

theorem deed_keys (heard : List ClientMessage) :
    Session.accepted (heard.flatMap deed) = heard.flatMap Client.keys := by
  induction heard with
  | nil => rfl
  | cons m heard ih =>
    have hone : (deed m).filterMap Session.PtyOp.value = Client.keys m := by
      cases m with
      | resize size => rfl
      | input data => simp [deed,Client.keys,List.filterMap_map,Function.comp_def,Session.PtyOp.value]
    rw [List.flatMap_cons,List.flatMap_cons,← ih,Session.accepted,List.filterMap_append,hone]
    rfl

theorem deed_sizes (heard : List ClientMessage) :
    (heard.flatMap deed).filterMap Session.PtyOp.size = heard.filterMap Client.sizeOf := by
  induction heard with
  | nil => rfl
  | cons m heard ih =>
    rw [List.flatMap_cons,List.filterMap_append,ih]
    cases m with
    | resize size => rfl
    | input data =>
      rw [show (deed (.input data)).filterMap Session.PtyOp.size = [] from Session.bytes_sizes data]
      rfl

/-- What the PTY has taken is the work of a first part of the client's messages. -/
theorem ops_within (hr : (wire urls config size (serdeJson describe)).Reachable s) :
    ∃ heard, heard <+: s.1.client.sent ∧ (s.2 ()).ops <+: heard.flatMap deed ∧
      ((s.2 ()).driver = .select → (s.2 ()).ops = heard.flatMap deed) ∧
      (s.2 ()).received.filter Message.isData = heard.map (fun m => .binary (frameOf m)) := by
  obtain ⟨heard,hpre,he⟩ := messages_heard hr
  have happlied := Session.reachable_applied (wire_session hr)
  have heffects : Session.effects (serdeJson describe) (s.2 ()).received = heard.flatMap deed := by
    rw [Session.effects_data,he,effects_frames]
  refine ⟨heard,hpre,?_,fun hd => heffects ▸ happlied.idle hd,he⟩
  obtain ⟨rest,hsplit,_⟩ := happlied.split
  exact ⟨rest,heffects ▸ hsplit⟩

/-- The keys reach the command as they were typed, and the window's sizes in their order: at every
moment the terminal on the session's side has accepted a first part of the bytes read from the
client's stdin, and has the last of a first part of the sizes the client has sent. A session that
has taken all messages and is back at its select owes nothing. -/
theorem keyboard_reaches (hr : (wire urls config size (serdeJson describe)).Reachable s) :
    Session.accepted (s.2 ()).ops <+: s.1.typed ∧
    (∃ sizes, sizes <+: s.1.client.sent.filterMap Client.sizeOf ∧
      (s.2 ()).winsize = sizes.getLast?.getD Pty.sizeDefault) ∧
    ((s.2 ()).driver = .select →
      (s.2 ()).received.filter Message.isData = s.1.client.sent.flatMap (frames (serdeJson describe)) →
      Session.accepted (s.2 ()).ops = s.1.client.sent.flatMap Client.keys ∧
      (s.2 ()).winsize = (Client.lastSent s.1.client).getD Pty.sizeDefault) := by
  obtain ⟨heard,hpre,hops,hidle,hdata⟩ := ops_within hr
  obtain ⟨rest,htyped,_⟩ := (reachable_typed (wire_client hr)).split
  have hwindow := (Session.reachable_applied (wire_session hr)).window
  refine ⟨?_,⟨(s.2 ()).ops.filterMap Session.PtyOp.size,?_,hwindow⟩,?_⟩
  · calc Session.accepted (s.2 ()).ops <+: Session.accepted (heard.flatMap deed) := hops.filterMap _
      _ = heard.flatMap Client.keys := deed_keys heard
      _ <+: s.1.client.sent.flatMap Client.keys := hpre.flatMap _
      _ <+: s.1.typed := ⟨rest,htyped⟩
  · calc (s.2 ()).ops.filterMap Session.PtyOp.size <+:
        (heard.flatMap deed).filterMap Session.PtyOp.size := hops.filterMap _
      _ = heard.filterMap Client.sizeOf := deed_sizes heard
      _ <+: s.1.client.sent.filterMap Client.sizeOf := hpre.filterMap _
  · intro hd hall
    obtain rfl : heard = s.1.client.sent := by
      refine hpre.eq_of_length ?_
      rw [hdata,flatMap_frames] at hall
      simpa using congrArg List.length hall
    exact ⟨by rw [hidle hd,deed_keys],by rw [hwindow,hidle hd,Session.lastSize,deed_sizes]; rfl⟩

theorem keyboard_reaches_served :
    ∃ s, served.Reachable s ∧ s.1.typed = [108,115] ∧ Session.accepted (s.2 ()).ops <+: [108,115] ∧
      (s.2 ()).winsize = ⟨100,40⟩ := by
  have hr := System.reachable_end (m := served) servedRun rfl
  exact ⟨_,hr,rfl,(keyboard_reaches hr).1,rfl⟩

/-- A frame with an answer of the driver's own is a frame it could not read. -/
theorem refused_unread {json : Json} {messages : List Message} {text : String}
    (h : .refused text ∈ Session.answers json messages) :
    ∃ frame e, .binary frame ∈ messages ∧ ClientMessage.decode json frame = .error e := by
  obtain ⟨m,hm,ha⟩ := List.mem_filterMap.mp h
  cases m with
  | binary frame => cases hd : ClientMessage.decode json frame with
    | error e => exact ⟨frame,e,hm,hd⟩
    | ok message => simp [Session.answer,hd] at ha
  | text text | close | pong data => simp [Session.answer] at ha
  | ping data => simp [Session.answer] at ha

/-- What the session takes as data is the frame of a message of the client. -/
theorem taken_frame (hr : (wire urls config size (serdeJson describe)).Reachable s) {m : Message}
    (hm : m ∈ (s.2 ()).received) (hdata : m.isData = true) :
    ∃ k ∈ s.1.client.sent, m = .binary (frameOf k) := by
  obtain ⟨heard,hpre,he⟩ := messages_heard hr
  have hin : m ∈ (s.2 ()).received.filter Message.isData := List.mem_filter.mpr ⟨hm,hdata⟩
  rw [he] at hin
  obtain ⟨k,hk,rfl⟩ := List.mem_map.mp hin
  exact ⟨k,hpre.subset hk,rfl⟩

theorem unrefused (hr : (wire urls config size (serdeJson describe)).Reachable s) (text : String) :
    .reply (.refused text) ∉ (s.2 ()).sent := by
  intro hm
  obtain ⟨owed,ha,_⟩ := Session.reachable_answered (wire_session hr)
  have hreply : .refused text ∈ Session.answers (serdeJson describe) (s.2 ()).received := by
    rw [← ha]
    exact List.mem_append_left _ (List.mem_filterMap.mpr ⟨_,hm,rfl⟩)
  obtain ⟨frame,e,hframe,hd⟩ := refused_unread hreply
  obtain ⟨k,_,he⟩ := taken_frame hr hframe rfl
  cases he
  rw [decode_frameOf] at hd
  cases hd

/-- What the client takes as data is the frame of a message of the session's reader. -/
theorem heard_frame (hr : (wire urls config size (serdeJson describe)).Reachable s) {m : Message}
    (hm : m ∈ s.1.received) (hdata : m.isData = true) :
    ∃ k : ServerMessage, .queued k ∈ (s.2 ()).sent ∧ m = .binary k.encode := by
  have hin := (wire_heard hr).1.subset (List.mem_filter.mpr ⟨hm,hdata⟩)
  obtain ⟨f,hf,rfl⟩ := List.mem_map.mp (List.mem_filter.mp hin).1
  cases f with
  | queued k => exact ⟨k,hf,rfl⟩
  | reply r =>
    cases r with
    | refused text => exact absurd hf (unrefused hr text)
    | pong data => cases hdata

/-- An error in what the client takes is that of a failed read. -/
theorem told_error (hr : (wire urls config size (serdeJson describe)).Reachable s) {m : Message} {e : Error}
    (hm : m ∈ s.1.received) (hv : verdict m = some (.error e)) :
    ∃ a ∈ (s.2 ()).reads, ∃ cause, Pty.read a = some (.error cause) ∧ e = ⟨[cause.alternate]⟩ := by
  cases m with
  | binary frame =>
    obtain ⟨k,hk,he⟩ := heard_frame hr hm rfl
    cases he
    simp only [verdict,Browser.decode_encode] at hv
    cases k with
    | error text =>
      have hflow := Session.reachable_flow (wire_session hr)
      obtain ⟨a,ha,hmade⟩ := Session.error_read hflow (Session.mem_queuedSent.mpr hk)
      obtain ⟨cause,hcause,rfl⟩ := Session.messageOf_error hmade
      cases hv
      exact ⟨a,ha,cause,hcause,rfl⟩
    | output data => cases hv
    | exited code => cases hv
  | text text | close | ping data | pong data => cases hv

/-- The two ends understand each other: what the session takes as data is the frame of a message of the
client, read as the client meant it, and nothing is refused; what the client takes is the frame of a
message of the session's reader. An error the client is told of is that of a failed read of the
terminal. -/
theorem frames_understood (hr : (wire urls config size (serdeJson describe)).Reachable s) :
    (∀ m ∈ (s.2 ()).received, m.isData = true → ∃ frame k, m = .binary frame ∧
      k ∈ s.1.client.sent ∧ k.encode (serdeJson describe) = .ok frame ∧
      ClientMessage.decode (serdeJson describe) frame = .ok k) ∧
    (∀ text, .reply (.refused text) ∉ (s.2 ()).sent) ∧
    (∀ m ∈ s.1.received, m.isData = true → ∃ frame k, m = .binary frame ∧
      .queued k ∈ (s.2 ()).sent ∧ k.encode = frame ∧ ServerMessage.decode frame = .ok k) ∧
    (∀ m ∈ s.1.received, ∀ e, verdict m = some (.error e) →
      ∃ a ∈ (s.2 ()).reads, ∃ cause, Pty.read a = some (.error cause) ∧ e = ⟨[cause.alternate]⟩) := by
  refine ⟨?_,unrefused hr,?_,fun m hm e => told_error hr hm⟩
  · intro m hm hdata
    obtain ⟨k,hk,rfl⟩ := taken_frame hr hm hdata
    exact ⟨_,k,rfl,hk,encode_frameOf k,decode_frameOf k⟩
  · intro m hm hdata
    obtain ⟨k,hk,rfl⟩ := heard_frame hr hm hdata
    exact ⟨_,k,rfl,hk,rfl,Browser.decode_encode k⟩

theorem frames_understood_served :
    ∃ s, served.Reachable s ∧ (s.2 ()).sent = [.queued (.output [104,105,10]),.queued (.exited 3)] ∧
      ∀ text, .reply (.refused text) ∉ (s.2 ()).sent := by
  have hr := System.reachable_end (m := served) servedRun rfl
  exact ⟨_,hr,rfl,(frames_understood hr).2.1⟩

end Input
end Terminald.Run
