import Terminald.Proofs.Windup
import Terminald.Proofs.Wire

namespace Terminald.Run
open Machine Protocol
open Session (Message server)

/-- The steps `run` has before it when no more messages come. -/
def Stage.owed : Stage → Nat
  | .entering | .resolving | .connecting _ | .returned _ => 0
  | .leaving _ => 1
  | .running .next => 2
  | .running (.flushing _) => 3
  | .running (.writing call _) => 3 + (call.data.length - call.written)

/-- From the loop on. -/
def Stage.inside : Stage → Bool
  | .running _ | .leaving _ | .returned _ => true
  | _ => false

/-- The socket and stdout hold. -/
def holds : Label → Bool
  | .next none | .next (some (.error _)) | .next (some (.ok .close)) => false
  | .write (.error _) | .write (.ok 0) | .flush (.error _) => false
  | _ => true

/-- What messages make `run` do: it takes each, writes what is in it, and flushes. -/
def load (ms : List Message) : Nat := (ms.map (fun m => (shown m).length + 2)).sum

/-- The data among some messages. -/
def dataOf (ms : List Message) : List Message := ms.filter Message.isData

/-- The steps of the client that are none of `run`'s, and those for messages without data. -/
def outside : Label → Nat
  | .client _ => 1
  | .next (some (.ok m)) => if m.isData then 0 else 2
  | _ => 0

/-- `run` has been told what it comes back with by a frame. -/
def Told (s : State) : Prop := s.stage.heading.isSome = true →
  ∃ frame, .binary frame ∈ s.received ∧ verdict (.binary frame) = s.stage.heading

/-- `run` is in its loop, or on its way out with what a frame told it. -/
structure Attending (s : State) : Prop where
  inside : s.stage.inside = true
  reading : (∀ r, s.stage ≠ .returned r) → s.client.main = .reading
  told : Told s

section Client
variable {U : Type} {urls : Urls.UrlType U} {config : Args.ClientConfig} {size : Resize} {s t : State} {l : Label}

@[simp] theorem owed_next : (Stage.running .next).owed = 2 := rfl

theorem load_append (ms ns : List Message) : load (ms ++ ns) = load ms + load ns := by
  simp [load]

theorem load_prefix {ms ns : List Message} (h : ms <+: ns) : load ms ≤ load ns := by
  obtain ⟨rest,rfl⟩ := h
  rw [load_append]
  exact Nat.le_add_right _ _

theorem dataOf_snoc (ms : List Message) (m : Message) :
    dataOf (ms ++ [m]) = dataOf ms ++ if m.isData then [m] else [] := by
  rw [dataOf,List.filter_append,← dataOf]
  cases hm : m.isData <;> simp [hm]

theorem shown_nothing {m : Message} (h : m.isData = false) : shown m = [] := by
  cases m with
  | binary frame | text content => cases h
  | close | ping payload | pong payload => rfl

@[simp] theorem writeServerOutput_owed (bytes : Bytes) (written : Nat) (last : Bool) :
    (Stage.running (writeServerOutput bytes written last)).owed = 3 + (bytes.length - written) := by
  unfold writeServerOutput
  split
  · rfl
  · simp only [Stage.owed]
    omega

theorem handle_stage_owed (m : Message) : (handle m).owed ≤ 3 + (shown m).length := by
  cases m with
  | binary frame =>
    cases hd : ServerMessage.decode frame with
    | error e =>
      simp only [handle,handleServerFrame,hd,Stage.owed]
      omega
    | ok message =>
      cases message with
      | output data | exited code => simp [handle,handleServerFrame,shown,hd]
      | error message =>
        simp only [handle,handleServerFrame,hd,Stage.owed]
        omega
  | text content => simp [handle,shown]
  | close | ping payload | pong payload => simp [handle,shown,Stage.owed]

theorem handle_inside (m : Message) : (handle m).inside = true := by
  cases m with
  | binary frame =>
    simp only [handle,handleServerFrame]
    split <;> rfl
  | text content | close | ping payload | pong payload => rfl

/-- Only a close and a frame tell `run` to come back. -/
theorem verdict_frame {m : Message} (h : (verdict m).isSome = true) (hc : m ≠ .close) :
    ∃ frame, m = .binary frame := by
  cases m with
  | binary frame => exact ⟨frame,rfl⟩
  | close => exact absurd rfl hc
  | text content | ping payload | pong payload => cases h

theorem Told.keep (h : Told s) (hr : ∀ m ∈ s.received, m ∈ t.received)
    (hg : t.stage.heading = s.stage.heading) : Told t := by
  intro hs
  rw [hg] at hs ⊢
  obtain ⟨frame,hm,hv⟩ := h hs
  exact ⟨frame,hr _ hm,hv⟩

theorem Told.waiting (h : t.stage.heading = none) : Told t := by
  intro hs
  rw [h] at hs
  cases hs

theorem flushed_heading (last : Bool) : (if last then Stage.leaving (.ok ()) else .running .next).heading =
    (Stage.running (.flushing last)).heading := by
  cases last <;> rfl

theorem wrote_heading (bytes : Bytes) (written : Nat) {call : Session.Writing} (last : Bool) :
    (Stage.running (writeServerOutput bytes written last)).heading =
      (Stage.running (.writing call last)).heading := by
  rw [writeServerOutput_heading]
  cases last <;> rfl

/-- While `run` is in its loop, only a frame can have told it anything. -/
theorem running_told (hr : (system urls config size).Reachable s) :
    ∀ reader, s.stage = .running reader → Told s := by
  refine hr.invariant (I := fun s => ∀ reader, s.stage = .running reader → Told s)
    (fun reader hg => by cases hg) ?_
  intro s l t _ h hstep reader hg
  cases step_move hstep with
  | entered | refused | requested | unrequested | unconnected | unsized | broken | ended | wroteNothing
  | unwritten | unflushed | dropped => cases hg
  | connected hs => exact Told.waiting rfl
  | turned ht hc hd he | typed ht hc => exact (h reader hg).keep (fun _ hm => hm) rfl
  | @took m hs hm =>
    intro hsome
    rw [(handle_stage m).2] at hsome ⊢
    have hclose : m ≠ .close := by
      rintro rfl
      cases hg
    obtain ⟨frame,rfl⟩ := verdict_frame hsome hclose
    exact ⟨frame,by simp,rfl⟩
  | @wrote call last count hs hk hc =>
    exact (h _ hs).keep (fun _ hm => hm) (by rw [hs]; exact wrote_heading _ _ last)
  | @flushed last hs => exact (h _ hs).keep (fun _ hm => hm) (by rw [hs]; exact flushed_heading last)

theorem reading_stays {c c' : Client.State} {l : Client.Label} (h : Client.step c l = some c')
    (hm : c.main = .reading) (hl : l ≠ .close) : c'.main = .reading := by
  cases Client.step_move h with
  | created hc | measured hc | unmeasured hc | firstSent hc | firstFailed hc => cases hm.symm.trans hc
  | closed hc => exact absurd rfl hl
  | changed | delivered | registered | received | current | unposted | posted | exhausted | input
  | stdinFailed | taken | sent | sendFailed => exact hm

theorem turns_reading {l : Client.Label} (h : s.turns l = true) : l ≠ .close := by
  rintro rfl
  cases h

/-- Each step of an attending client is one that `run` owes, or was brought by a message or by the
client's other tasks. -/
theorem move_attending (h : Attending s) (hm : Move urls config s l t) (hl : holds l = true) :
    Attending t ∧ t.stage.owed + load (dataOf s.received) + 1 ≤
      s.stage.owed + load (dataOf t.received) + outside l := by
  have hinside := h.inside
  cases hm with
  | entered hg | refused hg | requested hg hb | unrequested hg hb | connected hg | unconnected hg =>
    rw [hg] at hinside
    cases hinside
  | broken hg hm | ended hg hm | wroteNothing hg | unwritten hg | unflushed hg => cases hl
  | turned ht hc hd he | typed ht hc =>
    refine ⟨⟨hinside,fun hn => reading_stays hc (h.reading hn) (turns_reading ht),
      h.told.keep (fun _ hm => hm) rfl⟩,?_⟩
    simp only [outside]
    omega
  | unsized ht hc =>
    -- the first size is sent before the loop
    have hn : ∀ r, s.stage ≠ .returned r := by
      intro r hg
      simp [State.turns,hg] at ht
    cases Client.step_move hc with
    | firstFailed hs => cases (h.reading hn).symm.trans hs
  | @took m hg hm =>
    have hclose : m ≠ .close := by
      rintro rfl
      cases hl
    have howed := handle_stage_owed m
    refine ⟨⟨handle_inside m,fun _ => hm,?_⟩,?_⟩
    · intro hsome
      rw [(handle_stage m).2] at hsome ⊢
      obtain ⟨frame,rfl⟩ := verdict_frame hsome hclose
      exact ⟨frame,by simp,rfl⟩
    · rw [hg,dataOf_snoc,load_append,outside]
      cases hdata : m.isData with
      | true =>
        simp only [owed_next,if_true,load,List.map_cons,List.map_nil,List.sum_cons,List.sum_nil]
        omega
      | false =>
        rw [shown_nothing hdata] at howed
        simp only [owed_next,Bool.false_eq_true,if_false,load,List.map_nil,List.sum_nil]
        simp only [List.length_nil] at howed
        omega
  | @wrote call last count hg hk hc =>
    have hlt := call.unfinished
    refine ⟨⟨rfl,fun _ => h.reading (by simp [hg]),
      h.told.keep (fun _ hm => hm) (by rw [hg]; exact wrote_heading _ _ last)⟩,?_⟩
    rw [hg,writeServerOutput_owed]
    simp only [Stage.owed,outside]
    omega
  | @flushed last hg =>
    refine ⟨⟨by cases last <;> rfl,fun _ => h.reading (by simp [hg]),
      h.told.keep (fun _ hm => hm) (by rw [hg]; exact flushed_heading last)⟩,?_⟩
    rw [hg]
    cases last with
    | false =>
      simp only [Bool.false_eq_true,if_false,Stage.owed,outside]
      omega
    | true =>
      simp only [if_true,Stage.owed,outside]
      omega
  | @dropped r disabled hg =>
    refine ⟨⟨rfl,fun hn => absurd rfl (hn r),h.told.keep (fun _ hm => hm) (by rw [hg]; rfl)⟩,?_⟩
    rw [hg]
    simp only [State.finish,Stage.owed,outside]
    omega

end Client

/-- Nobody gives up, at neither end. -/
def steady : Label ⊕ Unit × Session.Label → Bool
  | .inl l => holds l
  | .inr (_,l) => Session.smooth l

/-- The steps that are none of `run`'s or the session's, and those that an answer from outside makes
more. -/
def brings : Label ⊕ Unit × Session.Label → Nat
  | .inl l => outside l
  | .inr (_,l) => Session.brings l

/-- A step of one of the two ends that waits for nothing outside. -/
def own : Label ⊕ Unit × Session.Label → Bool
  | .inl (.drop _) => true
  | .inl _ => false
  | .inr (_,l) => Session.own l

/-- The session's frames, as the client is to receive them. -/
def frameData (s : Session.State) : List Message := dataOf (s.sent.map Session.Frame.wire)

/-- What the two ends may have to wait for: what the session does, a frame that is on its way, and
stdout. -/
inductive Awaits (s : State × (Unit → Session.State)) : Prop
  | session (ha : Session.Awaits (s.2 ()))
  | frame (hg : s.1.stage = .running .next) (hm : dataOf s.1.received ≠ frameData (s.2 ()))
  | stdout (hg : s.1.stage = .running (.writing call last))
  | flush (hg : s.1.stage = .running (.flushing last))

section Wired
variable {U : Type} {urls : Urls.UrlType U} {config : Args.ClientConfig} {size : Resize} {json : Json}
  {s t : State × (Unit → Session.State)} {ls : List (Label ⊕ Unit × Session.Label)}

/-- The session's child has exited, and the client is there to hear it. -/
structure Parting (urls : Urls.UrlType U) (config : Args.ClientConfig) (size : Resize) (json : Json)
    (s : State × (Unit → Session.State)) : Prop where
  reachable : (wire urls config size json).Reachable s
  ebbing : Session.Ebbing (s.2 ())
  attending : Attending s.1

/-- What is to be done at both ends, less what has been done for the messages that came. -/
def potential (s : State × (Unit → Session.State)) : Int :=
  (s.2 ()).owed + s.1.stage.owed - load (dataOf s.1.received)

theorem step_parting {l : Label ⊕ Unit × Session.Label} (h : Parting urls config size json s)
    (hs : (wire urls config size json).step s l = some t) (hl : steady l = true) :
    Parting urls config size json t ∧ potential t + 1 ≤ potential s + brings l := by
  have hr := h.reachable.step hs
  cases l with
  | inl l =>
    obtain ⟨hstep,he,_⟩ := System.network_inl hs
    obtain ⟨ha,hle⟩ := move_attending h.attending (step_move hstep) hl
    refine ⟨⟨hr,he ▸ h.ebbing,ha⟩,?_⟩
    simp only [potential,brings,he]
    omega
  | inr k =>
    obtain ⟨⟨⟩,k⟩ := k
    obtain ⟨hstep,he,_⟩ := System.network_inr hs
    have hsession := wire_session h.reachable
    have hm := Session.step_move hstep
    have howed : (t.2 ()).owed + 1 ≤ (s.2 ()).owed + Session.brings k := Session.move_owed hsession hm
    refine ⟨⟨hr,Session.move_ebbing hsession h.ebbing hm hl,he ▸ h.attending⟩,?_⟩
    simp only [potential,brings,he]
    omega

theorem run_parting (h : Parting urls config size json s)
    (hrun : ((wire urls config size json).only (fun _ l => steady l)).run s ls = some t) :
    Parting urls config size json t ∧ ls.length + potential t ≤ potential s + (ls.map brings).sum := by
  refine @System.run_potential _ _ ((wire urls config size json).only (fun _ l => steady l))
    (Parting urls config size json) potential brings ?_ s t ls h hrun
  intro s l t hs hl
  obtain ⟨hsteady,hstep⟩ := System.only_step.mp hl
  exact step_parting hs hstep hsteady

theorem inside_connected (h : s.1.stage.inside = true) : (client urls config size json).connected () s.1 = true := by
  cases hg : s.1.stage with
  | entering | resolving | connecting request =>
    rw [hg] at h
    cases h
  | running reader | leaving r | returned r => simp [client,hg]

/-- A step of the session that brings nothing is one of the whole. -/
theorem session_can {l : Session.Label} (h : Parting urls config size json s) (hl : Session.brings l = 0)
    (hs : (Session.step json (s.2 ()) l).isSome = true) :
    ((wire urls config size json).step s (.inr ((),l))).isSome = true := by
  obtain ⟨u,hu⟩ := Option.isSome_iff_exists.mp hs
  have hheard : (server json).received u <+: (client urls config size json).sent () s.1 := by
    have hrec := Session.quiet_received hu hl
    simp only [server,hrec]
    exact (wire_heard h.reachable).2
  have hcan := System.network_end_can (b := fun _ => server json) (s := s) (n := ()) hu
    (inside_connected h.attending.inside) hheard
  exact Option.isSome_iff_exists.mpr ⟨_,hcan⟩

/-- So is a step of the client that takes no more than the session has sent. -/
theorem client_can {l : Label} {u : State} (hs : step urls config s.1 l = some u)
    (hrec : dataOf u.received <+: frameData (s.2 ())) :
    ((wire urls config size json).step s (.inl l)).isSome = true := by
  have hcan := System.network_hub_can (a := client urls config size json) (b := fun _ => server json)
    (s := s) hs (fun _ _ => hrec)
  exact Option.isSome_iff_exists.mpr ⟨_,hcan⟩

/-- A frame not yet taken is there to be taken. -/
theorem frame_next (h : Parting urls config size json s) (hg : s.1.stage = .running .next)
    (hne : dataOf s.1.received ≠ frameData (s.2 ())) : ∃ l, steady l = true ∧ brings l = 0 ∧
      ((wire urls config size json).step s l).isSome = true := by
  obtain ⟨rest,he⟩ : dataOf s.1.received <+: frameData (s.2 ()) := (wire_heard h.reachable).1
  cases rest with
  | nil => exact absurd (by simpa using he) hne
  | cons m rest =>
    have hin : m ∈ frameData (s.2 ()) := by simp [← he]
    have hdata : m.isData = true := (List.mem_filter.mp hin).2
    have hmain : s.1.client.main = .reading := h.attending.reading (by simp [hg])
    have hstep : step urls config s.1 (.next (some (.ok m))) =
        some { s.1 with stage := handle m,received := s.1.received ++ [m] } := by
      simp [step,hg,hmain]
    have htaken : dataOf (s.1.received ++ [m]) <+: frameData (s.2 ()) := by
      rw [← he,dataOf_snoc,hdata,if_pos rfl]
      exact ⟨rest,by simp⟩
    refine ⟨.inl (.next (some (.ok m))),?_,by simp [brings,outside,hdata],client_can hstep htaken⟩
    cases m with
    | binary frame | text content => rfl
    | close | ping payload | pong payload => cases hdata

/-- What is awaited takes the two ends on when it comes, and is one of the steps they owe. -/
theorem awaits_next (h : Parting urls config size json s) (ha : Awaits s) :
    ∃ l, steady l = true ∧ brings l = 0 ∧ ((wire urls config size json).step s l).isSome = true := by
  have hheard : dataOf s.1.received <+: frameData (s.2 ()) := (wire_heard h.reachable).1
  cases ha with
  | session ha =>
    obtain ⟨l,hl,hb,hs⟩ := Session.awaits_next json ha
    exact ⟨.inr ((),l),hl,hb,session_can h hb hs⟩
  | frame hg hm => exact frame_next h hg hm
  | @stdout call last hg =>
    have hone : call.written + 1 ≤ call.data.length := call.unfinished
    have hstep : step urls config s.1 (.write (.ok 1)) =
        some { s.1 with stage := .running (writeServerOutput call.data (call.written + 1) last),
                        stdout := s.1.stdout ++ (call.data.drop call.written).take 1 } := by
      simp only [step,hg,hone,if_true]
    exact ⟨.inl (.write (.ok 1)),rfl,rfl,client_can hstep hheard⟩
  | @flush last hg =>
    have hstep : step urls config s.1 (.flush (.ok ())) =
        some { s.1 with stage := if last then .leaving (.ok ()) else .running .next,
                        flushed := s.1.stdout.length } := by
      simp only [step,hg]
    exact ⟨.inl (.flush (.ok ())),rfl,rfl,client_can hstep hheard⟩

/-- Of the two ends one can go on by itself, or waits for the outside, until both have come back. -/
theorem own_next (h : Parting urls config size json s) :
    (∃ l, own l = true ∧ ((wire urls config size json).step s l).isSome = true) ∨ Awaits s ∨
      (s.2 ()).driver = .returned .exited ∧ ∃ result, s.1.stage = .returned result := by
  have hsession := wire_session h.reachable
  rcases Session.own_next hsession h.ebbing with ⟨l,hl,hs⟩ | ha | hd
  · exact .inl ⟨.inr ((),l),hl,session_can h (Session.own_brings hl) hs⟩
  · exact .inr (.inl (.session ha))
  · cases hg : s.1.stage with
    | entering | resolving | connecting request =>
      have hinside := h.attending.inside
      rw [hg] at hinside
      cases hinside
    | returned result => exact .inr (.inr ⟨hd,result,rfl⟩)
    | leaving result =>
      have hstep : step urls config s.1 (.drop (.ok ())) = some (s.1.finish result (.ok ())) := by
        simp only [step,hg]
      exact .inl ⟨.inl (.drop (.ok ())),rfl,client_can hstep (wire_heard h.reachable).1⟩
    | running reader =>
      refine .inr (.inl ?_)
      cases reader with
      | flushing last => exact .flush hg
      | writing call last => exact .stdout hg
      | next =>
        refine .frame hg (fun hall => ?_)
        -- the exit frame is among all the frames, and `run` does not wait after it
        obtain ⟨past,hpast⟩ := wire_client h.reachable
        obtain ⟨code,hm⟩ := (Session.reachable_told hsession (by simp [hd])).mpr (by simp [hd])
        have hin : Message.binary (ServerMessage.exited code).encode ∈ dataOf s.1.received := by
          rw [hall]
          exact List.mem_filter.mpr ⟨List.mem_map.mpr ⟨_,hm,rfl⟩,rfl⟩
        have hverdict := (run_judged hpast).waiting hg _ (List.mem_filter.mp hin).1
        simp [verdict,Browser.decode_encode] at hverdict

end Wired

section Ends
variable {U : Type} {urls : Urls.UrlType U} {config : Args.ClientConfig} {size : Resize}
  {describe : Bytes → String} {s t : State × (Unit → Session.State)} {ls : List (Label ⊕ Unit × Session.Label)}

/-- What `run` comes back with. -/
theorem returned_told (h : Parting urls config size (serdeJson describe) s) {result : Except Error Unit}
    (hg : s.1.stage = .returned result) :
    (∃ e, result = .error e ∧ ∃ a ∈ (s.2 ()).reads, ∃ cause, Pty.read a = some (.error cause)) ∨
      result = .ok () ∧ ∃ code : Int32, .queued (.exited code) ∈ (s.2 ()).sent ∧
        .binary (ServerMessage.exited code).encode ∈ s.1.received := by
  obtain ⟨frame,hm,hv⟩ := h.attending.told (by simp [hg,Stage.heading])
  rw [hg] at hv
  obtain ⟨k,hk,he⟩ := heard_frame h.reachable hm rfl
  cases he
  cases k with
  | output bytes => simp [verdict,Browser.decode_encode,Stage.heading] at hv
  | error text =>
    simp only [verdict,Browser.decode_encode,Stage.heading] at hv
    obtain rfl := Option.some.inj hv
    have herr : verdict (.binary (ServerMessage.error text).encode) = some (.error ⟨[text]⟩) := by
      simp only [verdict,Browser.decode_encode]
    obtain ⟨a,ha,cause,hcause,_⟩ := told_error h.reachable hm herr
    exact .inl ⟨_,rfl,a,ha,cause,hcause⟩
  | exited code =>
    simp only [verdict,Browser.decode_encode,Stage.heading] at hv
    exact .inr ⟨(Option.some.inj hv).symm,code,hk,hm⟩

/-- When the command exits while its client is there, both ends come back under every schedule, if
what they wait for comes: at both together there are only so many steps left, plus those that the
outside makes more and those for the frames the session sends, and until both are back one of them can
go on by itself, or a socket, the PTY or stdout is awaited. The client comes back without error unless
a read of the terminal had failed, and then stdout has all output and the exit code. -/
theorem both_end (hr : (wire urls config size (serdeJson describe)).Reachable s) {reader : Reader}
    (hstage : s.1.stage = .running reader) (hmain : s.1.client.main = .reading)
    (hlive : (s.2 ()).driver.over = false) (hexit : (s.2 ()).childExited = true)
    (hrun : ((wire urls config size (serdeJson describe)).only (fun _ l => steady l)).run s ls = some t) :
    ls.length + load (dataOf s.1.received) ≤
      (s.2 ()).owed + s.1.stage.owed + load (frameData (t.2 ())) + (ls.map brings).sum ∧
    ((∃ l, own l = true ∧ ((wire urls config size (serdeJson describe)).step t l).isSome = true) ∨ Awaits t ∨
      (t.2 ()).driver = .returned .exited ∧ ∃ result, t.1.stage = .returned result ∧
        ((∀ a ∈ (t.2 ()).reads, ∀ e, Pty.read a ≠ some (.error e)) → result = .ok ()) ∧
        (result = .ok () → ∃ code, Session.Truth (t.2 ()) code ∧
          t.1.stdout = Session.bytesRead (t.2 ()).reads ++ exitNotice code ∧
          t.1.flushed = t.1.stdout.length)) ∧
    (Awaits t → ∃ l, steady l = true ∧ brings l = 0 ∧
      ((wire urls config size (serdeJson describe)).step t l).isSome = true) := by
  have hsession := wire_session hr
  have hpart : Parting urls config size (serdeJson describe) s :=
    ⟨hr,Session.ebbing_exited hsession hlive hexit,
      ⟨by rw [hstage]; rfl,fun _ => hmain,running_told (wire_client hr) reader hstage⟩⟩
  obtain ⟨hend,hlen⟩ := run_parting hpart hrun
  have hload := load_prefix (wire_heard hend.reachable).1
  refine ⟨?_,(own_next hend).imp_right (Or.imp_right fun hback => ?_),awaits_next hend⟩
  · have hle : load (dataOf t.1.received) ≤ load (frameData (t.2 ())) := hload
    simp only [potential] at hlen
    omega
  · obtain ⟨hd,result,hg⟩ := hback
    refine ⟨hd,result,hg,fun hreads => ?_,fun hok => ?_⟩
    · rcases returned_told hend hg with ⟨e,_,a,ha,cause,hcause⟩ | ⟨hok,_⟩
      · exact absurd hcause (hreads a ha cause)
      · exact hok
    · subst hok
      rcases returned_told hend hg with ⟨e,he,_⟩ | ⟨_,code,hsent,hm⟩
      · cases he
      · obtain ⟨past,hpast⟩ := wire_client hend.reachable
        obtain ⟨hout,hflushed⟩ := (run_printed hpast).all (by rw [hg]; rfl) (.inl (by rw [hg]; rfl))
        exact ⟨code,Session.sent_truth (wire_session hend.reachable) hsent,
          hout.trans (received_all hend.reachable hm),hflushed⟩

/-- The run of a whole visit, from the moment when the command exits. -/
def goodbyeRun : List (Label ⊕ Unit × Session.Label) := servedRun.drop 21

theorem both_end_served : ∃ s t : State × (Unit → Session.State),
    (served.only (fun _ l => steady l)).run s goodbyeRun = some t ∧ t.1.stage = .returned (.ok ()) ∧
    goodbyeRun.length = 11 ∧ (s.2 ()).owed + s.1.stage.owed = 18 ∧
    goodbyeRun.length + load (dataOf s.1.received) ≤
      (s.2 ()).owed + s.1.stage.owed + load (frameData (t.2 ())) + (goodbyeRun.map brings).sum := by
  have hr := System.reachable_end (m := served) (servedRun.take 21) rfl
  exact ⟨(served.run served.start (servedRun.take 21)).get rfl,_,rfl,rfl,rfl,rfl,
    (@both_end _ _ _ _ _ _ _ goodbyeRun hr _ rfl rfl rfl rfl rfl).1⟩

end Ends
end Terminald.Run
