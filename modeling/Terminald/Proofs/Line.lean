import Terminald.Model.Status
import Terminald.Proofs.Admission
import Terminald.Proofs.Site

namespace Terminald.App.Course
open Machine

/-- A page ends for one of the reasons it has, never for one that leaves it open. -/
theorem over_reason {c : Course} (hr : system.Reachable c) {r : Reason} (hc : c = .ended r) :
    r ≠ .websocketError ∧ r ≠ .serverError := by
  revert r
  refine hr.invariant (I := fun c => ∀ {r}, c = .ended r → r ≠ .websocketError ∧ r ≠ .serverError)
    (fun h => by cases h) ?_
  intro c k d _ _ hs r hd
  subst hd
  have hs : next c k = some (.ended r) := hs
  unfold next at hs
  split at hs
  case h_5 =>
    obtain rfl := Course.ended.inj (Option.some.inj hs)
    split <;> exact ⟨by simp,by simp⟩
  all_goals
    first
    | (obtain rfl := Course.ended.inj (Option.some.inj hs); exact ⟨by simp,by simp⟩)
    | cases hs

end Terminald.App.Course

namespace Terminald.Status
open Machine Machine.Utf16 App Browser

/-- A text from elsewhere, as the bar has it. -/
def cleaned (message otherwise : String) : Text :=
  if message = "" then text otherwise else normalizeStatusDetail (text message)

/-- What stands behind a separator; nothing, if it is empty. -/
def behind (detail : Text) : Text := if detail = [] then [] else text " · " ++ detail

/-- What the bar may say to a page on its course. -/
inductive Says : Course → Text → Prop
  | connecting (h : c.phase = .connecting) : Says c (text "Connecting · auth check pending")
  | connected : Says (.up false) (text "Connected · ws ready")
  | newSession : Says (.up false) (text "Connected · new PTY session")
  | reconnecting (h : c.phase = .reconnecting) : Says c (text "Reconnecting · retrying connection")
  | retrying (h : c.phase = .reconnecting) (message : String) :
      Says c (text "Reconnecting" ++ behind (cleaned message "retrying connection"))
  | failing : Says .failing (text "Error · websocket error")
  | fault (message : String) :
      Says (.up true) (text "Error · server reported: " ++ cleaned message "unknown error")
  | authRequired : Says (.ended .authRequired) (text "Auth required · credentials rejected")
  | authCheckFailed : Says (.ended .authCheckFailed) (text "Error · auth check failed")
  | network (message : String) :
      Says (.ended .network) (text "Error" ++ behind (cleaned message "network failure"))
  | websocketUpgrade : Says (.ended .websocketUpgrade) (text "Error · websocket upgrade failed")
  | exited (code : Number.Value) :
      Says (.ended .remoteExit) (text "Closed · remote exited " ++ encode code.reading.text)

/-- The state of a page, with the language's strings and numbers. -/
structure Rendered (shown : Bool → Nat → String) (a : App.ConnectionState) (b : ConnectionState) : Prop where
  phase : b.phase = a.phase
  reason : b.reason = a.reason
  notice : b.notice = a.notice
  detail : b.detail = a.detail.map text
  exitCode : b.exitCode.map (fun code => ofReading shown code.reading) = a.exitCode

section Lines
variable {state : ConnectionState} {c : Course}

theorem text_append (a b : String) : text (a ++ b) = text a ++ text b := by
  simp [text,encode]

theorem text_empty {message : String} : text message = [] ↔ message = "" := by
  have hone : ∀ c, encodeChar c ≠ [] := by
    intro c
    unfold encodeChar
    split <;> simp
  constructor
  · intro h
    cases hm : message.toList with
    | nil => exact String.toList_eq_nil_iff.mp hm
    | cons c cs =>
      rw [text,encode,hm,List.flatMap_cons] at h
      exact absurd (List.append_eq_nil_iff.mp h).1 (hone c)
  · rintro rfl
    rfl

theorem shownDetail_told {message : String} (h : state.detail = some (text message)) (otherwise : String) :
    state.shownDetail otherwise = cleaned message otherwise := by
  unfold ConnectionState.shownDetail cleaned
  rw [h]
  by_cases hm : message = ""
  · rw [if_pos hm,hm]
    rfl
  · rw [if_neg hm]
    cases ht : text message with
    | nil => exact absurd (text_empty.mp ht) hm
    | cons u us => rfl

theorem line_detail {primary : String} {detail : Text} {tone : ConnectionStatusTone}
    (h : connectionStatusView state = ⟨primary,some detail,tone⟩) :
    (connectionStatusBar state).line = text primary ++ behind detail := by
  unfold connectionStatusBar StatusBar.line behind
  rw [h]
  cases detail with
  | nil => simp
  | cons u us => simp

theorem line_plain {primary detail line : String} {tone : ConnectionStatusTone}
    (h : connectionStatusView state = ⟨primary,some (text detail),tone⟩)
    (hl : text primary ++ behind (text detail) = text line) : (connectionStatusBar state).line = text line :=
  (line_detail h).trans hl

theorem behind_front {primary front line : String} (hf : text front ≠ [])
    (hl : text primary ++ (text " · " ++ text front) = text line) (rest : Text) :
    text primary ++ behind (text front ++ rest) = text line ++ rest := by
  rw [behind,if_neg (fun h => hf (List.append_eq_nil_iff.mp h).1),← hl]
  simp only [List.append_assoc]

theorem says_line {line line' : Text} (h : line = line') (hs : Says c line') : Says c line := h ▸ hs

theorem line_told {primary message otherwise : String} {tone : ConnectionStatusTone}
    (h : connectionStatusView state = ⟨primary,some (state.shownDetail otherwise),tone⟩)
    (hd : state.detail = some (text message)) :
    (connectionStatusBar state).line = text primary ++ behind (cleaned message otherwise) := by
  rw [line_detail h,shownDetail_told hd]

end Lines

section Pages
variable {shown : Bool → Nat → String} {js : Js} {s : State} {b : ConnectionState}

/-- The course behind a phase and a reason. -/
theorem error_course (hr : (App.system js).Reachable s) (hm : s.mounted = true) {r : Reason}
    (hp : s.page.connectionState.phase = .error) (hs : s.page.connectionState.reason = some r) :
    s.course = .failing ∧ r = .websocketError ∨ s.course = .up true ∧ r = .serverError ∨
      s.course = .ended r ∧ r ≠ .websocketError ∧ r ≠ .serverError := by
  obtain ⟨ls,hrun⟩ := hr
  obtain ⟨ks,_,hks⟩ := run_course hrun
  have hover := fun {r} => @Course.over_reason s.course ⟨ks,hks⟩ r
  have hphase := course_phase ⟨ls,hrun⟩ hm
  have known : ∀ {q : Reason}, s.course.reason = some q → q = r := fun hq =>
    Option.some.inj ((course_reason ⟨ls,hrun⟩ hm hq).symm.trans hs)
  rw [hp] at hphase
  generalize s.course = c at hover hphase known
  cases c with
  | off | waiting => cases hphase
  | checking again | opening again => cases again <;> cases hphase
  | failing => exact .inl ⟨rfl,(known rfl).symm⟩
  | up faulty =>
    cases faulty with
    | false => cases hphase
    | true => exact .inr (.inl ⟨rfl,(known rfl).symm⟩)
  | ended q =>
    obtain rfl := known rfl
    exact .inr (.inr ⟨rfl,hover rfl⟩)

theorem closed_course (hr : (App.system js).Reachable s) (hm : s.mounted = true)
    (hp : s.page.connectionState.phase = .closed) : s.course = .ended .remoteExit := by
  have hphase := course_phase hr hm
  rw [hp] at hphase
  generalize s.course = c at hphase
  cases c with
  | off | waiting | failing => cases hphase
  | checking again | opening again => cases again <;> cases hphase
  | up faulty => cases faulty <;> cases hphase
  | ended q => cases q <;> first | rfl | cases hphase

theorem connected_course (hr : (App.system js).Reachable s) (hm : s.mounted = true)
    (hp : s.page.connectionState.phase = .connected) : s.course = .up false := by
  have hphase := course_phase hr hm
  rw [hp] at hphase
  generalize s.course = c at hphase
  cases c with
  | off | waiting | failing => cases hphase
  | checking again | opening again => cases again <;> cases hphase
  | up faulty => cases faulty <;> first | rfl | cases hphase
  | ended q => cases q <;> cases hphase

/-- The bar of a page says what its course is. -/
theorem bar_line (hr : (App.system js).Reachable s) (hm : s.mounted = true)
    (hb : Rendered shown s.page.connectionState b) : Says s.course (connectionStatusBar b).line := by
  have hshape := reachable_shape hr
  have hphase := (course_phase hr hm).symm
  have herror := fun {r} => @error_course js s hr hm r
  have hclosed := closed_course hr hm
  have hconnected := connected_course hr hm
  generalize s.page.connectionState = a at hb hshape hphase herror hclosed hconnected
  obtain ⟨phase,reason,detail,exitCode,notice⟩ := b
  obtain ⟨hp,hre,hn,hd,he⟩ := hb
  dsimp only at hp hre hn hd
  subst hp hre hn hd
  cases hshape with
  | connecting => exact says_line (line_plain rfl (by decide +kernel)) (.connecting hphase)
  | connected notice =>
    rw [hconnected rfl]
    cases notice with
    | none => exact says_line (line_plain rfl (by decide +kernel)) .connected
    | some notice =>
      cases notice
      exact says_line (line_plain rfl (by decide +kernel)) .newSession
  | reconnecting => exact says_line (line_plain rfl (by decide +kernel)) (.reconnecting hphase)
  | retrying message => exact says_line (line_told rfl rfl) (.retrying hphase message)
  | closed code =>
    rw [hclosed rfl]
    obtain ⟨value,rfl,_⟩ := Option.map_eq_some_iff.mp he
    exact says_line ((line_detail rfl).trans (behind_front (by decide +kernel) (by decide +kernel) _))
      (.exited value)
  | @failed r hr =>
    rcases herror rfl rfl with ⟨hc,rfl⟩ | ⟨hc,rfl⟩ | ⟨hc,hne,_⟩
    · rw [hc]
      exact says_line (line_plain rfl (by decide +kernel)) .failing
    · rcases hr with hr | hr | hr | hr <;> cases hr
    · rw [hc]
      rcases hr with rfl | rfl | rfl | rfl
      · exact says_line (line_plain rfl (by decide +kernel)) .authRequired
      · exact says_line (line_plain rfl (by decide +kernel)) .authCheckFailed
      · exact says_line (line_plain rfl (by decide +kernel)) .websocketUpgrade
      · exact absurd rfl hne
  | @told r hr message =>
    rcases herror rfl rfl with ⟨hc,rfl⟩ | ⟨hc,rfl⟩ | ⟨hc,_,hne⟩
    · rcases hr with hr | hr <;> cases hr
    · rw [hc]
      refine says_line (line_detail rfl) ?_
      rw [shownDetail_told rfl]
      exact says_line (behind_front (by decide +kernel) (by decide +kernel) _) (.fault message)
    · rw [hc]
      rcases hr with rfl | rfl
      · exact says_line (line_told rfl rfl) (.network message)
      · exact absurd rfl hne

end Pages

section Codes
variable {shown : Bool → Nat → String} {s : State}

theorem exited_value {data : Bytes} {code : Browser.Number}
    (h : decodeServerFrame (standard shown) data = .ok (.exited code)) :
    ∃ value : Number.Value, code = ofReading shown value.reading := by
  cases data with
  | nil => cases h
  | cons kind payload =>
    simp only [decodeServerFrame] at h
    split_ifs at h
    · cases Except.ok.inj h
    · cases Except.ok.inj h
    · exact ⟨.ofText (textDecoder payload).toList,(ServerFrame.exited.inj (Except.ok.inj h)).symm⟩

/-- The code in the page is one the language has. -/
theorem reachable_code (hr : (App.system (standard shown)).Reachable s) {code : Browser.Number}
    (hc : s.page.connectionState.exitCode = some code) :
    ∃ value : Number.Value, code = ofReading shown value.reading := by
  revert code
  refine hr.invariant (I := fun s => ∀ {code}, s.page.connectionState.exitCode = some code →
    ∃ value : Number.Value, code = ofReading shown value.reading) (fun h => by cases h) ?_
  intro s l t _ ih hs code hc
  rcases step_sets hs with he | ⟨hshape,hp⟩ | ⟨i,data,_,sent,hd,he⟩
  · exact ih (he ▸ hc)
  · generalize t.page.connectionState = state at hshape hp hc
    cases hshape with
    | closed code => exact absurd rfl hp
    | connecting | connected | reconnecting | retrying | failed | told => cases hc
  · rw [he] at hc
    cases hc
    exact exited_value hd

theorem rendered_exists (hr : (App.system (standard shown)).Reachable s) :
    ∃ b, Rendered shown s.page.connectionState b := by
  obtain ⟨value,hv⟩ : ∃ value : Option Number.Value,
      value.map (fun code => ofReading shown code.reading) = s.page.connectionState.exitCode := by
    cases hc : s.page.connectionState.exitCode with
    | none => exact ⟨none,rfl⟩
    | some code =>
      obtain ⟨value,rfl⟩ := reachable_code hr hc
      exact ⟨some value,rfl⟩
  exact ⟨⟨_,_,_,value,_⟩,rfl,rfl,rfl,rfl,hv⟩

theorem ofReading_integer {r : Number.Reading} {v : Int} (h : ofReading shown r = .integer v) :
    r = .integer v := by
  cases r with
  | integer w =>
    cases h
    rfl
  | fraction negative units | infinity negative | nan => cases h

/-- A code of the server's is written as it is everywhere. -/
theorem code_line {b : ConnectionState} {code : Int32} {a : App.ConnectionState}
    (ha : a = ⟨.closed,some .remoteExit,none,
      some ((standard shown).number ((standard shown).decode (utf8 (toString code.toInt)))),none⟩)
    (hb : Rendered shown a b) :
    (connectionStatusBar b).line = text ("Closed · remote exited " ++ toString code.toInt) := by
  have hsmall : code.toInt.natAbs < 2 ^ 52 := by
    have hlow := code.le_toInt
    have hhigh := code.toInt_lt
    omega
  rw [number_of_exitPayload (exitPayload_encode code)] at ha
  subst ha
  obtain ⟨phase,reason,detail,exitCode,notice⟩ := b
  obtain ⟨hp,hre,hn,hd,he⟩ := hb
  dsimp only at hp hre hn hd
  subst hp hre hn hd
  obtain ⟨value,rfl,hv⟩ := Option.map_eq_some_iff.mp he
  have htext : value.reading.text = (toString code.toInt).toList := by
    rw [ofReading_integer hv,Number.text_whole hsmall,Int.toString_eq_repr]
  rw [text_append]
  refine (line_detail rfl).trans ?_
  rw [htext]
  exact behind_front (by decide +kernel) (by decide +kernel) _

end Codes

/-- The bar of a page with its sessions says what its course is; after the remote exit, that
the last session has exited, and with its code. -/
theorem status_tells {shown : Bool → Nat → String} {json : Protocol.Json}
    {s : (State × List Entry) × (Nat → Session.State)}
    (hr : (site (standard shown) json).Reachable s) (hm : s.1.1.mounted = true) :
    (∃ b, Rendered shown s.1.1.page.connectionState b) ∧
    ∀ b, Rendered shown s.1.1.page.connectionState b →
      (connectionStatusBar b).dataPhase = s.1.1.course.phase ∧
      Says s.1.1.course (connectionStatusBar b).line ∧
      (s.1.1.course = .ended .remoteExit → ∃ (i : Nat) (code : Int32),
        i + 1 = s.1.1.page.sockets.length ∧ .queued (.exited code) ∈ (s.2 i).sent ∧
        (connectionStatusBar b).line = text ("Closed · remote exited " ++ toString code.toInt)) := by
  have hpage := System.logged_reachable (System.network_hub hr)
  refine ⟨rendered_exists hpage,fun b hb => ⟨?_,bar_line hpage hm hb,fun hc => ?_⟩⟩
  · exact hb.phase.trans (course_phase hpage hm)
  · have hp : s.1.1.page.connectionState.phase = .closed := by
      rw [course_phase hpage hm,hc]
      rfl
    obtain ⟨i,code,hi,_,hsent,hshown⟩ := shut_exit hr hp
    exact ⟨i,code,hi,hsent,code_line hshown hb⟩

/-- The page and the sessions of a run to the second session's end, with the decoders of a browser. -/
def readOut : System ((State × List Entry) × (Nat → Session.State)) (Label ⊕ Nat × Session.Label) :=
  site (standard fun _ _ => "") (Protocol.serdeJson fun _ => "")

theorem status_tells_exit : ∃ (s : _) (b : ConnectionState) (code : Int32), readOut.Reachable s ∧
    Rendered (fun _ _ => "") s.1.1.page.connectionState b ∧
    (connectionStatusBar b).line = text ("Closed · remote exited " ++ toString code.toInt) := by
  have hr := System.reachable_end (m := readOut) secondSession rfl
  obtain ⟨⟨b,hb⟩,hall⟩ := status_tells hr rfl
  obtain ⟨_,_,hexit⟩ := hall b hb
  obtain ⟨_,code,_,_,hline⟩ := hexit rfl
  exact ⟨_,b,code,hr,hb,hline⟩

end Terminald.Status
