import Terminald.Machine.Link
import Terminald.Proofs.Frames
import Terminald.Proofs.Input
import Terminald.Proofs.Output

namespace Terminald.Session
open Machine Protocol

/-- The transport keeps its own messages to itself. -/
def Message.isData : Message → Bool
  | .binary _ | .text _ => true
  | .close | .ping _ | .pong _ => false

theorem sent_grows {json : Json} {s t : State} {l : Label} (hs : step json s l = some t) :
    s.sent <+: t.sent := by
  cases step_move hs with
  | delivered hd =>
    rw [delivered_sent]
    exact List.prefix_append _ _
  | replied hd => exact List.prefix_append _ _
  | posted hr ho hp | unposted hr ho =>
    simp only [posted_sent]
    exact List.prefix_rfl
  | received hd =>
    simp only [handle_sent]
    exact List.prefix_rfl
  | spawned hd | spawnFailed hd | readAgain hr ha | readEnd hr ha | readData hr ha hne
  | readFailed hr ha | waited hr hw | took hd hc | receiveFailed hd | exhausted hd hr hc
  | undelivered hd | unreplied hd | writeAgain hd ha | wrote hd ha hk | writeFailed hd ha
  | resized hd hi | resizeFailed hd hi | finished hd hp ht | dropped hs hr hd | process hp hs =>
    exact List.prefix_rfl

/-- A session, as its web socket sees it. -/
def server (json : Json) : End State Label Message Message where
  toSystem := system json
  sent s := (s.sent.map Frame.wire).filter Message.isData
  received s := s.received.filter Message.isData
  fresh := rfl
  grows h := ((sent_grows h).map Frame.wire).filter _

/-- What is no data does nothing to the PTY. -/
theorem effects_data (json : Json) (messages : List Message) :
    effects json messages = effects json (messages.filter Message.isData) := by
  induction messages with
  | nil => rfl
  | cons m messages ih =>
    have hcons : ∀ ms, effects json (m :: ms) = effect json m ++ effects json ms := fun _ => rfl
    cases m with
    | binary frame | text text => rw [hcons,ih,List.filter_cons_of_pos rfl,hcons]
    | close | ping data | pong data =>
      rw [hcons,ih,List.filter_cons_of_neg (by simp [Message.isData])]
      rfl

/-- No frame but the exit frame itself is taken for it. -/
theorem wire_exited {f : Frame} {code : Int32}
    (h : f.wire = .binary (ServerMessage.exited code).encode) : f = .queued (.exited code) := by
  have hinj : ∀ m : ServerMessage, m.encode = (ServerMessage.exited code).encode → m = .exited code := by
    intro m he
    have hd := Browser.decode_encode m
    rw [he,Browser.decode_encode] at hd
    exact (Except.ok.inj hd).symm
  cases f with
  | queued m => rw [hinj m (Message.binary.inj h)]
  | reply r =>
    cases r with
    | refused text => cases hinj _ (Message.binary.inj h)
    | pong data => cases h

/-- The exit frame stands at the end of all frames or is not there. -/
theorem exit_place {json : Json} {s : State} (hr : (system json).Reachable s) :
    (∀ code, .queued (.exited code) ∉ s.sent) ∨
    ∃ pre code, s.sent = pre ++ [.queued (.exited code)] ∧ ∀ code', .queued (.exited code') ∉ pre := by
  by_cases h : ∃ code, .queued (.exited code) ∈ s.sent
  · obtain ⟨code,hm⟩ := h
    obtain ⟨pre,post,hsplit⟩ := List.append_of_mem hm
    obtain ⟨rfl,_⟩ := reachable_exit_last hr pre post code hsplit
    refine .inr ⟨pre,code,hsplit,fun code' hin => ?_⟩
    obtain ⟨before,after,rfl⟩ := List.append_of_mem hin
    have hlast := (reachable_exit_last hr before (after ++ [.queued (.exited code)]) code'
      (by simp [hsplit])).1
    simp at hlast
  · exact .inl (fun code hm => h ⟨code,hm⟩)

/-- Who has heard of the exit has heard all. -/
theorem heard_exit {json : Json} {s : State} (hr : (system json).Reachable s) {heard : List Message}
    {code : Int32} (hh : heard <+: (s.sent.map Frame.wire).filter Message.isData)
    (hm : .binary (ServerMessage.exited code).encode ∈ heard) :
    heard = (s.sent.map Frame.wire).filter Message.isData ∧
      ∃ pre, s.sent = pre ++ [.queued (.exited code)] ∧ ∀ code', .queued (.exited code') ∉ pre := by
  obtain ⟨f,hf,hw⟩ := List.mem_map.mp (List.mem_filter.mp (hh.subset hm)).1
  obtain rfl := wire_exited hw
  rcases exit_place hr with hnone | ⟨pre,code',hsplit,hpre⟩
  · exact absurd hf (hnone code)
  · obtain rfl : code = code' := by
      rw [hsplit] at hf
      rcases List.mem_append.mp hf with hf | hf
      · exact absurd hf (hpre code)
      · simpa using hf
    refine ⟨?_,pre,hsplit,hpre⟩
    have hlast : (s.sent.map Frame.wire).filter Message.isData =
        (pre.map Frame.wire).filter Message.isData ++ [.binary (ServerMessage.exited code).encode] := by
      rw [hsplit,List.map_append,List.filter_append]
      rfl
    rw [hlast] at hh ⊢
    rcases List.prefix_concat_iff.mp hh with he | hbefore
    · exact he
    · -- the exit frame would be among the frames before it
      obtain ⟨f,hf,hw⟩ := List.mem_map.mp (List.mem_filter.mp (hbefore.subset hm)).1
      exact absurd (wire_exited hw ▸ hf) (hpre code)

end Terminald.Session
