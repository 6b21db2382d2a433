import Terminald.Model.GhosttyTerminal
import Terminald.Proofs.Traffic

namespace Terminald.GhosttyTerminal
open Machine Browser

/-- The payloads a step receives for the terminal. -/
def outputs (js : Js) (s : State) : Label → Bytes
  | .app l => (App.outputs js s.app l).flatten
  | .init _ _ => []

/-- What the sockets of the newest attempt received for the terminal in a run. -/
def received (js : Js) (labels : List Label) : Bytes :=
  (system js).collect (outputs js) start labels

/-- What is received before there is a terminal. -/
def early (js : Js) (s : State) (l : Label) : Bytes :=
  if s.component.terminalRef.isSome then [] else outputs js s l

def inTime (js : Js) (s : State) (l : Label) : Bool :=
  s.component.terminalRef.isSome || (outputs js s l).isEmpty

/-- The bytes written to a terminal. -/
def shown (s : State) (k : Nat) : Option Bytes :=
  (s.component.terminals[k]?).map (fun t => t.written.flatten)

/-- How far a page has come that is not unmounted, and what its terminal was given. -/
inductive Stage : State → Bytes → Prop
  | blank (hm : s.app.mounted = false) (hc : s.component = ⟨none,[],[]⟩) : Stage s []
  | waiting (hm : s.app.mounted = true) (hc : s.component = ⟨none,[],[⟨false,false⟩]⟩) : Stage s []
  | ready (hm : s.app.mounted = true)
      (hc : s.component = ⟨some 0,[⟨0,since,written,false⟩],[⟨false,true⟩]⟩) : Stage s written.flatten

/-- The component once the `init` of its run `k` has come back. -/
def Component.answered (c : Component) (k : Nat) : Component :=
  { c with mountings := c.mountings.modify k (fun m => { m with resumed := true }) }

section Writes

theorem write_none {c : Component} (h : c.terminalRef = none) (calls : List Bytes) :
    calls.foldl Component.write c = c := by
  induction calls with
  | nil => rfl
  | cons data calls ih =>
    have hw : c.write data = c := by simp [Component.write,h]
    rw [List.foldl_cons,hw,ih]

theorem write_some (since : Nat) (written calls : List Bytes) (ms : List Mounting) :
    calls.foldl Component.write ⟨some 0,[⟨0,since,written,false⟩],ms⟩ =
      ⟨some 0,[⟨0,since,written ++ calls,false⟩],ms⟩ := by
  induction calls generalizing written with
  | nil => simp
  | cons data calls ih =>
    have hw : Component.write ⟨some 0,[⟨0,since,written,false⟩],ms⟩ data =
        ⟨some 0,[⟨0,since,written ++ [data],false⟩],ms⟩ := rfl
    rw [List.foldl_cons,hw,ih,List.append_assoc]
    rfl

end Writes

section Steps
variable {js : Js} {s t : State} {l : Label}

theorem step_app {l : App.Label} (h : step js s (.app l) = some t) :
    App.step js s.app l = some t.app ∧
      t.component = follow ((App.outputs js s.app l).foldl Component.write s.component) l := by
  simp only [step] at h
  split at h
  · cases h
  · obtain ⟨app,happ,he⟩ := Option.map_eq_some_iff.mp h
    subst he
    refine ⟨happ,?_⟩
    dsimp only
    rw [App.step_written happ,List.drop_left]

/-- A run that `init` comes back to goes on once, and only as the newest run of a mounted page does it
get a terminal. -/
theorem step_init {k : Nat} {size : App.Size} (h : step js s (.init k size) = some t) :
    ∃ m, s.component.mountings[k]? = some m ∧ m.resumed = false ∧
      ((m.disposed = true ∨ s.app.mounted = false) ∧ t = ⟨s.app,s.component.answered k⟩ ∨
        m.disposed = false ∧ s.app.mounted = true ∧ App.step js s.app (.resize size) = some t.app ∧
          t.component = (s.component.answered k).resume k s.app.page.written.length) := by
  simp only [step] at h
  split at h
  · rename_i m hk
    split_ifs at h with hr hover
    · cases h
      exact ⟨m,hk,by simpa using hr,.inl ⟨by simpa using hover,rfl⟩⟩
    · obtain ⟨hd,hm⟩ : m.disposed = false ∧ s.app.mounted = true := by simpa using hover
      obtain ⟨app,happ,he⟩ := Option.map_eq_some_iff.mp h
      subst he
      exact ⟨m,hk,by simpa using hr,.inr ⟨hd,hm,happ,rfl⟩⟩
  · cases h

theorem follow_other (c : Component) {l : App.Label} (hm : l ≠ .mount) (hu : l ≠ .unmount) :
    follow c l = c := by
  cases l <;> first | rfl | contradiction

theorem step_stage {shown : Bytes} (h : Stage s shown) (hu : l ≠ .app .unmount)
    (hstep : step js s l = some t) :
    Stage t (if s.component.terminalRef.isSome then shown ++ outputs js s l else []) := by
  cases l with
  | app l =>
    obtain ⟨happ,hcomp⟩ := step_app hstep
    cases h with
    | blank hm hc =>
      rw [hc,write_none rfl] at hcomp
      simp only [hc,Option.isSome_none,Bool.false_eq_true,if_false]
      rcases App.step_mounted happ with ⟨rfl,_,ht⟩ | ⟨rfl,_⟩ | ⟨hn,hn',ht⟩
      · exact .waiting ht hcomp
      · exact absurd rfl hu
      · exact .blank (ht.trans hm) (hcomp.trans (follow_other _ hn hn'))
    | waiting hm hc =>
      rw [hc,write_none rfl] at hcomp
      simp only [hc,Option.isSome_none,Bool.false_eq_true,if_false]
      rcases App.step_mounted happ with ⟨_,hno,_⟩ | ⟨rfl,_⟩ | ⟨hn,hn',ht⟩
      · exact absurd (hno.symm.trans hm) Bool.false_ne_true
      · exact absurd rfl hu
      · exact .waiting (ht.trans hm) (hcomp.trans (follow_other _ hn hn'))
    | @ready since written hm hc =>
      rw [hc,write_some] at hcomp
      simp only [hc,Option.isSome_some,if_true,outputs]
      rw [← List.flatten_append]
      rcases App.step_mounted happ with ⟨_,hno,_⟩ | ⟨rfl,_⟩ | ⟨hn,hn',ht⟩
      · exact absurd (hno.symm.trans hm) Bool.false_ne_true
      · exact absurd rfl hu
      · exact .ready (ht.trans hm) (hcomp.trans (follow_other _ hn hn'))
  | init k size =>
    cases h with
    | blank hm hc => simp [step,hc] at hstep
    | waiting hm hc =>
      cases k with
      | succ k => simp [step,hc] at hstep
      | zero =>
        simp only [step,hc,hm,List.getElem?_cons_zero,Bool.false_eq_true,if_false,Bool.or_self,
          Bool.not_true] at hstep
        obtain ⟨app,happ,he⟩ := Option.map_eq_some_iff.mp hstep
        subst he
        simp only [hc,Option.isSome_none,Bool.false_eq_true,if_false]
        rcases App.step_mounted happ with ⟨hn,_⟩ | ⟨hn,_⟩ | ⟨_,_,ht⟩
        · cases hn
        · cases hn
        · change Stage _ (List.flatten [])
          exact .ready (ht.trans hm) rfl
    | ready hm hc =>
      cases k with
      | succ k => simp [step,hc] at hstep
      | zero => simp [step,hc] at hstep

theorem stage_none {b : Bytes} (h : Stage s b) (hr : s.component.terminalRef.isSome = false) :
    b = [] := by
  cases h with
  | blank hm hc | waiting hm hc => rfl
  | ready hm hc => simp [hc] at hr

/-- What was received is what came too early, and then what is shown. -/
theorem run_stage {ls : List Label} (hrun : (system js).run (system js).start ls = some s)
    (hu : .app .unmount ∉ ls) :
    ∃ b, Stage s b ∧ received js ls = (system js).collect (early js) start ls ++ b := by
  apply System.run_history (I := fun ls s => .app .unmount ∉ ls → ∃ b, Stage s b ∧
    received js ls = (system js).collect (early js) start ls ++ b) _ _ hrun hu
  · intro _
    exact ⟨[],.blank rfl rfl,rfl⟩
  · intro past s l t hpast ih hstep hu
    simp only [List.mem_append,List.mem_singleton,not_or] at hu
    obtain ⟨b,hb,hrec⟩ := ih hu.1
    refine ⟨_,step_stage hb (Ne.symm hu.2) hstep,?_⟩
    have hsnoc : received js (past ++ [l]) = received js past ++ outputs js s l :=
      System.collect_snoc hpast l
    have hearly : (system js).collect (early js) start (past ++ [l]) =
        (system js).collect (early js) start past ++ early js s l := System.collect_snoc hpast l
    rw [hsnoc,hearly,hrec]
    cases hr : s.component.terminalRef.isSome with
    | true => simp [early,hr]
    | false => simp [early,hr,stage_none hb hr]

end Steps

/-- While the page is mounted its terminal shows all output, from the first byte, just if
none came before the terminal was there. -/
theorem output_kept_iff {js : Js} {ls : List Label} {s : State} {k : Nat}
    (hrun : (system js).run (system js).start ls = some s) (hu : .app .unmount ∉ ls)
    (hk : s.component.terminalRef = some k) :
    shown s k = some (received js ls) ↔
      ((system js).only (inTime js)).run (system js).start ls = some s := by
  have hc : ∀ s l, inTime js s l = true ↔ early js s l = [] := by
    intro s l
    cases hr : s.component.terminalRef.isSome <;> simp [inTime,early,hr]
  rw [← System.collect_nil_iff hc hrun]
  obtain ⟨b,hb,hrec⟩ := run_stage hrun hu
  cases hb with
  | blank hm hcomp | waiting hm hcomp => simp [hcomp] at hk
  | @ready since written hm hcomp =>
    obtain rfl : k = 0 := by simpa [hcomp] using hk.symm
    have hshown : shown s 0 = some written.flatten := by simp [shown,hcomp]
    rw [hshown,hrec,Option.some.injEq]
    exact List.self_eq_append_left

/-- The session writes its prompt when the page has its terminal. -/
def timelyRun : List Label :=
  [.app .mount,.app (.fetched 0 (.ok 204)),.init 0 ⟨80,24⟩,.app (.opened 0),
   .app (.message 0 [2,36,32]),.app (.message 0 [2,108,115])]

theorem output_kept_timely :
    ∃ s, (system ⟨fun _ => "",fun _ => .integer 0⟩).run start timelyRun = some s ∧
      shown s 0 = some (received ⟨fun _ => "",fun _ => .integer 0⟩ timelyRun) := by
  have hrun : (system ⟨fun _ => "",fun _ => .integer 0⟩).run start timelyRun = some _ := rfl
  exact ⟨_,hrun,(output_kept_iff hrun (by decide) rfl).mpr rfl⟩

/-- The session writes its prompt before the page has its terminal. -/
def promptRun : List Label :=
  [.app .mount,.app (.fetched 0 (.ok 204)),.app (.opened 0),.app (.message 0 [2,36,32]),
   .init 0 ⟨80,24⟩,.app (.message 0 [2,108,115])]

theorem prompt_lost :
    ¬∀ (js : Js) (ls : List Label) (s : State) (k : Nat), (system js).run (system js).start ls = some s →
      .app .unmount ∉ ls → s.component.terminalRef = some k → shown s k = some (received js ls) := by
  intro h
  have hlost := h ⟨fun _ => "",fun _ => .integer 0⟩ promptRun _ 0 rfl (by decide) rfl
  have hshown : (some [108,115] : Option Bytes) = some [36,32,108,115] := hlost
  exact absurd hshown (by decide)

end Terminald.GhosttyTerminal
