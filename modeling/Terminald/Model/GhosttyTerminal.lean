import Terminald.Model.App

namespace Terminald.GhosttyTerminal
open Machine Browser

/-- A `Terminal` object: the run that made it and the number of writes the page had seen by then, and
the arguments its own `write` was called with. -/
structure Terminal where
  run : Nat
  since : Nat
  written : List Bytes
  disposed : Bool
deriving DecidableEq

/-- One run of the mount effect. Until it is resumed `mount` waits for `init`. -/
structure Mounting where
  disposed : Bool
  resumed : Bool
deriving DecidableEq

/-- The component under the page. Terminals are named by their place. -/
structure Component where
  terminalRef : Option Nat
  terminals : List Terminal
  mountings : List Mounting
deriving DecidableEq

namespace Component

/-- `write` of the handle: without a terminal it does nothing. -/
def write (c : Component) (data : Bytes) : Component :=
  match c.terminalRef with
  | some k =>
    { c with terminals := c.terminals.modify k (fun t => { t with written := t.written ++ [data] }) }
  | none => c

/-- The mount effect up to the `await`. -/
def effect (c : Component) : Component := { c with mountings := c.mountings ++ [⟨false,false⟩] }

/-- What the effect returns. -/
def cleanup (c : Component) : Component :=
  { c with
    mountings := c.mountings.modify (c.mountings.length - 1) (fun m => { m with disposed := true }),
    terminals := match c.terminalRef with
      | some k => c.terminals.modify k (fun t => { t with disposed := true })
      | none => c.terminals,
    terminalRef := none }

/-- `mount` from the `await` on, up to the first notice of the size. -/
def resume (c : Component) (run since : Nat) : Component :=
  { c with terminals := c.terminals ++ [⟨run,since,[],false⟩],terminalRef := some c.terminals.length }

end Component

structure State where
  app : App.State
  component : Component
deriving DecidableEq

inductive Label where
  | app (label : App.Label)
  | init (k : Nat) (size : App.Size)
deriving DecidableEq

/-- Only a terminal has data and sizes to report. -/
def fromTerminal : App.Label → Bool
  | .data _ | .resize _ => true
  | _ => false

/-- The effects of the component go with those of the page around it. -/
def follow (c : Component) : App.Label → Component
  | .mount => c.effect
  | .unmount => c.cleanup
  | _ => c

/-- The page with its terminal. A call of `init` may resolve at any time; one that
fails leaves all as it is. -/
def step (js : Js) (s : State) : Label → Option State
  | .app l =>
    if fromTerminal l && s.component.terminalRef.isNone then none
    else
      (App.step js s.app l).map (fun app =>
        let calls := app.page.written.drop s.app.page.written.length
        ⟨app,follow (calls.foldl Component.write s.component) l⟩)
  | .init k size =>
    match s.component.mountings[k]? with
    | some m =>
      if m.resumed then none
      else
        let component : Component := { s.component with
          mountings := s.component.mountings.modify k (fun m => { m with resumed := true }) }
        -- the container is there as long as the page is mounted
        if m.disposed || !s.app.mounted then some { s with component := component }
        else
          (App.step js s.app (.resize size)).map (fun app =>
            ⟨app,component.resume k s.app.page.written.length⟩)
    | none => none

def start : State := ⟨App.start,⟨none,[],[]⟩⟩

def system (js : Js) : System State Label := ⟨start,step js⟩

end Terminald.GhosttyTerminal
