import Terminald.Machine.Numeral
import Terminald.Machine.Regex
import Terminald.Machine.Utf16
import Terminald.Model.App

namespace Terminald.Status
open Machine Machine.Utf16 App

/-- A string of the language, by its units. -/
abbrev Text := List UInt16

def maxDetailLength : Nat := 120

structure ConnectionState where
  phase : Phase
  reason : Option Reason := none
  detail : Option Text := none
  exitCode : Option Number.Value := none
  notice : Option Notice := none

inductive ConnectionStatusTone where
  | connecting
  | connected
  | reconnecting
  | closed
  | error
deriving DecidableEq

structure ConnectionStatusView where
  primary : String
  detail : Option Text
  tone : ConnectionStatusTone
deriving DecidableEq

def text (s : String) : Text := encode s.toList

/-- A class once or more often. -/
def oneOrMore (p : UInt16 → Bool) : Regex := .seq (.one p) (.many p)

/-- `/authorization\s*:/i` -/
def authorization : Regex := Regex.word "authorization".toList (.seq (.many isSpace) (.one (· == 58)))

/-- `/\bbasic\s+\S+/i` -/
def basic : Regex :=
  .seq .boundary (Regex.word "basic".toList (.seq (oneOrMore isSpace) (oneOrMore (fun u => !isSpace u))))

/-- `/\bcredentials?\b/i` -/
def credentials : Regex :=
  .seq .boundary (Regex.word "credential".toList (.seq (.maybe (.one (Regex.letter 's'))) .boundary))

def normalizeStatusDetail (detail : Text) : Text :=
  let normalized := trim isSpace (replaceRuns isSpace space false detail)
  if authorization.test normalized || basic.test normalized || credentials.test normalized then text "[redacted]"
  else if maxDetailLength < normalized.length then normalized.take maxDetailLength
  else normalized

/-- `state.detail ? normalizeStatusDetail(state.detail) : …`: an empty text counts as none. -/
def ConnectionState.shownDetail (state : ConnectionState) (otherwise : String) : Text :=
  match state.detail with
  | none => text otherwise
  | some [] => text otherwise
  | some detail => normalizeStatusDetail detail

def reported : Text := text "server reported: "

def errorStatusView (state : ConnectionState) : ConnectionStatusView :=
  match state.reason with
  | some .authRequired => ⟨"Auth required",some (text "credentials rejected"),.error⟩
  | some .authCheckFailed => ⟨"Error",some (text "auth check failed"),.error⟩
  | some .network => ⟨"Error",some (state.shownDetail "network failure"),.error⟩
  | some .websocketUpgrade => ⟨"Error",some (text "websocket upgrade failed"),.error⟩
  | some .websocketError => ⟨"Error",some (state.shownDetail "websocket error"),.error⟩
  | some .serverError => ⟨"Error",some (reported ++ state.shownDetail "unknown error"),.error⟩
  | _ => ⟨"Error",some (state.shownDetail "connection error"),.error⟩

def connectionStatusView (state : ConnectionState) : ConnectionStatusView :=
  if state.phase = .connected ∧ state.notice = some .newSession then
    ⟨"Connected",some (text "new PTY session"),.connected⟩
  else
    match state.phase with
    | .connecting => ⟨"Connecting",some (text "auth check pending"),.connecting⟩
    | .connected => ⟨"Connected",some (state.shownDetail "ws ready"),.connected⟩
    | .reconnecting => ⟨"Reconnecting",some (state.shownDetail "retrying connection"),.reconnecting⟩
    | .closed =>
      match state.reason,state.exitCode with
      | some .remoteExit,some code =>
        ⟨"Closed",some (text "remote exited " ++ encode code.reading.text),.closed⟩
      | _,_ => ⟨"Closed",some (state.shownDetail "connection closed"),.closed⟩
    | .error => errorStatusView state

/-- The attributes of the bar, and the texts of its spans after the indicator. -/
structure StatusBar where
  dataPhase : Phase
  dataReason : Option Reason
  dataNotice : Option Notice
  spans : List Text
deriving DecidableEq

/-- `ConnectionStatusBar`: without a detail there is no separator. -/
def connectionStatusBar (state : ConnectionState) : StatusBar :=
  let view := connectionStatusView state
  ⟨state.phase,state.reason,state.notice,text view.primary :: match view.detail with
    | none | some [] => []
    | some detail => [text " · ",detail]⟩

/-- What is read in it. -/
def StatusBar.line (bar : StatusBar) : Text := bar.spans.flatten

end Terminald.Status
