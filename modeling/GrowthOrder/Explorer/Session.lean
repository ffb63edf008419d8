import GrowthOrder.Analysis
import GrowthOrder.Explorer.Cursor
import GrowthOrder.Text.Lines

/-!
# GrowthOrder.Explorer.Session

A session of the explorer: a recorded search, the place in it, the pane in focus and how the panes
are scrolled and zoomed.  `Session.press` says what a key does.
-/

namespace GrowthOrder.Explorer

/-- The panes that can have the focus. -/
inductive Focus
  | overview
  | history
  | curve
  deriving DecidableEq, Repr

/-- The pane that gets the focus next. -/
def Focus.next : Focus → Focus
  | overview => history
  | history => curve
  | curve => overview

/-- The keys of the explorer. -/
inductive Key
  | left
  | right
  | up
  | down
  | tab
  | enter
  | backspace
  /-- The space bar.  A press right after the last one comes from a key that is held down. -/
  | space (isHeld : Bool)
  | character (c : Char)
  | other
  deriving DecidableEq, Repr

/-- The key that a word names, none if it names no key. -/
def Key.ofWord? (word : String) : Option Key :=
  if word = "left" then some left
  else if word = "right" then some right
  else if word = "up" then some up
  else if word = "down" then some down
  else if word = "tab" then some tab
  else if word = "enter" then some enter
  else if word = "backspace" then some backspace
  else if word = "space" then some (space false)
  else match word.toList with
    | [c] => some (character c)
    | _ => none

/-! ## Notices -/

/-- What the session tells the user. -/
inductive Notice
  | ready
  | steppedBackward
  | atFirst
  | steppedForward
  | atLast
  | jumpedToEnd
  | jumpedToStart
  | zoomed (zoom : Nat)
  | playing
  | paused
  /-- Playback has come to the last event. -/
  | complete
  deriving DecidableEq, Repr

/-- The text of a notice. -/
def Notice.message : Notice → String
  | ready => "Ready!"
  | steppedBackward => "Stepped backward"
  | atFirst => "Cannot step backward: at first event"
  | steppedForward => "Stepped forward"
  | atLast => "Cannot step forward: at last event"
  | jumpedToEnd => "Jumped to end"
  | jumpedToStart => "Jumped to start"
  | zoomed zoom => "Zoom x" ++ toString (Nat.pow 2 zoom)
  | playing => "Playing..."
  | paused => "Paused"
  | complete => "Playback complete"

/-! ## Sessions -/

/-- The state of the explorer. -/
structure Session where
  /-- The text of the recurrence. -/
  source : String
  analysis : Analysis
  trace : Trace Float
  cursor : Cursor
  focus : Focus
  overviewScroll : Nat
  historyScroll : Nat
  /-- Whether the history scrolls along with the cursor. -/
  follows : Bool
  /-- The window of the curve is the bracket divided by two to this power. -/
  zoom : Nat
  isOver : Bool
  notice : Notice
  isPlaying : Bool

namespace Session

/-- A session at the first event. -/
def start (source : String) (analysis : Analysis) (trace : Trace Float) : Session where
  source := source
  analysis := analysis
  trace := trace
  cursor := .first trace.length
  focus := .history
  overviewScroll := 0
  historyScroll := 0
  follows := true
  zoom := 0
  isOver := false
  notice := .ready
  isPlaying := false

/-- A session on a text, which is shown without the blanks around it. -/
def ofText (text : String) : Except AnalysisFault Session :=
  match Analysis.ofText text with
  | .error e => .error e
  | .ok (a, t) => .ok (start (Text.trim text) a t)

/-- The current event. -/
def event? (s : Session) : Option (Event Float) :=
  s.trace[s.cursor.position]?

/-- The last point that was evaluated up to the current event. -/
def point? (s : Session) : Option (Float × Float) :=
  (s.trace.take (s.cursor.position + 1)).reverse.findSome? Event.point?

/-! ## Moves -/

/-- Go to an event by hand, which ends playback. -/
def moveTo (s : Session) (cursor : Cursor) (notice : Notice) : Session :=
  { s with cursor := cursor, notice := notice, follows := true, isPlaying := false }

/-- Step to an event, or tell that there is none. -/
def step (s : Session) (target : Option Cursor) (moved stayed : Notice) : Session :=
  match target with
  | some cursor => s.moveTo cursor moved
  | none => s.moveTo s.cursor stayed

/-- Start or stop playback; a key that is held down does neither. -/
def play (s : Session) (isHeld : Bool) : Session :=
  if isHeld then { s with follows := true }
  else { s with
    follows := true
    isPlaying := !s.isPlaying
    notice := if s.isPlaying then .paused else .playing }

/-- The deepest zoom. -/
def deepestZoom : Nat :=
  40

/-- Change the zoom, and tell it. -/
def setZoom (s : Session) (zoom : Nat) : Session :=
  { s with zoom := zoom, notice := .zoomed zoom }

/-- Scroll the pane in focus up, or zoom in. -/
def up (s : Session) : Session :=
  match s.focus with
  | .overview => { s with overviewScroll := s.overviewScroll - 1 }
  | .history => { s with historyScroll := s.historyScroll - 1, follows := false }
  | .curve => s.setZoom (min (s.zoom + 1) deepestZoom)

/-- Scroll the pane in focus down, or zoom out. -/
def down (s : Session) : Session :=
  match s.focus with
  | .overview => { s with overviewScroll := s.overviewScroll + 1 }
  | .history => { s with historyScroll := s.historyScroll + 1, follows := false }
  | .curve => s.setZoom (s.zoom - 1)

/-- What a key does. -/
def press (s : Session) : Key → Session
  | .left => s.step s.cursor.backward? .steppedBackward .atFirst
  | .right => s.step s.cursor.forward? .steppedForward .atLast
  | .enter => s.moveTo s.cursor.toEnd .jumpedToEnd
  | .backspace => s.moveTo s.cursor.toStart .jumpedToStart
  | .space isHeld => s.play isHeld
  | .up => s.up
  | .down => s.down
  | .tab => { s with focus := s.focus.next }
  | .character c => if c = 'q' || c = 'Q' then { s with isOver := true } else s
  | .other => s

/-- A beat of playback: the next event, or the end of playback. -/
def beat (s : Session) : Session :=
  if s.isPlaying then
    match s.cursor.forward? with
    | some cursor => { s with cursor := cursor, notice := .playing }
    | none => { s with isPlaying := false, notice := .complete }
  else s

end Session

end GrowthOrder.Explorer
