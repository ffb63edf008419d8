import GrowthOrder.Explorer.Screen
import GrowthOrder.Proofs.Analysis

/-!
# GrowthOrder.Proofs.Explorer.Session

What every session of the explorer keeps, whatever keys are pressed and however often it is drawn.

A session is `Rooted` in the one that it started as if it shows the same search and its place and
zoom are in range.  One action keeps that (`Rooted.act`), hence any number of them
(`Rooted.after`), and what the screen relies on follows from it.
-/

namespace GrowthOrder.Explorer

/-! ## Moves of the cursor -/

namespace Cursor

variable {c d : Cursor}

@[simp]
theorem length_toStart (c : Cursor) : c.toStart.length = c.length :=
  rfl

@[simp]
theorem length_toEnd (c : Cursor) : c.toEnd.length = c.length :=
  rfl

theorem of_forward? (h : c.forward? = some d) :
    d.length = c.length ∧ d.position = c.position + 1 := by
  unfold forward? at h
  split at h
  · rw [← Option.some.inj h]
    exact ⟨rfl, rfl⟩
  · simp at h

theorem of_backward? (h : c.backward? = some d) :
    d.length = c.length ∧ d.position + 1 = c.position := by
  unfold backward? at h
  split at h
  · simp at h
  · next hpositive =>
    rw [← Option.some.inj h]
    exact ⟨rfl, Nat.succ_pred_eq_of_ne_zero hpositive⟩

theorem position_lt (c : Cursor) (h : 0 < c.length) : c.position < c.length := by
  have := c.position_le
  omega

end Cursor

/-! ## Zooming -/

/-- In range a factor is a shift of a machine word. -/
theorem shift_eq_pow {zoom : Nat} (h : zoom ≤ Session.deepestZoom) :
    ((1 : UInt64) <<< UInt64.ofNat zoom).toNat = 2 ^ zoom := by
  have hall : ∀ zoom ≤ Session.deepestZoom,
      ((1 : UInt64) <<< UInt64.ofNat zoom).toNat = 2 ^ zoom := by
    decide +kernel
  exact hall zoom h

/-- The zoom that a notice tells is in range. -/
def Notice.InRange (notice : Notice) : Prop :=
  ∀ zoom, notice = .zoomed zoom → zoom ≤ Session.deepestZoom

namespace Session

/-! ## Runs -/

/-- What happens to a session: a key is pressed, the screen is drawn, playback goes on. -/
inductive Action
  | press (key : Key)
  | draw (size : Size)
  | beat

/-- The session after an action. -/
def act (s : Session) : Action → Session
  | .press key => s.press key
  | .draw size => (s.draw size).2
  | .beat => s.beat

/-- The session after some actions. -/
def after (s : Session) (actions : List Action) : Session :=
  actions.foldl act s

variable {s₀ s : Session}

/-- A session that shows the same search as another, within its range. -/
structure Rooted (s₀ s : Session) : Prop where
  source : s.source = s₀.source
  analysis : s.analysis = s₀.analysis
  trace : s.trace = s₀.trace
  length : s.cursor.length = s₀.trace.length
  zoom : s.zoom ≤ deepestZoom
  notice : s.notice.InRange

theorem Rooted.start (source : String) (a : Analysis) (trace : Trace Float) :
    Rooted (start source a trace) (start source a trace) where
  source := rfl
  analysis := rfl
  trace := rfl
  length := rfl
  zoom := Nat.zero_le _
  notice := by simp [Session.start, Notice.InRange]

/-! ## One action -/

namespace Rooted

theorem moveTo (h : Rooted s₀ s) {cursor : Cursor} (hcursor : cursor.length = s.cursor.length)
    {notice : Notice} (hnotice : notice.InRange) : Rooted s₀ (s.moveTo cursor notice) :=
  ⟨h.source, h.analysis, h.trace, hcursor.trans h.length, h.zoom, hnotice⟩

theorem step (h : Rooted s₀ s) {target : Option Cursor}
    (htarget : ∀ cursor, target = some cursor → cursor.length = s.cursor.length)
    {moved stayed : Notice} (hmoved : moved.InRange) (hstayed : stayed.InRange) :
    Rooted s₀ (s.step target moved stayed) := by
  cases target with
  | some cursor => exact h.moveTo (htarget cursor rfl) hmoved
  | none => exact h.moveTo rfl hstayed

theorem play (h : Rooted s₀ s) (isHeld : Bool) : Rooted s₀ (s.play isHeld) := by
  cases isHeld with
  | true => exact ⟨h.source, h.analysis, h.trace, h.length, h.zoom, h.notice⟩
  | false =>
      refine ⟨h.source, h.analysis, h.trace, h.length, h.zoom, ?_⟩
      cases hplaying : s.isPlaying <;> simp [Session.play, hplaying, Notice.InRange]

theorem setZoom (h : Rooted s₀ s) {zoom : Nat} (hzoom : zoom ≤ deepestZoom) :
    Rooted s₀ (s.setZoom zoom) :=
  ⟨h.source, h.analysis, h.trace, h.length, hzoom, by
    rintro told ⟨⟩
    exact hzoom⟩

theorem up (h : Rooted s₀ s) : Rooted s₀ s.up := by
  unfold Session.up
  split
  · exact ⟨h.source, h.analysis, h.trace, h.length, h.zoom, h.notice⟩
  · exact ⟨h.source, h.analysis, h.trace, h.length, h.zoom, h.notice⟩
  · exact h.setZoom (Nat.min_le_right _ _)

theorem down (h : Rooted s₀ s) : Rooted s₀ s.down := by
  unfold Session.down
  split
  · exact ⟨h.source, h.analysis, h.trace, h.length, h.zoom, h.notice⟩
  · exact ⟨h.source, h.analysis, h.trace, h.length, h.zoom, h.notice⟩
  · exact h.setZoom ((Nat.sub_le _ _).trans h.zoom)

theorem press (h : Rooted s₀ s) (key : Key) : Rooted s₀ (s.press key) := by
  cases key with
  | left =>
      refine h.step (fun cursor hcursor => (Cursor.of_backward? hcursor).1) ?_ ?_ <;>
        simp [Notice.InRange]
  | right =>
      refine h.step (fun cursor hcursor => (Cursor.of_forward? hcursor).1) ?_ ?_ <;>
        simp [Notice.InRange]
  | up => exact h.up
  | down => exact h.down
  | tab => exact ⟨h.source, h.analysis, h.trace, h.length, h.zoom, h.notice⟩
  | enter =>
      refine h.moveTo s.cursor.length_toEnd ?_
      simp [Notice.InRange]
  | backspace =>
      refine h.moveTo s.cursor.length_toStart ?_
      simp [Notice.InRange]
  | space isHeld => exact h.play isHeld
  | character c =>
      simp only [Session.press]
      split
      · exact ⟨h.source, h.analysis, h.trace, h.length, h.zoom, h.notice⟩
      · exact h
  | other => exact h

theorem beat (h : Rooted s₀ s) : Rooted s₀ s.beat := by
  unfold Session.beat
  split
  · split
    · next cursor hcursor =>
      exact ⟨h.source, h.analysis, h.trace, (Cursor.of_forward? hcursor).1.trans h.length, h.zoom,
        by simp [Notice.InRange]⟩
    · exact ⟨h.source, h.analysis, h.trace, h.length, h.zoom, by simp [Notice.InRange]⟩
  · exact h

theorem act (h : Rooted s₀ s) (action : Action) : Rooted s₀ (s.act action) := by
  cases action with
  | press key => exact h.press key
  | draw size => exact ⟨h.source, h.analysis, h.trace, h.length, h.zoom, h.notice⟩
  | beat => exact h.beat

theorem after (h : Rooted s₀ s) (actions : List Action) : Rooted s₀ (s.after actions) := by
  induction actions generalizing s with
  | nil => exact h
  | cons action actions ih => exact ih (h.act action)

end Rooted

/-! ## The end of a session -/

@[simp]
theorem isOver_step (s : Session) (target : Option Cursor) (moved stayed : Notice) :
    (s.step target moved stayed).isOver = s.isOver := by
  cases target <;> rfl

@[simp]
theorem isOver_play (s : Session) (isHeld : Bool) : (s.play isHeld).isOver = s.isOver := by
  cases isHeld <;> rfl

@[simp]
theorem isOver_up (s : Session) : s.up.isOver = s.isOver := by
  unfold up
  split <;> rfl

@[simp]
theorem isOver_down (s : Session) : s.down.isOver = s.isOver := by
  unfold down
  split <;> rfl

@[simp]
theorem isOver_beat (s : Session) : s.beat.isOver = s.isOver := by
  unfold beat
  split
  · split <;> rfl
  · rfl

theorem isOver_press (h : s.isOver = true) (key : Key) : (s.press key).isOver = true := by
  cases key <;> simp [press, moveTo, h, apply_ite Session.isOver]

/-- A session that is over stays so. -/
theorem isOver_after (h : s.isOver = true) (actions : List Action) :
    (s.after actions).isOver = true := by
  induction actions generalizing s with
  | nil => exact h
  | cons action actions ih =>
      refine ih ?_
      cases action with
      | press key => exact isOver_press h key
      | draw size => exact h
      | beat => exact (isOver_beat s).trans h

/-! ## What the screen shows -/

/-- The text that a step key shows where there is no event to step to. -/
def cannotStep : String :=
  "Cannot step"

/-- A step key that does nothing is told from one that does something. -/
theorem cannotStep_iff {key : Key} (hkey : key = .left ∨ key = .right) :
    cannotStep.toList <+: (s.press key).notice.message.toList ↔
      (s.press key).cursor.position = s.cursor.position := by
  obtain rfl | rfl := hkey
  · rw [press]
    cases hcursor : s.cursor.backward? with
    | none =>
        simp only [step, moveTo, Notice.message, iff_true]
        decide
    | some cursor =>
        have hposition := (Cursor.of_backward? hcursor).2
        simp only [step, moveTo, Notice.message]
        refine iff_of_false (by decide) (by omega)
  · rw [press]
    cases hcursor : s.cursor.forward? with
    | none =>
        simp only [step, moveTo, Notice.message, iff_true]
        decide
    | some cursor =>
        have hposition := (Cursor.of_forward? hcursor).2
        simp only [step, moveTo, Notice.message]
        refine iff_of_false (by decide) (by omega)

theorem point?_eq_some_iff (s : Session) (p : Float × Float) :
    s.point? = some p ↔ ∃ before e after,
      s.trace.take (s.cursor.position + 1) = before ++ e :: after ∧ e.point? = some p ∧
        ∀ later ∈ after, later.point? = none := by
  rw [point?, List.findSome?_eq_some_iff]
  constructor
  · rintro ⟨after, e, before, hsplit, hpoint, hlater⟩
    refine ⟨before.reverse, e, after.reverse, ?_, hpoint, ?_⟩
    · rw [← List.reverse_reverse (List.take _ _), hsplit]
      simp
    · simpa using hlater
  · rintro ⟨before, e, after, hsplit, hpoint, hlater⟩
    refine ⟨after.reverse, e, before.reverse, ?_, hpoint, ?_⟩
    · rw [hsplit]
      simp
    · simpa using hlater

/-! ## All sessions -/

/-- What every session on a search keeps from its start on. -/
structure Invariant (s₀ s : Session) : Prop where
  source : s.source = s₀.source
  analysis : s.analysis = s₀.analysis
  trace : s.trace = s₀.trace
  /-- The function that is drawn stays the same, and so does the bracket. -/
  plot : ∀ size, (s.draw size).1.plot =
    Curve.draw (.ofRecurrence s₀.analysis.recurrence) s₀.bracket? s.point? s.zoom
      (s.focus == .curve) (size.width - percent 45 size.width)
  length_eq : s.cursor.length = s.trace.length
  one_le_length : 1 ≤ s.cursor.length
  position_lt : s.cursor.position < s.cursor.length
  /-- There always is a current event, the one at the cursor. -/
  event : ∃ e, s.trace[s.cursor.position]? = some e ∧ s.event? = some e
  /-- The current point is that of the last event that has one, up to the current event. -/
  point : ∀ p, s.point? = some p ↔ ∃ before e after,
    s.trace.take (s.cursor.position + 1) = before ++ e :: after ∧ e.point? = some p ∧
      ∀ later ∈ after, later.point? = none
  zoom_le : s.zoom ≤ 40
  /-- The factor of a zoom fits into a machine word, and so does one that a notice tells. -/
  shift : ((1 : UInt64) <<< UInt64.ofNat s.zoom).toNat = 2 ^ s.zoom
  notice : ∀ zoom, s.notice = .zoomed zoom → zoom ≤ 40 ∧
    s.notice.message = "Zoom x" ++ toString ((1 : UInt64) <<< UInt64.ofNat zoom).toNat
  /-- What is over stays so. -/
  ended : s.isOver = true → ∀ actions, (s.after actions).isOver = true
  /-- A step key tells that it cannot step exactly if it stays where it is. -/
  step : ∀ key, key = .left ∨ key = .right →
    (cannotStep.toList <+: (s.press key).notice.message.toList ↔
      (s.press key).cursor.position = s.cursor.position)

theorem Rooted.invariant (h : Rooted s₀ s) (hne : s₀.trace ≠ []) : Invariant s₀ s := by
  have hlength : s.cursor.length = s.trace.length := by rw [h.length, h.trace]
  have hpos : 0 < s.cursor.length := by
    rw [h.length]
    exact List.length_pos_of_ne_nil hne
  have hposition := s.cursor.position_lt hpos
  have hevent := List.getElem?_eq_getElem (hlength ▸ hposition)
  exact {
    source := h.source
    analysis := h.analysis
    trace := h.trace
    plot := fun size => by
      rw [← h.analysis, bracket?, ← h.trace]
      rfl
    length_eq := hlength
    one_le_length := hpos
    position_lt := hposition
    event := ⟨_, hevent, hevent⟩
    point := point?_eq_some_iff s
    zoom_le := h.zoom
    shift := shift_eq_pow h.zoom
    notice := fun zoom hzoom => ⟨h.notice zoom hzoom, by
      rw [hzoom, Notice.message, shift_eq_pow (h.notice zoom hzoom)]
      rfl⟩
    ended := isOver_after
    step := fun key => cannotStep_iff }

theorem ofText_eq_ok_iff {text : String} :
    ofText text = .ok s ↔ ∃ a trace, Analysis.ofText text = .ok (a, trace) ∧
      s = start (Text.trim text) a trace := by
  unfold ofText
  cases htext : Analysis.ofText text with
  | error e => simp
  | ok p => simp [Prod.ext_iff, eq_comm]

/-- A session starts at the first of its events, and there is one, as a search records its outcome
at least. -/
theorem rooted_of_ofText {text : String} (h : ofText text = .ok s) : Rooted s s ∧ s.trace ≠ [] := by
  obtain ⟨a, trace, hanalysis, rfl⟩ := ofText_eq_ok_iff.1 h
  obtain ⟨r, search, -, hsearch, -, rfl⟩ := Analysis.ofText_eq_ok_iff.1 hanalysis
  obtain ⟨-, rfl⟩ := Recurrence.dominantRoot_eq_ok_iff.1 hsearch
  exact ⟨.start _ _ _, by simp [start, Search.finish]⟩

/-- **The invariant of the explorer**: it holds after all actions on a session on any text. -/
theorem invariant_after {text : String} (h : ofText text = .ok s₀) (actions : List Action) :
    Invariant s₀ (s₀.after actions) := by
  obtain ⟨hrooted, hne⟩ := rooted_of_ofText h
  exact (hrooted.after actions).invariant hne

/-- There is a session on the Fibonacci numbers. -/
theorem exists_ofText_fibonacci : ∃ s₀, ofText "T(n) = T(n-1) + T(n-2)" = .ok s₀ := by
  have hanalysis : ∃ a trace, Analysis.ofText "T(n) = T(n-1) + T(n-2)" = .ok (a, trace) :=
    Analysis.exists_ofText (by decide +kernel)
  obtain ⟨a, trace, htext⟩ := hanalysis
  exact ⟨_, ofText_eq_ok_iff.2 ⟨a, trace, htext, rfl⟩⟩

/-- A session on the Fibonacci numbers, in which the curve gets the focus and is zoomed. -/
theorem invariant_after_fibonacci :
    ∃ s₀, ofText "T(n) = T(n-1) + T(n-2)" = .ok s₀ ∧
      Invariant s₀ (s₀.after [.press .right, .press .tab, .press .up, .draw ⟨80, 24⟩,
        .press (.space false), .beat, .press .left, .press (.character 'q')]) := by
  obtain ⟨s₀, hstart⟩ := exists_ofText_fibonacci
  exact ⟨s₀, hstart, invariant_after hstart _⟩

end Session

end GrowthOrder.Explorer
