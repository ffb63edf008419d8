import GrowthOrder.Proofs.Explorer.Session

/-!
# GrowthOrder.Proofs.Explorer.Drawing

Drawing shows a session and changes nothing in it but how far two panes are scrolled.

Keys push the offsets of both panes without a bound, and only drawing knows how high the panes are.
It pulls the offsets back to the last line, and that of the history to the current event if that is
followed; neither step undoes the other (`History.scrollTo_le`, `History.scrollTo_bounds`), and both
leave alone what they have settled (`History.scrollTo_scrollTo`).

How a screen is divided does not matter: the panes may have any sizes (`Panes`), in each drawing.
-/

namespace GrowthOrder.Explorer

/-! ## Scrolling -/

section

variable {scroll position height : Nat}

/-- A view that is moved has the place in it. -/
theorem reveal_bounds (hheight : 0 < height) :
    reveal scroll position height ≤ position ∧
      position < reveal scroll position height + height := by
  unfold reveal
  split_ifs <;> omega

/-- A view with the place in it is not moved. -/
theorem reveal_eq_self (hscroll : scroll ≤ position) (hposition : position < scroll + height) :
    reveal scroll position height = scroll := by
  rw [reveal, if_neg (Nat.not_lt.2 hscroll), if_neg (Nat.not_le.2 hposition)]

end

namespace Size

theorem visibleRows_pos (size : Size) : 0 < size.visibleRows :=
  Nat.le_max_right _ _

end Size

namespace History

variable {count position visible : Nat}

/-- Following the cursor does not scroll beyond the last event. -/
theorem scrollTo_le (hposition : position < count) (follows : Bool) (scroll visible : Nat) :
    scrollTo count position follows scroll visible ≤ count - visible := by
  cases follows with
  | false => exact Nat.min_le_right _ _
  | true =>
      simp only [scrollTo, reveal]
      split_ifs <;> omega

/-- Where the cursor is followed, it is in view. -/
theorem scrollTo_bounds (hvisible : 0 < visible) (count position scroll : Nat) :
    scrollTo count position true scroll visible ≤ position ∧
      position < scrollTo count position true scroll visible + visible :=
  reveal_bounds hvisible

/-- What is settled stays so. -/
theorem scrollTo_scrollTo (hposition : position < count) (hvisible : 0 < visible)
    (follows : Bool) (scroll : Nat) :
    scrollTo count position follows (scrollTo count position follows scroll visible) visible =
      scrollTo count position follows scroll visible := by
  have hle := scrollTo_le hposition follows scroll visible
  generalize hsettled : scrollTo count position follows scroll visible = settled at hle ⊢
  cases follows with
  | false => exact Nat.min_eq_left hle
  | true =>
      have hbounds := scrollTo_bounds hvisible count position scroll
      rw [hsettled] at hbounds
      simp only [scrollTo, Nat.min_eq_left hle, if_true]
      exact reveal_eq_self hbounds.1 hbounds.2

/-! ## Marked lines -/

/-- The lines that are taken for the pane. -/
def shown (t : Trace Float) (position : Nat) (follows : Bool) (scroll : Nat) (size : Size) :
    List Line :=
  let scroll := scrollTo t.length position follows scroll size.visibleRows
  eventLines position scroll ((t.drop scroll).take size.visibleRows)

/-- Where there are events, the pane shows these lines. -/
theorem draw_of_ne_nil {t : Trace Float} (h : t ≠ []) (position : Nat) (follows isFocused : Bool)
    (scroll : Nat) (size : Size) :
    draw t position follows isFocused scroll size =
      ⟨(Panel.mk (title t) (Palette.border isFocused) .plain 0).draw size
          (shown t position follows scroll size),
        scrollTo t.length position follows scroll size.visibleRows⟩ :=
  if_neg (by simpa using h)

/-- Whether a line is marked as that of the current event. -/
def isMarked (line : Line) : Bool :=
  line.spans.head?.any fun span => span.text == "▶ "

theorem isMarked_eventLine (position index : Nat) (e : Event Float) :
    isMarked (eventLine position index e) = decide (index = position) := by
  by_cases h : index = position
  · simp [isMarked, eventLine, Line.ofSpans, h]
  · simp [isMarked, eventLine, Line.ofSpans, h]

/-- No line behind the current event is marked. -/
theorem filter_isMarked_of_lt {index : Nat} (h : position < index) (es : List (Event Float)) :
    (eventLines position index es).filter isMarked = [] := by
  induction es generalizing index with
  | nil => rfl
  | cons e es ih =>
      rw [eventLines, List.filter_cons_of_neg (by simp [isMarked_eventLine, h.ne']),
        ih (Nat.lt_succ_of_lt h)]

/-- One line is marked if the current event is among those that are shown. -/
theorem filter_isMarked_eventLines {index : Nat} (h : index ≤ position)
    (es : List (Event Float)) :
    (eventLines position index es).filter isMarked =
      es[position - index]?.toList.map (eventLine position position) := by
  induction es generalizing index with
  | nil => rfl
  | cons e es ih =>
      obtain rfl | hlt := h.eq_or_lt
      · rw [eventLines, List.filter_cons_of_pos (by simp [isMarked_eventLine]),
          filter_isMarked_of_lt (Nat.lt_succ_self _), Nat.sub_self]
        rfl
      · have hsub : position - index = position - (index + 1) + 1 := by omega
        rw [eventLines, List.filter_cons_of_neg (by simp [isMarked_eventLine, hlt.ne]), ih hlt,
          hsub]
        rfl

/-- Where the cursor is followed, exactly the line of the current event is marked. -/
theorem filter_isMarked_shown {t : Trace Float} {e : Event Float} (h : t[position]? = some e)
    (scroll : Nat) (size : Size) :
    (shown t position true scroll size).filter isMarked = [eventLine position position e] := by
  obtain ⟨hle, hlt⟩ := scrollTo_bounds size.visibleRows_pos t.length position scroll
  have hwithin : position - scrollTo t.length position true scroll size.visibleRows <
      size.visibleRows := by
    omega
  rw [shown, filter_isMarked_eventLines hle, List.getElem?_take_of_lt hwithin, List.getElem?_drop,
    Nat.add_sub_cancel' hle, h]
  rfl

end History

/-! ## Panes -/

/-- The sizes of the two panes that scroll. -/
structure Panes where
  overview : Size
  history : Size

/-- The panes of a screen. -/
def Panes.ofScreen (size : Size) : Panes where
  overview := ⟨percent 45 size.width, percent 45 (size.height - 1)⟩
  history := ⟨percent 45 size.width, size.height - 1 - percent 45 (size.height - 1)⟩

namespace Session

variable {s₀ s : Session}

/-- The overview in a pane. -/
def overviewIn (s : Session) (size : Size) : Scrolled :=
  Overview.draw s.source s.analysis (s.focus == .overview) s.overviewScroll size

/-- The history in a pane. -/
def historyIn (s : Session) (size : Size) : Scrolled :=
  History.draw s.trace s.cursor.position s.follows (s.focus == .history) s.historyScroll size

/-- The session after it is drawn in some panes. -/
def drawnIn (s : Session) (panes : Panes) : Session :=
  { s with
    overviewScroll := (s.overviewIn panes.overview).scroll
    historyScroll := (s.historyIn panes.history).scroll }

/-- To draw a screen is to draw its panes. -/
theorem draw_snd (s : Session) (size : Size) : (s.draw size).2 = s.drawnIn (.ofScreen size) :=
  rfl

/-- The lines that are taken for the history. -/
def historyLines (s : Session) (size : Size) : List Line :=
  History.shown s.trace s.cursor.position s.follows s.historyScroll size

/-- What a session can become, while its panes have any sizes in each drawing. -/
inductive Reaches (s₀ : Session) : Session → Prop
  | start : Reaches s₀ s₀
  | press {s : Session} (h : Reaches s₀ s) (key : Key) : Reaches s₀ (s.press key)
  | beat {s : Session} (h : Reaches s₀ s) : Reaches s₀ s.beat
  | draw {s : Session} (h : Reaches s₀ s) (panes : Panes) : Reaches s₀ (s.drawnIn panes)

theorem Rooted.drawnIn (h : Rooted s₀ s) (panes : Panes) : Rooted s₀ (s.drawnIn panes) :=
  ⟨h.source, h.analysis, h.trace, h.length, h.zoom, h.notice⟩

theorem Reaches.rooted (hs : Reaches s₀ s) (h : Rooted s₀ s₀) : Rooted s₀ s := by
  induction hs with
  | start => exact h
  | press _ key ih => exact ih.press key
  | beat _ ih => exact ih.beat
  | draw _ panes ih => exact ih.drawnIn panes

/-- Among the sessions that are reached are those after some actions. -/
theorem reaches_after (hs : Reaches s₀ s) (actions : List Action) :
    Reaches s₀ (s.after actions) := by
  induction actions generalizing s with
  | nil => exact hs
  | cons action actions ih =>
      cases action with
      | press key => exact ih (hs.press key)
      | draw size => exact ih (hs.draw (.ofScreen size))
      | beat => exact ih hs.beat

/-! ## Drawing once and twice -/

/-- What drawing in some panes does to a session. -/
structure Projected (s : Session) (panes : Panes) : Prop where
  /-- Nothing changes but the two offsets. -/
  frame : s.drawnIn panes = { s with
    overviewScroll := (s.drawnIn panes).overviewScroll
    historyScroll := (s.drawnIn panes).historyScroll }
  overviewScroll_le : (s.drawnIn panes).overviewScroll ≤
    (Overview.lines s.source s.analysis).length - max (panes.overview.height - 2) 1
  historyScroll_le : (s.drawnIn panes).historyScroll ≤
    s.trace.length - max (panes.history.height - 2) 1
  /-- If the cursor is followed, it is in view. -/
  inView : s.follows = true → (s.drawnIn panes).historyScroll ≤ s.cursor.position ∧
    s.cursor.position < (s.drawnIn panes).historyScroll + max (panes.history.height - 2) 1
  /-- Then one line is marked, that of the current event. -/
  marked : s.follows = true → ∃ e, s.trace[s.cursor.position]? = some e ∧
    (s.historyLines panes.history).filter History.isMarked =
      [History.eventLine s.cursor.position s.cursor.position e]
  /-- The history shows these lines. -/
  rows : (s.historyIn panes.history).rows =
    (Panel.mk (History.title s.trace) (Palette.border (s.focus == .history)) .plain 0).draw
      panes.history (s.historyLines panes.history)
  /-- What is drawn again is the same, and so is the session. -/
  again : (s.drawnIn panes).drawnIn panes = s.drawnIn panes ∧
    (s.drawnIn panes).overviewIn panes.overview = s.overviewIn panes.overview ∧
    (s.drawnIn panes).historyIn panes.history = s.historyIn panes.history

theorem overviewIn_drawnIn (s : Session) (panes : Panes) :
    (s.drawnIn panes).overviewIn panes.overview = s.overviewIn panes.overview := by
  simp only [overviewIn, drawnIn, Overview.draw, Nat.min_assoc, Nat.min_self]

theorem historyIn_drawnIn (hne : s.trace ≠ []) (hposition : s.cursor.position < s.trace.length)
    (panes : Panes) : (s.drawnIn panes).historyIn panes.history = s.historyIn panes.history := by
  simp only [historyIn, drawnIn, History.draw_of_ne_nil hne, History.shown,
    History.scrollTo_scrollTo hposition panes.history.visibleRows_pos]

/-- A session that is drawn again at the same sizes stays the same. -/
theorem drawnIn_drawnIn (hne : s.trace ≠ []) (hposition : s.cursor.position < s.trace.length)
    (panes : Panes) : (s.drawnIn panes).drawnIn panes = s.drawnIn panes := by
  rw [drawnIn, overviewIn_drawnIn, historyIn_drawnIn hne hposition]
  rfl

theorem Rooted.projected (h : Rooted s₀ s) (hne : s₀.trace ≠ []) (panes : Panes) :
    Projected s panes := by
  have hinvariant := h.invariant hne
  have htrace : s.trace ≠ [] := h.trace ▸ hne
  have hposition : s.cursor.position < s.trace.length :=
    hinvariant.length_eq ▸ hinvariant.position_lt
  have hhistory := History.draw_of_ne_nil htrace s.cursor.position s.follows
    (s.focus == .history) s.historyScroll panes.history
  have hscroll : (s.drawnIn panes).historyScroll = History.scrollTo s.trace.length
      s.cursor.position s.follows s.historyScroll panes.history.visibleRows :=
    congrArg Scrolled.scroll hhistory
  exact {
    frame := rfl
    overviewScroll_le := Nat.min_le_right _ _
    historyScroll_le := hscroll ▸ History.scrollTo_le hposition _ _ _
    inView := fun hfollows => by
      rw [hscroll, hfollows]
      exact History.scrollTo_bounds panes.history.visibleRows_pos _ _ _
    marked := fun hfollows => by
      obtain ⟨e, he, -⟩ := hinvariant.event
      rw [historyLines, hfollows]
      exact ⟨e, he, History.filter_isMarked_shown he _ _⟩
    rows := congrArg Scrolled.rows hhistory
    again := ⟨drawnIn_drawnIn htrace hposition panes, overviewIn_drawnIn s panes,
      historyIn_drawnIn htrace hposition panes⟩ }

/-- The parts of a screen. -/
theorem draw_eq (s : Session) (size : Size) :
    s.draw size =
      (⟨(s.overviewIn (Panes.ofScreen size).overview).rows,
        (s.historyIn (Panes.ofScreen size).history).rows,
        Curve.draw (.ofRecurrence s.analysis.recurrence) s.bracket? s.point? s.zoom
          (s.focus == .curve) (size.width - percent 45 size.width),
        StatusLine.draw s.notice.message s.cursor s.isPlaying size.width⟩,
        s.drawnIn (.ofScreen size)) :=
  rfl

/-- A screen that is drawn again at the same size is the same. -/
theorem draw_draw (hne : s.trace ≠ []) (hposition : s.cursor.position < s.trace.length)
    (size : Size) : (s.draw size).2.draw size = s.draw size := by
  rw [draw_snd, draw_eq (s.drawnIn _), overviewIn_drawnIn, historyIn_drawnIn hne hposition,
    drawnIn_drawnIn hne hposition]
  rfl

/-- **Drawing is a projection that keeps the cursor in view**, for every session that is reached
from any text and panes of any sizes; and a screen is drawn by drawing its panes. -/
theorem drawing_projects {text : String} (h : ofText text = .ok s₀) (hs : Reaches s₀ s) :
    (∀ panes, Projected s panes) ∧
      ∀ size, (s.draw size).2 = s.drawnIn (.ofScreen size) ∧
        (s.draw size).2.draw size = s.draw size := by
  obtain ⟨hstart, hne⟩ := rooted_of_ofText h
  have hrooted := hs.rooted hstart
  have hinvariant := hrooted.invariant hne
  refine ⟨hrooted.projected hne, fun size => ⟨s.draw_snd size, ?_⟩⟩
  exact draw_draw (hrooted.trace ▸ hne) (hinvariant.length_eq ▸ hinvariant.position_lt) size

/-- The history of the Fibonacci numbers is scrolled by hand, and then the cursor is followed to the
last event, in panes with no room for a line and for three. -/
theorem drawing_projects_fibonacci :
    ∃ s₀, ofText "T(n) = T(n-1) + T(n-2)" = .ok s₀ ∧
      (s₀.after [.draw ⟨80, 24⟩, .press .down, .press .enter]).follows = true ∧
      Projected (s₀.after [.draw ⟨80, 24⟩, .press .down, .press .enter])
        ⟨⟨36, 2⟩, ⟨36, 5⟩⟩ := by
  obtain ⟨s₀, hstart⟩ := exists_ofText_fibonacci
  exact ⟨s₀, hstart, rfl, (drawing_projects hstart (reaches_after .start _)).1 _⟩

end Session

end GrowthOrder.Explorer
