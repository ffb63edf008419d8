/-!
# GrowthOrder.Explorer.Cursor

The place in a trace that the explorer shows.  A cursor over `length` events stands on one of them;
over no events it stands at 0.  `reveal` scrolls a view so that the place is within it.
-/

namespace GrowthOrder.Explorer

/-- A place among `length` events. -/
structure Cursor where
  length : Nat
  position : Nat
  position_le : position ≤ length - 1
  deriving DecidableEq, Repr

namespace Cursor

/-- The first of some events. -/
def first (length : Nat) : Cursor :=
  ⟨length, 0, Nat.zero_le _⟩

/-- Whether there is nothing to stand on. -/
def isEmpty (c : Cursor) : Bool :=
  c.length == 0

/-- Whether no event is before. -/
def atStart (c : Cursor) : Bool :=
  c.position == 0

/-- Whether no event is behind. -/
def atEnd (c : Cursor) : Bool :=
  decide (c.length ≤ c.position + 1)

/-- The next event, if there is one. -/
def forward? (c : Cursor) : Option Cursor :=
  if h : c.position + 1 < c.length then some ⟨c.length, c.position + 1, by omega⟩ else none

/-- The event before, if there is one. -/
def backward? (c : Cursor) : Option Cursor :=
  if c.position = 0 then none
  else some ⟨c.length, c.position - 1, Nat.le_trans (Nat.sub_le _ _) c.position_le⟩

/-- The first event. -/
def toStart (c : Cursor) : Cursor :=
  first c.length

/-- The last event. -/
def toEnd (c : Cursor) : Cursor :=
  ⟨c.length, c.length - 1, Nat.le_refl _⟩

theorem forward?_eq_none_iff (c : Cursor) : c.forward? = none ↔ c.atEnd = true := by
  simp [forward?, atEnd]

theorem backward?_eq_none_iff (c : Cursor) : c.backward? = none ↔ c.atStart = true := by
  simp [backward?, atStart]

end Cursor

/-- Where a view of `height` rows that starts at `scroll` has to start, so that `position` is in it:
it moves only if it has to, and then as little as possible. -/
def reveal (scroll position height : Nat) : Nat :=
  if position < scroll then position
  else if scroll + height ≤ position then position + 1 - height
  else scroll

end GrowthOrder.Explorer
