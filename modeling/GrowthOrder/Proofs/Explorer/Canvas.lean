import GrowthOrder.Explorer.Canvas
import Mathlib.Data.List.Basic

/-!
# GrowthOrder.Proofs.Explorer.Canvas

What a panel shows within its border.  Each row of the interior is the content of one line, from the
top down, and the rows behind the last line are blank:

```text
row i of the interior  =  content of lines[i], or of a blank line
```

This holds at every size (`interior_draw`), also where there is no room for a border.
-/

namespace GrowthOrder.Explorer

/-! ## Lines -/

namespace Line

/-- The first character of a line. -/
def initial? (line : Line) : Option Char :=
  (line.spans.flatMap fun span => span.text.toList).head?

theorem map_symbol_cells (ground : Style) (line : Line) :
    (line.cells ground).map Cell.symbol = line.spans.flatMap fun span => span.text.toList := by
  simp [cells, List.map_flatMap, Function.comp_def]

end Line

namespace Row

/-- A row starts with the first character of its line if that takes one column. -/
theorem symbol_left (ground : Style) {width : Nat} (hwidth : 0 < width) {line : Line}
    (h : ∀ c ∈ line.initial?, Text.columns c = 1) :
    (left ground width line).head?.map Cell.symbol = some (line.initial?.getD ' ') := by
  have hsymbols := line.map_symbol_cells ground
  rw [Line.initial?, ← hsymbols] at h ⊢
  cases hcells : line.cells ground with
  | nil => simp [left, cut, hcells, fill, blank, List.head?_replicate, Nat.ne_of_gt hwidth]
  | cons c cs =>
      have hcolumns : Text.columns c.symbol = 1 := h c.symbol (by simp [hcells])
      simp [left, cut, hcells, fill, hcolumns, Nat.succ_le_of_lt hwidth]

end Row

/-! ## Panels -/

namespace Panel

variable (p : Panel)

/-- The cells within the border of a panel that is drawn. -/
def interior (size : Size) (rows : List Row) : List Row :=
  ((rows.drop 1).take size.inner.height).map fun row => (row.drop 1).take size.inner.width

/-- What lines look like within the border from an index on; blank behind the last one. -/
def view (size : Size) (lines : List Line) (first : Nat) : List Row :=
  (List.range size.inner.height).map fun i =>
    p.content size.inner.width (lines[first + i]?.getD .blank)

theorem length_content (width : Nat) (line : Line) : (p.content width line).length = width := by
  simp only [content, Row.blank, List.length_take, List.length_append, List.length_replicate,
    Row.length_left]
  omega

/-- Where the padding leaves no column, all lines look the same. -/
theorem content_of_le_padding {width : Nat} (h : width ≤ p.padding) (line : Line) :
    p.content width line = Row.blank p.ground width := by
  rw [content, List.take_append_of_le_length (by simpa [Row.blank] using h)]
  simp [Row.blank, h]

/-- What is put between two ends is found between them, also where there is no room for an end. -/
theorem between_ends {α : Type} (first last : α) {middle : List α} {count : Nat}
    (h : middle.length = count - 2) :
    (((first :: middle ++ [last]).take count).drop 1).take (count - 2) = middle := by
  match count with
  | 0 | 1 => simp [List.eq_nil_of_length_eq_zero h]
  | count + 2 =>
      have hlength : middle.length = count := h
      simp [List.take_take, hlength]

@[simp]
theorem length_inside (size : Size) (lines : List Line) :
    (p.inside size lines).length = size.height := by
  simp [inside]

theorem inside_eq_view (size : Size) (lines : List Line) :
    p.inside size.inner lines = p.view size lines 0 := by
  refine List.ext_getElem (by simp [view]) fun i hi _ => ?_
  have hheight : i < size.inner.height := by simpa using hi
  have hline : (lines ++ List.replicate size.inner.height Line.blank)[i]? =
      some (lines[i]?.getD .blank) := by
    by_cases h : i < lines.length
    · simp [List.getElem?_append_left h, h]
    · have hrest : i - lines.length < size.inner.height := by omega
      simp [List.getElem?_append_right (Nat.le_of_not_lt h), hrest, Nat.le_of_not_lt h]
  simp only [inside, view, List.getElem_map, List.getElem_take, List.getElem_range, Nat.zero_add,
    (List.getElem_eq_iff _).2 hline]

/-- **What a panel shows of its lines** are the rows of all of them from the first one on. -/
theorem interior_draw (size : Size) (lines : List Line) :
    interior size (p.draw size lines) = p.view size lines 0 := by
  have hrow (row : Row) (h : row ∈ p.inside size.inner lines) :
      ((p.enclose '│' '│' size.width row).drop 1).take size.inner.width = row := by
    obtain ⟨line, -, rfl⟩ := List.mem_map.1 h
    exact between_ends _ _ (p.length_content _ line)
  have hlength : ((p.inside size.inner lines).map (p.enclose '│' '│' size.width)).length =
      size.height - 2 := by
    simp [Size.inner]
  have hrows : ((p.draw size lines).drop 1).take size.inner.height =
      (p.inside size.inner lines).map (p.enclose '│' '│' size.width) :=
    between_ends _ _ hlength
  rw [interior, hrows, List.map_map, ← inside_eq_view]
  exact (List.map_congr_left hrow).trans (List.map_id _)

theorem getElem?_view {size : Size} {i : Nat} (h : i < size.inner.height) (lines : List Line)
    (first : Nat) : (p.view size lines first)[i]? =
      some (p.content size.inner.width (lines[first + i]?.getD .blank)) := by
  simp [view, h]

theorem view_drop (size : Size) (lines : List Line) (count first : Nat) :
    p.view size (lines.drop count) first = p.view size lines (count + first) := by
  simp [view, List.getElem?_drop, Nat.add_assoc]

end Panel

end GrowthOrder.Explorer
