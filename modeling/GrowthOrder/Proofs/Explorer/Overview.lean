import GrowthOrder.Explorer.Overview
import GrowthOrder.Proofs.Analysis
import GrowthOrder.Proofs.Explorer.Canvas
import GrowthOrder.Proofs.Recurrence.Blanks

/-!
# GrowthOrder.Proofs.Explorer.Overview

Which lines the overview shows.  At an offset it should show its lines from that index on; but the
lines that are skipped are counted in sixteen bits, and what it shows is

```text
row i of the interior  =  lines[offset % 65536 + i], blank behind the last line
```

for all texts, offsets and sizes (`interior_draw`).  Up to 65535 these are the lines that the offset
names.  At 65536 they are not: the first line is drawn, and it cannot be taken for another one, as
it alone starts with an `I` (`content_ne_first`).  So all offsets are shown exactly if none of them
can be as great as that, or no text is shown at all (`offsets_shown_iff`).
-/

namespace GrowthOrder

namespace Text

/-- Every line feed ends a line. -/
theorem count_le_length_lines (cs : List Char) : cs.count '\n' ≤ (lines cs).length := by
  have hcount (cs : List Char) : cs.count '\n' = (cs.dropWhile (· != '\n')).count '\n' := by
    have hnone : (cs.takeWhile (· != '\n')).count '\n' = 0 :=
      List.count_eq_zero.2 fun h => by simpa using List.mem_takeWhile_imp h
    rw [← Nat.zero_add ((cs.dropWhile _).count _), ← hnone, ← List.count_append,
      List.takeWhile_append_dropWhile]
  fun_induction lines cs with
  | case1 => simp
  | case2 cs h => simp [hcount cs, h]
  | case3 cs c rest h _ ih =>
      have hone : (c :: rest).count '\n' ≤ rest.count '\n' + 1 := by
        rw [List.count_cons]
        split_ifs <;> omega
      rw [hcount cs, h, List.length_cons]
      omega

end Text

namespace Explorer.Overview

variable {source : String} {a : Analysis} {isFocused : Bool} {scroll : Nat} {size : Size}

/-! ## Lines -/

theorem length_lines (source : String) (a : Analysis) :
    (lines source a).length =
      (Text.lines source.toList).length + (termLines a.recurrence.terms).length + 9 := by
  simp only [lines, inputLines, List.length_append, List.length_cons, List.length_map,
    List.length_nil]
  omega

theorem initial?_styled (text : String) (style : Style) :
    (Line.styled text style).initial? = text.toList.head? := by
  simp [Line.initial?, Line.styled]

theorem initial?_ofSpans (span : Span) (spans : List Span) :
    (Line.ofSpans (span :: spans)).initial? =
      span.text.toList.head?.or (Line.ofSpans spans).initial? := by
  simp [Line.initial?, Line.ofSpans, List.head?_append]

theorem initial?_growthText (r : Recurrence Float) (root : Float) :
    (growthText r root).toList.head? = some ' ' := by
  unfold growthText
  split <;> simp

/-- What the lines behind the first one start with, as far as they have text. -/
theorem initial?_of_mem_tail {line : Line} (h : line ∈ (lines source a).tail) :
    ∀ c ∈ line.initial?, c ∈ [' ', 'C', 'T', 'R'] := by
  have hinput (line : Line) (h : line ∈ inputLines source) : line.initial? = some ' ' := by
    obtain ⟨l, -, rfl⟩ := List.mem_map.1 h
    simp [Line.ofText, initial?_styled]
  have hterms (line : Line) (h : line ∈ termLines a.recurrence.terms) :
      line.initial? = some ' ' := by
    unfold termLines at h
    split at h
    · rw [List.mem_singleton.1 h]
      simp [initial?_styled]
    · obtain ⟨t, -, rfl⟩ := List.mem_map.1 h
      cases t <;> simp [termLine, label, initial?_ofSpans]
  have hresult : (resultLine a).initial? = some ' ' := by
    unfold resultLine
    split <;> simp [initial?_styled, initial?_growthText]
  simp only [lines, List.cons_append, List.tail_cons, List.append_assoc, List.mem_append,
    List.mem_cons, List.not_mem_nil, or_false] at h
  obtain h | rfl | rfl | rfl | rfl | rfl | h | rfl | rfl | rfl := h
  · simp [hinput line h]
  · simp [Line.initial?, Line.blank]
  · simp [heading, initial?_ofSpans]
  · simp [canonicalLine, initial?_ofSpans]
  · simp [Line.initial?, Line.blank]
  · simp [heading, initial?_ofSpans]
  · simp [hterms line h]
  · simp [Line.initial?, Line.blank]
  · simp [heading, initial?_ofSpans]
  · simp [hresult]

/-! ## Offsets -/

theorem skipped_eq (scroll : Nat) : skipped scroll = scroll % 65536 := by
  simp [skipped]

/-- A pane shows its lines from the index on that its offset names. -/
def ShowsOffset (source : String) (a : Analysis) (isFocused : Bool) (scroll : Nat) (size : Size) :
    Prop :=
  Panel.interior size (draw source a isFocused scroll size).rows =
    (panel isFocused).view size (lines source a) (draw source a isFocused scroll size).scroll

/-- The pane shows its lines from the remainder of its offset on. -/
theorem interior_draw (source : String) (a : Analysis) (isFocused : Bool) (scroll : Nat)
    (size : Size) :
    Panel.interior size (draw source a isFocused scroll size).rows =
      (panel isFocused).view size (lines source a)
        ((draw source a isFocused scroll size).scroll % 65536) := by
  simp only [draw, Panel.interior_draw, Panel.view_drop, skipped_eq, Nat.add_zero]

theorem showsOffset_of_lt (h : (draw source a isFocused scroll size).scroll < 65536) :
    ShowsOffset source a isFocused scroll size := by
  rw [ShowsOffset, interior_draw, Nat.mod_eq_of_lt h]

/-- Without a row or a column for text, there is nothing to tell one line from another. -/
theorem showsOffset_of_small (h : size.height ≤ 2 ∨ size.width ≤ 3) :
    ShowsOffset source a isFocused scroll size := by
  rw [ShowsOffset, interior_draw]
  obtain h | h := h
  · simp [Panel.view, Size.inner, h]
  · have hpadding : size.inner.width ≤ (panel isFocused).padding := Nat.sub_le_of_le_add h
    simp only [Panel.view, Panel.content_of_le_padding _ hpadding]

/-- The text of a line starts in the second column. -/
theorem symbol_content {width : Nat} (hwidth : 2 ≤ width) {line : Line}
    (h : ∀ c ∈ line.initial?, Text.columns c = 1) :
    (((panel isFocused).content width line)[1]?).map Cell.symbol =
      some (line.initial?.getD ' ') := by
  have hroom : 0 < width - 1 := by omega
  rw [← Row.symbol_left (panel isFocused).ground hroom h, Panel.content,
    List.getElem?_take_of_lt hwidth, List.head?_eq_getElem?]
  rfl

/-- Where there is a column for text, no other line looks like the first one. -/
theorem content_ne_first {width : Nat} (hwidth : 2 ≤ width) {line : Line}
    (h : line ∈ (lines source a).tail) :
    (panel isFocused).content width line ≠ (panel isFocused).content width (heading "Input") := by
  intro hcontent
  have hcolumns (c : Char) (hc : c ∈ [' ', 'C', 'T', 'R']) : Text.columns c = 1 := by
    simp only [List.mem_cons, List.not_mem_nil, or_false] at hc
    obtain rfl | rfl | rfl | rfl := hc <;> decide
  have hfirst : (heading "Input").initial? = some 'I' := by simp [heading, initial?_ofSpans]
  have hsymbol : line.initial?.getD ' ' = 'I' := by
    have hsymbols := congrArg (fun row : Row => row[1]?.map Cell.symbol) hcontent
    have hline := fun c hc => hcolumns c (initial?_of_mem_tail h c hc)
    have hheading : ∀ c ∈ (heading "Input").initial?, Text.columns c = 1 := by
      intro c hc
      obtain rfl : 'I' = c := by simpa [hfirst] using hc
      decide
    simpa only [symbol_content hwidth hline, symbol_content hwidth hheading, hfirst,
      Option.getD_some, Option.some.injEq] using hsymbols
  cases hinitial : line.initial? with
  | none => simp [hinitial] at hsymbol
  | some c =>
      obtain rfl : c = 'I' := by simpa [hinitial] using hsymbol
      exact absurd (initial?_of_mem_tail h 'I' hinitial) (by decide)

/-- At the offset 65536 the first line is drawn. -/
theorem not_showsOffset (hheight : 3 ≤ size.height) (hwidth : 4 ≤ size.width)
    (hlength : size.inner.height + 65535 < (lines source a).length) :
    ¬ShowsOffset source a isFocused 65536 size := by
  intro h
  have hrows : 0 < size.inner.height := Nat.sub_pos_of_lt hheight
  have hindex : 65536 < (lines source a).length := by omega
  have hscroll : (draw source a isFocused 65536 size).scroll = 65536 := by
    simp only [draw, Size.visibleRows]
    omega
  rw [ShowsOffset, interior_draw, hscroll, Nat.mod_self] at h
  have hrow := congrArg (fun rows : List Row => rows[0]?) h
  simp only [Panel.getElem?_view _ hrows, Option.some.injEq, Nat.add_zero,
    List.getElem?_eq_getElem hindex, Option.getD_some] at hrow
  have htail : (lines source a)[65536] ∈ (lines source a).tail := by
    rw [← List.drop_one, List.mem_drop_iff_getElem]
    exact ⟨65535, by omega, rfl⟩
  exact content_ne_first (Nat.le_sub_of_add_le hwidth) htail hrow.symm

/-- **The overview shows the window of its offset in sixteen bits.**  At every offset that is the
window which the offset names exactly if the pane has no row or no column for text, or its rows and
65535 more are enough for all lines. -/
theorem offsets_shown_iff (source : String) (a : Analysis) (isFocused : Bool) (size : Size) :
    (∀ scroll, Panel.interior size (draw source a isFocused scroll size).rows =
      (panel isFocused).view size (lines source a)
        ((draw source a isFocused scroll size).scroll % 65536)) ∧
    ((∀ scroll, ShowsOffset source a isFocused scroll size) ↔
      size.height ≤ 2 ∨ size.width ≤ 3 ∨
        (lines source a).length ≤ size.inner.height + 65535) := by
  refine ⟨fun scroll => interior_draw source a isFocused scroll size, ?_, ?_⟩
  · intro h
    by_contra! hlarge
    obtain ⟨hheight, hwidth, hlength⟩ := hlarge
    exact not_showsOffset hheight hwidth hlength (h 65536)
  · intro h scroll
    by_cases hsmall : size.height ≤ 2 ∨ size.width ≤ 3
    · exact showsOffset_of_small hsmall
    · refine showsOffset_of_lt ?_
      have hle : (draw source a isFocused scroll size).scroll ≤
        (lines source a).length - size.visibleRows := Nat.min_le_right _ _
      simp only [Size.visibleRows, Size.inner] at hle h
      omega

/-! ## Tall texts -/

/-- A recurrence that is broken up by line feeds. -/
def tallText (count : Nat) : String :=
  "T(n) =" ++ String.ofList (List.replicate count '\n') ++ "T(n-1)"

theorem exists_ofText_tallText (count : Nat) :
    ∃ a trace, Analysis.ofText (tallText count) = .ok (a, trace) := by
  have hglyphs : ((tallText count).toList.filter fun c => !Text.isBlank c) =
      (tallText 0).toList.filter fun c => !Text.isBlank c := by
    simp only [tallText, String.toList_append, String.toList_ofList, List.filter_append,
      List.filter_replicate, Text.isBlank_newline, Bool.not_true, Bool.false_eq_true, if_false]
  refine Analysis.exists_ofText ?_
  rw [Recurrence.toOption_parse_eq hglyphs]
  decide +kernel

theorem lt_length_lines_tallText (count : Nat) (a : Analysis) :
    count < (lines (tallText count) a).length := by
  have hcount : count ≤ (tallText count).toList.count '\n' := by simp [tallText]
  have hle := Text.count_le_length_lines (tallText count).toList
  rw [length_lines]
  omega

/-- A text of 65537 lines, at whose offset 65536 a pane with one row for text shows another line. -/
theorem exists_offset_not_shown :
    ∃ a trace, Analysis.ofText (tallText 65536) = .ok (a, trace) ∧
      ¬ShowsOffset (tallText 65536) a false 65536 ⟨20, 3⟩ := by
  obtain ⟨a, trace, htext⟩ := exists_ofText_tallText 65536
  exact ⟨a, trace, htext, not_showsOffset (by decide) (by decide) (lt_length_lines_tallText _ a)⟩

end Explorer.Overview

end GrowthOrder
