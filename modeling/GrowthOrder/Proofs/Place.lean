import GrowthOrder.Place
import Mathlib.Tactic

/-!
# GrowthOrder.Proofs.Place

Where glyphs stand.  The place behind some characters, `Place.behind`, is counted from these
characters alone: a line for each line feed, a column for each character after the last of them, an
offset for each character that is no blank.

* `Glyph.scan_split` — wherever the glyphs of a text are cut, what follows starts at the place
  behind the characters in front of it.
-/

namespace GrowthOrder

/-! ## Counting characters -/

/-- Characters without the blanks among them. -/
def Text.strip (cs : List Char) : List Char :=
  cs.filter fun c => !isBlank c

namespace Text

theorem strip_cons_of_blank {c : Char} (h : isBlank c = true) (cs : List Char) :
    strip (c :: cs) = strip cs :=
  List.filter_cons_of_neg (by simp [h])

theorem strip_cons_of_glyph {c : Char} (h : isBlank c = false) (cs : List Char) :
    strip (c :: cs) = c :: strip cs :=
  List.filter_cons_of_pos (by simp [h])

theorem head?_strip {cs : List Char} (h : ∀ c ∈ cs.head?, isBlank c = false) :
    (strip cs).head? = cs.head? := by
  cases cs with
  | nil => rfl
  | cons c cs => rw [strip_cons_of_glyph (h c rfl)]; rfl

theorem extract_middle {α : Type} (front middle back : List α) :
    (front ++ middle ++ back).extract front.length (front.length + middle.length) = middle := by
  simp [List.extract_eq_take_drop]

theorem isBlank_newline : isBlank '\n' = true := by
  decide +kernel

end Text

namespace Place

/-- The place behind some characters at the start of a text. -/
def behind (front : List Char) : Place where
  line := 1 + front.count '\n'
  column := 1 + (front.reverse.takeWhile fun c => c != '\n').length
  offset := (Text.strip front).length

theorem behind_newline (front : List Char) :
    behind (front ++ ['\n']) = ⟨(behind front).line + 1, 1, (behind front).offset⟩ := by
  simp [behind, Text.strip, Text.isBlank_newline, Nat.add_assoc]

theorem behind_blank (front : List Char) {c : Char} (hline : c ≠ '\n')
    (hblank : Text.isBlank c = true) :
    behind (front ++ [c]) =
      ⟨(behind front).line, (behind front).column + 1, (behind front).offset⟩ := by
  simp [behind, Text.strip, hline, hblank, Nat.add_assoc]

theorem behind_glyph (front : List Char) {c : Char} (hblank : Text.isBlank c = false) :
    behind (front ++ [c]) =
      ⟨(behind front).line, (behind front).column + 1, (behind front).offset + 1⟩ := by
  have hline : c ≠ '\n' := by
    rintro rfl
    exact absurd hblank (by simp [Text.isBlank_newline])
  simp [behind, Text.strip, hline, hblank, Nat.add_assoc]

end Place

/-! ## Scanning -/

namespace Glyph

@[simp] theorem chars_cons (g : Glyph) (gs : List Glyph) : chars (g :: gs) = g.char :: chars gs :=
  rfl

@[simp] theorem chars_append (gs hs : List Glyph) : chars (gs ++ hs) = chars gs ++ chars hs :=
  List.map_append

@[simp] theorem length_chars (gs : List Glyph) : (chars gs).length = gs.length :=
  List.length_map _

/-- Where the first of some glyphs stands, or `stop` if there is none. -/
def start (stop : Place) : List Glyph → Place
  | [] => stop
  | g :: _ => g.place

/-- A blank only moves the place. -/
theorem scanFrom_blank (front : List Char) {c : Char} (h : Text.isBlank c = true)
    (cs : List Char) :
    scanFrom (Place.behind front) (c :: cs) = scanFrom (Place.behind (front ++ [c])) cs := by
  by_cases hline : c = '\n'
  · rw [scanFrom, if_pos hline, hline, Place.behind_newline]
  · rw [scanFrom, if_neg hline, if_pos h, Place.behind_blank front hline h]

/-- Any other character is a glyph at the place where it is met. -/
theorem scanFrom_glyph (front : List Char) {c : Char} (h : Text.isBlank c = false)
    (cs : List Char) :
    scanFrom (Place.behind front) (c :: cs) =
      (⟨c, Place.behind front⟩ :: (scanFrom (Place.behind (front ++ [c])) cs).1,
        (scanFrom (Place.behind (front ++ [c])) cs).2) := by
  have hline : c ≠ '\n' := by
    rintro rfl
    exact absurd h (by simp [Text.isBlank_newline])
  rw [scanFrom, if_neg hline, if_neg (by simp [h]), Place.behind_glyph front h]

/-- **Wherever the glyphs of a text are cut, the text is cut.**  Blanks at the cut belong to the part
in front of it, so the part behind starts with a glyph or is empty. -/
theorem scanFrom_split {front back : List Char} {before after : List Glyph}
    (h : (scanFrom (Place.behind front) back).1 = before ++ after) :
    ∃ first last, back = first ++ last ∧ Text.strip first = chars before ∧
      (∀ c ∈ last.head?, Text.isBlank c = false) ∧
      scanFrom (Place.behind (front ++ first)) last =
        (after, (scanFrom (Place.behind front) back).2) := by
  induction back generalizing front before with
  | nil =>
      obtain ⟨rfl, rfl⟩ := List.append_eq_nil_iff.1 h.symm
      exact ⟨[], [], rfl, rfl, by simp, by simp [scanFrom]⟩
  | cons c cs ih =>
      cases hblank : Text.isBlank c with
      | true =>
          rw [scanFrom_blank front hblank] at h ⊢
          obtain ⟨first, last, rfl, hfirst, hhead, hrest⟩ := ih h
          rw [List.append_assoc, List.singleton_append] at hrest
          exact ⟨c :: first, last, rfl, (Text.strip_cons_of_blank hblank first).trans hfirst, hhead,
            hrest⟩
      | false =>
          cases before with
          | nil =>
              exact ⟨[], c :: cs, rfl, rfl, by simpa using hblank, by
                rw [List.append_nil, ← h.trans (List.nil_append after)]⟩
          | cons g before =>
              rw [scanFrom_glyph front hblank] at h ⊢
              obtain ⟨rfl, hmore⟩ := List.cons.inj h
              obtain ⟨first, last, rfl, hfirst, hhead, hrest⟩ := ih hmore
              rw [List.append_assoc, List.singleton_append] at hrest
              refine ⟨c :: first, last, rfl, ?_, hhead, hrest⟩
              rw [Text.strip_cons_of_glyph hblank, hfirst]
              rfl

/-- Scanning drops blanks and nothing else. -/
theorem chars_scanFrom (front back : List Char) :
    chars (scanFrom (Place.behind front) back).1 = Text.strip back := by
  induction back generalizing front with
  | nil => rfl
  | cons c cs ih =>
      cases hblank : Text.isBlank c with
      | true => rw [scanFrom_blank front hblank, ih, Text.strip_cons_of_blank hblank]
      | false => rw [scanFrom_glyph front hblank, Text.strip_cons_of_glyph hblank, ← ih]; rfl

/-- What starts with a glyph or is empty starts where scanning starts. -/
theorem start_scanFrom (front : List Char) {back : List Char}
    (h : ∀ c ∈ back.head?, Text.isBlank c = false) :
    start (scanFrom (Place.behind front) back).2 (scanFrom (Place.behind front) back).1 =
      Place.behind front := by
  cases back with
  | nil => rfl
  | cons c cs => rw [scanFrom_glyph front (h c rfl)]; rfl

/-- **Each glyph of a text stands at the place behind the characters in front of it, and the text
ends at the place behind them all.** -/
theorem scan_split {text : String} {before after : List Glyph}
    (h : (scan text).1 = before ++ after) :
    ∃ first last, text.toList = first ++ last ∧ Text.strip first = chars before ∧
      Text.strip last = chars after ∧ (∀ c ∈ last.head?, Text.isBlank c = false) ∧
      start (scan text).2 after = Place.behind first := by
  replace h : (scanFrom (Place.behind []) text.toList).1 = before ++ after := h
  obtain ⟨first, last, hsplit, hfirst, hhead, hscan⟩ := scanFrom_split h
  rw [List.nil_append] at hscan
  have hchars := chars_scanFrom first last
  have hstart := start_scanFrom first hhead
  rw [hscan] at hchars hstart
  exact ⟨first, last, hsplit, hfirst, hchars.symm, hhead, hstart⟩

theorem chars_scan (text : String) : chars (scan text).1 = Text.strip text.toList :=
  chars_scanFrom [] text.toList

end Glyph

end GrowthOrder
