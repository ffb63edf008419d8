import GrowthOrder.Name
import GrowthOrder.Token

/-!
# GrowthOrder.Token.Lexer

Reading tokens from glyphs.  `Lexer.token` reads the longest token that the glyphs start with, and
`Lexer.tokens` reads one after the other to the end.

* A number is a run of ASCII digits, perhaps followed by a point and another run; a point without
  digits after it is a fault.
* A name is a letter and all that may continue a name; such a run that does not start with a letter
  is a fault as a whole.
* Any other glyph is a sign or a fault.
-/

namespace GrowthOrder

/-- A fault with the fragment of the text that it is about and the place where it shows. -/
structure Located (ε : Type) where
  fault : ε
  fragment : String
  place : Place
  deriving DecidableEq, Repr

/-- Why no token can be read. -/
inductive LexicalFault
  /-- A point after a number with no digit behind it. -/
  | missingFraction
  /-- A name that starts with something other than a letter. -/
  | nameStart
  /-- A character with no place in a recurrence. -/
  | strayCharacter
  deriving DecidableEq, Repr

/-- The message for a lexical fault. -/
def LexicalFault.message (fragment : String) : LexicalFault → String
  | missingFraction => "Malformed number '" ++ fragment ++ "': expected digits after '.'"
  | nameStart =>
    "Invalid identifier '" ++ fragment ++ "': identifiers must start with a letter"
  | strayCharacter => "Unexpected character: '" ++ fragment ++ "'"

namespace Lexer

/-- Glyphs from the front that satisfy a test, and the others. -/
def run (p : Char → Bool) (gs : List Glyph) : List Char × List Glyph :=
  (Glyph.chars (gs.takeWhile fun g => p g.char), gs.dropWhile fun g => p g.char)

theorem length_run_le (p : Char → Bool) (gs : List Glyph) :
    (run p gs).2.length ≤ gs.length :=
  (List.dropWhile_suffix _).length_le

/-- A number whose first digit is the glyph `g`. -/
def number (g : Glyph) (rest : List Glyph) :
    Except (Located LexicalFault) (Token × List Glyph) :=
  let whole := g.char :: (run Char.isDigit rest).1
  match (run Char.isDigit rest).2 with
  | [] => .ok (.number ⟨whole, []⟩, [])
  | point :: after =>
    if point.char = '.' then
      if (run Char.isDigit after).1 = [] then
        .error ⟨.missingFraction, String.ofList (whole ++ ['.']), g.place⟩
      else .ok (.number ⟨whole, (run Char.isDigit after).1⟩, (run Char.isDigit after).2)
    else .ok (.number ⟨whole, []⟩, point :: after)

/-- The token that starts with the glyph `g`, and the glyphs after it. -/
def token (g : Glyph) (rest : List Glyph) :
    Except (Located LexicalFault) (Token × List Glyph) :=
  if g.char.isDigit then number g rest
  else match Token.ofSign? g.char with
    | some t => .ok (t, rest)
    | none =>
      let word := String.ofList (g.char :: (run Name.isContinue rest).1)
      if Name.isStart g.char then .ok (.name word, (run Name.isContinue rest).2)
      else if Name.isContinue g.char then .error ⟨.nameStart, word, g.place⟩
      else .error ⟨.strayCharacter, String.ofList [g.char], g.place⟩

theorem length_number_le {g : Glyph} {rest after : List Glyph} {t : Token}
    (h : number g rest = .ok (t, after)) : after.length ≤ rest.length := by
  have hrun := length_run_le Char.isDigit rest
  unfold number at h
  split at h
  · simp only [Except.ok.injEq, Prod.mk.injEq] at h; simp [← h.2]
  · next point gs hgs =>
    have hmore := length_run_le Char.isDigit gs
    rw [hgs, List.length_cons] at hrun
    split at h
    · split at h
      · simp at h
      · simp only [Except.ok.injEq, Prod.mk.injEq] at h; rw [← h.2]; omega
    · simp only [Except.ok.injEq, Prod.mk.injEq] at h; rw [← h.2]; simpa using hrun

/-- Reading a token never gives glyphs back. -/
theorem length_token_le {g : Glyph} {rest after : List Glyph} {t : Token}
    (h : token g rest = .ok (t, after)) : after.length ≤ rest.length := by
  unfold token at h
  split at h
  · exact length_number_le h
  · split at h
    · simp only [Except.ok.injEq, Prod.mk.injEq] at h; simp [← h.2]
    · split at h
      · simp only [Except.ok.injEq, Prod.mk.injEq] at h
        simpa [← h.2] using length_run_le Name.isContinue rest
      · split at h <;> simp at h

/-- All tokens of some glyphs, each with the place where it starts. -/
def tokens : List Glyph → Except (Located LexicalFault) (List Lexeme)
  | [] => .ok []
  | g :: rest =>
    match h : token g rest with
    | .error e => .error e
    | .ok (t, after) =>
      have := length_token_le h
      match tokens after with
      | .error e => .error e
      | .ok ls => .ok (⟨t, g.place⟩ :: ls)
termination_by gs => gs.length
decreasing_by simp; omega

end Lexer

end GrowthOrder
