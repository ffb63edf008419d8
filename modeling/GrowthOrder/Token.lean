import GrowthOrder.Decimal.Shortest
import GrowthOrder.Place

/-!
# GrowthOrder.Token

The words and signs that a recurrence is written with.  Every token has a `spelling`, the glyphs it
is read from, so a stretch of tokens can be quoted in a message.
-/

namespace GrowthOrder

/-- An unsigned decimal literal: digits, and perhaps a point with more digits. -/
structure Literal where
  whole : List Char
  /-- The digits after the point; there is a point where there are such digits. -/
  fraction : List Char
  deriving DecidableEq, Repr

namespace Literal

/-- The literal as it is written. -/
def spelling (l : Literal) : List Char :=
  if l.fraction = [] then l.whole else l.whole ++ '.' :: l.fraction

/-- The natural number that some digits denote. -/
def natural (ds : List Char) : Nat :=
  ds.foldl (fun n c => 10 * n + (c.toNat - '0'.toNat)) 0

/-- The binary64 number nearest to the literal. -/
def value (l : Literal) : Float :=
  Float.ofScientific (natural (l.whole ++ l.fraction)) true l.fraction.length

end Literal

/-- A word or sign of a recurrence. -/
inductive Token
  | number (literal : Literal)
  | name (text : String)
  | plus
  | minus
  | star
  | comma
  | equals
  | opening
  | closing
  deriving DecidableEq, Repr

namespace Token

/-- The token as it is written. -/
def spelling : Token → List Char
  | number l => l.spelling
  | name s => s.toList
  | plus => ['+']
  | minus => ['-']
  | star => ['*']
  | comma => [',']
  | equals => ['=']
  | opening => ['(']
  | closing => [')']

/-- Numbers and names, which run together into one word where nothing is between them. -/
def isWord : Token → Bool
  | number _ => true
  | name _ => true
  | _ => false

/-- The token of a single sign. -/
def ofSign? : Char → Option Token
  | '+' => some plus
  | '-' => some minus
  | '*' => some star
  | ',' => some comma
  | '=' => some equals
  | '(' => some opening
  | ')' => some closing
  | _ => none

/-- The token in words, for messages. -/
def describe : Token → String
  | number l => "number " ++ Decimal.text Decimal.plain l.value
  | name s => "identifier '" ++ s ++ "'"
  | t => "'" ++ String.ofList t.spelling ++ "'"

end Token

/-- A token and the place where it starts. -/
structure Lexeme where
  token : Token
  place : Place
  deriving DecidableEq, Repr

namespace Lexeme

/-- Some lexemes as they are written, blanks left out. -/
def spell (ls : List Lexeme) : String :=
  String.ofList (ls.flatMap fun l => l.token.spelling)

/-- Where the first of some lexemes starts, or `stop` if there is none. -/
def start (stop : Place) : List Lexeme → Place
  | [] => stop
  | l :: _ => l.place

end Lexeme

end GrowthOrder
