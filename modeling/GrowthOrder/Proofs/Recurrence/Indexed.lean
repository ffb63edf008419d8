import GrowthOrder.Recurrence.Parser

/-!
# GrowthOrder.Proofs.Recurrence.Indexed

Reading a recurrence by positions.  The tokens stand in one sequence with an entry for the end
behind them, a reader is at a position in it, and quotes are cut out of the characters of the text.
It is the grammar of `GrowthOrder.Recurrence.Parser` read in the way of a cursor, with everything
that can go wrong on the way:

* each access is checked, and `outOfRange` is what comes of one that is not in range;
* each loop has a number of rounds to go, and `unfinished` is what comes of one that uses them up.
-/

namespace GrowthOrder

namespace Indexed

/-- Why reading stops without a recurrence. -/
inductive Halt
  | refused (e : ParseError)
  /-- There is nothing at some index. -/
  | outOfRange
  /-- A loop has used up its rounds. -/
  | unfinished

/-- What a reader comes to. -/
abbrev Read (α : Type) :=
  Except Halt α

/-- A token with the place where it starts, or the end of the text with its place. -/
structure Entry where
  token : Option Token
  place : Place

/-- What is read: the tokens with the end behind them, and the characters without blanks. -/
structure Source where
  entries : List Entry
  chars : List Char

/-- The lexemes of a text as a source. -/
def Source.of (text : String) (ls : List Lexeme) : Source where
  entries := ls.map (fun l => ⟨some l.token, l.place⟩) ++ [⟨none, (Glyph.scan text).2⟩]
  chars := Glyph.chars (Glyph.scan text).1

/-- What stands behind an argument, with the position behind that. -/
inductive Break
  | comma (next : Nat)
  | closing (next : Nat)
  | missing

/-- The difference of two positions, the first of which is not after the second. -/
def distance (first last : Nat) : Read Nat :=
  if first ≤ last then .ok (last - first) else .error .outOfRange

namespace Source

variable (s : Source)

/-! ## Access -/

/-- The entry at an index. -/
def entry (i : Nat) : Read Entry :=
  match s.entries[i]? with
  | some e => .ok e
  | none => .error .outOfRange

/-- The index of the last entry. -/
def last : Read Nat :=
  distance 1 s.entries.length

/-- The entry at an index, or the last one for any index behind it. -/
def near (i : Nat) : Read Entry := do
  s.entry (min i (← s.last))

/-- The characters from one entry up to another. -/
def slice (first last : Nat) : Read String := do
  let start := (← s.near first).place.offset
  let stop := (← s.near last).place.offset
  if stop ≤ start then .ok ""
  else if stop ≤ s.chars.length then .ok (String.ofList (s.chars.extract start stop))
  else .error .outOfRange

/-- A fault that shows at an index. -/
def refuse {α : Type} (i : Nat) (fault : ParseFault) (fragment : String) : Read α := do
  .error (.refused ⟨fault, fragment, (← s.near i).place⟩)

/-- The position behind the entry at `i`, which is the same if that is the end.  The entry that is
left behind is looked at once more. -/
def advance (i : Nat) : Read Nat := do
  let next := if (← s.entry i).token.isNone then i else i + 1
  let _ ← s.entry (next - 1)
  .ok next

/-- The position behind a sign, if it stands at `i`. -/
def accept (i : Nat) (sign : Token) : Read (Option Nat) := do
  if (← s.entry i).token = some sign then return some (← s.advance i) else return none

/-- What stands behind an argument that ends at `i`. -/
def breakAt (i : Nat) : Read Break := do
  match ← s.accept i .comma with
  | some next => return .comma next
  | none => match ← s.accept i .closing with
    | some next => return .closing next
    | none => return .missing

/-! ## Looking ahead -/

/-- The first index from `i` on whose entry passes a test. -/
def seek (test : Option Token → Bool) : Nat → Nat → Read Nat
  | 0, _ => .error .unfinished
  | rounds + 1, i => do
    if test (← s.near i).token then return i else seek test rounds (i + 1)

/-- Whether an entry is no word. -/
def endsWord (t : Option Token) : Bool :=
  !t.any Token.isWord

/-- Whether an entry ends an argument. -/
def endsArgument (t : Option Token) : Bool :=
  t == some .comma || t == some .closing || t == some .equals || t == none

/-- The first index from `i` on whose entry ends a summand, `depth` parentheses being open. -/
def summandEnd : Nat → Nat → Nat → Read Nat
  | 0, _, _ => .error .unfinished
  | rounds + 1, depth, i => do
    match (← s.near i).token with
    | none => return i
    | some .opening => summandEnd rounds (depth + 1) (i + 1)
    | some .closing => summandEnd rounds (depth - 1) (i + 1)
    | some .plus | some .minus => if depth = 0 then return i else summandEnd rounds depth (i + 1)
    | some _ => summandEnd rounds depth (i + 1)

-- the number of rounds that each loop may go
variable (bound : Nat)

/-! ## The left-hand side -/

/-- The variables from `i` on, given those before, and the position behind the parenthesis; `left`
is the text of the left-hand side. -/
def parameters (left : String) : Nat → List String → Nat → Read (List String × Nat)
  | 0, _, _ => .error .unfinished
  | rounds + 1, before, i => do
    let stop ← s.seek endsArgument bound i
    let fragment ← s.slice i stop
    match ← distance i stop, (← s.near i).token with
    | 1, some (.name name) =>
      if name ∈ before then s.refuse i .duplicateVariable name
      else match ← s.breakAt stop with
        | .comma next => parameters left rounds (before ++ [name]) next
        | .closing next => return (before ++ [name], next)
        | .missing => s.refuse 0 .invalidLeft left
    | _, _ => s.refuse i .invalidVariable fragment

/-- The signature of a function whose variables start at `first`. -/
def signatureFrom (left : String) (equals : Nat) (function : String) (first : Nat) :
    Read (Call Float) := do
  if (← s.entry first).token = some .closing then s.refuse 0 .noArguments left
  else
    let (names, last) ← s.parameters bound left bound [] first
    if last ≠ equals then s.refuse 0 .invalidLeft left
    else match Call.signature function names with
      | .error fault => s.refuse 0 (.model fault) left
      | .ok call => return call

/-- The signature in front of the equals sign at `equals`. -/
def signature (equals : Nat) : Read (Call Float) := do
  let left ← s.slice 0 equals
  let stop ← s.seek endsWord bound 0
  match stop, (← s.near 0).token with
  | 1, some (.name function) => match ← s.accept stop .opening with
    | none => s.refuse 0 .invalidLeft left
    | some first => s.signatureFrom bound left equals function first
  | 0, _ => s.refuse 0 .invalidLeft left
  | _, _ => s.refuse 0 .invalidFunction (← s.slice 0 stop)

/-! ## Summands -/

/-- Where the arguments from `i` on start and end, and the position behind the parenthesis. -/
def arguments (start : Nat) (summand : String) : Nat → Nat → Read (List (Nat × Nat) × Nat)
  | 0, _ => .error .unfinished
  | rounds + 1, i => do
    let stop ← s.seek endsArgument bound i
    match ← s.breakAt stop with
    | .comma next =>
      let (more, last) ← arguments start summand rounds next
      return ((i, stop) :: more, last)
    | .closing next => return ([(i, stop)], next)
    | .missing => s.refuse start .unclosedCall summand

/-- The shift of the argument between two positions. -/
def shift (summand name : String) (first last : Nat) : Read Float := do
  let part ← s.slice first last
  if (← s.near first).token ≠ some (.name name) then
    s.refuse first (.invalidArgument summand) part
  else match ← distance first last with
    | 1 => return 0.0
    | 3 => match (← s.near (first + 1)).token, (← s.near (first + 2)).token with
      | some .plus, some (.number l) => return l.value
      | some .minus, some (.number l) => return 0.0 - l.value
      | _, _ => s.refuse first (.invalidArgument summand) part
    | _ => s.refuse first (.invalidArgument summand) part

/-- The shifts of some arguments, one for each variable. -/
def shifts (summand : String) : List String → List (Nat × Nat) → Read (List Float)
  | name :: names, (first, last) :: parts => do
    let s' ← s.shift summand name first last
    let more ← shifts summand names parts
    return s' :: more
  | _, _ => return []

/-- A call of this function, which stands at `i`, with its arguments from `first` on, and the
position behind it.  The summand is the text from `start` to `stop`. -/
def application (header : Call Float) (start stop : Nat) (summand : String) (coefficient : Float)
    (function : String) (i first : Nat) : Read (Term Float × Nat) := do
  if function ≠ header.function then
    s.refuse i (.foreignFunction function header.function) summand
  else
    let (parts, last) ← s.arguments bound start summand bound first
    if last ≠ stop then s.refuse start .invalidTerm summand
    else if parts.length ≠ header.parameters.length then
      s.refuse start (.argumentCount parts.length header.parameters.length) summand
    else
      let shifts ← s.shifts summand header.parameters parts
      match Call.checked coefficient function header.parameters shifts with
      | .error fault => s.refuse start (.model fault) summand
      | .ok c => return (.call c, last)

/-- A call with this coefficient whose function stands at `i`. -/
def call (header : Call Float) (start stop : Nat) (summand : String) (coefficient : Float)
    (i : Nat) : Read (Term Float × Nat) := do
  match (← s.entry i).token with
  | some (.name function) => match ← s.accept (← s.advance i) .opening with
    | none => s.refuse start .invalidTerm summand
    | some first => s.application bound header start stop summand coefficient function i first
  | _ => s.refuse start .invalidTerm summand

/-- The term from `i` up to `stop`, and the position behind it. -/
def term (header : Call Float) (start stop : Nat) (summand : String) (negative : Bool) (i : Nat) :
    Read (Term Float × Nat) := do
  match (← s.entry i).token with
  | some (.number l) =>
    let next ← s.advance i
    if next = stop then return (.constant (Parser.signed negative l.value), next)
    else
      let name := (← s.accept next .star).getD next
      s.call bound header start stop summand (Parser.signed negative l.value) name
  | _ => s.call bound header start stop summand (Parser.signed negative 1.0) i

/-! ## The right-hand side -/

/-- The sign behind a summand that ends at `i`, whether it is a minus sign, and the position behind
it. -/
def signAt (i : Nat) : Read (Option (Bool × Nat)) := do
  match ← s.accept i .plus with
  | some next => return some (false, next)
  | none => return (← s.accept i .minus).map fun next => (true, next)

/-- The terms from `start` on, where `negative` is the sign in front of the first one. -/
def terms (header : Call Float) : Nat → Bool → Nat → Read (List (Term Float))
  | 0, _, _ => .error .unfinished
  | rounds + 1, negative, start => do
    let sign ← s.accept start .minus
    let first := sign.getD start
    let stop ← s.summandEnd bound 0 first
    let summand ← s.slice start stop
    if first = stop then s.refuse start (.expectedTerm (← s.entry first).token) summand
    else
      let (t, last) ← s.term bound header start stop summand (negative != sign.isSome) first
      match ← s.signAt last with
      | some (negative, next) => return t :: (← terms header rounds negative next)
      | none => return [t]

/-! ## Recurrences -/

/-- The indices of all equals signs. -/
def equals : List Nat :=
  (s.entries.zipIdx.filter fun e => e.1.token == some .equals).map Prod.snd

/-- The recurrence that a source denotes. -/
def recurrence : Read (Recurrence Float) := do
  if (← s.entry 0).token.isNone then s.refuse 0 .emptyInput ""
  else match s.equals with
    | [equals] =>
      if equals = 0 then s.refuse 0 .emptyLeft ""
      else if (← s.entry (equals + 1)).token.isNone then s.refuse (equals + 1) .emptyRight ""
      else
        let header ← s.signature bound equals
        let ts ← s.terms bound header bound false (equals + 1)
        match Recurrence.checked header (Term.collect ts) with
        | .error fault => s.refuse 0 (.model fault) (← s.slice 0 (← s.last))
        | .ok r => return r
    | _ =>
      let whole ← s.slice 0 (← s.last)
      s.refuse 0 .equalsCount whole

end Source

/-- Read a recurrence by positions, each loop going at most `bound` rounds. -/
def parse (bound : Nat) (text : String) : Read (Recurrence Float) :=
  match Lexer.tokens (Glyph.scan text).1 with
  | .error e => .error (.refused ⟨.lexical e.fault, e.fragment, e.place⟩)
  | .ok ls => (Source.of text ls).recurrence bound

end Indexed

end GrowthOrder
