import GrowthOrder.Recurrence.LikeTerms
import GrowthOrder.Token.Lexer

/-!
# GrowthOrder.Recurrence.Parser

Reading a recurrence from text:

```text
recurrence := signature "=" sum
signature  := name "(" name {"," name} ")"
sum        := ["-"] term {("+" | "-") ["-"] term}
term       := number | [number ["*"]] name "(" argument {"," argument} ")"
argument   := name [("+" | "-") number]
```

The variables of the signature are distinct, and every call in the sum is one of the same function
at the same variables in the same order.  The summands read are collected into like terms.

A text is taken apart before its parts are looked at: at its one `=`, at every `+` and `-` outside
of parentheses, at every comma of a call.  A fault names the part that it is about and the place
where that part starts.
-/

namespace GrowthOrder

/-! ## Faults -/

/-- Why a text is not a recurrence. -/
inductive ParseFault
  | lexical (fault : LexicalFault)
  /-- There is nothing but blanks. -/
  | emptyInput
  /-- There is no `=`, or there are several. -/
  | equalsCount
  | emptyLeft
  | emptyRight
  /-- The left-hand side is not of the form of a signature. -/
  | invalidLeft
  /-- The word in front of the parentheses is not one name. -/
  | invalidFunction
  /-- There is nothing between the parentheses of the signature. -/
  | noArguments
  | invalidVariable
  | duplicateVariable
  /-- There is something else, or nothing, where a summand should start. -/
  | expectedTerm (found : Option Token)
  /-- A summand is not of the form of a term. -/
  | invalidTerm
  | foreignFunction (found expected : String)
  /-- A call has no closing parenthesis. -/
  | unclosedCall
  | argumentCount (found expected : Nat)
  | invalidArgument (term : String)
  /-- The parts break a rule of the model. -/
  | model (fault : ModelFault Float)

/-- A parse fault with its fragment and place. -/
abbrev ParseError :=
  Located ParseFault

namespace ParseError

/-- The message for a parse error. -/
def message (e : ParseError) : String :=
  match e.fault with
  | .lexical fault => fault.message e.fragment
  | .emptyInput => "Empty input"
  | .equalsCount => "Expected exactly one '=': " ++ e.fragment
  | .emptyLeft => "Empty left-hand side"
  | .emptyRight => "Empty right-hand side"
  | .invalidLeft => "Invalid left-hand side '" ++ e.fragment ++ "'"
  | .invalidFunction => "Invalid function name '" ++ e.fragment ++ "'"
  | .noArguments => "No arguments in '" ++ e.fragment ++ "'"
  | .invalidVariable => "Invalid variable name '" ++ e.fragment ++ "'"
  | .duplicateVariable => "Duplicate variable name '" ++ e.fragment ++ "'"
  | .expectedTerm (some t) => "Expected a term, found " ++ t.describe
  | .expectedTerm none => "Expected a term, found end of input"
  | .invalidTerm => "Invalid term '" ++ e.fragment ++ "'"
  | .foreignFunction found expected =>
    "Term '" ++ e.fragment ++ "' uses different function name '" ++ found ++ "' than '"
      ++ expected ++ "'"
  | .unclosedCall => "Unclosed '(' in term '" ++ e.fragment ++ "'"
  | .argumentCount found expected =>
    "Term '" ++ e.fragment ++ "' has " ++ toString found ++ " args, expected "
      ++ toString expected
  | .invalidArgument term => "Invalid argument '" ++ e.fragment ++ "' in term '" ++ term ++ "'"
  | .model fault => fault.message

/-- The message with the place in front. -/
def describe (e : ParseError) : String :=
  "Parse error at " ++ e.place.describe ++ ": " ++ e.message

end ParseError

namespace Parser

/-- Whether a token ends an argument. -/
def endsArgument (l : Lexeme) : Bool :=
  l.token == .comma || l.token == .closing

/-- What stands before the next comma or closing parenthesis. -/
def argument (ls : List Lexeme) : List Lexeme :=
  ls.takeWhile fun l => !endsArgument l

/-- The next comma or closing parenthesis and all after it. -/
def afterArgument (ls : List Lexeme) : List Lexeme :=
  ls.dropWhile fun l => !endsArgument l

theorem length_afterArgument_le (ls : List Lexeme) :
    (afterArgument ls).length ≤ ls.length :=
  (List.dropWhile_suffix _).length_le

/-! ## The left-hand side -/

/-- The variables of a signature from behind its opening parenthesis on, given the variables before,
and what follows the closing parenthesis.  `stop` is where the left-hand side ends, and `whole` is
its text with the place where it starts. -/
def parameters (stop : Place) (whole : String × Place) (before : List String) (ls : List Lexeme) :
    Except ParseError (List String × List Lexeme) :=
  match argument ls with
  | [⟨.name name, place⟩] =>
    if name ∈ before then .error ⟨.duplicateVariable, name, place⟩
    else match h : afterArgument ls with
      | [] => .error ⟨.invalidLeft, whole.1, whole.2⟩
      | l :: rest =>
        have : rest.length < ls.length := by
          have := length_afterArgument_le ls
          rw [h, List.length_cons] at this
          omega
        if l.token = .comma then parameters stop whole (before ++ [name]) rest
        else .ok (before ++ [name], rest)
  | part => .error ⟨.invalidVariable, Lexeme.spell part, Lexeme.start stop ls⟩
termination_by ls.length

/-- The signature that the left-hand side denotes; `stop` is where the left-hand side ends. -/
def signature (stop : Place) (left : List Lexeme) : Except ParseError (Call Float) :=
  let whole := (Lexeme.spell left, Lexeme.start stop left)
  let invalid : ParseError := ⟨.invalidLeft, whole.1, whole.2⟩
  let words := left.takeWhile fun l => l.token.isWord
  match words, left.dropWhile (fun l => l.token.isWord) with
  | [], _ => .error invalid
  | [⟨.name function, _⟩], ⟨.opening, _⟩ :: inner =>
    if inner.head?.any fun l => l.token = .closing then
      .error ⟨.noArguments, whole.1, whole.2⟩
    else match parameters stop whole [] inner with
      | .error e => .error e
      | .ok (names, []) => match Call.signature function names with
        | .error fault => .error ⟨.model fault, whole.1, whole.2⟩
        | .ok call => .ok call
      | .ok (_, _ :: _) => .error invalid
  | [⟨.name _, _⟩], _ => .error invalid
  | _, _ => .error ⟨.invalidFunction, Lexeme.spell words, whole.2⟩

/-! ## Summands -/

/-- The arguments of a call from behind its opening parenthesis on, each with the place where it
starts, and what follows the closing parenthesis; none if there is no closing parenthesis. -/
def arguments? (stop : Place) (ls : List Lexeme) :
    Option (List (Place × List Lexeme) × List Lexeme) :=
  match h : afterArgument ls with
  | [] => none
  | l :: rest =>
    have : rest.length < ls.length := by
      have := length_afterArgument_le ls
      rw [h, List.length_cons] at this
      omega
    let first := (Lexeme.start stop ls, argument ls)
    if l.token = .comma then
      (arguments? stop rest).map fun more => (first :: more.1, more.2)
    else some ([first], rest)
termination_by ls.length

/-- The shift that an argument adds to a variable. -/
def shift? (name : String) : List Lexeme → Option Float
  | [⟨.name found, _⟩] => if found = name then some 0.0 else none
  | [⟨.name found, _⟩, ⟨.plus, _⟩, ⟨.number l, _⟩] => if found = name then some l.value else none
  | [⟨.name found, _⟩, ⟨.minus, _⟩, ⟨.number l, _⟩] =>
    if found = name then some (0.0 - l.value) else none
  | _ => none

/-- The shifts that the arguments of a call add to the variables; `term` is the text of the
summand. -/
def shifts (term : String) : List String → List (Place × List Lexeme) →
    Except ParseError (List Float)
  | name :: names, (place, part) :: parts =>
    match shift? name part with
    | none => .error ⟨.invalidArgument term, Lexeme.spell part, place⟩
    | some s => match shifts term names parts with
      | .error e => .error e
      | .ok ss => .ok (s :: ss)
  | _, _ => .ok []

/-- The number in front of a call, and the rest of the summand. -/
def factor : List Lexeme → Float × List Lexeme
  | ⟨.number l, _⟩ :: ⟨.star, _⟩ :: rest => (l.value, rest)
  | ⟨.number l, _⟩ :: rest => (l.value, rest)
  | ls => (1.0, ls)

/-- A number with the given sign. -/
def signed (negative : Bool) (x : Float) : Float :=
  if negative then -x else x

/-- The call that a summand denotes; `whole` is the text of the summand, sign included, with the
place where it starts. -/
def call (signature : Call Float) (whole : String × Place) (negative : Bool)
    (summand : List Lexeme) : Except ParseError (Call Float) :=
  let invalid : ParseError := ⟨.invalidTerm, whole.1, whole.2⟩
  match (factor summand).2 with
  | ⟨.name function, place⟩ :: ⟨.opening, _⟩ :: inner =>
    if function ≠ signature.function then
      .error ⟨.foreignFunction function signature.function, whole.1, place⟩
    else match arguments? whole.2 inner with
      | none => .error ⟨.unclosedCall, whole.1, whole.2⟩
      | some (_, _ :: _) => .error invalid
      | some (parts, []) =>
        if parts.length ≠ signature.parameters.length then
          .error ⟨.argumentCount parts.length signature.parameters.length, whole.1, whole.2⟩
        else match shifts whole.1 signature.parameters parts with
          | .error e => .error e
          | .ok ss =>
            let coefficient := signed negative (factor summand).1
            match Call.checked coefficient function signature.parameters ss with
            | .error fault => .error ⟨.model fault, whole.1, whole.2⟩
            | .ok c => .ok c
  | _ => .error invalid

/-- The term that a summand denotes. -/
def term (signature : Call Float) (whole : String × Place) (negative : Bool) :
    List Lexeme → Except ParseError (Term Float)
  | [⟨.number l, _⟩] => .ok (.constant (signed negative l.value))
  | summand => match call signature whole negative summand with
    | .error e => .error e
    | .ok c => .ok (.call c)

/-! ## The right-hand side -/

/-- Split before the first `+` or `-` outside of parentheses, `depth` of which are open. -/
def splitSummand : Nat → List Lexeme → List Lexeme × List Lexeme
  | _, [] => ([], [])
  | depth, l :: ls =>
    match l.token with
    | .opening => (splitSummand (depth + 1) ls).map (l :: ·) id
    | .closing => (splitSummand (depth - 1) ls).map (l :: ·) id
    | .plus | .minus =>
      if depth = 0 then ([], l :: ls) else (splitSummand depth ls).map (l :: ·) id
    | _ => (splitSummand depth ls).map (l :: ·) id

/-- A split loses nothing. -/
theorem append_splitSummand (depth : Nat) (ls : List Lexeme) :
    (splitSummand depth ls).1 ++ (splitSummand depth ls).2 = ls := by
  fun_induction splitSummand depth ls <;> simp_all

theorem length_splitSummand_le (depth : Nat) (ls : List Lexeme) :
    (splitSummand depth ls).2.length ≤ ls.length := by
  have h := congrArg List.length (append_splitSummand depth ls)
  rw [List.length_append] at h
  omega

/-- The minus sign that a summand may start with, and the rest. -/
def splitSign : List Lexeme → List Lexeme × List Lexeme
  | ⟨.minus, place⟩ :: ls => ([⟨.minus, place⟩], ls)
  | ls => ([], ls)

theorem length_splitSign_le (ls : List Lexeme) : (splitSign ls).2.length ≤ ls.length := by
  unfold splitSign; split <;> simp

/-- The terms of a sum, where `negative` is the sign in front of the first one and `stop` is where
the text ends. -/
def terms (signature : Call Float) (stop : Place) (negative : Bool) (ls : List Lexeme) :
    Except ParseError (List (Term Float)) :=
  let sign := (splitSign ls).1
  let body := (splitSign ls).2
  let summand := (splitSummand 0 body).1
  let whole := (Lexeme.spell (sign ++ summand), Lexeme.start stop ls)
  if summand = [] then .error ⟨.expectedTerm (body.head?.map Lexeme.token), whole.1, whole.2⟩
  else match term signature whole (negative != !sign.isEmpty) summand with
    | .error e => .error e
    | .ok t => match h : (splitSummand 0 body).2 with
      | [] => .ok [t]
      | separator :: rest =>
        have : rest.length < ls.length := by
          have h₁ := length_splitSummand_le 0 (splitSign ls).2
          have h₂ := length_splitSign_le ls
          rw [h, List.length_cons] at h₁
          omega
        match terms signature stop (separator.token == .minus) rest with
        | .error e => .error e
        | .ok ts => .ok (t :: ts)
termination_by ls.length

/-! ## Recurrences -/

/-- The recurrence that some lexemes denote; `stop` is where the text ends. -/
def recurrence (stop : Place) (ls : List Lexeme) : Except ParseError (Recurrence Float) :=
  let whole := (Lexeme.spell ls, Lexeme.start stop ls)
  let left := ls.takeWhile fun l => l.token != .equals
  let fromEquals := ls.dropWhile fun l => l.token != .equals
  let right := fromEquals.drop 1
  if ls = [] then .error ⟨.emptyInput, "", stop⟩
  else if (ls.countP fun l => l.token == .equals) ≠ 1 then
    .error ⟨.equalsCount, whole.1, whole.2⟩
  else if left = [] then .error ⟨.emptyLeft, "", whole.2⟩
  else if right = [] then .error ⟨.emptyRight, "", stop⟩
  else match signature (Lexeme.start stop fromEquals) left with
    | .error e => .error e
    | .ok call => match terms call stop false right with
      | .error e => .error e
      | .ok ts => match Recurrence.checked call (Term.collect ts) with
        | .error fault => .error ⟨.model fault, whole.1, whole.2⟩
        | .ok r => .ok r

end Parser

/-- Read a recurrence such as `T(n) = 2*T(n-1) + T(n-2)`. -/
def Recurrence.parse (text : String) : Except ParseError (Recurrence Float) :=
  match Lexer.tokens (Glyph.scan text).1 with
  | .error e => .error ⟨.lexical e.fault, e.fragment, e.place⟩
  | .ok ls => Parser.recurrence (Glyph.scan text).2 ls

end GrowthOrder
