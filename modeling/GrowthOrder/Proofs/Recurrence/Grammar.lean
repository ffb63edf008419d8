import GrowthOrder.Recurrence.LikeTerms
import GrowthOrder.Token

/-!
# GrowthOrder.Proofs.Recurrence.Grammar

The grammar of recurrences as trees, one type for each rule:

```text
Equation    := Header "=" Sum
Header      := name "(" name {"," name} ")"
Sum         := Summand {("+" | "-") Summand}
Summand     := ["-"] Operand
Operand     := number | Application
Application := [number ["*"]] name "(" Argument {"," Argument} ")"
Argument    := name [("+" | "-") number]
```

A tree has `tokens`, the words and signs it is written with from left to right, and a meaning, which
is read off the tree alone.  A text belongs to the grammar if its tokens are those of a tree.
-/

namespace GrowthOrder

namespace Term

/-- The same term with the other sign. -/
def negate : Term Float → Term Float
  | constant c => constant (-c)
  | call c => call { c with coefficient := -c.coefficient }

/-- A term with the given sign in front. -/
def signed (negative : Bool) (t : Term Float) : Term Float :=
  if negative then t.negate else t

end Term

namespace Grammar

/-- Stretches of tokens with commas between them. -/
def separated : List (List Token) → List Token
  | [] => []
  | part :: parts => part ++ parts.flatMap fun next => .comma :: next

theorem separated_singleton (part : List Token) : separated [part] = part :=
  List.append_nil part

theorem separated_cons_cons (part next : List Token) (parts : List (List Token)) :
    separated (part :: next :: parts) = part ++ .comma :: separated (next :: parts) :=
  rfl

/-! ## Arguments -/

/-- What an argument adds to its variable: nothing, `+2`, or `-2`. -/
inductive Offset
  | none
  | plus (literal : Literal)
  | minus (literal : Literal)

namespace Offset

def tokens : Offset → List Token
  | none => []
  | plus l => [.plus, .number l]
  | minus l => [.minus, .number l]

/-- The shift: a literal that is taken away is taken away from zero. -/
def shift : Offset → Float
  | none => 0.0
  | plus l => l.value
  | minus l => 0.0 - l.value

end Offset

/-- A variable and what is added to it. -/
structure Argument where
  name : String
  offset : Offset

namespace Argument

def tokens (a : Argument) : List Token :=
  .name a.name :: a.offset.tokens

def shift (a : Argument) : Float :=
  a.offset.shift

end Argument

/-! ## Summands -/

/-- What stands in front of a call: nothing, `2`, or `2*`. -/
inductive Factor
  | none
  | number (literal : Literal)
  | starred (literal : Literal)

namespace Factor

def tokens : Factor → List Token
  | none => []
  | number l => [.number l]
  | starred l => [.number l, .star]

/-- The coefficient, 1 if there is no literal. -/
def coefficient : Factor → Float
  | none => 1.0
  | number l => l.value
  | starred l => l.value

end Factor

/-- A function at some arguments, of which there is at least one. -/
structure Application where
  factor : Factor
  function : String
  first : Argument
  others : List Argument

namespace Application

def arguments (a : Application) : List Argument :=
  a.first :: a.others

def tokens (a : Application) : List Token :=
  a.factor.tokens
    ++ .name a.function :: .opening :: separated (a.arguments.map Argument.tokens) ++ [.closing]

/-- The variables of the arguments. -/
def names (a : Application) : List String :=
  a.arguments.map Argument.name

/-- The call that an application denotes. -/
def call (a : Application) : Call Float :=
  ⟨a.factor.coefficient, a.function, a.names, a.arguments.map Argument.shift⟩

end Application

/-- A summand without a sign. -/
inductive Operand
  | number (literal : Literal)
  | application (application : Application)

namespace Operand

def tokens : Operand → List Token
  | number l => [.number l]
  | application a => a.tokens

/-- The term that an operand denotes. -/
def term : Operand → Term Float
  | number l => .constant l.value
  | application a => .call a.call

/-- Whether a call is one of this function at these variables, in the same order; numbers have
nothing to agree with. -/
def Fits (function : String) (parameters : List String) : Operand → Prop
  | number _ => True
  | application a => a.function = function ∧ a.names = parameters

instance (function : String) (parameters : List String) :
    DecidablePred (Fits function parameters)
  | number _ => .isTrue trivial
  | application a => inferInstanceAs (Decidable (a.function = function ∧ a.names = parameters))

end Operand

/-- A summand, perhaps with a minus sign of its own. -/
structure Summand where
  negated : Bool
  operand : Operand

namespace Summand

def tokens (s : Summand) : List Token :=
  (if s.negated then [.minus] else []) ++ s.operand.tokens

/-- The term that a summand denotes. -/
def term (s : Summand) : Term Float :=
  s.operand.term.signed s.negated

end Summand

/-! ## Sums -/

/-- A sign between two summands. -/
inductive Sign
  | plus
  | minus

namespace Sign

def token : Sign → Token
  | plus => .plus
  | minus => .minus

def isMinus : Sign → Bool
  | plus => false
  | minus => true

end Sign

/-- Summands with signs between them. -/
structure Sum where
  first : Summand
  others : List (Sign × Summand)

namespace Sum

def tokens (s : Sum) : List Token :=
  s.first.tokens ++ s.others.flatMap fun next => next.1.token :: next.2.tokens

/-- The operands from left to right. -/
def operands (s : Sum) : List Operand :=
  s.first.operand :: s.others.map fun next => next.2.operand

/-- The terms from left to right, each negated once for each minus sign in front of it. -/
def terms (s : Sum) : List (Term Float) :=
  s.first.term :: s.others.map fun next => next.2.term.signed next.1.isMinus

end Sum

/-! ## Equations -/

/-- A function of some variables, of which there is at least one. -/
structure Header where
  function : String
  first : String
  others : List String

namespace Header

def parameters (h : Header) : List String :=
  h.first :: h.others

def tokens (h : Header) : List Token :=
  .name h.function :: .opening :: separated (h.parameters.map fun name => [.name name])
    ++ [.closing]

/-- The call that a header denotes, with the coefficient 1 and no shifts. -/
def call (h : Header) : Call Float :=
  ⟨1.0, h.function, h.parameters, h.parameters.map fun _ => 0.0⟩

end Header

/-- A recurrence as it is written. -/
structure Equation where
  left : Header
  right : Sum

namespace Equation

def tokens (e : Equation) : List Token :=
  e.left.tokens ++ .equals :: e.right.tokens

/-- The variables are distinct, and every call is one of the defined function at exactly these
variables. -/
structure Scoped (e : Equation) : Prop where
  distinct : e.left.parameters.Nodup
  fits : ∀ o ∈ e.right.operands, o.Fits e.left.function e.left.parameters

instance (e : Equation) : Decidable e.Scoped :=
  decidable_of_iff (e.left.parameters.Nodup ∧
      ∀ o ∈ e.right.operands, o.Fits e.left.function e.left.parameters)
    ⟨fun ⟨hdistinct, hfits⟩ => ⟨hdistinct, hfits⟩, fun h => ⟨h.distinct, h.fits⟩⟩

/-- The recurrence that an equation denotes, with like terms collected. -/
def recurrence (e : Equation) : Recurrence Float :=
  ⟨e.left.call, Term.collect e.right.terms⟩

end Equation

end Grammar

end GrowthOrder
