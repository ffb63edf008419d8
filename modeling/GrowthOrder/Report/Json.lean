import GrowthOrder.Decimal.Shortest

/-!
# GrowthOrder.Report.Json

JSON texts.  Fields keep their order.  A string is quoted with the shortest escapes; what is not a
control character, a quote or a backslash stands for itself.
-/

namespace GrowthOrder

/-- A JSON value. -/
inductive JsonValue
  | bool (b : Bool)
  | number (x : Float)
  | string (s : String)
  | list (items : List JsonValue)
  | object (fields : List (String × JsonValue))

namespace JsonValue

/-! ## Strings -/

/-- A hexadecimal digit. -/
def hexDigit (n : Nat) : Char :=
  Nat.digitChar n

/-- A character as it is written inside a string. -/
def escape (c : Char) : List Char :=
  match c with
  | '"' => ['\\', '"']
  | '\\' => ['\\', '\\']
  | '\n' => ['\\', 'n']
  | '\r' => ['\\', 'r']
  | '\t' => ['\\', 't']
  | '\x08' => ['\\', 'b']
  | '\x0c' => ['\\', 'f']
  | _ =>
    if c.toNat < 0x20 then
      ['\\', 'u', '0', '0', hexDigit (c.toNat / 16), hexDigit (c.toNat % 16)]
    else [c]

/-- A string in quotes. -/
def quoted (s : String) : String :=
  String.ofList ('"' :: s.toList.flatMap escape ++ ['"'])

/-! ## Values -/

/-- Items between two brackets. -/
def enclosed (left right : String) (items : List String) : String :=
  left ++ String.intercalate "," items ++ right

mutual

/-- A value without any blanks. -/
def compact : JsonValue → String
  | bool b => if b then "true" else "false"
  | number x => Decimal.text Decimal.interchange x
  | string s => quoted s
  | list items => enclosed "[" "]" (compactItems items)
  | object fields => enclosed "\x7b" "\x7d" (compactFields fields)

/-- The items of a list. -/
def compactItems : List JsonValue → List String
  | [] => []
  | v :: vs => compact v :: compactItems vs

/-- The fields of an object. -/
def compactFields : List (String × JsonValue) → List String
  | [] => []
  | (key, v) :: rest => (quoted key ++ ":" ++ compact v) :: compactFields rest

end

/-- A line break and the blanks in front of a line at some depth. -/
def indentation (depth : Nat) : String :=
  String.ofList ('\n' :: List.replicate (2 * depth) ' ')

/-- Items between two brackets, each on its own line; none at all on the line of the brackets. -/
def enclosedLines (left right : String) (depth : Nat) (items : List String) : String :=
  if items = [] then left ++ right
  else left ++ String.intercalate "," (items.map fun item => indentation (depth + 1) ++ item)
    ++ indentation depth ++ right

mutual

/-- A value with each item and field on its own line, two blanks deeper than its container. -/
def pretty (depth : Nat) : JsonValue → String
  | bool b => if b then "true" else "false"
  | number x => Decimal.text Decimal.interchange x
  | string s => quoted s
  | list items => enclosedLines "[" "]" depth (prettyItems (depth + 1) items)
  | object fields => enclosedLines "\x7b" "\x7d" depth (prettyFields (depth + 1) fields)

/-- The items of a list, at the depth of the items. -/
def prettyItems (depth : Nat) : List JsonValue → List String
  | [] => []
  | v :: vs => pretty depth v :: prettyItems depth vs

/-- The fields of an object, at the depth of the fields. -/
def prettyFields (depth : Nat) : List (String × JsonValue) → List String
  | [] => []
  | (key, v) :: rest => (quoted key ++ ": " ++ pretty depth v) :: prettyFields depth rest

end

end JsonValue

end GrowthOrder
