import LiveSpec.Numeral
import LiveSpec.Yaml.Node

/-!
# The values of YAML nodes

A plain scalar without a tag is read as the first of these that it spells: the absent value, a truth
value, an integer, a floating-point number, a text. A quoted one is a text. A number that starts
with a zero and goes on with digits is a text as well, since readers disagree on its base.

`Node.value?` has no value where a tag is not kept to, where a key is not a scalar, where an integer
has more than 64 but not more than 128 bits, and where collections are nested more than 128 deep.
-/

namespace LiveSpec.Yaml

/-- What a scalar can spell. An infinity or a number that is none has no value of its own. -/
inductive Spelled where
  | null
  | bool (b : Bool)
  | int (n : Int)
  | float (x : Float)
  | notFinite
  | text
deriving Inhabited

namespace Spelled

/-- Says whether a text spells the absent value. -/
def isNull (s : String) : Bool := ["null", "Null", "NULL", "~"].contains s

/-- The truth value that a text spells. -/
def bool? (s : String) : Option Bool :=
  if ["true", "True", "TRUE"].contains s then some true
  else if ["false", "False", "FALSE"].contains s then some false
  else none

/-- Digits of a base, at least one, as a number. -/
def digits? (base : Nat) (cs : List Char) : Option Nat := do
  if cs.isEmpty then none
  let values ← cs.mapM Json.hexValue?
  if values.all (· < base) then some (values.foldl (fun n d => base * n + d) 0) else none

/-- The base that a mark announces. -/
def base? (c : Char) : Option Nat := [('x', 16), ('o', 8), ('b', 2)].lookup c

/-- Says whether a text is digits after a zero that they cannot follow in a number. -/
def isZeroLed (cs : List Char) : Bool :=
  let cs :=
    match cs with
    | '-' :: rest | '+' :: rest => rest
    | cs => cs
  cs.length > 1 && cs.head? == some '0' && cs.all Numeral.isDigit

/-- A number without a sign or with a plus sign, below a bound. -/
def unsigned? (bound : Nat) (s : String) : Option Nat :=
  let body :=
    match s.toList with
    | '+' :: rest => rest
    | cs => cs
  let marked? : Option Nat :=
    match body with
    | '0' :: mark :: ds => (base? mark).bind fun base => (digits? base ds).filter (· < bound)
    | _ => none
  marked? <|> if isZeroLed s.toList then none else (digits? 10 body).filter (· < bound)

/-- A number with a minus sign, at most a bound below zero. -/
def negative? (bound : Nat) (s : String) : Option Int :=
  let marked? : Option Nat :=
    match s.toList with
    | '-' :: '0' :: mark :: ds => (base? mark).bind fun base => (digits? base ds).filter (· ≤ bound)
    | _ => none
  let plain? : Option Nat :=
    match s.toList with
    | '-' :: ds => if isZeroLed s.toList then none else (digits? 10 ds).filter (· ≤ bound)
    | _ => none
  (marked? <|> plain?).map fun n => -(n : Int)

/-- An integer, at most 128 bits wide. -/
def int? (s : String) : Option Int :=
  ((unsigned? 0x10000000000000000 s).map Int.ofNat) <|> negative? 0x8000000000000000 s
    <|> ((unsigned? 0x100000000000000000000000000000000 s).map Int.ofNat)
    <|> negative? 0x80000000000000000000000000000000 s

/-- A floating-point number, or a word for one that is not finite. -/
def float? (s : String) : Option Spelled :=
  let body :=
    match s.toList with
    | '+' :: rest => rest
    | cs => cs
  let isInfinite :=
    [".inf", ".Inf", ".INF"].contains (String.ofList body) || ["-.inf", "-.Inf", "-.INF"].contains s
  let hasTwoSigns := s.startsWith "+" && (body.head? == some '+' || body.head? == some '-')
  if hasTwoSigns then none
  else if isInfinite || [".nan", ".NaN", ".NAN"].contains s then some .notFinite
  else ((Numeral.float? body).filter Float.isFinite).map .float

/-- What a plain scalar spells. -/
def of (s : String) : Spelled :=
  if s = "" || isNull s then .null
  else
    match bool? s with
    | some b => .bool b
    | none =>
      match int? s with
      | some n => .int n
      | none => if isZeroLed s.toList then .text else (float? s).getD .text

end Spelled

namespace Node

/-- The tag of a kind of scalar. -/
def coreTag (kind : String) : String := "tag:yaml.org,2002:" ++ kind

/-- The value of an integer; more than 64 bits have none. -/
def ofInt (n : Int) : Option Value :=
  if -0x8000000000000000 ≤ n && n < 0x10000000000000000 then some (.int n) else none

/-- The value of a plain scalar without a tag. -/
def untagged? (s : String) : Option Value :=
  match Spelled.of s with
  | .null | .notFinite => some .null
  | .bool b => some (.bool b)
  | .int n => ofInt n
  | .float x => some (.float x)
  | .text => some (.string s)

/-- Says whether a tag is one of a program's own, for which there are no values. -/
def isOwnTag (tag : Option String) : Bool := (tag.map fun t => t.startsWith "!").getD false

/-- The value of a scalar. -/
def scalar? (tag : Option String) (style : Style) (s : String) : Option Value :=
  match tag with
  | none => if style = .plain then untagged? s else some (.string s)
  | some t =>
    if t.startsWith "!" then none
    else if t = coreTag "bool" then (Spelled.bool? s).map .bool
    else if t = coreTag "int" then (Spelled.int? s).bind ofInt
    else if t = coreTag "null" then if Spelled.isNull s then some .null else none
    else if t = coreTag "float" then
      match Spelled.float? s with
      | some (.float x) => some (.float x)
      | some _ => some .null
      | none => none
    else some (.string s)

/-- The text of a scalar, however it is written. -/
def text? : Node → Option String
  | .scalar _ _ s => some s
  | _ => none

mutual
/-- The value of a node, in which collections are nested at most `depth` deep. -/
def valueWithin? (depth : Nat) : Node → Option Value
  | .scalar tag style s => scalar? tag style s
  | .sequence tag items =>
    if isOwnTag tag then none
    else
      match depth with
      | 0 => none
      | depth + 1 => (valuesWithin? depth items).map .array
  | .mapping tag entries =>
    if isOwnTag tag then none
    else
      match depth with
      | 0 => none
      | depth + 1 => (fieldsWithin? depth entries).map fun fs => .object (Entries.ofPairs fs)
/-- The values of several nodes. -/
def valuesWithin? (depth : Nat) : List Node → Option (List Value)
  | [] => some []
  | n :: ns => do return (← valueWithin? depth n) :: (← valuesWithin? depth ns)
/-- The fields of a mapping. -/
def fieldsWithin? (depth : Nat) : List (Node × Node) → Option (List (String × Value))
  | [] => some []
  | (k, v) :: es => do return (← k.text?, ← valueWithin? depth v) :: (← fieldsWithin? depth es)
end

/-- The value of a node. -/
def value? (n : Node) : Option Value := n.valueWithin? 128

end Node

/-- Reads a YAML text as a value. A text without a document has the absent value. -/
def read? (text : String) : Option Value := do
  match ← Node.read? text with
  | none => return .null
  | some n => n.value?

end LiveSpec.Yaml
