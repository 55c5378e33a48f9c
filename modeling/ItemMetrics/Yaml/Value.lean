import ItemMetrics.Decimal.Reading
import ItemMetrics.Json.Basic
import ItemMetrics.Yaml.Node
import ItemMetrics.Yaml.Tokens

/-! The JSON value of a YAML document. Plain scalars are null, truth values and numbers where they
look like one and texts otherwise; aliases are replaced by what they refer to. -/

namespace ItemMetrics.Yaml

/-! ### Scalars -/

def isNull (s : String) : Bool :=
  s = "null" || s = "Null" || s = "NULL" || s = "~"

def bool? (s : String) : Option Bool :=
  if s = "true" ∨ s = "True" ∨ s = "TRUE" then some true
  else if s = "false" ∨ s = "False" ∨ s = "FALSE" then some false
  else none

/-- Splits off a sign. -/
def splitSign : List Char → Bool × List Char
  | '-' :: cs => (true, cs)
  | '+' :: cs => (false, cs)
  | cs => (false, cs)

/-- Holds of digits that start with a zero they do not need. These are no number. -/
def hasLeadingZero (cs : List Char) : Bool :=
  2 ≤ cs.length && cs.head? == some '0' && cs.all Char.isDigit

/-- The number that digits of a base spell. -/
def natOfBase? (base : Nat) (cs : List Char) : Option Nat :=
  if cs.isEmpty then none else Text.number? base cs

/-- An integer as it is written. -/
structure Written where
  value : Int
  decimal : Bool

/-- Reads an integer: decimal, or in base sixteen, eight or two behind its mark. -/
def written? (cs : List Char) : Option Written :=
  let (negative, cs) := splitSign cs
  let signed (n : Nat) : Int := if negative then -n else n
  match cs with
  | '0' :: 'x' :: ds => (natOfBase? 16 ds).map (⟨signed ·, false⟩)
  | '0' :: 'o' :: ds => (natOfBase? 8 ds).map (⟨signed ·, false⟩)
  | '0' :: 'b' :: ds => (natOfBase? 2 ds).map (⟨signed ·, false⟩)
  | ds => if hasLeadingZero ds then none else (natOfBase? 10 ds).map (⟨signed ·, true⟩)

/-- Whether an integer is one of 128 bits, signed or unsigned. -/
def isWide (n : Int) : Bool :=
  -0x80000000000000000000000000000000 ≤ n && n < 0x100000000000000000000000000000000

/-- The integer that a scalar spells. One that 64 bits do not hold is an error, and one that 128 bits
do not hold is none. -/
def integer? (cs : List Char) : Except Fault (Option Json) :=
  match written? cs with
  | none => .ok none
  | some w =>
    match Json.Number.ofInt? w.value with
    | some n => .ok (some (.number n))
    | none => if isWide w.value then .error .integerOutOfRange else .ok none

/-- The infinities and what is no number, which have no JSON number. -/
def isSpecial (s : String) : Bool :=
  [".inf", ".Inf", ".INF", "+.inf", "+.Inf", "+.INF", "-.inf", "-.Inf", "-.INF", ".nan", ".NaN",
    ".NAN"].contains s

/-- The double that a scalar spells. One too large is none. -/
def float? (s : String) : Option Json :=
  if isSpecial s then some .null
  else ((Decimal.float? s.toList).bind Json.Number.ofFloat?).map .number

/-- The value of a plain scalar without a tag. -/
def plainValue (s : String) : Except Fault Json :=
  if s = "" || isNull s then .ok .null
  else
    match bool? s with
    | some b => .ok (.bool b)
    | none => do
      match ← integer? s.toList with
      | some n => return n
      | none =>
        if hasLeadingZero (splitSign s.toList).2 then return .string s
        else return (float? s).getD (.string s)

/-- The names under which the types of scalars are tagged. -/
def standardTag (name : String) : String :=
  "tag:yaml.org,2002:" ++ name

/-- Whether a tag is one that documents define for themselves. -/
def isLocalTag (tag : Option String) : Bool :=
  tag.any fun t => t.toList.head? == some '!'

def taggedValue (tag s : String) : Except Fault Json :=
  if tag = standardTag "bool" then
    match bool? s with
    | some b => .ok (.bool b)
    | none => .error .badScalar
  else if tag = standardTag "int" then do
    match ← integer? s.toList with
    | some n => return n
    | none => .error .badScalar
  else if tag = standardTag "float" then
    match float? s with
    | some x => .ok x
    | none => .error .badScalar
  else if tag = standardTag "null" then
    if isNull s then .ok .null else .error .badScalar
  else .ok (.string s)

def scalarValue (tag : Option String) (plain : Bool) (s : String) : Except Fault Json :=
  match tag with
  | some tag => taggedValue tag s
  | none => if plain then plainValue s else .ok (.string s)

/-! ### Documents -/

mutual
/-- How many events announce a node: one for a scalar or an alias, and two around a collection. -/
def Node.events : Node → Nat
  | .scalar .. => 1
  | .alias _ => 1
  | .sequence _ items => 2 + eventsOfItems items
  | .mapping _ entries => 2 + eventsOfEntries entries

def eventsOfItems : List Node → Nat
  | [] => 0
  | x :: xs => x.events + eventsOfItems xs

def eventsOfEntries : List (Node × Node) → Nat
  | [] => 0
  | (k, v) :: es => k.events + v.events + eventsOfEntries es
end

/-- What the value of a document is formed from. -/
structure Context where
  anchors : Anchors
  /-- How many aliases may be followed in all. -/
  limit : Nat

/-- A step of forming a value, which counts the aliases that have been followed. -/
abbrev Expansion (α : Type) := StateT Nat (Except Fault) α

/-- The node meant by a node: itself, or what the alias refers to. -/
def Context.target (ctx : Context) : Node → Expansion Node
  | .alias slot => do
    let followed := (← get) + 1
    set followed
    if ctx.limit < followed then throw .tooManyAliases
    match ctx.anchors.node? slot with
    | some node => return node
    | none => throw .undefinedAnchor
  | node => return node

/-- The key that a node spells. Its tag does not matter. -/
def Context.keyText (ctx : Context) (node : Node) : Expansion String := do
  match ← ctx.target node with
  | .scalar _ _ text => return text
  | _ => throw .keyNotScalar

/-- Forms the value of a node, those of its parts by `inner`; without it no collection may open. -/
def Context.form (ctx : Context) (inner : Option (Node → Expansion Json)) (node : Node) :
    Expansion Json := do
  match ← ctx.target node with
  | .scalar tag plain text =>
    if isLocalTag tag then throw .unknownTag else liftM (scalarValue tag plain text)
  | .sequence tag items =>
    if isLocalTag tag then throw .unknownTag
    else
      match inner with
      | some inner => return .array (← items.mapM inner)
      | none => throw .tooDeep
  | .mapping tag entries =>
    if isLocalTag tag then throw .unknownTag
    else
      match inner with
      | some inner =>
        let members ← entries.mapM fun (k, v) => do
          let key ← ctx.keyText k
          return (key, ← inner v)
        return .ofMembers members
      | none => throw .tooDeep
  | .alias _ => throw .undefinedAnchor

/-- Forms the value of a node in which collections nest at most `depth` deep, aliases replaced. -/
def Context.value (ctx : Context) : (depth : Nat) → Node → Expansion Json
  | 0 => ctx.form none
  | depth + 1 => ctx.form (some (ctx.value depth))

def maxDepth : Nat := 128

/-- The value of the one document in a text. A text without a document is null. -/
def read (text : String) : Except Fault Json := do
  match ← Node.ofTokens (← Token.scan text) with
  | none => return .null
  | some (node, anchors) =>
    (Context.mk anchors (100 * node.events)).value maxDepth node |>.run' 0

end ItemMetrics.Yaml
