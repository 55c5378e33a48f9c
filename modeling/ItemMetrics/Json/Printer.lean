import ItemMetrics.Json.Basic
import ItemMetrics.Decimal.Layout

/-! JSON text: the compact form with no blanks, and the indented form with two spaces a level. -/

namespace ItemMetrics.Json

/-- How a character is written inside quotes. Only the quote, the backslash and the control
characters below the space are escaped. -/
def escape (c : Char) : List Char :=
  if c == '"' then ['\\', '"']
  else if c == '\\' then ['\\', '\\']
  else if c == '\x08' then ['\\', 'b']
  else if c == '\x0c' then ['\\', 'f']
  else if c == '\n' then ['\\', 'n']
  else if c == '\r' then ['\\', 'r']
  else if c == '\t' then ['\\', 't']
  else if c.toNat < 0x20 then
    ['\\', 'u', '0', '0', Nat.digitChar (c.toNat / 16), Nat.digitChar (c.toNat % 16)]
  else [c]

def quote (s : String) : String :=
  String.ofList ('"' :: s.toList.flatMap escape ++ ['"'])

def Number.write : Number → String
  | .int n _ _ => toString n
  | .float x _ => Decimal.Layout.json.write x

mutual
/-- The value on one line without blanks. Members are written in the order in which they stand. -/
def compact : Json → String
  | .null => "null"
  | .bool b => if b then "true" else "false"
  | .number n => n.write
  | .string s => quote s
  | .array xs => "[" ++ ",".intercalate (compactItems xs) ++ "]"
  | .object ms => "\x7b" ++ ",".intercalate (compactMembers ms) ++ "\x7d"

def compactItems : List Json → List String
  | [] => []
  | x :: xs => x.compact :: compactItems xs

def compactMembers : List (String × Json) → List String
  | [] => []
  | (k, x) :: ms => (quote k ++ ":" ++ x.compact) :: compactMembers ms
end

def indent (level : Nat) : String :=
  String.ofList (List.replicate (2 * level) ' ')

/-- Puts each entry on a line of its own between the brackets; no entry leaves them closed up. -/
def block (level : Nat) (opening closing : String) (entries : List String) : String :=
  if entries.isEmpty then opening ++ closing
  else
    opening ++ "\n" ++ ",\n".intercalate (entries.map (indent (level + 1) ++ ·)) ++ "\n"
      ++ indent level ++ closing

mutual
/-- The value with two spaces of indentation a level, starting at `level`. -/
def pretty (level : Nat) : Json → String
  | .array xs => block level "[" "]" (prettyItems (level + 1) xs)
  | .object ms => block level "\x7b" "\x7d" (prettyMembers (level + 1) ms)
  | value => value.compact

def prettyItems (level : Nat) : List Json → List String
  | [] => []
  | x :: xs => x.pretty level :: prettyItems level xs

def prettyMembers (level : Nat) : List (String × Json) → List String
  | [] => []
  | (k, x) :: ms => (quote k ++ ": " ++ x.pretty level) :: prettyMembers level ms
end

end ItemMetrics.Json
