import ItemMetrics.Decimal.Reading
import ItemMetrics.Yaml.Cursor
import ItemMetrics.Yaml.Scalar
import ItemMetrics.Yaml.Token

/-! Anchors, tags and directives as they are written. -/

namespace ItemMetrics.Yaml

/-- Reads the name of an anchor or an alias; the cursor is at its mark. -/
def anchorName (c : Cursor) : Except Fault (String × Cursor) :=
  let c := c.advance 1
  let name := c.rest.takeWhile isWord
  let next := c.advance name.length
  let ends := atSpacing next.rest || next.rest.head?.any fun d =>
    d == '?' || d == ':' || d == ',' || d == ']' || d == '}' || d == '%' || d == '@' || d == '\x60'
  if name.isEmpty || !ends then .error .badAnchor else .ok (String.ofList name, next)

/-- The characters of a tag. Between angle brackets and in directives, `verbatim`, three more marks
are taken. -/
def isTagChar (verbatim : Bool) (c : Char) : Bool :=
  isWord c || c == ';' || c == '/' || c == '?' || c == ':' || c == '@' || c == '&' || c == '='
    || c == '+' || c == '$' || c == '.' || c == '%' || c == '!' || c == '~' || c == '*'
    || c == '\'' || c == '(' || c == ')' || (verbatim && (c == ',' || c == '[' || c == ']'))

def escapedByte? : List Char → Option Nat
  | '%' :: a :: b :: _ => Text.number? 16 [a, b]
  | _ => none

/-- How many bytes the character has whose first byte is `b`. -/
def utf8Width? (b : Nat) : Option Nat :=
  if b < 0x80 then some 1
  else if 0xC0 ≤ b && b < 0xE0 then some 2
  else if 0xE0 ≤ b && b < 0xF0 then some 3
  else if 0xF0 ≤ b && b < 0xF8 then some 4
  else none

/-- Reads one character written as percent escapes: the character, and how many were passed. -/
def escapedChar? (cs : List Char) : Option (Char × Nat) := do
  let first ← escapedByte? cs
  let width ← utf8Width? first
  let later ← (List.range (width - 1)).mapM fun i => do
    let b ← escapedByte? (cs.drop (3 * (i + 1)))
    if 0x80 ≤ b ∧ b < 0xC0 then some (b - 0x80) else none
  let lead := if width = 1 then first else first % (1 <<< (7 - width))
  some (Char.ofNat (later.foldl (fun n b => n * 64 + b) lead), 3 * width)

/-- Reads the characters of a tag, percent escapes decoded, in at most `fuel` steps. -/
def tagChars (verbatim : Bool) :
    (fuel : Nat) → (done : List Char) → Cursor → Except Fault (List Char × Cursor)
  | 0, done, c => .ok (done.reverse, c)
  | fuel + 1, done, c =>
    match c.rest with
    | [] => .ok (done.reverse, c)
    | d :: ds =>
      if d == '%' then
        match escapedChar? (d :: ds) with
        | some (e, n) => tagChars verbatim fuel (e :: done) (c.advance n)
        | none => .error .badTag
      else if isTagChar verbatim d then tagChars verbatim fuel (d :: done) (c.advance 1)
      else .ok (done.reverse, c)

/-- Reads the characters of a tag that may not be empty. -/
def tagText (verbatim : Bool) (c : Cursor) : Except Fault (List Char × Cursor) := do
  let (text, c) ← tagChars verbatim c.rest.length [] c
  if text.isEmpty then .error .badTag else return (text, c)

/-- Reads what may be a handle: an exclamation mark, a word, and a second mark if there is one. -/
def tagHandle (c : Cursor) : Except Fault (List Char × Cursor) :=
  match c.rest with
  | '!' :: cs =>
    let word := cs.takeWhile isWord
    let c := c.advance (word.length + 1)
    if c.rest.head? == some '!' then .ok ('!' :: word ++ ['!'], c.advance 1)
    else .ok ('!' :: word, c)
  | _ => .error .badTag

/-- Reads a tag; the cursor is at its mark. A tag between angle brackets and the single mark have no
handle. -/
def readTag (flow : Bool) (c : Cursor) : Except Fault (Token × Cursor) := do
  let (tag, c) ←
    match c.rest with
    | '!' :: '<' :: _ => do
      let (text, c) ← tagText true (c.advance 2)
      match c.rest with
      | '>' :: _ => pure (Token.tag "" (String.ofList text), c.advance 1)
      | _ => .error .badTag
    | _ => do
      let (handle, c) ← tagHandle c
      if 2 ≤ handle.length && handle.getLast? == some '!' then
        let (suffix, c) ← tagText false c
        pure (Token.tag (String.ofList handle) (String.ofList suffix), c)
      else
        let (more, c) ← tagChars false c.rest.length [] c
        let suffix := handle.tail ++ more
        if suffix.isEmpty then pure (Token.tag "" "!", c)
        else pure (Token.tag "!" (String.ofList suffix), c)
  if atSpacing c.rest || (flow && c.rest.head? == some ',') then return (tag, c)
  else .error .badTag

/-- Reads a number of at most nine digits. -/
def versionNumber (c : Cursor) : Except Fault (Nat × Cursor) :=
  let digits := c.rest.takeWhile Char.isDigit
  if digits.isEmpty || 9 < digits.length then .error .badVersion
  else .ok (Decimal.natOfDecimal digits, c.advance digits.length)

def versionDirective (c : Cursor) : Except Fault (Token × Cursor) := do
  let (major, c) ← versionNumber (c.skip isBlank)
  match c.rest with
  | '.' :: _ =>
    let (minor, c) ← versionNumber (c.advance 1)
    return (.version major minor, c)
  | _ => .error .badVersion

def tagDirective (c : Cursor) : Except Fault (Token × Cursor) := do
  let (handle, c) ← tagHandle (c.skip isBlank)
  let closed := handle.length = 1 || handle.getLast? == some '!'
  if !closed || !c.rest.head?.any isBlank then .error .badTag
  else
    let (text, c) ← tagText true (c.skip isBlank)
    if atSpacing c.rest then
      return (.tagDirective (String.ofList handle) (String.ofList text), c)
    else .error .badTag

/-- Reads a directive with its line; the cursor is at the percent sign. -/
def readDirective (c : Cursor) : Except Fault (Token × Cursor) := do
  let c := c.advance 1
  let name := String.ofList (c.rest.takeWhile isWord)
  let c := c.skip isWord
  if !atSpacing c.rest then .error .badDirective
  else
    let (directive, c) ←
      if name = "YAML" then versionDirective c
      else if name = "TAG" then tagDirective c
      else .error .badDirective
    let c := (c.skip isBlank).skipComment
    if atLineEnd c.rest then return (directive, c.skipBreak) else .error .badDirective

end ItemMetrics.Yaml
