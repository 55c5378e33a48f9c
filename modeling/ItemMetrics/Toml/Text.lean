import ItemMetrics.Text.Digit
import ItemMetrics.Toml.Value

/-! Strings of TOML: basic ones with escapes and literal ones without, each on one line or on
several. -/

namespace ItemMetrics.Toml

/-- Passes a line break, if one is here. -/
def lineBreak? : List Char → Option (List Char)
  | '\n' :: cs => some cs
  | '\r' :: '\n' :: cs => some cs
  | _ => none

def isBlank (c : Char) : Bool :=
  c == ' ' || c == '\t'

/-- The characters that may stand in a string or a comment: all but the controls, with the tab. -/
def isAllowed (c : Char) : Bool :=
  c == '\t' || (0x20 ≤ c.toNat && c.toNat ≠ 0x7F)

/-- Reads a character given by `n` hexadecimal digits. -/
def codePoint (n : Nat) : Reader Char := fun cs =>
  if cs.length < n then .error .unexpectedEnd
  else
    match (Text.number? 16 (cs.take n)).bind Text.charOfCode? with
    | some c => .ok (c, cs.drop n)
    | none => .error .badEscape

/-- Reads what follows a backslash. -/
def escape : Reader Char := fun cs =>
  match cs with
  | [] => .error .unexpectedEnd
  | 'b' :: cs => .ok ('\x08', cs)
  | 't' :: cs => .ok ('\t', cs)
  | 'n' :: cs => .ok ('\n', cs)
  | 'f' :: cs => .ok ('\x0c', cs)
  | 'r' :: cs => .ok ('\r', cs)
  | 'e' :: cs => .ok ('\x1b', cs)
  | '"' :: cs => .ok ('"', cs)
  | '\\' :: cs => .ok ('\\', cs)
  | 'x' :: cs => codePoint 2 cs
  | 'u' :: cs => codePoint 4 cs
  | 'U' :: cs => codePoint 8 cs
  | _ => .error .badEscape

/-- Reads the inside of a string on one line, in at most `fuel` steps. -/
def lineString (quote : Char) (escapes : Bool) :
    (fuel : Nat) → (done : List Char) → Reader String
  | 0, _ => fun _ => .error .unexpectedEnd
  | fuel + 1, done => fun cs =>
    match cs with
    | [] => .error .unexpectedEnd
    | c :: cs =>
      if c == quote then .ok (String.ofList done.reverse, cs)
      else if escapes && c == '\\' then do
        let (e, cs) ← escape cs
        lineString quote escapes fuel (e :: done) cs
      else if isAllowed c then lineString quote escapes fuel (c :: done) cs
      else .error .badString

/-- Passes blanks and line breaks, in at most `fuel` steps. -/
def skipLines : (fuel : Nat) → List Char → List Char
  | 0, cs => cs
  | fuel + 1, cs =>
    match lineBreak? cs with
    | some cs => skipLines fuel cs
    | none =>
      match cs with
      | c :: rest => if isBlank c then skipLines fuel rest else cs
      | [] => []

/-- Passes the line break that a backslash hides, with the blanks before it and all spacing after. -/
def hiddenBreak? (cs : List Char) : Option (List Char) :=
  (lineBreak? (cs.dropWhile isBlank)).map fun rest => skipLines rest.length rest

/-- Reads the inside of a string on several lines, in at most `fuel` steps. Line breaks are
kept as they are written. Three quotes end it; one or two more before them belong to it. -/
def blockString (quote : Char) (escapes : Bool) :
    (fuel : Nat) → (done : List Char) → Reader String
  | 0, _ => fun _ => .error .unexpectedEnd
  | fuel + 1, done => fun cs =>
    let quotes := (cs.takeWhile (· == quote)).length
    if 3 ≤ quotes then
      let inner := min (quotes - 3) 2
      .ok (String.ofList (done.reverse ++ List.replicate inner quote), cs.drop (inner + 3))
    else
      match cs with
      | [] => .error .unexpectedEnd
      | '\r' :: '\n' :: cs => blockString quote escapes fuel ('\n' :: '\r' :: done) cs
      | c :: cs =>
        if escapes && c == '\\' then
          match hiddenBreak? cs with
          | some cs => blockString quote escapes fuel done cs
          | none => do
            let (e, cs) ← escape cs
            blockString quote escapes fuel (e :: done) cs
        else if c == '\n' || isAllowed c then blockString quote escapes fuel (c :: done) cs
        else .error .badString

/-- Reads a string behind its first quote. A line break right after three quotes is dropped. -/
def string (quote : Char) : Reader String := fun cs =>
  let escapes := quote == '"'
  if cs.take 2 == [quote, quote] then
    let cs := cs.drop 2
    let cs := (lineBreak? cs).getD cs
    blockString quote escapes (cs.length + 1) [] cs
  else lineString quote escapes (cs.length + 1) [] cs

end ItemMetrics.Toml
