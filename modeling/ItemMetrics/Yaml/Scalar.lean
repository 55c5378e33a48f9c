import ItemMetrics.Text.Digit
import ItemMetrics.Yaml.Cursor

/-! The three kinds of scalars as they are written: plain, quoted, and in blocks. Spacing between
two words of a plain or quoted scalar folds: blanks alone stay, one line break becomes a space, and
of several breaks the first is dropped. -/

namespace ItemMetrics.Yaml

/-- The spacing between two words. Blanks next to a break are not kept. An `escaped` gap starts with
a break that is already passed and counts for nothing. -/
structure Gap where
  blanks : List Char
  breaks : List Char
  escaped : Bool

namespace Gap

def empty : Gap := ⟨[], [], false⟩

def crossesLine (g : Gap) : Bool :=
  g.escaped || !g.breaks.isEmpty

/-- What the gap leaves in the scalar. -/
def text (g : Gap) : List Char :=
  if g.escaped then g.breaks
  else
    match g.breaks with
    | [] => g.blanks
    | ['\n'] => [' ']
    | '\n' :: later => later
    | breaks => breaks

/-- Reads spacing from the cursor on, in at most `fuel` steps. A tab left of column `margin` on a new
line is refused. -/
def read (margin : Int) : (fuel : Nat) → Gap → Cursor → Except Fault (Gap × Cursor)
  | 0, g, c => .ok (g, c)
  | fuel + 1, g, c =>
    match c.break? with
    | some (b, c) => read margin fuel { g with blanks := [], breaks := g.breaks ++ [b] } c
    | none =>
      match c.rest with
      | [] => .ok (g, c)
      | b :: _ =>
        if isBlank b then
          if g.crossesLine then
            if b == '\t' && c.column < margin then .error .tabIndent
            else read margin fuel g (c.advance 1)
          else read margin fuel { g with blanks := g.blanks ++ [b] } (c.advance 1)
        else .ok (g, c)

end Gap

/-! ### Plain scalars -/

/-- Marks that end a plain scalar, or separate, inside brackets. -/
def isFlowMark (c : Char) : Bool :=
  c == ',' || c == '[' || c == ']' || c == '{' || c == '}'

/-- How many characters the word at the head of a rest has. Inside brackets a colon may not be
followed by a mark. -/
def plainWord (flow : Bool) : List Char → Except Fault Nat
  | [] => .ok 0
  | c :: cs =>
    if isSpacing c then .ok 0
    else if flow && c == ':' && cs.head?.any fun d => isFlowMark d || d == '?' then
      .error .colonInFlow
    else if (c == ':' && atSpacing cs) || (flow && isFlowMark c) then .ok 0
    else (plainWord flow cs).map (· + 1)

/-- Reads words and the gaps between them, in at most `fuel` steps. `gap` stands before the cursor.
The result has the text, the gap after it and the place behind that gap. -/
def plainWords (flow : Bool) (margin : Int) :
    (fuel : Nat) → (done : List Char) → Gap → Cursor → Except Fault (List Char × Gap × Cursor)
  | 0, done, gap, c => .ok (done, gap, c)
  | fuel + 1, done, gap, c =>
    if c.atDocumentMark || c.rest.head? == some '#' then .ok (done, gap, c)
    else do
      let n ← plainWord flow c.rest
      if n = 0 then return (done, gap, c)
      else
        let done := done ++ gap.text ++ c.rest.take n
        let c := c.advance n
        let (gap, next) ← Gap.read margin (c.rest.length + 1) .empty c
        if next.index = c.index || (!flow && next.column < margin) then return (done, gap, next)
        else plainWords flow margin fuel done gap next

/-- Reads a plain scalar. Continuation lines of a scalar outside brackets have to reach `margin`.
Also says whether the scalar was followed by a line break. -/
def plainScalar (flow : Bool) (margin : Int) (c : Cursor) :
    Except Fault (String × Bool × Cursor) := do
  let (text, gap, c) ← plainWords flow margin (c.rest.length + 1) [] .empty c
  return (String.ofList text, gap.crossesLine, c)

/-! ### Quoted scalars -/

/-- The character with the code point that hexadecimal digits spell. -/
def codePoint? (digits : List Char) : Option Char :=
  (Text.number? 16 digits).bind Text.charOfCode?

/-- Reads what follows a backslash: the character meant, and how many characters were read. -/
def escape? : List Char → Option (Char × Nat)
  | [] => none
  | c :: cs =>
    let coded (n : Nat) : Option (Char × Nat) :=
      if n ≤ cs.length then (codePoint? (cs.take n)).map (·, n + 1) else none
    match c with
    | '0' => some ('\x00', 1)
    | 'a' => some ('\x07', 1)
    | 'b' => some ('\x08', 1)
    | 't' => some ('\t', 1)
    | '\t' => some ('\t', 1)
    | 'n' => some ('\n', 1)
    | 'v' => some ('\x0b', 1)
    | 'f' => some ('\x0c', 1)
    | 'r' => some ('\r', 1)
    | 'e' => some ('\x1b', 1)
    | ' ' => some (' ', 1)
    | '"' => some ('"', 1)
    | '/' => some ('/', 1)
    | '\\' => some ('\\', 1)
    | 'N' => some ('\u0085', 1)
    | '_' => some ('\u00a0', 1)
    | 'L' => some ('\u2028', 1)
    | 'P' => some ('\u2029', 1)
    | 'x' => coded 2
    | 'u' => coded 4
    | 'U' => coded 8
    | _ => none

/-- What ends a run of characters inside quotes. -/
inductive RunEnd where
  | quote
  | spacing
  | escapedBreak

/-- Reads the characters up to the next spacing or to the closing quote, in at most `fuel` steps. In
single quotes a quote is written twice; in double quotes a backslash escapes. -/
def quotedRun (single : Bool) :
    (fuel : Nat) → (done : List Char) → Cursor → Except Fault (List Char × RunEnd × Cursor)
  | 0, _, _ => .error .unclosedQuote
  | fuel + 1, done, c =>
    match c.rest with
    | [] => .ok (done, .spacing, c)
    | d :: ds =>
      if isSpacing d then .ok (done, .spacing, c)
      else if single && d == '\'' && ds.head? == some '\'' then
        quotedRun single fuel ('\'' :: done) (c.advance 2)
      else if d == if single then '\'' else '"' then .ok (done, .quote, c)
      else if !single && d == '\\' then
        if ds.head?.any isBreak then .ok (done, .escapedBreak, (c.advance 1).skipBreak)
        else
          match escape? ds with
          | some (e, n) => quotedRun single fuel (e :: done) (c.advance (n + 1))
          | none => .error .badEscape
      else quotedRun single fuel (d :: done) (c.advance 1)

/-- Reads runs and the gaps between them up to the closing quote, in at most `fuel` steps. -/
def quotedRuns (single : Bool) :
    (fuel : Nat) → (done : List Char) → Cursor → Except Fault (List Char × Cursor)
  | 0, _, _ => .error .unclosedQuote
  | fuel + 1, done, c =>
    if c.atDocumentMark then .error .separatorInQuote
    else if c.rest.isEmpty then .error .unclosedQuote
    else do
      let (run, ending, c) ← quotedRun single (c.rest.length + 1) [] c
      let done := done ++ run.reverse
      match ending with
      | .quote => return (done, c.advance 1)
      | .spacing =>
        let (gap, c) ← Gap.read 0 (c.rest.length + 1) .empty c
        quotedRuns single fuel (done ++ gap.text) c
      | .escapedBreak =>
        let (gap, c) ← Gap.read 0 (c.rest.length + 1) ⟨[], [], true⟩ c
        quotedRuns single fuel (done ++ gap.text) c

/-- Reads a quoted scalar; the cursor is at the opening quote. -/
def quotedScalar (single : Bool) (c : Cursor) : Except Fault (String × Cursor) := do
  let (text, c) ← quotedRuns single (c.rest.length + 1) [] (c.advance 1)
  return (String.ofList text, c)

/-! ### Block scalars -/

/-- What becomes of the line breaks at the end of a block scalar. -/
inductive Chomping where
  | strip
  | clip
  | keep
  deriving DecidableEq

/-- Reads the chomping sign and the indentation digit, in either order. -/
def blockHeader : List Char → Except Fault (Chomping × Nat × Nat)
  | cs =>
    let sign? : List Char → Option Chomping
      | '+' :: _ => some .keep
      | '-' :: _ => some .strip
      | _ => none
    let digit? : List Char → Option Nat
      | d :: _ => if d.isDigit then some (d.toNat - '0'.toNat) else none
      | [] => none
    match sign? cs, digit? cs with
    | some chomping, _ =>
      match digit? cs.tail with
      | some 0 => .error .badHeader
      | some n => .ok (chomping, n, 2)
      | none => .ok (chomping, 0, 1)
    | none, some 0 => .error .badHeader
    | none, some n =>
      match sign? cs.tail with
      | some chomping => .ok (chomping, n, 2)
      | none => .ok (.clip, n, 1)
    | none, none => .ok (.clip, 0, 0)

/-- Reads the empty lines before the next line of text, in at most `fuel` steps. Of each line at most
`indent` spaces are passed, or all of them while the indentation is not known. Returns the breaks and
the widest indentation seen. -/
def blockBreaks (indent : Option Nat) :
    (fuel widest : Nat) → (breaks : List Char) → Cursor → Except Fault (List Char × Nat × Cursor)
  | 0, widest, breaks, c => .ok (breaks, widest, c)
  | fuel + 1, widest, breaks, c =>
    let spaces := (c.rest.takeWhile (· == ' ')).length
    let c := c.advance (match indent with
      | some n => min spaces (n - c.column)
      | none => spaces)
    let widest := max widest c.column
    let inside := match indent with
      | some n => decide (c.column < n)
      | none => true
    if inside && c.rest.head? == some '\t' then .error .tabIndent
    else
      match c.break? with
      | some (b, c) => blockBreaks indent fuel widest (breaks ++ [b]) c
      | none => .ok (breaks, widest, c)

/-- Reads the lines of a block scalar, in at most `fuel` steps. `last` is the break that ended the
line before, `breaks` are those of the empty lines after it, and `wasBlank` says whether that line
started with a blank. In a folded scalar the break between two lines that do not becomes a space. -/
def blockLines (literal : Bool) (indent : Nat) :
    (fuel : Nat) → (done last breaks : List Char) → (wasBlank : Bool) → Cursor →
      Except Fault (List Char × List Char × List Char × Cursor)
  | 0, done, last, breaks, _, c => .ok (done, last, breaks, c)
  | fuel + 1, done, last, breaks, wasBlank, c =>
    if c.column ≠ indent || c.rest.isEmpty then .ok (done, last, breaks, c)
    else do
      let isBlankLine := c.rest.head?.any isBlank
      let folded := !literal && last == ['\n'] && !wasBlank && !isBlankLine
      let done := done ++ (if folded then if breaks.isEmpty then [' '] else [] else last) ++ breaks
      let line := c.rest.takeWhile (!isBreak ·)
      let c := c.advance line.length
      let (last, c) :=
        match c.break? with
        | some (b, c) => ([b], c)
        | none => ([], c)
      let (breaks, _, c) ← blockBreaks (some indent) (c.rest.length + 1) 0 [] c
      blockLines literal indent fuel (done ++ line) last breaks isBlankLine c

/-- Reads a block scalar; the cursor is at its mark, and `margin` is the column from which the
indentation counts. -/
def blockScalar (literal : Bool) (margin : Int) (c : Cursor) : Except Fault (String × Cursor) := do
  let (chomping, digit, n) ← blockHeader c.rest.tail
  let c := ((c.advance (n + 1)).skip isBlank).skipComment
  if !atLineEnd c.rest then .error .badHeader
  else
    let c := c.skipBreak
    let given := if digit = 0 then none else some ((max margin 0).toNat + digit)
    let (breaks, widest, c) ← blockBreaks given (c.rest.length + 1) 0 [] c
    let indent := given.getD (max (max widest (margin + 1).toNat) 1)
    let (text, last, breaks, c) ←
      blockLines literal indent (c.rest.length + 1) [] [] breaks false c
    let tail :=
      match chomping with
      | .strip => []
      | .clip => last
      | .keep => last ++ breaks
    return (String.ofList (text ++ tail), c)

end ItemMetrics.Yaml
