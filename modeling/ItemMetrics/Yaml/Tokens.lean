import ItemMetrics.Yaml.Tag

/-! Cutting a text into tokens.

Outside brackets the structure is in the columns: a line further right opens a collection and a line
further left closes those it leaves. A mapping key is seen only at its colon, so the place of what
may turn out to be a key is remembered, one for each level of brackets, and the key token is put in
there later. Such a key has to end on its line and within 1024 characters. -/

namespace ItemMetrics.Yaml

/-- The place of a scalar or collection that may turn out to be a key. `position` counts tokens. A
required key starts a line of a block mapping, where only a key can stand. -/
structure Candidate where
  position : Nat
  required : Bool
  index : Nat
  line : Nat
  column : Nat

structure Lexer where
  cursor : Cursor
  tokens : Array Token
  /-- The column of the innermost block collection, or minus one. -/
  indent : Int
  /-- The columns of the block collections around it. -/
  outer : List Int
  /-- Whether a key may start here. -/
  keyAllowed : Bool
  candidate : Option Candidate
  /-- The candidates of the levels of brackets around this one. -/
  levels : List (Option Candidate)

namespace Lexer

def start (text : String) : Lexer :=
  { cursor := .start text, tokens := #[], indent := -1, outer := [], keyAllowed := true
    candidate := none, levels := [] }

def inFlow (s : Lexer) : Bool :=
  !s.levels.isEmpty

def push (s : Lexer) (t : Token) : Lexer :=
  { s with tokens := s.tokens.push t }

/-- Passes `n` characters that make up the token `t`. -/
def take (s : Lexer) (n : Nat) (t : Token) : Lexer :=
  { s with cursor := s.cursor.advance n, tokens := s.tokens.push t }

/-- Puts a token in before the one at a position. -/
def insert (s : Lexer) (position : Nat) (t : Token) : Lexer :=
  { s with
    tokens := (s.tokens.extract 0 position).push t ++ s.tokens.extract position s.tokens.size }

/-! ### Blanks and comments -/

/-- Passes blanks, comments and line breaks, in at most `fuel` lines. Where a key may start, a tab is
not passed. -/
def skipBlanks : (fuel : Nat) → Lexer → Lexer
  | 0, s => s
  | fuel + 1, s =>
    let c := s.cursor
    let c := if c.column == 0 && c.rest.head?.any isByteOrderMark then c.advance 1 else c
    let tabs := s.inFlow || !s.keyAllowed
    let c := (c.skip fun d => d == ' ' || (tabs && d == '\t')).skipComment
    match c.break? with
    | some (_, c) => skipBlanks fuel { s with cursor := c, keyAllowed := s.keyAllowed || !s.inFlow }
    | none => { s with cursor := c }

/-! ### Keys -/

def isStale (s : Lexer) (k : Candidate) : Bool :=
  k.line < s.cursor.line || k.index + 1024 < s.cursor.index

/-- Drops a candidate whose colon can no longer come. -/
def keepFresh (s : Lexer) : Option Candidate → Except Fault (Option Candidate)
  | none => .ok none
  | some k =>
    if s.isStale k then if k.required then .error .missingColon else .ok none else .ok (some k)

def dropStale (s : Lexer) : Except Fault Lexer := do
  return { s with candidate := ← s.keepFresh s.candidate, levels := ← s.levels.mapM s.keepFresh }

/-- Gives up the candidate of this level. -/
def dropCandidate (s : Lexer) : Except Fault Lexer :=
  match s.candidate with
  | some k => if k.required then .error .missingColon else .ok { s with candidate := none }
  | none => .ok s

/-- Remembers that what starts here may be a key, where keys are allowed. -/
def addCandidate (s : Lexer) : Except Fault Lexer :=
  if s.keyAllowed then do
    let s ← s.dropCandidate
    return { s with
      candidate := some
        { position := s.tokens.size
          required := !s.inFlow && s.indent == s.cursor.column
          index := s.cursor.index
          line := s.cursor.line
          column := s.cursor.column } }
  else .ok s

/-! ### Indentation -/

/-- Opens a block collection at a column right of the innermost one. Its token is put in before the
one at `position`. -/
def openBlock (s : Lexer) (column : Nat) (position : Nat) (t : Token) : Lexer :=
  if !s.inFlow && s.indent < column then
    { s with indent := column, outer := s.indent :: s.outer }.insert position t
  else s

/-- Closes the block collections right of a column, innermost first. -/
def closeFrom (column : Int) : Int → List Int → Array Token → Int × List Int × Array Token
  | indent, [], tokens => (indent, [], tokens)
  | indent, next :: outer, tokens =>
    if column < indent then closeFrom column next outer (tokens.push .blockEnd)
    else (indent, next :: outer, tokens)

def closeBlocks (s : Lexer) (column : Int) : Lexer :=
  if s.inFlow then s
  else
    let (indent, outer, tokens) := closeFrom column s.indent s.outer s.tokens
    { s with indent, outer, tokens }

/-! ### Tokens -/

def directive (s : Lexer) : Except Fault Lexer := do
  let s ← (s.closeBlocks (-1)).dropCandidate
  let (t, cursor) ← readDirective s.cursor
  return { s with cursor, keyAllowed := false }.push t

def documentMark (s : Lexer) (t : Token) : Except Fault Lexer := do
  let s ← (s.closeBlocks (-1)).dropCandidate
  return { s with keyAllowed := false }.take 3 t

def openFlow (s : Lexer) (t : Token) : Except Fault Lexer := do
  let s ← s.addCandidate
  return { s with keyAllowed := true, candidate := none, levels := s.candidate :: s.levels }.take 1 t

def closeFlow (s : Lexer) (t : Token) : Except Fault Lexer := do
  let s ← s.dropCandidate
  let s := { s with keyAllowed := false }.take 1 t
  match s.levels with
  | k :: levels => return { s with candidate := k, levels }
  | [] => return s

def comma (s : Lexer) : Except Fault Lexer := do
  let s ← s.dropCandidate
  return { s with keyAllowed := true }.take 1 .comma

def entry (s : Lexer) : Except Fault Lexer :=
  if !s.inFlow && !s.keyAllowed then .error .misplacedEntry
  else do
    let s ← (s.openBlock s.cursor.column s.tokens.size .sequenceStart).dropCandidate
    return { s with keyAllowed := true }.take 1 .entry

def key (s : Lexer) : Except Fault Lexer :=
  if !s.inFlow && !s.keyAllowed then .error .misplacedKey
  else do
    let s ← (s.openBlock s.cursor.column s.tokens.size .mappingStart).dropCandidate
    return { s with keyAllowed := !s.inFlow }.take 1 .key

def value (s : Lexer) : Except Fault Lexer :=
  match s.candidate with
  | some k =>
    let s := (s.insert k.position .key).openBlock k.column k.position .mappingStart
    .ok ({ s with candidate := none, keyAllowed := false }.take 1 .value)
  | none =>
    if !s.inFlow && !s.keyAllowed then .error .misplacedValue
    else
      let s := s.openBlock s.cursor.column s.tokens.size .mappingStart
      .ok ({ s with keyAllowed := !s.inFlow }.take 1 .value)

/-- Reads a token that may start a key. -/
def node (s : Lexer) (read : Cursor → Except Fault (Token × Cursor)) : Except Fault Lexer := do
  let s ← s.addCandidate
  let (t, cursor) ← read s.cursor
  return { s with cursor, keyAllowed := false }.push t

def quoted (s : Lexer) (single : Bool) : Except Fault Lexer :=
  s.node fun c => (quotedScalar single c).map fun (text, c) => (.scalar false text, c)

def block (s : Lexer) (literal : Bool) : Except Fault Lexer := do
  let s ← s.dropCandidate
  let (text, cursor) ← blockScalar literal s.indent s.cursor
  return { s with cursor, keyAllowed := true }.push (.scalar false text)

def plain (s : Lexer) : Except Fault Lexer := do
  let s ← s.addCandidate
  let (text, crossesLine, cursor) ← plainScalar s.inFlow (s.indent + 1) s.cursor
  return { s with cursor, keyAllowed := crossesLine }.push (.scalar true text)

/-- The marks that start no plain scalar. -/
def isMark (c : Char) : Bool :=
  isFlowMark c || c == '-' || c == '?' || c == ':' || c == '#' || c == '&' || c == '*' || c == '!'
    || c == '|' || c == '>' || c == '\'' || c == '"' || c == '%' || c == '@' || c == '\x60'

/-- Whether a plain scalar starts with `c`, where `next` follows. -/
def startsPlain (flow : Bool) (c : Char) (next : List Char) : Bool :=
  !(isSpacing c || isMark c) || (c == '-' && !next.head?.any isBlank)
    || (!flow && (c == '?' || c == ':') && !atSpacing next)

/-- Reads the token that starts with `d`. -/
def dispatch (s : Lexer) (d : Char) (next : List Char) : Except Fault Lexer :=
  let flow := s.inFlow
  let alone := atSpacing next
  if s.cursor.column == 0 && d == '%' then s.directive
  else if s.cursor.atIndicator '-' then s.documentMark .documentStart
  else if s.cursor.atIndicator '.' then s.documentMark .documentEnd
  else if d == '[' then s.openFlow .openBracket
  else if d == '{' then s.openFlow .openBrace
  else if d == ']' then s.closeFlow .closeBracket
  else if d == '}' then s.closeFlow .closeBrace
  else if d == ',' then s.comma
  else if d == '-' && alone then s.entry
  else if d == '?' && (flow || alone) then s.key
  else if d == ':' && (flow || alone) then s.value
  else if d == '*' then s.node fun c => (anchorName c).map fun (name, c) => (.alias name, c)
  else if d == '&' then s.node fun c => (anchorName c).map fun (name, c) => (.anchor name, c)
  else if d == '!' then s.node (readTag flow)
  else if d == '|' && !flow then s.block true
  else if d == '>' && !flow then s.block false
  else if d == '\'' then s.quoted true
  else if d == '"' then s.quoted false
  else if startsPlain flow d next then s.plain
  else .error .noToken

/-- Reads tokens up to the end of the text, at most `fuel` of them. -/
def run : (fuel : Nat) → Lexer → Except Fault (List Token)
  | 0, _ => .error .noToken
  | fuel + 1, s => do
    let s ← (skipBlanks (s.cursor.rest.length + 1) s).dropStale
    let s := s.closeBlocks s.cursor.column
    match s.cursor.rest with
    | [] => do
      let s ← (s.closeBlocks (-1)).dropCandidate
      return s.tokens.toList
    | d :: next => run fuel (← s.dispatch d next)

end Lexer

/-- The tokens of a text. Each takes a character at least. -/
def Token.scan (text : String) : Except Fault (List Token) :=
  if text.toList.all isAllowed then Lexer.run (text.toList.length + 1) (.start text)
  else .error .forbiddenCharacter

end ItemMetrics.Yaml
