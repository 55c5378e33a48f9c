/-! A place in a YAML text, and the classes of characters that the syntax knows. Columns and indices
count characters. -/

namespace ItemMetrics.Yaml

/-- Why a text is not one YAML document with a JSON value. -/
inductive Fault where
  | forbiddenCharacter
  | noToken
  | missingColon
  | misplacedEntry
  | misplacedKey
  | misplacedValue
  | badDirective
  | badVersion
  | duplicateDirective
  | badAnchor
  | badTag
  | undefinedTag
  | unknownTag
  | badHeader
  | tabIndent
  | unclosedQuote
  | separatorInQuote
  | badEscape
  | colonInFlow
  | missingContent
  | missingEntry
  | missingKey
  | missingDocumentStart
  | moreDocuments
  | undefinedAnchor
  | tooManyAliases
  | tooDeep
  | keyNotScalar
  | badScalar
  | integerOutOfRange
  deriving DecidableEq, Repr

def Fault.message : Fault → String
  | .forbiddenCharacter => "control characters are not allowed"
  | .noToken => "found a character that cannot start any token"
  | .missingColon => "could not find expected ':'"
  | .misplacedEntry => "block sequence entries are not allowed in this context"
  | .misplacedKey => "mapping keys are not allowed in this context"
  | .misplacedValue => "mapping values are not allowed in this context"
  | .badDirective => "malformed directive"
  | .badVersion => "incompatible version"
  | .duplicateDirective => "duplicate directive"
  | .badAnchor => "malformed anchor or alias"
  | .badTag => "malformed tag"
  | .undefinedTag => "undefined tag handle"
  | .unknownTag => "unknown tag"
  | .badHeader => "malformed block scalar header"
  | .tabIndent => "found a tab where an indentation space is expected"
  | .unclosedQuote => "unexpected end of text in a quoted scalar"
  | .separatorInQuote => "unexpected document indicator in a quoted scalar"
  | .badEscape => "invalid escape in a quoted scalar"
  | .colonInFlow => "unexpected ':'"
  | .missingContent => "did not find expected node content"
  | .missingEntry => "did not find expected sequence entry"
  | .missingKey => "did not find expected key"
  | .missingDocumentStart => "did not find expected document start"
  | .moreDocuments => "more than one document"
  | .undefinedAnchor => "unknown anchor"
  | .tooManyAliases => "too many alias expansions"
  | .tooDeep => "nested too deeply"
  | .keyNotScalar => "a mapping key has to be a scalar"
  | .badScalar => "a scalar does not fit its tag"
  | .integerOutOfRange => "integer out of range"

/-- The characters that may occur in a text. -/
def isAllowed (c : Char) : Bool :=
  let n := c.toNat
  n == 0x09 || n == 0x0A || n == 0x0D || (0x20 ≤ n && n ≤ 0x7E) || n == 0x85
    || (0xA0 ≤ n && n ≤ 0xFFFD) || 0x10000 ≤ n

def isBlank (c : Char) : Bool :=
  c == ' ' || c == '\t'

/-- Line feed, carriage return, next line, line separator and paragraph separator. -/
def isBreak (c : Char) : Bool :=
  c == '\n' || c == '\r' || c == '\u0085' || c == '\u2028' || c == '\u2029'

def isSpacing (c : Char) : Bool :=
  isBlank c || isBreak c

/-- Letters, digits, the underscore and the hyphen: what names are made of. -/
def isWord (c : Char) : Bool :=
  c.isAlphanum || c == '_' || c == '-'

def isByteOrderMark (c : Char) : Bool :=
  c.toNat == 0xFEFF

/-- Holds of a rest that is empty or starts with a blank or a break. -/
def atSpacing : List Char → Bool
  | [] => true
  | c :: _ => isSpacing c

/-- Holds of a rest that is empty or starts with a break. -/
def atLineEnd : List Char → Bool
  | [] => true
  | c :: _ => isBreak c

/-- A place in the text: what is left, and where it starts. -/
structure Cursor where
  rest : List Char
  index : Nat
  line : Nat
  column : Nat

namespace Cursor

def start (text : String) : Cursor :=
  ⟨text.toList, 0, 0, 0⟩

/-- Passes `n` characters of the line. -/
def advance (c : Cursor) (n : Nat) : Cursor :=
  { c with rest := c.rest.drop n, index := c.index + n, column := c.column + n }

/-- Passes the characters that satisfy `p`. -/
def skip (c : Cursor) (p : Char → Bool) : Cursor :=
  c.advance (c.rest.takeWhile p).length

/-- Passes a line break, if one is here, and returns it as it is kept in a scalar. -/
def break? (c : Cursor) : Option (Char × Cursor) :=
  match c.rest with
  | '\r' :: '\n' :: rest => some ('\n', ⟨rest, c.index + 2, c.line + 1, 0⟩)
  | b :: rest =>
    if isBreak b then
      let kept := if b == '\r' || b == '\u0085' then '\n' else b
      some (kept, ⟨rest, c.index + 1, c.line + 1, 0⟩)
    else none
  | [] => none

/-- Passes a line break, if one is here. -/
def skipBreak (c : Cursor) : Cursor :=
  match c.break? with
  | some (_, c) => c
  | none => c

/-- Passes a comment, if one is here, up to the end of its line. -/
def skipComment (c : Cursor) : Cursor :=
  if c.rest.head? == some '#' then c.skip (!isBreak ·) else c

/-- Whether three equal marks stand alone at the start of this line. -/
def atIndicator (c : Cursor) (mark : Char) : Bool :=
  c.column == 0 && c.rest.take 3 == [mark, mark, mark] && atSpacing (c.rest.drop 3)

/-- Whether the line starts with a mark that begins or ends a document. -/
def atDocumentMark (c : Cursor) : Bool :=
  c.atIndicator '-' || c.atIndicator '.'

end Cursor
end ItemMetrics.Yaml
