import ItemMetrics.Toml.Bare
import ItemMetrics.Toml.Table

/-! Reading TOML text, version 1.1: one table, written as assignments and headers, one a line. -/

namespace ItemMetrics.Toml

def skipBlanks (cs : List Char) : List Char :=
  cs.dropWhile isBlank

/-- Passes a comment, if one is here. A control character in it is refused. -/
def skipComment (cs : List Char) : Except Fault (List Char) :=
  match cs with
  | '#' :: cs =>
    match cs.dropWhile isAllowed with
    | [] => .ok []
    | c :: rest =>
      if (lineBreak? (c :: rest)).isSome then .ok (c :: rest) else .error (.unexpected c)
  | cs => .ok cs

/-- Passes blanks, comments and line breaks, in at most `fuel` lines. -/
def skipSpacing : (fuel : Nat) → List Char → Except Fault (List Char)
  | 0, cs => .ok cs
  | fuel + 1, cs => do
    let cs ← skipComment (skipBlanks cs)
    match lineBreak? cs with
    | some cs => skipSpacing fuel cs
    | none => return cs

def spacing (cs : List Char) : Except Fault (List Char) :=
  skipSpacing (cs.length + 1) cs

/-- Passes the rest of a line on which nothing more may stand. -/
def endLine (cs : List Char) : Except Fault (List Char) := do
  let cs ← skipComment (skipBlanks cs)
  match cs, lineBreak? cs with
  | [], _ => return []
  | _, some cs => return cs
  | c :: _, none => .error (.unexpected c)

def isKeyChar (c : Char) : Bool :=
  c.isAlphanum || c == '_' || c == '-'

def key : Reader String := fun cs =>
  match cs with
  | '"' :: rest => lineString '"' true (rest.length + 1) [] rest
  | '\'' :: rest => lineString '\'' false (rest.length + 1) [] rest
  | cs =>
    let (word, rest) := cs.span isKeyChar
    if word.isEmpty then .error .missingKey else .ok (String.ofList word, rest)

/-- Reads keys separated by points, in at most `fuel` steps. -/
def keys : (fuel : Nat) → Reader (List String)
  | 0 => fun _ => .error .missingKey
  | fuel + 1 => fun cs => do
    let (k, cs) ← key (skipBlanks cs)
    match skipBlanks cs with
    | '.' :: cs =>
      let (ks, cs) ← keys fuel cs
      return (k :: ks, cs)
    | cs => return ([k], cs)

def path : Reader (List String) := fun cs =>
  keys (cs.length + 1) cs

/-- Reads items separated by commas up to a closing bracket, in at most `fuel` steps. Spacing may
stand anywhere between them, and a comma after the last one. -/
def itemsUntil {α : Type} (close : Char) (item : Reader α) :
    (fuel : Nat) → (done : List α) → Reader (List α)
  | 0, _ => fun _ => .error .unexpectedEnd
  | fuel + 1, done => fun cs => do
    match ← spacing cs with
    | [] => .error .unexpectedEnd
    | c :: rest =>
      if c == close then return (done.reverse, rest)
      else
        let (x, cs) ← item (c :: rest)
        match ← spacing cs with
        | ',' :: cs => itemsUntil close item fuel (x :: done) cs
        | d :: cs =>
          if d == close then return ((x :: done).reverse, cs) else .error (.unexpected d)
        | [] => .error .unexpectedEnd

/-- Reads an assignment whose value is read by `value`. -/
def assignment (value : Reader Value) : Reader (List String × Value) := fun cs => do
  let (ks, cs) ← path cs
  match skipBlanks cs with
  | '=' :: cs =>
    let (v, cs) ← value (skipBlanks cs)
    return ((ks, v), cs)
  | cs => unexpected cs

/-- Reads a value whose parts are read by `inner`; without it no bracket may open. -/
def node (inner : Option (Reader Value)) : Reader Value := fun cs =>
  match cs with
  | '"' :: rest => (string '"' rest).map fun (s, cs) => (.string s, cs)
  | '\'' :: rest => (string '\'' rest).map fun (s, cs) => (.string s, cs)
  | '[' :: rest =>
    match inner with
    | none => .error .tooDeep
    | some inner => (itemsUntil ']' inner (rest.length + 1) [] rest).map fun (xs, cs) => (.array xs, cs)
  | '{' :: rest =>
    match inner with
    | none => .error .tooDeep
    | some inner => do
      let (ms, cs) ← itemsUntil '}' (assignment inner) (rest.length + 1) [] rest
      let table ← ms.foldlM (fun ds m => Draft.assign ds m.2 m.1) []
      return (.table (Draft.values table), cs)
  | cs => bare cs

/-- Reads a value in which brackets nest at most `depth` deep. -/
def value : (depth : Nat) → Reader Value
  | 0 => node none
  | depth + 1 => node (some (value depth))

def maxDepth : Nat := 80

/-- The table under construction, and the path of the header that assignments belong to. -/
structure Sheet where
  members : Draft.Members
  header : List String

/-- Opens the table or the element named by a header. -/
def Sheet.openHeader (sheet : Sheet) (opener : String → Draft.Members → Except Fault Draft.Members)
    (ks : List String) : Except Fault Sheet :=
  match ks.getLast? with
  | none => .error .missingKey
  | some k =>
    (Draft.within sheet.members (opener k) ks.dropLast).map fun members => ⟨members, ks⟩

def Sheet.assign (sheet : Sheet) (ks : List String) (v : Value) : Except Fault Sheet :=
  (Draft.within sheet.members (fun ms => Draft.assign ms v ks) sheet.header).map fun members =>
    { sheet with members }

/-- Reads a header or an assignment with its line. -/
def statement (sheet : Sheet) (cs : List Char) : Except Fault (Sheet × List Char) :=
  match cs with
  | '[' :: '[' :: rest => do
    let (ks, cs) ← path rest
    match cs with
    | ']' :: ']' :: cs => return (← sheet.openHeader Draft.openElement ks, ← endLine cs)
    | cs => unexpected cs
  | '[' :: rest => do
    let (ks, cs) ← path rest
    match cs with
    | ']' :: cs => return (← sheet.openHeader Draft.openTable ks, ← endLine cs)
    | cs => unexpected cs
  | cs => do
    let ((ks, v), cs) ← assignment (value maxDepth) cs
    return (← sheet.assign ks v, ← endLine cs)

/-- Reads statements up to the end of the text, at most `fuel` of them. -/
def statements : (fuel : Nat) → Sheet → List Char → Except Fault Sheet
  | 0, sheet, _ => .ok sheet
  | fuel + 1, sheet, cs => do
    match ← spacing cs with
    | [] => return sheet
    | cs =>
      let (sheet, cs) ← statement sheet cs
      statements fuel sheet cs

/-- The members of the table that a text spells. A byte order mark in front is passed. -/
def read (text : String) : Except Fault (List (String × Value)) := do
  let cs :=
    match text.toList with
    | c :: cs => if c.toNat == 0xFEFF then cs else c :: cs
    | [] => []
  let sheet ← statements (cs.length + 1) ⟨[], []⟩ cs
  return Draft.values sheet.members

end ItemMetrics.Toml
