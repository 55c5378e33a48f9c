import ItemMetrics.Yaml.Cursor
import ItemMetrics.Yaml.Token

/-! The tree of nodes that the tokens of a document spell.

An anchor names a slot, and an alias refers to the slot that its name had when the alias was read.
The slot of an anchor is the number of different names known so far, so a name that is used again
moves to a slot that the next new name will take as well. What a slot holds is settled when the
document has been read: the last node that started under it. -/

namespace ItemMetrics.Yaml

inductive Node where
  | scalar (tag : Option String) (plain : Bool) (text : String)
  | sequence (tag : Option String) (items : List Node)
  | mapping (tag : Option String) (entries : List (Node × Node))
  | alias (slot : Nat)
  deriving Inhabited

/-- The node of a place where nothing is written. -/
def Node.missing : Node := .scalar none true ""

/-- The anchors read so far. Anchored nodes are numbered in the order in which they start. -/
structure Anchors where
  slots : List (String × Nat)
  starts : List (Nat × Nat)
  nodes : List (Nat × Node)

namespace Anchors

def empty : Anchors := ⟨[], [], []⟩

/-- Starts an anchored node and returns its number. -/
def start (a : Anchors) (name : String) : Nat × Anchors :=
  let slot := a.slots.length
  let number := a.starts.length
  let slots := (name, slot) :: a.slots.filter (·.1 ≠ name)
  (number, { a with slots, starts := (slot, number) :: a.starts })

def finish (a : Anchors) (number : Nat) (node : Node) : Anchors :=
  { a with nodes := (number, node) :: a.nodes }

/-- The node in a slot. -/
def node? (a : Anchors) (slot : Nat) : Option Node :=
  (a.starts.lookup slot).bind fun number => a.nodes.lookup number

end Anchors

/-- Tag handles with what they stand for. -/
abbrev Handles := List (String × String)

def standardHandles : Handles :=
  [("!", "!"), ("!!", "tag:yaml.org,2002:")]

/-- What a step of the grammar works on: the tokens left and the anchors read. -/
structure Source where
  tokens : List Token
  anchors : Anchors

namespace Source

def next? (s : Source) : Option Token :=
  s.tokens.head?

def skip (s : Source) : Source :=
  { s with tokens := s.tokens.tail }

/-- Whether the next token is one of the given ones, or there is none. -/
def nextIn (s : Source) (ts : List Token) : Bool :=
  match s.next? with
  | some t => ts.contains t
  | none => true

end Source

/-- The properties in front of a node: a full tag, and the number of an anchored node. -/
structure Properties where
  tag : Option String
  anchor : Option Nat

def Properties.areAbsent (p : Properties) : Bool :=
  p.tag.isNone && p.anchor.isNone

def fullTag (handles : Handles) (handle suffix : String) : Except Fault String :=
  if handle = "" then .ok suffix
  else
    match handles.lookup handle with
    | some expansion => .ok (expansion ++ suffix)
    | none => .error .undefinedTag

/-- Reads an anchor if one is next. -/
def readAnchor (s : Source) : Option Nat × Source :=
  match s.next? with
  | some (.anchor name) =>
    let (number, anchors) := s.anchors.start name
    (some number, { s.skip with anchors })
  | _ => (none, s)

def readNodeTag (handles : Handles) (s : Source) : Except Fault (Option String × Source) :=
  match s.next? with
  | some (.tag handle suffix) => (fullTag handles handle suffix).map (some ·, s.skip)
  | _ => .ok (none, s)

/-- Reads an anchor and a tag, in either order. -/
def readProperties (handles : Handles) (s : Source) : Except Fault (Properties × Source) := do
  match s.next? with
  | some (.anchor _) =>
    let (anchor, s) := readAnchor s
    let (tag, s) ← readNodeTag handles s
    return (⟨tag, anchor⟩, s)
  | _ =>
    let (tag, s) ← readNodeTag handles s
    if tag.isNone then return (⟨none, none⟩, s)
    else
      let (anchor, s) := readAnchor s
      return (⟨tag, anchor⟩, s)

/-- Files a node that has been read under its anchor. -/
def Properties.file (p : Properties) (node : Node) (s : Source) : Node × Source :=
  match p.anchor with
  | some number => (node, { s with anchors := s.anchors.finish number node })
  | none => (node, s)

/-- The tag of a scalar; the single mark is none. -/
def scalarTag : Option String → Option String
  | some "!" => none
  | tag => tag

abbrev Step (α : Type) := Source → Except Fault (α × Source)

mutual
/-- Reads a node. Where a `block` may stand, block collections are taken, and where a sequence may
be `indentless`, entries at the column of the surrounding mapping make up a sequence. All steps go
down by one from `fuel` at most once a token. -/
def readNode (handles : Handles) (block indentless : Bool) : (fuel : Nat) → Step Node
  | 0 => fun _ => .error .missingContent
  | fuel + 1 => fun s =>
    match s.next? with
    | some (.alias name) =>
      match s.anchors.slots.lookup name with
      | some slot => .ok (.alias slot, s.skip)
      | none => .error .undefinedAnchor
    | _ => do
      let (p, s) ← readProperties handles s
      match s.next?, block, indentless with
      | some .entry, _, true =>
        let (items, s) ← readEntries handles true fuel s
        return p.file (.sequence p.tag items) s
      | some (.scalar plain text), _, _ =>
        return p.file (.scalar (scalarTag p.tag) plain text) s.skip
      | some .openBracket, _, _ =>
        let (items, s) ← readFlowItems handles true fuel s.skip
        return p.file (.sequence p.tag items) s
      | some .openBrace, _, _ =>
        let (entries, s) ← readFlowMembers handles true fuel s.skip
        return p.file (.mapping p.tag entries) s
      | some .sequenceStart, true, _ =>
        let (items, s) ← readEntries handles false fuel s.skip
        return p.file (.sequence p.tag items) s
      | some .mappingStart, true, _ =>
        let (entries, s) ← readMembers handles fuel s.skip
        return p.file (.mapping p.tag entries) s
      | _, _, _ =>
        if p.areAbsent then .error .missingContent
        else return p.file (.scalar p.tag true "") s

/-- Reads the entries of a block sequence. An `indentless` one ends before any other token. -/
def readEntries (handles : Handles) (indentless : Bool) : (fuel : Nat) → Step (List Node)
  | 0 => fun _ => .error .missingEntry
  | fuel + 1 => fun s =>
    match s.next? with
    | some .entry => do
      let s := s.skip
      let ends := if indentless then [.entry, .key, .value, .blockEnd] else [.entry, .blockEnd]
      let (item, s) ←
        if s.nextIn ends then pure (Node.missing, s) else readNode handles true false fuel s
      let (items, s) ← readEntries handles indentless fuel s
      return (item :: items, s)
    | some .blockEnd => .ok ([], if indentless then s else s.skip)
    | _ => if indentless then .ok ([], s) else .error .missingEntry

/-- Reads the members of a block mapping. -/
def readMembers (handles : Handles) : (fuel : Nat) → Step (List (Node × Node))
  | 0 => fun _ => .error .missingKey
  | fuel + 1 => fun s =>
    match s.next? with
    | some .key => do
      let s := s.skip
      let (key, s) ←
        if s.nextIn [.key, .value, .blockEnd] then pure (Node.missing, s)
        else readNode handles true true fuel s
      let (value, s) ←
        match s.next? with
        | some .value =>
          let s := s.skip
          if s.nextIn [.key, .value, .blockEnd] then pure (Node.missing, s)
          else readNode handles true true fuel s
        | _ => pure (Node.missing, s)
      let (members, s) ← readMembers handles fuel s
      return ((key, value) :: members, s)
    | some .blockEnd => .ok ([], s.skip)
    | _ => .error .missingKey

/-- Reads the value of a pair whose key has been read, up to one of the tokens `ends`. -/
def readFlowValue (handles : Handles) (ends : List Token) : (fuel : Nat) → Step Node
  | 0 => fun _ => .error .missingContent
  | fuel + 1 => fun s =>
    match s.next? with
    | some .value =>
      let s := s.skip
      if s.nextIn ends then .ok (.missing, s) else readNode handles false false fuel s
    | _ => .ok (.missing, s)

/-- Reads the items of a sequence in brackets. A pair among them is a mapping of its own; a pair
without a key swallows the token after its mark. -/
def readFlowItems (handles : Handles) (first : Bool) : (fuel : Nat) → Step (List Node)
  | 0 => fun _ => .error .missingEntry
  | fuel + 1 => fun s =>
    match s.next? with
    | some .closeBracket => .ok ([], s.skip)
    | next => do
      let s ←
        if first then pure s
        else if next == some .comma then pure s.skip
        else .error .missingEntry
      match s.next? with
      | some .closeBracket => return ([], s.skip)
      | some .key =>
        let s := s.skip
        let (key, s) ←
          if s.nextIn [.value, .comma, .closeBracket] then pure (Node.missing, s.skip)
          else readNode handles false false fuel s
        let (value, s) ← readFlowValue handles [.comma, .closeBracket] fuel s
        let (items, s) ← readFlowItems handles false fuel s
        return (.mapping none [(key, value)] :: items, s)
      | _ =>
        let (item, s) ← readNode handles false false fuel s
        let (items, s) ← readFlowItems handles false fuel s
        return (item :: items, s)

/-- Reads the members of a mapping in braces. -/
def readFlowMembers (handles : Handles) (first : Bool) : (fuel : Nat) → Step (List (Node × Node))
  | 0 => fun _ => .error .missingKey
  | fuel + 1 => fun s =>
    match s.next? with
    | some .closeBrace => .ok ([], s.skip)
    | next => do
      let s ←
        if first then pure s
        else if next == some .comma then pure s.skip
        else .error .missingKey
      match s.next? with
      | some .closeBrace => return ([], s.skip)
      | some .key =>
        let s := s.skip
        let (key, s) ←
          if s.nextIn [.value, .comma, .closeBrace] then pure (Node.missing, s)
          else readNode handles false false fuel s
        let (value, s) ← readFlowValue handles [.comma, .closeBrace] fuel s
        let (members, s) ← readFlowMembers handles false fuel s
        return ((key, value) :: members, s)
      | _ =>
        let (key, s) ← readNode handles false false fuel s
        let (members, s) ← readFlowMembers handles false fuel s
        return ((key, .missing) :: members, s)
end

/-- Reads the directives in front of a document: the handles they define. -/
def readDirectives : (versionSeen : Bool) → Handles → List Token →
    Except Fault (Handles × List Token)
  | seen, handles, .version major minor :: ts =>
    if seen then .error .duplicateDirective
    else if major = 1 && (minor = 1 || minor = 2) then readDirectives true handles ts
    else .error .badVersion
  | seen, handles, .tagDirective handle expansion :: ts =>
    if (handles.lookup handle).isSome then .error .duplicateDirective
    else readDirectives seen (handles ++ [(handle, expansion)]) ts
  | _, handles, ts => .ok (handles, ts)

/-- The node of a text with one document, and the anchors in it; nothing for a text without one. -/
def Node.ofTokens (tokens : List Token) : Except Fault (Option (Node × Anchors)) := do
  if tokens.isEmpty then return none
  else
    let (handles, rest) ← readDirectives false [] tokens
    let (isExplicit, rest) ←
      match rest with
      | .documentStart :: rest => pure (true, rest)
      | rest => if rest.length < tokens.length then .error .missingDocumentStart else pure (false, rest)
    let s : Source := ⟨rest, .empty⟩
    let (node, s) ←
      if isExplicit && s.nextIn [.documentStart, .documentEnd] then pure (Node.missing, s)
      else readNode (handles ++ standardHandles) true false (2 * tokens.length + 2) s
    match s.tokens.dropWhile (· == .documentEnd) with
    | [] => return some (node, s.anchors)
    | _ => .error .moreDocuments

end ItemMetrics.Yaml
