/-! Blank characters and blank text. `isBlank` is the Unicode property White_Space, listed as ranges
of code points. A `Label` is a text with no blank at either end that is not empty: the form in
which names are kept once a document has been read. -/

namespace ItemMetrics.Text

/-- The ranges of code points with the property White_Space, ends included. -/
def blankRanges : List (Nat × Nat) :=
  [(0x09, 0x0D), (0x20, 0x20), (0x85, 0x85), (0xA0, 0xA0), (0x1680, 0x1680), (0x2000, 0x200A),
    (0x2028, 0x2029), (0x202F, 0x202F), (0x205F, 0x205F), (0x3000, 0x3000)]

def isBlank (c : Char) : Bool :=
  blankRanges.any fun (lo, hi) => lo ≤ c.toNat && c.toNat ≤ hi

/-- Drops the trailing blanks. -/
def dropTrailing : List Char → List Char
  | [] => []
  | c :: cs =>
    match dropTrailing cs with
    | [] => if isBlank c then [] else [c]
    | d :: ds => c :: d :: ds

def trimChars (cs : List Char) : List Char :=
  dropTrailing (cs.dropWhile isBlank)

def trim (s : String) : String :=
  String.ofList (trimChars s.toList)

/-- Holds of a text made of blanks only, the empty text included. -/
def allBlank (s : String) : Bool :=
  s.toList.all isBlank

theorem dropTrailing_idem (cs : List Char) : dropTrailing (dropTrailing cs) = dropTrailing cs := by
  fun_induction dropTrailing cs with
  | case1 => rfl
  | case2 c cs _ hc => rfl
  | case3 c cs _ hc => simp [dropTrailing, hc]
  | case4 c cs d ds h ih => rw [dropTrailing, ← h, ih, h]

theorem dropTrailing_eq_nil_iff {cs : List Char} : dropTrailing cs = [] ↔ cs.all isBlank := by
  fun_induction dropTrailing cs with
  | case1 => simp
  | case2 c cs h hc ih => simp_all
  | case3 c cs h hc ih => simp_all
  | case4 c cs d ds h ih => simp_all

/-- A text that starts with no blank still starts with none once its end is trimmed. -/
theorem dropWhile_dropTrailing {cs : List Char} (h : cs.dropWhile isBlank = cs) :
    (dropTrailing cs).dropWhile isBlank = dropTrailing cs := by
  cases cs with
  | nil => rfl
  | cons c cs =>
    have hc : isBlank c = false := by
      cases hb : isBlank c with
      | false => rfl
      | true =>
        have hlen := congrArg List.length h
        have := (List.dropWhile_suffix (l := cs) isBlank).length_le
        simp [hb] at hlen
        omega
    rw [dropTrailing]
    split <;> simp [hc]

theorem trimChars_idem (cs : List Char) : trimChars (trimChars cs) = trimChars cs := by
  have h : (cs.dropWhile isBlank).dropWhile isBlank = cs.dropWhile isBlank := by
    induction cs with
    | nil => rfl
    | cons c cs ih => by_cases hc : isBlank c <;> simp [hc, ih]
  rw [trimChars, trimChars, dropWhile_dropTrailing h, dropTrailing_idem]

@[simp] theorem trim_trim (s : String) : trim (trim s) = trim s := by
  simp [trim, trimChars_idem]

end ItemMetrics.Text

namespace ItemMetrics

/-- A text that is not empty and has no blank at either end. -/
structure Label where
  text : String
  trimmed : Text.trim text = text
  nonempty : text ≠ ""
  deriving DecidableEq

namespace Label

/-- The label that is left of a text when the blanks at its ends are dropped. -/
def ofString? (s : String) : Option Label :=
  if h : Text.trim s = "" then none else some ⟨Text.trim s, Text.trim_trim s, h⟩

@[ext] theorem ext {a b : Label} (h : a.text = b.text) : a = b := by
  cases a; cases b; cases h; rfl

@[simp] theorem ofString?_text (l : Label) : ofString? l.text = some l := by
  simp [ofString?, l.trimmed, l.nonempty]

theorem ofString?_eq_some_iff {s : String} {l : Label} :
    ofString? s = some l ↔ Text.trim s = l.text := by
  constructor
  · intro h
    simp only [ofString?] at h
    split at h
    · cases h
    · cases h; rfl
  · intro h
    have := l.nonempty
    rw [ofString?, dif_neg (by rwa [h])]
    exact congrArg some (ext h)

end Label
end ItemMetrics
