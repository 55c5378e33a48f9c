import ItemMetrics.Json.Basic
import ItemMetrics.Text.Split

/-! Dotted paths into a JSON value.

A path names members level by level, its segments separated by points. Since a key may hold points
itself, `resolve` takes at each level the longest run of segments that spells a key; the choice is
never undone. `walk` takes one segment a level. -/

namespace ItemMetrics.FieldPath

def segments (path : String) : List String :=
  Text.split '.' path

def join (ws : List String) : String :=
  ".".intercalate ws

/-- The member spelt by the longest of the first `n`, …, `1` segments, and the segments after it. -/
def longest? (ms : Json.Members) (ws : List String) : (n : Nat) → Option (Json × List String)
  | 0 => none
  | n + 1 =>
    match ms.get? (join (ws.take (n + 1))) with
    | some v => some (v, ws.drop (n + 1))
    | none => longest? ms ws n

theorem length_lt_of_longest? {ms : Json.Members} {w : String} {ws rest : List String} {n : Nat}
    {v : Json} (h : longest? ms (w :: ws) n = some (v, rest)) :
    rest.length < (w :: ws).length := by
  induction n with
  | zero => cases h
  | succ n ih =>
    rw [longest?] at h
    split at h
    · cases h
      simp only [List.length_drop, List.length_cons]
      omega
    · exact ih h

/-- Follows the segments from `v`, at each level along the longest key. -/
def follow (v : Json) : List String → Option Json
  | [] => some v
  | w :: ws =>
    match v with
    | .object ms =>
      match _h : longest? ms (w :: ws) (ws.length + 1) with
      | some (u, rest) => follow u rest
      | none => none
    | _ => none
  termination_by ws => ws.length
  decreasing_by exact length_lt_of_longest? _h

/-- The value at a path. The empty path leads to the value itself. -/
def resolve (data : Json) (path : String) : Option Json :=
  if path = "" then some data else follow data (segments path)

def resolveOr (data : Json) (path : String) (default : Json) : Json :=
  (resolve data path).getD default

/-- The value at a path whose every segment is one key. -/
def walk (data : Json) (path : String) : Option Json :=
  (segments path).foldlM Json.get? data

end ItemMetrics.FieldPath
