import ItemMetrics.Proofs.FieldPath.Cut

/-! # Keys without points

A run of several segments spells a key only when the key holds a point. Where no key does, a path
takes one segment a level (`follow_eq_foldlM`), so that `resolve` and `walk` agree and a path can be
followed in two stages (`resolve_eq_walk_of_undotted`). -/

namespace ItemMetrics.Json

mutual
/-- No key of an object in the value holds a point, at any depth. -/
def Undotted : Json → Prop
  | .array xs => UndottedItems xs
  | .object ms => UndottedMembers ms
  | _ => True

def UndottedItems : List Json → Prop
  | [] => True
  | x :: xs => x.Undotted ∧ UndottedItems xs

def UndottedMembers : List (String × Json) → Prop
  | [] => True
  | (k, x) :: ms => '.' ∉ k.toList ∧ x.Undotted ∧ UndottedMembers ms
end

theorem undottedMembers_iff {ms : Members} :
    UndottedMembers ms ↔ ∀ m ∈ ms, '.' ∉ m.1.toList ∧ m.2.Undotted := by
  induction ms with
  | nil => simp [UndottedMembers]
  | cons m ms ih => simp [UndottedMembers, ih, and_assoc]

theorem Undotted.of_get? {v u : Json} {key : String} (h : v.Undotted) (hget : v.get? key = some u) :
    '.' ∉ key.toList ∧ u.Undotted := by
  cases v with
  | object ms =>
    obtain ⟨before, after, rfl, -⟩ := List.lookup_eq_some_iff.mp hget
    exact undottedMembers_iff.mp h _ (List.mem_append_right _ List.mem_cons_self)
  | _ => cases hget

end ItemMetrics.Json

namespace ItemMetrics.FieldPath

variable {ms : Json.Members} {data v : Json} {w path : String} {ws g : List String}

theorem length_le_one_of_join_mem (h : (Json.object ms).Undotted)
    (hg : join g ∈ ms.map Prod.fst) : g.length ≤ 1 := by
  obtain ⟨m, hm, hkey⟩ := List.mem_map.mp hg
  by_contra hlt
  refine (Json.undottedMembers_iff.mp h m hm).1 ?_
  rw [hkey]
  exact dot_mem_join (Nat.lt_of_not_le hlt)

theorem longest?_of_undotted (h : (Json.object ms).Undotted) :
    longest? ms (w :: ws) (w :: ws).length = (ms.get? w).map (·, ws) := by
  ext ⟨u, rest⟩
  simp only [longest?_eq_some_iff, Option.map_eq_some_iff, Prod.mk.injEq]
  constructor
  · rintro ⟨g, hne, hws, hrun⟩
    have hle := length_le_one_of_join_mem h (mem_keys_of_get? hrun.get?)
    match g, hne, hle with
    | [_], _, _ =>
      cases hws
      exact ⟨u, by simpa using hrun.get?, rfl, rfl⟩
  · rintro ⟨u, hget, rfl, rfl⟩
    refine ⟨[w], List.cons_ne_nil _ _, rfl, ⟨by rwa [join_singleton], fun g' _ hlt hkey => ?_⟩⟩
    exact absurd (length_le_one_of_join_mem h hkey) (Nat.not_le.mpr hlt)

/-- Every segment is a key. -/
theorem follow_eq_foldlM (h : v.Undotted) : follow v ws = ws.foldlM Json.get? v := by
  induction ws generalizing v with
  | nil => rw [follow]; rfl
  | cons w ws ih =>
    rw [List.foldlM_cons]
    cases v with
    | object ms =>
      rw [follow_object ms (List.cons_ne_nil w ws), longest?_of_undotted h, Option.bind_map]
      exact Option.bind_congr fun u hget => ih (h.of_get? hget).2
    | null | bool | number | string | array =>
      rw [follow]
      · rfl
      · intro ms hms
        cases hms

theorem walk_append (data : Json) (p q : String) :
    walk data (p ++ "." ++ q) = (walk data p).bind (walk · q) := by
  rw [walk, segments_append, List.foldlM_append]
  rfl

theorem undotted_of_foldlM (h : data.Undotted) (hws : ws.foldlM Json.get? data = some v) :
    v.Undotted := by
  induction ws generalizing data with
  | nil =>
    cases hws
    exact h
  | cons w ws ih =>
    obtain ⟨u, hget, hws⟩ := Option.bind_eq_some_iff.mp hws
    exact ih (h.of_get? hget).2 hws

theorem resolve_eq_walk (h : data.Undotted) (hpath : path ≠ "") :
    resolve data path = walk data path := by
  rw [resolve_of_ne data hpath, follow_eq_foldlM h, walk]

/-- **Without points in keys a path takes one segment a level.** -/
theorem resolve_eq_walk_of_undotted (h : data.Undotted) :
    (∀ path, path ≠ "" → resolve data path = walk data path) ∧
    ∀ p q, p ≠ "" → q ≠ "" →
      resolve data (p ++ "." ++ q) = (resolve data p).bind (resolve · q) := by
  refine ⟨fun path hpath => resolve_eq_walk h hpath, fun p q hp hq => ?_⟩
  have hpq : p ++ "." ++ q ≠ "" := by simp
  rw [resolve_eq_walk h hpq, resolve_eq_walk h hp, walk_append]
  exact Option.bind_congr fun v hv => (resolve_eq_walk (undotted_of_foldlM h hv) hq).symm

theorem resolve_eq_walk_of_undotted_sample :
    (Json.object [("a", .object [("", .object [("b", .bool true)])])]).Undotted ∧
    resolve (.object [("a", .object [("", .object [("b", .bool true)])])]) "a..b" =
      some (.bool true) ∧
    (resolve (.object [("a", .object [("", .object [("b", .bool true)])])]) "a").bind
      (resolve · ".b") = some (.bool true) := by
  have hundotted : (Json.object [("a", .object [("", .object [("b", .bool true)])])]).Undotted := by
    simp [Json.Undotted, Json.UndottedMembers]
  have hsegments : segments "a..b" = ["a", "", "b"] := by decide +kernel
  obtain ⟨hwalk, happend⟩ := resolve_eq_walk_of_undotted hundotted
  have hresolve := hwalk "a..b" (by decide)
  rw [walk, hsegments] at hresolve
  exact ⟨hundotted, hresolve, (happend "a" ".b" (by decide) (by decide)).symm.trans hresolve⟩

end ItemMetrics.FieldPath
