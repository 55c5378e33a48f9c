import Mathlib.Data.List.Infix
import ItemMetrics.Proofs.FieldPath.Segments

/-! # Paths as walks along keys

A path leads to a value when its segments can be cut into runs that spell keys on the way, each run
as long as the keys allow (`LongestWalk`). There is at most one such cut (`LongestWalk.unique`), and
`resolve` finds it (`resolve_iff_longestWalk`). -/

namespace ItemMetrics.FieldPath

/-- The runs are not empty and follow one another through the segments. -/
structure Cut (ws : List String) (gs : List (List String)) : Prop where
  nonempty : ∀ g ∈ gs, g ≠ []
  flatten : gs.flatten = ws

/-- The run `g` spells the key of a member, and no longer run at the front of `ws` spells a key. -/
structure LongestRun (ms : Json.Members) (ws g : List String) (v : Json) : Prop where
  get? : ms.get? (join g) = some v
  longest : ∀ g', g' <+: ws → g.length < g'.length → join g' ∉ ms.map Prod.fst

/-- The walk from one value to another along runs of segments. Each run is the longest that spells a
key of the object it is taken in. -/
inductive LongestWalk : Json → List (List String) → Json → Prop
  | here (v : Json) : LongestWalk v [] v
  | step {ms : Json.Members} {g : List String} {gs : List (List String)} {u v : Json} :
    LongestRun ms (g :: gs).flatten g u → LongestWalk u gs v → LongestWalk (.object ms) (g :: gs) v

variable {ms : Json.Members} {w : String} {ws g g' rest : List String} {gs gs' : List (List String)}
  {u u' v v' : Json}

theorem get?_eq_none_iff {key : String} : ms.get? key = none ↔ key ∉ ms.map Prod.fst := by
  rw [Json.Members.get?, List.lookup_eq_none_iff, List.mem_map]
  constructor
  · rintro h ⟨p, hp, rfl⟩
    simpa using h p hp
  · intro h p hp
    exact bne_iff_ne.mpr fun hkey => h ⟨p, hp, hkey.symm⟩

theorem mem_keys_of_get? {key : String} (h : ms.get? key = some v) : key ∈ ms.map Prod.fst := by
  by_contra hnot
  cases h.symm.trans (get?_eq_none_iff.mpr hnot)

theorem cut_nil_iff : Cut ws [] ↔ ws = [] :=
  ⟨fun h => h.flatten.symm, fun h => ⟨nofun, h.symm⟩⟩

theorem cut_cons_iff : Cut ws (g :: gs) ↔ g ≠ [] ∧ ∃ rest, g ++ rest = ws ∧ Cut rest gs := by
  constructor
  · rintro ⟨hne, rfl⟩
    obtain ⟨hg, hgs⟩ := List.forall_mem_cons.mp hne
    exact ⟨hg, _, rfl, hgs, rfl⟩
  · rintro ⟨hg, rest, rfl, hgs, rfl⟩
    exact ⟨List.forall_mem_cons.mpr ⟨hg, hgs⟩, rfl⟩

/-! ## One level -/

theorem LongestRun.whole (h : ms.get? (join ws) = some v) : LongestRun ms ws ws v :=
  ⟨h, fun _ hg hlt => absurd hg.length_le (Nat.not_le.mpr hlt)⟩

/-- Of the runs at the front of the segments at most one is the longest. -/
theorem LongestRun.unique (h : LongestRun ms ws g u) (h' : LongestRun ms ws g' u')
    (hg : g <+: ws) (hg' : g' <+: ws) : g = g' ∧ u = u' := by
  have hlength : g.length = g'.length := by
    rcases Nat.lt_trichotomy g.length g'.length with hlt | heq | hgt
    · exact absurd (mem_keys_of_get? h'.get?) (h.longest g' hg' hlt)
    · exact heq
    · exact absurd (mem_keys_of_get? h.get?) (h'.longest g hg hgt)
  obtain rfl : g = g' := (List.prefix_of_prefix_length_le hg hg' hlength.le).eq_of_length hlength
  cases h.get?.symm.trans h'.get?
  exact ⟨rfl, rfl⟩

/-- A segment makes no difference when the run up to it spells no key. -/
theorem longestRun_concat_iff (h : ms.get? (join (ws ++ [w])) = none) :
    LongestRun ms (ws ++ [w]) g u ↔ LongestRun ms ws g u := by
  constructor
  · rintro ⟨hget, hlongest⟩
    exact ⟨hget, fun g' hg' => hlongest g' (hg'.trans (List.prefix_append _ _))⟩
  · rintro ⟨hget, hlongest⟩
    refine ⟨hget, fun g' hg' hlt => ?_⟩
    rcases List.prefix_concat_iff.mp hg' with rfl | hg'
    · exact get?_eq_none_iff.mp h
    · exact hlongest g' hg' hlt

/-- Among the first `n` segments the search finds the longest run. -/
theorem longest?_eq_some_iff_of_le {n : Nat} (hn : n ≤ ws.length) :
    longest? ms ws n = some (u, rest) ↔
      ∃ g, g ≠ [] ∧ g <+: ws.take n ∧ ws.drop g.length = rest ∧ LongestRun ms (ws.take n) g u := by
  induction n with
  | zero =>
    refine iff_of_false nofun ?_
    rintro ⟨g, hne, hg, -⟩
    exact hne (List.prefix_nil.mp hg)
  | succ n ih =>
    have htake : ws.take (n + 1) = ws.take n ++ [ws[n]] := List.take_succ_eq_append_getElem hn
    rw [longest?]
    cases hget : ms.get? (join (ws.take (n + 1))) with
    | some v =>
      have hwhole := LongestRun.whole hget
      simp only [Option.some.injEq, Prod.mk.injEq]
      constructor
      · rintro ⟨rfl, rfl⟩
        refine ⟨_, List.ne_nil_of_length_pos ?_, List.prefix_rfl, ?_, hwhole⟩
        · rw [List.length_take_of_le hn]
          exact Nat.succ_pos n
        · rw [List.length_take_of_le hn]
      · rintro ⟨g, -, hg, rfl, hlongest⟩
        obtain ⟨rfl, rfl⟩ := hlongest.unique hwhole hg List.prefix_rfl
        rw [List.length_take_of_le hn]
        exact ⟨rfl, rfl⟩
    | none =>
      rw [htake] at hget
      simp only [htake, ih (Nat.le_of_succ_le hn), longestRun_concat_iff hget,
        List.prefix_concat_iff]
      refine exists_congr fun g => and_congr_right fun _ => ⟨fun h => ⟨.inr h.1, h.2⟩, ?_⟩
      rintro ⟨rfl | hg, hdrop, hlongest⟩
      · cases hget.symm.trans hlongest.get?
      · exact ⟨hg, hdrop, hlongest⟩

theorem longest?_eq_some_iff :
    longest? ms ws ws.length = some (u, rest) ↔
      ∃ g, g ≠ [] ∧ g ++ rest = ws ∧ LongestRun ms ws g u := by
  rw [longest?_eq_some_iff_of_le (Nat.le_refl _), List.take_length]
  refine exists_congr fun g => and_congr_right fun _ => ?_
  rw [← and_assoc]
  refine and_congr_left fun _ => ⟨?_, ?_⟩
  · rintro ⟨hg, rfl⟩
    exact List.prefix_iff_eq_append.mp hg
  · rintro rfl
    exact ⟨List.prefix_append _ _, List.drop_left⟩

/-! ## All levels -/

theorem follow_object (ms : Json.Members) (h : ws ≠ []) :
    follow (.object ms) ws =
      (longest? ms ws ws.length).bind fun found => follow found.1 found.2 := by
  cases ws with
  | nil => exact absurd rfl h
  | cons w ws =>
    rw [follow]
    split
    · next hfound => rw [List.length_cons, hfound]; rfl
    · next hfound => rw [List.length_cons, hfound]; rfl

/-- Every value that is reached is reached by a walk. -/
theorem exists_cut_of_follow (h : follow v ws = some u) :
    ∃ gs, Cut ws gs ∧ LongestWalk v gs u := by
  induction v, ws using follow.induct with
  | case1 v =>
    rw [follow] at h
    cases h
    exact ⟨[], cut_nil_iff.mpr rfl, .here _⟩
  | case2 w ws ms v rest hfound ih =>
    rw [follow_object ms (List.cons_ne_nil w ws), List.length_cons, hfound] at h
    obtain ⟨gs, hcut, hwalk⟩ := ih h
    obtain ⟨g, hne, hws, hrun⟩ := longest?_eq_some_iff.mp hfound
    have hcut : Cut (w :: ws) (g :: gs) := cut_cons_iff.mpr ⟨hne, rest, hws, hcut⟩
    exact ⟨g :: gs, hcut, .step (hcut.flatten ▸ hrun) hwalk⟩
  | case3 w ws ms hfound =>
    rw [follow_object ms (List.cons_ne_nil w ws), List.length_cons, hfound] at h
    cases h
  | case4 v w ws hv =>
    rw [follow] at h
    · cases h
    · exact hv

theorem LongestWalk.follow_eq (h : LongestWalk v gs u) (hne : ∀ g ∈ gs, g ≠ []) :
    follow v gs.flatten = some u := by
  induction h with
  | here v => rw [List.flatten_nil, follow]
  | @step ms g gs v u hrun _ ih =>
    obtain ⟨hg, hgs⟩ := List.forall_mem_cons.mp hne
    have hfound : longest? ms (g :: gs).flatten (g :: gs).flatten.length = some (v, gs.flatten) :=
      longest?_eq_some_iff.mpr ⟨g, hg, rfl, hrun⟩
    rw [follow_object ms (by simp [hg]), hfound]
    exact ih hgs

theorem follow_eq_some_iff : follow v ws = some u ↔ ∃ gs, Cut ws gs ∧ LongestWalk v gs u := by
  refine ⟨exists_cut_of_follow, ?_⟩
  rintro ⟨gs, ⟨hne, rfl⟩, hwalk⟩
  exact hwalk.follow_eq hne

/-- There is one walk at most, and so one cut. -/
theorem LongestWalk.unique (h : LongestWalk v gs u) (h' : LongestWalk v gs' u') (hcut : Cut ws gs)
    (hcut' : Cut ws gs') : gs = gs' ∧ u = u' := by
  induction h generalizing gs' ws with
  | here v =>
    cases h' with
    | here => exact ⟨rfl, rfl⟩
    | step =>
      cases cut_nil_iff.mp hcut
      obtain ⟨hg', rest', hrest', -⟩ := cut_cons_iff.mp hcut'
      exact absurd (List.append_eq_nil_iff.mp hrest').1 hg'
  | @step ms g gs v u hrun _ ih =>
    obtain ⟨hg, rest, hrest, htail⟩ := cut_cons_iff.mp hcut
    cases h' with
    | here =>
      cases cut_nil_iff.mp hcut'
      exact absurd (List.append_eq_nil_iff.mp hrest).1 hg
    | @step _ g' gs' v' _ hrun' hwalk' =>
      obtain ⟨hg', rest', hrest', htail'⟩ := cut_cons_iff.mp hcut'
      rw [hcut.flatten] at hrun
      rw [hcut'.flatten] at hrun'
      obtain ⟨rfl, rfl⟩ := hrun.unique hrun' ⟨rest, hrest⟩ ⟨rest', hrest'⟩
      cases List.append_cancel_left (hrest.trans hrest'.symm)
      obtain ⟨rfl, rfl⟩ := ih hwalk' htail htail'
      exact ⟨rfl, rfl⟩

theorem Cut.join_map_join {path : String} (h : Cut (segments path) gs) :
    join (gs.map join) = path := by
  rw [FieldPath.join_map_join h.nonempty, h.flatten, join_segments]

theorem resolve_of_ne (data : Json) {path : String} (h : path ≠ "") :
    resolve data path = follow data (segments path) := by
  rw [resolve, if_neg h]

/-- A key that is the whole path comes first. -/
theorem resolve_of_get? {path : String} (h : ms.get? path = some v) (hpath : path ≠ "") :
    resolve (.object ms) path = some v := by
  have hcut : Cut (segments path) [segments path] :=
    cut_cons_iff.mpr ⟨segments_ne_nil path, [], by simp, cut_nil_iff.mpr rfl⟩
  have hrun : LongestRun ms [segments path].flatten (segments path) v := by
    rw [hcut.flatten]
    exact .whole (by rwa [join_segments])
  rw [resolve_of_ne _ hpath]
  exact follow_eq_some_iff.mpr ⟨_, hcut, .step hrun (.here v)⟩

/-- **A path leads along the longest keys.** The empty path stays where it is. Any other leads to a
value when its segments can be cut into runs along which a longest walk leads there. The cut is the
only one, the keys on the walk make up the path, and a key that is the whole path comes first. -/
theorem resolve_iff_longestWalk (data : Json) (path : String) :
    resolve data "" = some data ∧
    (path ≠ "" →
      (∀ v, resolve data path = some v ↔
        ∃ gs, Cut (segments path) gs ∧ LongestWalk data gs v) ∧
      (∀ gs gs' v v', Cut (segments path) gs → LongestWalk data gs v →
        Cut (segments path) gs' → LongestWalk data gs' v' → gs = gs' ∧ v = v') ∧
      (∀ gs v, Cut (segments path) gs → LongestWalk data gs v → join (gs.map join) = path) ∧
      ∀ (ms : Json.Members) v, data = .object ms → ms.get? path = some v →
        resolve data path = some v) := by
  refine ⟨by rw [resolve, if_pos rfl], fun hpath => ?_⟩
  have hiff (v : Json) : resolve data path = some v ↔
      ∃ gs, Cut (segments path) gs ∧ LongestWalk data gs v := by
    rw [resolve_of_ne data hpath, follow_eq_some_iff]
  refine ⟨hiff, fun gs gs' v v' hcut h hcut' h' => h.unique h' hcut hcut',
    fun gs v hcut _ => hcut.join_map_join, ?_⟩
  rintro ms v rfl hget
  have hcut : Cut (segments path) [segments path] :=
    cut_cons_iff.mpr ⟨segments_ne_nil path, [], by simp, cut_nil_iff.mpr rfl⟩
  have hrun : LongestRun ms [segments path].flatten (segments path) v := by
    rw [hcut.flatten]
    exact .whole (by rwa [join_segments])
  exact (hiff v).mpr ⟨_, hcut, .step hrun (.here v)⟩

/-- At the top both `a` and `a.b` are keys; the walk takes `a.b` and ends under `c`. -/
theorem resolve_iff_longestWalk_sample :
    "a.b.c" ≠ "" ∧
    resolve (.object [("a", .object [("b", .null)]), ("a.b", .object [("c", .bool true)])])
      "a.b.c" = some (.bool true) := by
  have hpath : "a.b.c" ≠ "" := by decide
  have hcut : Cut (segments "a.b.c") [["a", "b"], ["c"]] := ⟨by simp, by decide +kernel⟩
  have hrun : LongestRun [("a", .object [("b", .null)]), ("a.b", .object [("c", .bool true)])]
      ["a", "b", "c"] ["a", "b"] (.object [("c", .bool true)]) := by
    refine ⟨?_, fun g hg hlt => ?_⟩
    · rw [show join ["a", "b"] = "a.b" by decide +kernel]
      rfl
    · rw [hg.eq_of_length_le hlt]
      decide +kernel
  exact ⟨hpath, (((resolve_iff_longestWalk _ _).2 hpath).1 _).mpr
    ⟨_, hcut, .step hrun (.step (.whole rfl) (.here _))⟩⟩

end ItemMetrics.FieldPath
