import ItemMetrics.Proofs.Document.Spelling
import ItemMetrics.Proofs.FieldPath.Segments
import ItemMetrics.Proofs.Json.Agreement
import ItemMetrics.Proofs.Metric.Setting

/-! # Counting entries

A metric that counts takes the entries of an array whose field agrees with what it looks for. As
agreement is an equivalence, values that do not agree count entries apart: together no more than there
are (`Metric.countWhere_partition`). Among integers only those with one nearest double agree, which
below `2 ^ 53` are equal (`Metric.countWhere_integers`). -/

namespace ItemMetrics

/-- Of predicates that exclude each other each counts elements of its own. -/
theorem sum_countP_le_length {α : Type} {ps : List (α → Bool)}
    (h : ps.Pairwise fun p q => ∀ a, p a = true → q a = false) (as : List α) :
    (ps.map fun p => as.countP p).sum ≤ as.length := by
  induction ps generalizing as with
  | nil => simp
  | cons p ps ih =>
    obtain ⟨hp, hps⟩ := List.pairwise_cons.mp h
    have hrest : (ps.map fun q => as.countP q) =
        ps.map fun q => (as.filter fun a => !p a).countP q := by
      refine List.map_congr_left fun q hq => ?_
      rw [List.countP_filter]
      refine List.countP_congr fun a _ => ?_
      cases hpa : p a with
      | false => simp
      | true => simp [hp q hq a hpa]
    have hle := ih hps (as.filter fun a => !p a)
    rw [← List.countP_eq_length_filter] at hle
    have hlength := List.length_eq_countP_add_countP p (l := as)
    simp only [Bool.not_eq_true, Bool.decide_eq_false] at hlength
    rw [List.map_cons, List.sum_cons, hrest]
    omega

namespace Metric

/-- What a metric looks for. -/
def needle (m : Metric) : Json :=
  (m.config.get? "equals").getD (.bool true)

/-- A metric counts entries of the array at a path by one of their fields. -/
structure CountsAt (m : Metric) (path field : String) : Prop where
  path : m.HoldsText "path" path
  field : m.HoldsText "field" field

/-- The entries of the array at a path. Anything else has none. -/
def entriesAt (item : Json) (path : String) : List Json :=
  ((FieldPath.resolve item path).bind Json.array?).getD []

variable {m m' : Metric} {item entry sought sought' : Json} {path field : String}

/-! ## Single entries -/

/-- An entry that is no object has no fields. -/
theorem holdsAt_iff :
    holdsAt field sought entry = true ↔
      ∃ value, FieldPath.walk entry field = some value ∧ value.agrees sought = true := by
  rw [holdsAt, Bool.and_eq_true, Option.any_eq_true]
  refine ⟨fun h => h.2, fun h => ⟨?_, h⟩⟩
  obtain ⟨value, hvalue, -⟩ := h
  rw [FieldPath.walk] at hvalue
  cases hsegments : FieldPath.segments field with
  | nil => exact absurd hsegments (FieldPath.segments_ne_nil field)
  | cons w ws =>
    rw [hsegments, List.foldlM_cons] at hvalue
    obtain ⟨u, hu, -⟩ := Option.bind_eq_some_iff.mp hvalue
    exact Json.isObject_of_get? hu

theorem holdsAt_congr (h : sought.agrees sought' = true) :
    holdsAt field sought = holdsAt field sought' := by
  funext entry
  rw [Bool.eq_iff_iff, holdsAt_iff, holdsAt_iff]
  refine exists_congr fun value => and_congr_right fun _ => ?_
  exact ⟨fun hv => Json.agrees_trans hv h, fun hv => Json.agrees_trans hv (Json.agrees_symm h)⟩

/-- No entry is counted for two values that do not agree. -/
theorem holdsAt_eq_false (h : sought.agrees sought' = false)
    (hentry : holdsAt field sought entry = true) : holdsAt field sought' entry = false := by
  obtain ⟨value, hvalue, hagrees⟩ := holdsAt_iff.mp hentry
  refine Bool.eq_false_iff.mpr fun hentry' => ?_
  obtain ⟨value', hvalue', hagrees'⟩ := holdsAt_iff.mp hentry'
  cases hvalue.symm.trans hvalue'
  rw [Json.agrees_trans (Json.agrees_symm hagrees) hagrees'] at h
  cases h

/-! ## Counts -/

theorem CountsAt.countWhere_eq_matchCount (h : m.CountsAt path field) (item : Json) :
    m.countWhere item =
      .ok (.ofCount (((FieldPath.resolve item path).map (matchCount field m.needle)).getD 0),
        [.path path]) := by
  rw [countWhere, requireText_eq_ok_iff.mpr h.path, Except.ok_bind, requireText_eq_ok_iff.mpr h.field,
    Except.ok_bind]
  rfl

theorem CountsAt.countWhere_eq (h : m.CountsAt path field) (item : Json) :
    m.countWhere item =
      .ok (.ofCount ((entriesAt item path).countP (holdsAt field m.needle)), [.path path]) := by
  have hcount : ((FieldPath.resolve item path).map (matchCount field m.needle)).getD 0 =
      (entriesAt item path).countP (holdsAt field m.needle) := by
    unfold entriesAt
    cases FieldPath.resolve item path with
    | none => rfl
    | some found => cases found <;> rfl
  rw [h.countWhere_eq_matchCount, hcount]

theorem HoldsText.length_eq (h : m.HoldsText "path" path) (item : Json) :
    m.length item =
      .ok (.ofCount (((FieldPath.resolve item path).map entryCount).getD 0), [.path path]) :=
  h.fromPath_eq item _

theorem length_eq (h : m.HoldsText "path" path) (item : Json) :
    ∃ n, m.length item = .ok (.ofCount n, [.path path]) ∧ (entriesAt item path).length ≤ n := by
  refine ⟨_, h.length_eq item, ?_⟩
  unfold entriesAt
  cases FieldPath.resolve item path with
  | none => exact Nat.zero_le _
  | some found =>
    cases found with
    | array xs => exact le_rfl
    | null | bool | number | string | object => exact Nat.zero_le _

theorem exists_ofCount (n : ℕ) :
    ∃ c : Int64, Scalar.ofCount n = .integer c ∧ c.toInt = min (n : ℤ) 0x7fffffffffffffff := by
  have hn := Int.natCast_nonneg n
  refine ⟨_, rfl, ?_⟩
  rw [Int64.toInt_ofInt_of_le]
  · omega
  · omega

theorem sum_toInt_le {ms : List Metric} {counts : List Int64} {f : Metric → ℕ}
    (h : List.Forall₂ (fun m c => c.toInt ≤ (f m : ℤ)) ms counts) :
    (counts.map Int64.toInt).sum ≤ ((ms.map f).sum : ℕ) := by
  induction h with
  | nil => simp
  | cons hle _ ih =>
    rw [List.map_cons, List.map_cons, List.sum_cons, List.sum_cons, Nat.cast_add]
    exact add_le_add hle ih

/-! ## What is counted for different values -/

/-- **Counts partition.** Agreement is an equivalence: numbers and truth values agree by weight, all
else by structure. Metrics that count at one place for values that do not agree count together no more
entries than there are, up to the largest count there is, and metrics that count for values that
agree come to the same. -/
theorem countWhere_partition :
    (Equivalence (fun a b : Json => a.agrees b = true) ∧
      ∀ a b : Json, a.agrees b = true ↔
        (∃ q, a.Weighs q ∧ b.Weighs q) ∨
          (∀ q, ¬ a.Weighs q) ∧ (∀ q, ¬ b.Weighs q) ∧ a.beq b = true) ∧
    (∀ (item : Json) (path field : String) (ms : List Metric) (l : Metric),
      (∀ m ∈ ms, m.CountsAt path field) →
      ms.Pairwise (fun m m' => m.needle.agrees m'.needle = false) → l.HoldsText "path" path →
      ∃ counts total,
        List.Forall₂ (fun m c => m.countWhere item = .ok (.integer c, [.path path])) ms counts ∧
        l.length item = .ok (.integer total, [.path path]) ∧
        (total.toInt < 0x7fffffffffffffff → (counts.map Int64.toInt).sum ≤ total.toInt)) ∧
    ∀ (item : Json) (path field : String) (m m' : Metric), m.CountsAt path field →
      m'.CountsAt path field → m.needle.agrees m'.needle = true →
      m.countWhere item = m'.countWhere item := by
  refine ⟨⟨Json.equivalence_agrees, fun a b => Json.agrees_iff⟩, ?_, ?_⟩
  · intro item path field ms l hms hpairwise hl
    obtain ⟨n, hlength, hle⟩ := length_eq hl item
    obtain ⟨total, htotal, hcap⟩ := exists_ofCount n
    have hcounts : ∀ m ∈ ms, ∃ c, m.countWhere item = .ok (.integer c, [.path path]) ∧
        c.toInt ≤ ((entriesAt item path).countP (holdsAt field m.needle) : ℕ) := by
      intro m hm
      obtain ⟨c, hc, hcap⟩ := exists_ofCount ((entriesAt item path).countP (holdsAt field m.needle))
      exact ⟨c, by rw [(hms m hm).countWhere_eq, hc], hcap ▸ min_le_left _ _⟩
    obtain ⟨counts, hcounts⟩ := exists_forall₂_iff.mpr hcounts
    refine ⟨counts, total, hcounts.imp fun _ _ h => h.1, by rw [hlength, htotal], fun hlt => ?_⟩
    have hapart : (ms.map fun m => holdsAt field m.needle).Pairwise
        fun p q => ∀ entry, p entry = true → q entry = false :=
      List.pairwise_map.mpr (hpairwise.imp fun h _ => holdsAt_eq_false h)
    have hsum := sum_countP_le_length hapart (entriesAt item path)
    rw [List.map_map] at hsum
    have hcounted := sum_toInt_le (hcounts.imp fun _ _ h => h.2)
    calc (counts.map Int64.toInt).sum ≤ _ := hcounted
      _ ≤ ((entriesAt item path).length : ℤ) := by exact_mod_cast hsum
      _ ≤ total.toInt := by omega
  · intro item path field m m' hm hm' h
    rw [hm.countWhere_eq, hm'.countWhere_eq, holdsAt_congr h]

end Metric

namespace Sample

def integer (n : ℤ) (lower : -0x8000000000000000 ≤ n := by decide)
    (upper : n < 0x10000000000000000 := by decide) : Json :=
  .number (.int n lower upper)

/-- Counts the rows whose field holds a value. -/
def rowsWith (field : String) (value : Json) : Metric where
  key := ⟨"matching", by decide, by decide⟩
  description := ⟨"Rows that match", by decide, by decide⟩
  operation := ⟨"count_where", by decide, by decide⟩
  config := [("equals", value), ("field", .string field), ("path", .string "rows")]
  dependsOn := []

def rows (field : String) (values : List Json) : Json :=
  .object [("rows", .array (values.map fun value => .object [(field, value)]))]

theorem countsAt_rowsWith {field : String} (h : field ≠ "") (value : Json) :
    (rowsWith field value).CountsAt "rows" field :=
  ⟨⟨rfl, by decide⟩, rfl, h⟩

/-- A row with one field. -/
theorem walk_id (value : Json) : FieldPath.walk (.object [("id", value)]) "id" = some value := by
  have hsegments : FieldPath.segments "id" = ["id"] := by decide +kernel
  rw [FieldPath.walk, hsegments]
  rfl

end Sample

namespace Metric

open Sample

variable {m : Metric} {path field : String}

theorem countWhere_partition_sample :
    (rowsWith "done" (.bool true)).CountsAt "rows" "done" ∧
    Json.agrees (.bool true) (integer 0) = false ∧ Json.agrees (.bool true) (integer 1) = true ∧
    (∃ counts total,
      List.Forall₂ (fun m c => m.countWhere (rows "done" [integer 1, .bool true, integer 2]) =
        .ok (.integer c, [.path "rows"])) [rowsWith "done" (.bool true), rowsWith "done" (integer 0)]
          counts ∧
      (rowsWith "done" .null).length (rows "done" [integer 1, .bool true, integer 2]) =
        .ok (.integer total, [.path "rows"]) ∧
      (total.toInt < 0x7fffffffffffffff → (counts.map Int64.toInt).sum ≤ total.toInt)) ∧
    (rowsWith "done" (.bool true)).countWhere (rows "done" [integer 1, .bool true, integer 2]) =
      (rowsWith "done" (integer 1)).countWhere (rows "done" [integer 1, .bool true, integer 2]) := by
  have hzero : Json.agrees (.bool true) (integer 0) = false := by decide +kernel
  have hone : Json.agrees (.bool true) (integer 1) = true := by decide +kernel
  have hat (value : Json) : (rowsWith "done" value).CountsAt "rows" "done" :=
    countsAt_rowsWith (by decide) value
  obtain ⟨-, hpartition, hcongr⟩ := countWhere_partition
  refine ⟨hat _, hzero, hone, ?_, hcongr _ _ _ _ _ (hat _) (hat _) hone⟩
  refine hpartition _ "rows" "done" _ _ ?_ (List.pairwise_pair.mpr hzero) (hat _).path
  intro m hm
  rcases List.mem_cons.mp hm with rfl | hm
  · exact hat _
  · cases List.mem_singleton.mp hm
    exact hat _

/-! ## Integers -/

/-- **Integers are compared as doubles.** An entry whose field holds an integer is counted for an
integer when both have one nearest double. Where one of them is below `2 ^ 53` they have to be
equal. -/
theorem countWhere_integers {n : ℤ} {lower upper} (h : m.CountsAt path field)
    (hneedle : m.needle = .number (.int n lower upper)) (item : Json) :
    m.countWhere item =
      .ok (.ofCount ((entriesAt item path).countP (holdsAt field m.needle)), [.path path]) ∧
    ∀ entry k lower' upper', FieldPath.walk entry field = some (.number (.int k lower' upper')) →
      (holdsAt field m.needle entry = true ↔ Double.SameDouble k n) ∧
      (|n| < 2 ^ 53 ∨ |k| < 2 ^ 53 → (holdsAt field m.needle entry = true ↔ k = n)) := by
  refine ⟨h.countWhere_eq item, fun entry k lower' upper' hk => ?_⟩
  have hsame : holdsAt field m.needle entry = true ↔ Double.SameDouble k n := by
    rw [holdsAt_iff, hneedle]
    simp only [hk, Option.some.injEq, exists_eq_left', Json.agrees_int_iff]
  refine ⟨hsame, fun hsmall => hsame.trans ⟨fun hd => ?_, ?_⟩⟩
  · obtain hn | hk := hsmall
    · exact hd.eq_of_lt hn
    · exact (hd.symm.eq_of_lt hk).symm
  · rintro rfl
    exact Double.SameDouble.refl k

/-- The largest integer below `2 ^ 53` is not taken for the next one. -/
theorem countWhere_integers_sample :
    (rowsWith "id" (integer 0x1fffffffffffff)).CountsAt "rows" "id" ∧
    (rowsWith "id" (integer 0x1fffffffffffff)).needle = integer 0x1fffffffffffff ∧
    FieldPath.walk (.object [("id", integer 0x20000000000000)]) "id" =
      some (integer 0x20000000000000) ∧
    holdsAt "id" (integer 0x1fffffffffffff) (.object [("id", integer 0x20000000000000)]) = false ∧
    holdsAt "id" (integer 0x1fffffffffffff) (.object [("id", integer 0x1fffffffffffff)]) = true := by
  have hat : (rowsWith "id" (integer 0x1fffffffffffff)).CountsAt "rows" "id" :=
    countsAt_rowsWith (by decide) _
  have hcounts := (countWhere_integers hat rfl (rows "id" [])).2
  refine ⟨hat, rfl, walk_id _, ?_, ?_⟩
  · have hiff := (hcounts _ _ _ _ (walk_id (integer 0x20000000000000))).2 (.inl (by decide))
    exact Bool.eq_false_iff.mpr fun h => absurd (hiff.mp h) (by decide)
  · exact ((hcounts _ _ _ _ (walk_id (integer 0x1fffffffffffff))).2 (.inl (by decide))).mpr rfl

/-- From `2 ^ 53` on neighbours are taken for each other: a row is counted for an identifier that it
does not have. -/
theorem countWhere_counts_neighbour :
    (rowsWith "id" (integer 0x20000000000000)).countWhere
      (rows "id" [integer 0x20000000000000, integer 0x20000000000001]) =
        .ok (.integer 2, [.path "rows"]) ∧
    holdsAt "id" (integer 0x20000000000000) (.object [("id", integer 0x20000000000001)]) = true ∧
    (0x20000000000001 : ℤ) ≠ 0x20000000000000 := by
  refine ⟨by decide +kernel, by decide +kernel, by decide⟩

end Metric
end ItemMetrics
