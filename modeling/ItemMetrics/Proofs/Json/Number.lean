import ItemMetrics.Json.Basic
import ItemMetrics.Proofs.Double.Equality

/-! # Numbers as doubles

Every number of a JSON text is a finite double (`Json.Number.exists_hasValue`), zero exactly when it
is written as zero (`toFloat_beq_zero_iff`). As no number is unequal to itself, equality of numbers is
an equivalence. -/

namespace ItemMetrics.Json.Number

open Double

/-- A number is zero, with either sign. -/
inductive IsZero : Number → Prop where
  | int {lower upper} : IsZero (.int 0 lower upper)
  | float {x : Float} {finite} : (x == 0) = true → IsZero (.float x finite)

variable {n : ℤ} {k : Number} {x : Float} {q : ℚ}

/-! ## Numbers as doubles -/

theorem abs_le_pow (lower : -0x8000000000000000 ≤ n) (upper : n < 0x10000000000000000) :
    |(n : ℚ)| ≤ 2 ^ (64 : ℤ) :=
  abs_intCast_le (k := 64) (by omega) (by omega)

theorem exists_isSigned_toFloat (k : Number) : ∃ s r, IsSigned k.toFloat s r := by
  cases k with
  | int n hlow hup =>
    obtain ⟨s, r, hr, -⟩ := exists_isSigned_ofInt (by decide) (by decide) (abs_le_pow hlow hup)
    exact ⟨s, r, hr⟩
  | float x hfinite => exact isFinite_iff.mp hfinite

theorem exists_hasValue (k : Number) : ∃ q, HasValue k.toFloat q :=
  isFinite_iff_hasValue.mp (isFinite_iff.mpr k.exists_isSigned_toFloat)

theorem isZero_int_iff {lower upper} : IsZero (.int n lower upper) ↔ n = 0 := by
  constructor
  · rintro ⟨⟩
    rfl
  · rintro rfl
    exact .int

theorem toFloat_beq_zero_iff (k : Number) : (k.toFloat == 0) = true ↔ k.IsZero := by
  cases k with
  | int n hlow hup =>
    constructor
    · intro h
      obtain ⟨s, r, hr, -, hone⟩ :=
        exists_isSigned_ofInt (by decide) (by decide) (abs_le_pow hlow hup)
      have hzero : n = 0 := by
        by_contra hne
        exact absurd (hone hne) (by rw [(beq_zero_iff hr).mp h]; norm_num)
      subst hzero
      exact .int
    · rintro ⟨⟩
      exact (rfl : (Float.ofInt 0 == 0) = true)
  | float x hfinite =>
    constructor
    · exact .float
    · rintro ⟨⟩
      assumption

theorem toFloat_bne_zero_iff (k : Number) : (k.toFloat != 0) = true ↔ ¬ k.IsZero := by
  rw [← toFloat_beq_zero_iff, bne, Bool.not_eq_true', Bool.not_eq_true]

/-! ## Equality -/

theorem beq_int_iff {lower upper} :
    (.int n lower upper == k) = true ↔ ∃ lower' upper', k = .int n lower' upper' := by
  cases k with
  | int l hlow hup =>
    change (n == l) = true ↔ _
    simp only [beq_iff_eq, int.injEq]
    exact ⟨fun h => ⟨lower, upper, h.symm⟩, fun ⟨_, _, h⟩ => h.symm⟩
  | float => exact iff_of_false (fun h => by cases h) (fun ⟨_, _, h⟩ => by cases h)

theorem beq_float_iff {finite} (hx : HasValue x q) :
    (.float x finite == k) = true ↔ ∃ y finite', k = .float y finite' ∧ HasValue y q := by
  cases k with
  | int => exact iff_of_false (fun h => by cases h) (fun ⟨_, _, h, _⟩ => by cases h)
  | float y hy =>
    obtain ⟨p, hp⟩ := isFinite_iff_hasValue.mp hy
    change (x == y) = true ↔ _
    rw [beq_iff hx hp]
    constructor
    · rintro rfl
      exact ⟨y, hy, rfl, hp⟩
    · rintro ⟨_, _, h, hy'⟩
      cases h
      exact hy'.unique hp

/-- No double among the numbers is unequal to itself. -/
instance : EquivBEq Number where
  rfl := by
    intro k
    cases k with
    | int n hlow hup => exact beq_int_iff.mpr ⟨hlow, hup, rfl⟩
    | float x hx =>
      obtain ⟨q, hq⟩ := isFinite_iff_hasValue.mp hx
      exact (beq_float_iff hq).mpr ⟨x, hx, rfl, hq⟩
  symm := by
    intro k l h
    cases k with
    | int n hlow hup =>
      obtain ⟨_, _, rfl⟩ := beq_int_iff.mp h
      exact beq_int_iff.mpr ⟨hlow, hup, rfl⟩
    | float x hx =>
      obtain ⟨q, hq⟩ := isFinite_iff_hasValue.mp hx
      obtain ⟨y, _, rfl, hy⟩ := (beq_float_iff hq).mp h
      exact (beq_float_iff hy).mpr ⟨x, hx, rfl, hq⟩
  trans := by
    intro k l o h h'
    cases k with
    | int n hlow hup =>
      obtain ⟨_, _, rfl⟩ := beq_int_iff.mp h
      obtain ⟨_, _, rfl⟩ := beq_int_iff.mp h'
      exact beq_int_iff.mpr ⟨_, _, rfl⟩
    | float x hx =>
      obtain ⟨q, hq⟩ := isFinite_iff_hasValue.mp hx
      obtain ⟨y, _, rfl, hy⟩ := (beq_float_iff hq).mp h
      obtain ⟨z, _, rfl, hz⟩ := (beq_float_iff hy).mp h'
      exact (beq_float_iff hq).mpr ⟨z, _, rfl, hz⟩

end ItemMetrics.Json.Number
