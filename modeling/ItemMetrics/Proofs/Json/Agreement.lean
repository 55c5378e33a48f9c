import ItemMetrics.Proofs.Json.Number

/-! # Values that agree

Agreement is an equivalence (`Json.equivalence_agrees`). Numbers and truth values agree by what they
weigh as doubles, all else by structure (`Json.agrees_iff`). Two integers agree when they have one
nearest double (`Json.agrees_int_iff`). -/

namespace ItemMetrics.Json

open Double

/-- A truth value weighs one or zero, and a number what its double stands for. -/
inductive Weighs : Json → ℚ → Prop where
  | bool (b : Bool) : Weighs (.bool b) (if b then 1 else 0)
  | number {n : Number} {q : ℚ} : HasValue n.toFloat q → Weighs (.number n) q

variable {a b c : Json} {p q : ℚ} {xs ys : List Json} {ms ns : Members}

/-! ## Equality by structure -/

theorem beq_null_iff : beq .null b = true ↔ .null = b := by
  cases b <;> simp [beq]

theorem beq_bool_iff {t : Bool} : beq (.bool t) b = true ↔ .bool t = b := by
  cases b <;> simp [beq]

theorem beq_number_iff {n : Number} :
    beq (.number n) b = true ↔ ∃ k, b = .number k ∧ (n == k) = true := by
  cases b <;> simp [beq]

theorem beq_string_iff {s : String} : beq (.string s) b = true ↔ .string s = b := by
  cases b <;> simp [beq]

theorem beq_array_iff : beq (.array xs) b = true ↔ ∃ ys, b = .array ys ∧ beqItems xs ys = true := by
  cases b <;> simp [beq]

theorem beq_object_iff :
    beq (.object ms) b = true ↔ ∃ ns, b = .object ns ∧ beqMembers ms ns = true := by
  cases b <;> simp [beq]

theorem beqItems_cons_iff :
    beqItems (a :: xs) ys = true ↔
      ∃ b zs, ys = b :: zs ∧ a.beq b = true ∧ beqItems xs zs = true := by
  cases ys <;> simp [beqItems]

theorem beqMembers_cons_iff {k : String} :
    beqMembers ((k, a) :: ms) ns = true ↔
      ∃ b os, ns = (k, b) :: os ∧ a.beq b = true ∧ beqMembers ms os = true := by
  cases ns with
  | nil => simp [beqMembers]
  | cons n ns =>
    obtain ⟨l, b⟩ := n
    simp only [beqMembers, Bool.and_eq_true, beq_iff_eq, List.cons.injEq, Prod.mk.injEq]
    constructor
    · rintro ⟨⟨rfl, h⟩, hms⟩
      exact ⟨b, ns, ⟨⟨rfl, rfl⟩, rfl⟩, h, hms⟩
    · rintro ⟨_, _, ⟨⟨rfl, rfl⟩, rfl⟩, h, hms⟩
      exact ⟨⟨rfl, h⟩, hms⟩

mutual
theorem beq_refl : ∀ a : Json, a.beq a = true
  | .null => beq_null_iff.mpr rfl
  | .bool _ => beq_bool_iff.mpr rfl
  | .number n => beq_number_iff.mpr ⟨n, rfl, BEq.rfl⟩
  | .string _ => beq_string_iff.mpr rfl
  | .array xs => beq_array_iff.mpr ⟨xs, rfl, beqItems_refl xs⟩
  | .object ms => beq_object_iff.mpr ⟨ms, rfl, beqMembers_refl ms⟩

theorem beqItems_refl : ∀ xs : List Json, beqItems xs xs = true
  | [] => by rw [beqItems]
  | x :: xs => beqItems_cons_iff.mpr ⟨x, xs, rfl, beq_refl x, beqItems_refl xs⟩

theorem beqMembers_refl : ∀ ms : List (String × Json), beqMembers ms ms = true
  | [] => by rw [beqMembers]
  | (_, x) :: ms => beqMembers_cons_iff.mpr ⟨x, ms, rfl, beq_refl x, beqMembers_refl ms⟩
end

mutual
theorem beq_symm : ∀ {a b : Json}, a.beq b = true → b.beq a = true
  | .null, _, h => by
    obtain rfl := beq_null_iff.mp h
    exact h
  | .bool _, _, h => by
    obtain rfl := beq_bool_iff.mp h
    exact h
  | .number _, _, h => by
    obtain ⟨k, rfl, hk⟩ := beq_number_iff.mp h
    exact beq_number_iff.mpr ⟨_, rfl, BEq.symm hk⟩
  | .string _, _, h => by
    obtain rfl := beq_string_iff.mp h
    exact h
  | .array _, _, h => by
    obtain ⟨ys, rfl, hys⟩ := beq_array_iff.mp h
    exact beq_array_iff.mpr ⟨_, rfl, beqItems_symm hys⟩
  | .object _, _, h => by
    obtain ⟨ns, rfl, hns⟩ := beq_object_iff.mp h
    exact beq_object_iff.mpr ⟨_, rfl, beqMembers_symm hns⟩

theorem beqItems_symm : ∀ {xs ys : List Json}, beqItems xs ys = true → beqItems ys xs = true
  | [], [], h => h
  | _ :: _, _, h => by
    obtain ⟨y, ys, rfl, hy, hys⟩ := beqItems_cons_iff.mp h
    exact beqItems_cons_iff.mpr ⟨_, _, rfl, beq_symm hy, beqItems_symm hys⟩

theorem beqMembers_symm : ∀ {ms ns : List (String × Json)}, beqMembers ms ns = true →
    beqMembers ns ms = true
  | [], [], h => h
  | (_, _) :: _, _, h => by
    obtain ⟨y, ns, rfl, hy, hns⟩ := beqMembers_cons_iff.mp h
    exact beqMembers_cons_iff.mpr ⟨_, _, rfl, beq_symm hy, beqMembers_symm hns⟩
end

mutual
theorem beq_trans : ∀ {a b c : Json}, a.beq b = true → b.beq c = true → a.beq c = true
  | .null, _, _, h, h' => by
    obtain rfl := beq_null_iff.mp h
    exact h'
  | .bool _, _, _, h, h' => by
    obtain rfl := beq_bool_iff.mp h
    exact h'
  | .number _, _, _, h, h' => by
    obtain ⟨k, rfl, hk⟩ := beq_number_iff.mp h
    obtain ⟨l, rfl, hl⟩ := beq_number_iff.mp h'
    exact beq_number_iff.mpr ⟨l, rfl, BEq.trans hk hl⟩
  | .string _, _, _, h, h' => by
    obtain rfl := beq_string_iff.mp h
    exact h'
  | .array _, _, _, h, h' => by
    obtain ⟨ys, rfl, hys⟩ := beq_array_iff.mp h
    obtain ⟨zs, rfl, hzs⟩ := beq_array_iff.mp h'
    exact beq_array_iff.mpr ⟨zs, rfl, beqItems_trans hys hzs⟩
  | .object _, _, _, h, h' => by
    obtain ⟨ns, rfl, hns⟩ := beq_object_iff.mp h
    obtain ⟨os, rfl, hos⟩ := beq_object_iff.mp h'
    exact beq_object_iff.mpr ⟨os, rfl, beqMembers_trans hns hos⟩

theorem beqItems_trans : ∀ {xs ys zs : List Json}, beqItems xs ys = true →
    beqItems ys zs = true → beqItems xs zs = true
  | [], [], _, _, h' => h'
  | _ :: _, _, _, h, h' => by
    obtain ⟨y, ys, rfl, hy, hys⟩ := beqItems_cons_iff.mp h
    obtain ⟨z, zs, rfl, hz, hzs⟩ := beqItems_cons_iff.mp h'
    exact beqItems_cons_iff.mpr ⟨z, zs, rfl, beq_trans hy hz, beqItems_trans hys hzs⟩

theorem beqMembers_trans : ∀ {ms ns os : List (String × Json)}, beqMembers ms ns = true →
    beqMembers ns os = true → beqMembers ms os = true
  | [], [], _, _, h' => h'
  | (_, _) :: _, _, _, h, h' => by
    obtain ⟨y, ns, rfl, hy, hns⟩ := beqMembers_cons_iff.mp h
    obtain ⟨z, os, rfl, hz, hos⟩ := beqMembers_cons_iff.mp h'
    exact beqMembers_cons_iff.mpr ⟨z, os, rfl, beq_trans hy hz, beqMembers_trans hns hos⟩
end

/-! ## Agreement -/

theorem hasValue_of_bool (t : Bool) : HasValue (if t then 1 else 0) (if t then 1 else 0) := by
  cases t with
  | false => exact hasValue_zero
  | true => exact hasValue_one

theorem Weighs.unique (h : a.Weighs p) (h' : a.Weighs q) : p = q := by
  cases h with
  | bool => cases h'; rfl
  | number h =>
    cases h' with
    | number h' => exact h.unique h'

/-- Values that weigh something agree when they weigh the same. -/
theorem Weighs.agrees_iff (ha : a.Weighs p) (hb : b.Weighs q) : a.agrees b = true ↔ p = q := by
  cases ha with
  | bool t =>
    cases hb with
    | bool u => cases t <;> cases u <;> simp [agrees, BEq.beq, beq]
    | number hn => exact (beq_iff hn (hasValue_of_bool t)).trans eq_comm
  | number hn =>
    cases hb with
    | bool u => exact beq_iff hn (hasValue_of_bool u)
    | number hk => exact beq_iff hn hk

theorem agrees_of_left (ha : ∀ q, ¬ a.Weighs q) : a.agrees b = a.beq b := by
  cases a with
  | bool t => exact absurd (.bool t) (ha _)
  | number n =>
    obtain ⟨q, hq⟩ := n.exists_hasValue
    exact absurd (.number hq) (ha q)
  | null | string | array | object => rfl

theorem agrees_of_right (hb : ∀ q, ¬ b.Weighs q) : a.agrees b = a.beq b := by
  cases b with
  | bool t => exact absurd (.bool t) (hb _)
  | number n =>
    obtain ⟨q, hq⟩ := n.exists_hasValue
    exact absurd (.number hq) (hb q)
  | null | string | array | object => cases a <;> rfl

/-- What equals something that weighs weighs something too. -/
theorem Weighs.exists_of_beq (ha : a.Weighs p) (h : a.beq b = true) : ∃ q, b.Weighs q := by
  cases ha with
  | bool t =>
    obtain rfl := beq_bool_iff.mp h
    exact ⟨_, .bool t⟩
  | number =>
    obtain ⟨k, rfl, -⟩ := beq_number_iff.mp h
    obtain ⟨q, hq⟩ := k.exists_hasValue
    exact ⟨q, .number hq⟩

/-- Values agree when they weigh the same, or when neither weighs anything and they are equal. -/
theorem agrees_iff :
    a.agrees b = true ↔
      (∃ q, a.Weighs q ∧ b.Weighs q) ∨
        (∀ q, ¬ a.Weighs q) ∧ (∀ q, ¬ b.Weighs q) ∧ a.beq b = true := by
  by_cases ha : ∃ p, a.Weighs p
  · obtain ⟨p, ha⟩ := ha
    by_cases hb : ∃ q, b.Weighs q
    · obtain ⟨q, hb⟩ := hb
      rw [ha.agrees_iff hb]
      constructor
      · rintro rfl
        exact .inl ⟨p, ha, hb⟩
      · rintro (⟨r, ha', hb'⟩ | ⟨hnone, -⟩)
        · exact (ha.unique ha').trans (hb.unique hb').symm
        · exact absurd ha (hnone p)
    · rw [agrees_of_right (not_exists.mp hb)]
      constructor
      · exact fun h => absurd (ha.exists_of_beq h) hb
      · rintro (⟨q, -, hq⟩ | ⟨-, -, h⟩)
        · exact absurd ⟨q, hq⟩ hb
        · exact h
  · rw [agrees_of_left (not_exists.mp ha)]
    constructor
    · exact fun h => .inr ⟨not_exists.mp ha,
        fun _ hq => ha (hq.exists_of_beq (beq_symm h)), h⟩
    · rintro (⟨q, hq, -⟩ | ⟨-, -, h⟩)
      · exact absurd ⟨q, hq⟩ ha
      · exact h

theorem agrees_refl (a : Json) : a.agrees a = true := by
  rw [agrees_iff]
  by_cases ha : ∃ q, a.Weighs q
  · obtain ⟨q, ha⟩ := ha
    exact .inl ⟨q, ha, ha⟩
  · rw [not_exists] at ha
    exact .inr ⟨ha, ha, beq_refl a⟩

theorem agrees_symm (h : a.agrees b = true) : b.agrees a = true := by
  rw [agrees_iff] at h ⊢
  obtain ⟨q, ha, hb⟩ | ⟨ha, hb, h⟩ := h
  · exact .inl ⟨q, hb, ha⟩
  · exact .inr ⟨hb, ha, beq_symm h⟩

theorem agrees_trans (h : a.agrees b = true) (h' : b.agrees c = true) : a.agrees c = true := by
  rw [agrees_iff] at h h' ⊢
  obtain ⟨q, ha, hb⟩ | ⟨ha, hb, h⟩ := h
  · obtain ⟨q', hb', hc⟩ | ⟨hb', -⟩ := h'
    · obtain rfl := hb.unique hb'
      exact .inl ⟨q, ha, hc⟩
    · exact absurd hb (hb' q)
  · obtain ⟨q, hb', -⟩ | ⟨-, hc, h'⟩ := h'
    · exact absurd hb' (hb q)
    · exact .inr ⟨ha, hc, beq_trans h h'⟩

theorem equivalence_agrees : Equivalence fun a b : Json => a.agrees b = true :=
  ⟨agrees_refl, agrees_symm, agrees_trans⟩

/-! ## Integers -/

theorem agrees_int_iff {k n : ℤ} {lower upper lower' upper'} :
    agrees (.number (.int k lower upper)) (.number (.int n lower' upper')) = true ↔
      SameDouble k n := by
  have hle : (2 : ℚ) ^ (64 : ℤ) ≤ 2 ^ (1023 : ℤ) := zpow_le_zpow_right₀ one_le_two (by decide)
  exact ofInt_beq_iff ((Number.abs_le_pow lower upper).trans hle)
    ((Number.abs_le_pow lower' upper').trans hle)

end ItemMetrics.Json
