import ItemMetrics.Decimal.Layout

/-! # The characters of a written number

A written double consists of digits, the point, the letter of its exponent and signs
(`Decimal.Layout.isNumeral_write`). -/

namespace ItemMetrics.Decimal

/-- A character that a number can be written with. -/
def isNumeral (c : Char) : Bool := c.isDigit || ['.', 'e', '+', '-'].contains c

theorem isNumeral_of_mem_toDigits {c : Char} {n : Nat} (h : c ∈ Nat.toDigits 10 n) :
    isNumeral c = true := by
  rw [isNumeral, Nat.isDigit_of_mem_toDigits (by decide) (by decide) h, Bool.true_or]

theorem isNumeral_of_all {cs : List Char} (h : cs.all isNumeral = true) :
    ∀ c ∈ cs, isNumeral c = true :=
  List.all_eq_true.mp h

namespace Layout

variable {ds : List Char}

theorem isNumeral_zeros (n : Nat) : ∀ c ∈ zeros n, isNumeral c = true := by
  intro c hc
  rw [List.eq_of_mem_replicate hc]
  decide

theorem isNumeral_positional (h : ∀ c ∈ ds, isNumeral c = true) (exponent : Int) :
    ∀ c ∈ positional ds exponent, isNumeral c = true := by
  have htake (n : Nat) : ∀ c ∈ ds.take n, isNumeral c = true :=
    fun c hc => h c (List.mem_of_mem_take hc)
  have hdrop (n : Nat) : ∀ c ∈ ds.drop n, isNumeral c = true :=
    fun c hc => h c (List.mem_of_mem_drop hc)
  rw [positional]
  split
  · exact List.forall_mem_append.mpr
      ⟨List.forall_mem_append.mpr ⟨h, isNumeral_zeros _⟩, isNumeral_of_all (by decide)⟩
  split
  · exact List.forall_mem_append.mpr
      ⟨List.forall_mem_append.mpr ⟨htake _, isNumeral_of_all (by decide)⟩, hdrop _⟩
  · exact List.forall_mem_append.mpr
      ⟨List.forall_mem_append.mpr ⟨isNumeral_of_all (by decide), isNumeral_zeros _⟩, h⟩

theorem isNumeral_scientific (h : ∀ c ∈ ds, isNumeral c = true) (plus : Bool) (power : Int) :
    ∀ c ∈ scientific plus ds power, isNumeral c = true := by
  have hpower : ∀ c ∈ Nat.toDigits 10 power.natAbs, isNumeral c = true :=
    fun _ => isNumeral_of_mem_toDigits
  unfold scientific
  simp only [List.forall_mem_append]
  refine ⟨⟨⟨?_, isNumeral_of_all (by decide)⟩, ?_⟩, hpower⟩
  · split
    · exact h
    · exact h
    · obtain ⟨hd, hds⟩ := List.forall_mem_cons.mp h
      exact List.forall_mem_cons.mpr ⟨hd, List.forall_mem_cons.mpr ⟨by decide, hds⟩⟩
  · refine isNumeral_of_all ?_
    split
    · decide
    · split <;> decide

theorem isNumeral_signed (h : ∀ c ∈ ds, isNumeral c = true) (negative : Bool) :
    ∀ c ∈ if negative = true then '-' :: ds else ds, isNumeral c = true := by
  split
  · exact List.forall_mem_cons.mpr ⟨by decide, h⟩
  · exact h

/-- A double is written with the characters of numbers. -/
theorem isNumeral_write (layout : Layout) (x : Float) :
    ∀ c ∈ (layout.write x).toList, isNumeral c = true := by
  have hdigits (n : Nat) : ∀ c ∈ Nat.toDigits 10 n, isNumeral c = true :=
    fun _ => isNumeral_of_mem_toDigits
  rw [write, String.toList_ofList]
  refine isNumeral_signed ?_ _
  split
  · exact isNumeral_of_all (by decide)
  split
  · exact isNumeral_positional (hdigits _) _
  · exact isNumeral_scientific (hdigits _) _ _

end Layout
end ItemMetrics.Decimal
