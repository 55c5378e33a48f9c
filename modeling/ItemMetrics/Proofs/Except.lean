import Mathlib.Data.List.Forall2

/-! # Sequences of steps that may fail

When a sequence of `Except` steps succeeds and when it fails. -/

/-- What each element of a list is related to can be put into one list. -/
theorem ItemMetrics.exists_forall₂_iff {α β : Type} {R : α → β → Prop} {xs : List α} :
    (∃ ys, List.Forall₂ R xs ys) ↔ ∀ x ∈ xs, ∃ y, R x y := by
  induction xs with
  | nil => simp
  | cons x xs ih =>
    simp only [List.forall₂_cons_left_iff, List.forall_mem_cons, ← ih]
    constructor
    · rintro ⟨_, y, ys, hy, hys, -⟩
      exact ⟨⟨y, hy⟩, ys, hys⟩
    · rintro ⟨⟨y, hy⟩, ys, hys⟩
      exact ⟨_, y, ys, hy, hys, rfl⟩

namespace Except

variable {ε α β : Type} {x : Except ε α} {f : α → Except ε β}

@[simp] theorem ok_bind (a : α) : ((.ok a : Except ε α) >>= f) = f a := rfl

@[simp] theorem error_bind (e : ε) : ((.error e : Except ε α) >>= f) = .error e := rfl

theorem bind_eq_ok_iff {b : β} : (x >>= f) = .ok b ↔ ∃ a, x = .ok a ∧ f a = .ok b := by
  cases x with
  | error e => simp
  | ok a => simp

theorem bind_eq_error_iff {e : ε} :
    (x >>= f) = .error e ↔ x = .error e ∨ ∃ a, x = .ok a ∧ f a = .error e := by
  cases x with
  | error e => simp
  | ok a => simp

theorem map_eq_ok_iff {g : α → β} {b : β} : x.map g = .ok b ↔ ∃ a, x = .ok a ∧ g a = b := by
  cases x with
  | error e => simp [Except.map]
  | ok a => simp [Except.map]

theorem map_eq_error_iff {g : α → β} {e : ε} : x.map g = .error e ↔ x = .error e := by
  cases x with
  | error e => simp [Except.map]
  | ok a => simp [Except.map]

theorem mapError_eq_ok_iff {ε' : Type} {g : ε → ε'} {a : α} :
    x.mapError g = .ok a ↔ x = .ok a := by
  cases x with
  | error e => constructor <;> rintro ⟨⟩
  | ok b =>
    constructor
    · rintro ⟨⟩
      rfl
    · rintro ⟨⟩
      rfl

theorem mapError_eq_error_iff {ε' : Type} {g : ε → ε'} {e : ε'} :
    x.mapError g = .error e ↔ ∃ e', x = .error e' ∧ g e' = e := by
  cases x with
  | error e' => simp [Except.mapError]
  | ok a => simp [Except.mapError]

/-- What every step keeps, a successful fold keeps. -/
theorem foldlM_invariant {P : β → Prop} {f : β → α → Except ε β} {xs : List α} {b b' : β}
    (hstep : ∀ b x b', P b → f b x = .ok b' → P b') (hb : P b) (h : xs.foldlM f b = .ok b') :
    P b' := by
  induction xs generalizing b with
  | nil =>
    cases h
    exact hb
  | cons x xs ih =>
    rw [List.foldlM_cons] at h
    obtain ⟨b₁, hx, h⟩ := bind_eq_ok_iff.mp h
    exact ih (hstep b x b₁ hb hx) h

theorem exists_ok_iff : (∃ a, x = .ok a) ↔ x.map (fun _ => ()) = .ok () := by
  simp [map_eq_ok_iff]

/-! ## What succeeds alike -/

theorem toOption_eq_some_iff {a : α} : x.toOption = some a ↔ x = .ok a := by
  cases x with
  | error e => simp [Except.toOption]
  | ok a => simp [Except.toOption]

@[simp] theorem toOption_mapError {ε' : Type} (g : ε → ε') :
    (x.mapError g).toOption = x.toOption := by
  cases x <;> rfl

theorem toOption_bind : (x >>= f).toOption = x.toOption.bind fun a => (f a).toOption := by
  cases x <;> rfl

/-- Computations that succeed alike, with steps after them that succeed alike. -/
theorem toOption_bind_congr {ε' : Type} {y : Except ε' α} {g : α → Except ε' β}
    (h : x.toOption = y.toOption) (hf : ∀ a, (f a).toOption = (g a).toOption) :
    (x >>= f).toOption = (y >>= g).toOption := by
  rw [toOption_bind, toOption_bind, h]
  exact Option.bind_congr fun a _ => hf a

/-- A list of steps succeeds when each of them does. -/
theorem mapM_eq_ok_iff {xs : List α} {ys : List β} :
    xs.mapM f = .ok ys ↔ xs.map (fun x => (f x).toOption) = ys.map some := by
  induction xs generalizing ys with
  | nil => cases ys <;> simp [pure, Except.pure]
  | cons x xs ih =>
    simp only [List.mapM_cons, bind_eq_ok_iff, ih, List.map_cons]
    constructor
    · rintro ⟨y, hy, ys', hys', h⟩
      cases h
      rw [toOption_eq_some_iff.mpr hy, hys', List.map_cons]
    · intro h
      cases ys with
      | nil => cases h
      | cons y ys =>
        obtain ⟨hy, hys⟩ := List.cons.inj h
        exact ⟨y, toOption_eq_some_iff.mp hy, ys, hys, rfl⟩

theorem mapM_eq_ok_iff_forall₂ {xs : List α} {ys : List β} :
    xs.mapM f = .ok ys ↔ List.Forall₂ (fun x y => f x = .ok y) xs ys := by
  rw [mapM_eq_ok_iff]
  induction xs generalizing ys with
  | nil => cases ys <;> simp
  | cons x xs ih => cases ys <;> simp [toOption_eq_some_iff, ih]

theorem exists_mapM_eq_ok_iff {xs : List α} :
    (∃ ys, xs.mapM f = .ok ys) ↔ ∀ x ∈ xs, ∃ y, f x = .ok y := by
  simp only [mapM_eq_ok_iff_forall₂]
  exact ItemMetrics.exists_forall₂_iff

/-- A list of steps fails as the first of them that fails. -/
theorem mapM_eq_error_iff {xs : List α} {e : ε} :
    xs.mapM f = .error e ↔
      ∃ before x after ys, xs = before ++ x :: after ∧ before.mapM f = .ok ys ∧ f x = .error e := by
  induction xs with
  | nil => simp [pure, Except.pure]
  | cons x xs ih =>
    rw [List.mapM_cons, bind_eq_error_iff]
    constructor
    · rintro (hx | ⟨y, hy, h⟩)
      · exact ⟨[], x, xs, [], rfl, rfl, hx⟩
      · obtain h | ⟨ys, -, h⟩ := bind_eq_error_iff.mp h
        · obtain ⟨before, x', after, ys, rfl, hbefore, hx'⟩ := ih.mp h
          refine ⟨x :: before, x', after, y :: ys, rfl, ?_, hx'⟩
          rw [List.mapM_cons, hy, ok_bind, hbefore]
          rfl
        · cases h
    · rintro ⟨before, x', after, ys, heq, hbefore, hx'⟩
      cases before with
      | nil =>
        cases heq
        exact .inl hx'
      | cons b before =>
        cases heq
        rw [List.mapM_cons] at hbefore
        obtain ⟨y, hy, hrest⟩ := bind_eq_ok_iff.mp hbefore
        obtain ⟨ys', hys', -⟩ := bind_eq_ok_iff.mp hrest
        have hrest := ih.mpr ⟨before, x', after, ys', rfl, hys', hx'⟩
        exact .inr ⟨y, hy, bind_eq_error_iff.mpr (.inl hrest)⟩

/-- What comes of a list of steps is what comes of each. -/
theorem mem_iff_of_mapM {xs : List α} {ys : List β} {y : β} (h : xs.mapM f = .ok ys) :
    y ∈ ys ↔ ∃ x ∈ xs, f x = .ok y := by
  have hmap := mapM_eq_ok_iff.mp h
  have hmem : y ∈ ys ↔ some y ∈ ys.map some := by simp
  rw [hmem, ← hmap, List.mem_map]
  exact exists_congr fun x => and_congr_right fun _ => toOption_eq_some_iff

theorem exists_of_mapM {xs : List α} {ys : List β} {x : α} (h : xs.mapM f = .ok ys) (hx : x ∈ xs) :
    ∃ y ∈ ys, f x = .ok y := by
  have hmem := List.mem_map_of_mem (f := fun x => (f x).toOption) hx
  rw [mapM_eq_ok_iff.mp h, List.mem_map] at hmem
  obtain ⟨y, hy, hxy⟩ := hmem
  exact ⟨y, hy, toOption_eq_some_iff.mp hxy.symm⟩

end Except
