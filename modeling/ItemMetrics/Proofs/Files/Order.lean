import Mathlib.Data.List.Sort
import ItemMetrics.Files.Path
import ItemMetrics.Proofs.Text.Bytes

/-! # The order of paths

Paths are ordered by their parts, from the first on, and names by their bytes. Of two paths with
different parts one stands before the other (`Path.before_or_before_of_ne`), so paths without repeats
are put into increasing order when they are sorted (`Path.pairwise_before_mergeSort`), and there is
one such order only (`Path.eq_of_perm_of_pairwise`). The first of some lists of parts is
the one that none of the others stands before (`Path.first?_eq_some_iff`). -/

namespace ItemMetrics.Path

namespace Part

variable {a b c : Part}

theorem before_iff :
    a.before b = true ↔ a.rank < b.rank ∨ a.rank = b.rank ∧ a.bytes < b.bytes := by
  simp [before]

theorem before_irrefl (a : Part) : a.before a = false := by
  simp [before]

theorem before_trans (h : a.before b = true) (h' : b.before c = true) : a.before c = true := by
  rw [before_iff] at h h' ⊢
  rcases h with hab | ⟨hab, hlt⟩
  · apply Or.inl
    rcases h' with hbc | ⟨hbc, -⟩
    · exact Nat.lt_trans hab hbc
    · rwa [← hbc]
  · rcases h' with hbc | ⟨hbc, hlt'⟩
    · exact .inl (hab ▸ hbc)
    · exact .inr ⟨hab.trans hbc, List.lt_trans hlt hlt'⟩

/-- A name that is no text has other bytes than any text. -/
theorem bytes_ne_of_isRaw {bytes : List UInt8} (h : isRaw bytes = true) (s : String) :
    Text.bytes s ≠ bytes := by
  intro heq
  rw [isRaw, ← heq, Text.isText_bytes] at h
  cases h

theorem eq_of_bytes (hrank : a.rank = b.rank) (hbytes : a.bytes = b.bytes) : a = b := by
  cases a <;> cases b <;> try cases hrank
  case name.name s _ t _ =>
    cases Text.bytes_injective hbytes
    rfl
  case name.raw s _ bytes hraw => exact absurd hbytes (bytes_ne_of_isRaw hraw s)
  case raw.name bytes hraw s _ => exact absurd hbytes.symm (bytes_ne_of_isRaw hraw s)
  case raw.raw =>
    cases hbytes
    rfl
  all_goals rfl

theorem before_trichotomy (a b : Part) : a.before b = true ∨ a = b ∨ b.before a = true := by
  simp only [before_iff]
  rcases Nat.lt_trichotomy a.rank b.rank with hrank | hrank | hrank
  · exact .inl (.inl hrank)
  · by_cases hab : a.bytes < b.bytes
    · exact .inl (.inr ⟨hrank, hab⟩)
    · by_cases hba : b.bytes < a.bytes
      · exact .inr (.inr (.inr ⟨hrank.symm, hba⟩))
      · exact .inr (.inl (eq_of_bytes hrank (List.le_antisymm hba hab)))
  · exact .inr (.inr (.inl hrank))

end Part

variable {as bs cs : List Part} {a b c : String} {paths paths' : List String}

/-! ## Lists of parts -/

theorem partsBefore_cons_iff {a b : Part} :
    partsBefore (a :: as) (b :: bs) = true ↔
      a.before b = true ∨ a = b ∧ partsBefore as bs = true := by
  simp [partsBefore]

theorem partsBefore_irrefl (as : List Part) : partsBefore as as = false := by
  induction as with
  | nil => rfl
  | cons a as ih => simp [partsBefore, Part.before_irrefl, ih]

theorem partsBefore_trans (h : partsBefore as bs = true) (h' : partsBefore bs cs = true) :
    partsBefore as cs = true := by
  induction as generalizing bs cs with
  | nil =>
    cases bs with
    | nil => cases h
    | cons b bs => cases cs <;> first | rfl | cases h'
  | cons a as ih =>
    match bs, cs with
    | [], _ => cases h
    | b :: bs, [] => cases h'
    | b :: bs, c :: cs =>
      rw [partsBefore_cons_iff] at h h' ⊢
      rcases h with hab | ⟨rfl, h⟩
      · rcases h' with hbc | ⟨rfl, -⟩
        · exact .inl (Part.before_trans hab hbc)
        · exact .inl hab
      · rcases h' with hac | ⟨rfl, h'⟩
        · exact .inl hac
        · exact .inr ⟨rfl, ih h h'⟩

theorem partsBefore_trichotomy (as bs : List Part) :
    partsBefore as bs = true ∨ as = bs ∨ partsBefore bs as = true := by
  induction as generalizing bs with
  | nil =>
    cases bs with
    | nil => exact .inr (.inl rfl)
    | cons b bs => exact .inl rfl
  | cons a as ih =>
    cases bs with
    | nil => exact .inr (.inr rfl)
    | cons b bs =>
      simp only [partsBefore_cons_iff]
      rcases Part.before_trichotomy a b with hab | rfl | hba
      · exact .inl (.inl hab)
      · rcases ih bs with h | rfl | h
        · exact .inl (.inr ⟨rfl, h⟩)
        · exact .inr (.inl rfl)
        · exact .inr (.inr (.inr ⟨rfl, h⟩))
      · exact .inr (.inr (.inl hba))

theorem partsBefore_asymm (h : partsBefore as bs = true) : partsBefore bs as = false := by
  refine Bool.eq_false_iff.mpr fun h' => ?_
  have hself : partsBefore as as = true := partsBefore_trans h h'
  rw [partsBefore_irrefl] at hself
  cases hself

/-- Not to stand before is passed on. -/
theorem not_partsBefore_trans (h : partsBefore bs as = false) (h' : partsBefore cs bs = false) :
    partsBefore cs as = false := by
  refine Bool.eq_false_iff.mpr fun hca => ?_
  rcases partsBefore_trichotomy as bs with hab | rfl | hba
  · exact Bool.eq_false_iff.mp h' (partsBefore_trans hca hab)
  · exact Bool.eq_false_iff.mp h' hca
  · exact Bool.eq_false_iff.mp h hba

/-! ## The first of several -/

variable {ways : List (List Part)} {way : List Part}

theorem first?_eq_none_iff : first? ways = none ↔ ways = [] := by
  cases ways with
  | nil => simp [first?]
  | cons way ways =>
    rw [first?]
    split
    · split <;> simp
    · simp

/-- None of the others stands before the first. -/
theorem first?_spec (h : first? ways = some way) :
    way ∈ ways ∧ ∀ other ∈ ways, partsBefore other way = false := by
  induction ways generalizing way with
  | nil => cases h
  | cons head ways ih =>
    rw [first?] at h
    cases hrest : first? ways with
    | none =>
      obtain rfl := first?_eq_none_iff.mp hrest
      cases h
      simp [partsBefore_irrefl]
    | some least =>
      obtain ⟨hmem, hleast⟩ := ih hrest
      simp only [hrest] at h
      split at h
      · next hbefore =>
        cases h
        refine ⟨List.mem_cons_of_mem _ hmem, List.forall_mem_cons.mpr ⟨?_, hleast⟩⟩
        exact partsBefore_asymm hbefore
      · next hnot =>
        cases h
        refine ⟨List.mem_cons_self, List.forall_mem_cons.mpr ⟨partsBefore_irrefl _, ?_⟩⟩
        intro other hother
        exact not_partsBefore_trans (Bool.eq_false_iff.mpr hnot) (hleast other hother)

theorem first?_eq_some_iff :
    first? ways = some way ↔ way ∈ ways ∧ ∀ other ∈ ways, partsBefore other way = false := by
  refine ⟨first?_spec, fun ⟨hmem, hleast⟩ => ?_⟩
  cases hfirst : first? ways with
  | none =>
    rw [first?_eq_none_iff.mp hfirst] at hmem
    cases hmem
  | some other =>
    obtain ⟨hmem', hleast'⟩ := first?_spec hfirst
    rcases partsBefore_trichotomy way other with hbefore | rfl | hbefore
    · exact absurd hbefore (Bool.eq_false_iff.mp (hleast' way hmem))
    · rfl
    · exact absurd hbefore (Bool.eq_false_iff.mp (hleast other hmem'))

/-! ## Paths -/

theorem before_irrefl (a : String) : before a a = false :=
  partsBefore_irrefl _

theorem before_asymm (h : before a b = true) : before b a = false :=
  partsBefore_asymm h

theorem before_antisymm (h : before a b = true) (h' : before b a = true) : a = b := by
  rw [before_asymm h] at h'
  cases h'

theorem before_or_before_of_ne (h : parts a ≠ parts b) : before a b = true ∨ before b a = true := by
  rcases partsBefore_trichotomy (parts a) (parts b) with hab | heq | hba
  · exact .inl hab
  · exact absurd heq h
  · exact .inr hba

theorem not_before_trans (h : before b a = false) (h' : before c b = false) :
    before c a = false :=
  not_partsBefore_trans h h'

/-! ## Sorting -/

theorem pairwise_before_mergeSort (h : (paths.map parts).Nodup) :
    (paths.mergeSort fun a b => !before b a).Pairwise fun a b => before a b = true := by
  have htrans (a b c : String) : (!before b a) = true → (!before c b) = true →
      (!before c a) = true := by
    simp only [Bool.not_eq_true']
    exact not_before_trans
  have htotal (a b : String) : (!before b a || !before a b) = true := by
    cases hab : before a b with
    | false => simp
    | true => simp [before_asymm hab]
  have hsorted := List.pairwise_mergeSort htrans htotal paths
  have hdistinct : ((paths.mergeSort fun a b => !before b a).map parts).Nodup :=
    ((List.mergeSort_perm paths _).map parts).nodup_iff.mpr h
  refine (hsorted.and (List.pairwise_map.mp hdistinct)).imp ?_
  rintro a b ⟨hba, hne⟩
  rcases before_or_before_of_ne hne with hab | hba'
  · exact hab
  · simp [hba'] at hba

theorem nodup_of_pairwise_before (h : paths.Pairwise fun a b => before a b = true) :
    paths.Nodup := by
  refine h.imp ?_
  rintro a b hab rfl
  rw [before_irrefl] at hab
  cases hab

/-- Paths can be in increasing order in one way only. -/
theorem eq_of_perm_of_pairwise (hperm : paths.Perm paths')
    (h : paths.Pairwise fun a b => before a b = true)
    (h' : paths'.Pairwise fun a b => before a b = true) : paths = paths' :=
  hperm.eq_of_pairwise (fun _ _ _ _ => before_antisymm) h h'

/-- Of paths in increasing order, some that are in that order stand among the others. -/
theorem sublist_of_pairwise (hsubset : paths ⊆ paths')
    (h : paths.Pairwise fun a b => before a b = true)
    (h' : paths'.Pairwise fun a b => before a b = true) : paths.Sublist paths' := by
  have hantisymm : Std.Antisymm fun a b => before a b = true := ⟨fun _ _ => before_antisymm⟩
  have hsubperm := List.subperm_of_subset (nodup_of_pairwise_before h) hsubset
  exact List.sublist_of_subperm_of_pairwise hsubperm h h'

end ItemMetrics.Path
