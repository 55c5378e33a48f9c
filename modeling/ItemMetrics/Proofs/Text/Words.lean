import ItemMetrics.Proofs.Text.Pieces
import ItemMetrics.Text.Word
import Mathlib.Data.Set.Card

/-! What words are. A text is cut at its separators, space and line feed, and a word is a maximal
run without one that is not blank throughout; the words are counted as places in the text, so equal
ones count as often as they stand there. A separator splits the count (`countWordsIn_cut`), and so
does it split the words (`words_cut`): both are one induction, `separator_induction`. -/

namespace ItemMetrics.Text

/-- The characters at which words end. -/
def IsSeparator (c : Char) : Prop :=
  c = ' ' ∨ c = '\n'

/-- A run of characters in the place where it stands. -/
@[ext] structure Run where
  before : List Char
  letters : List Char
  after : List Char

/-- The run stands in the text, holds no separator, and none of its neighbours could be added. -/
structure Run.IsMaximal (r : Run) (cs : List Char) : Prop where
  cut : r.before ++ r.letters ++ r.after = cs
  unbroken : ∀ c ∈ r.letters, ¬ IsSeparator c
  starts : ∀ c ∈ r.before.getLast?, IsSeparator c
  ends : ∀ c ∈ r.after.head?, IsSeparator c

/-- The maximal runs that hold a character which is not blank. -/
def words (cs : List Char) : Set Run :=
  {r | r.IsMaximal cs ∧ ∃ c ∈ r.letters, isBlank c = false}

/-- The second text is the first with some of its line endings written the other way: a line feed
alone, or one after a carriage return. -/
inductive LinesSwitched : List Char → List Char → Prop where
  | nil : LinesSwitched [] []
  | keep (c : Char) {as bs : List Char} : LinesSwitched as bs → LinesSwitched (c :: as) (c :: bs)
  | lengthen {as bs : List Char} : LinesSwitched as bs →
      LinesSwitched ('\n' :: as) ('\r' :: '\n' :: bs)
  | shorten {as bs : List Char} : LinesSwitched as bs →
      LinesSwitched ('\r' :: '\n' :: as) ('\n' :: bs)

variable {a b cs seps : List Char} {c : Char}

theorem isWordBreak_iff : isWordBreak c = true ↔ IsSeparator c := by
  simp [isWordBreak, IsSeparator]

/-- What holds of the texts without a separator, and of a text once it holds of the two sides of one
of its separators, holds of every text. -/
@[elab_as_elim]
theorem separator_induction {P : List Char → Prop}
    (unbroken : ∀ cs, (∀ c ∈ cs, ¬ IsSeparator c) → P cs)
    (cut : ∀ a c b, IsSeparator c → P a → P b → P (a ++ c :: b)) (cs : List Char) : P cs := by
  induction h : cs.length using Nat.strong_induction_on generalizing cs with
  | _ n ih =>
    by_cases hcs : ∃ c ∈ cs, IsSeparator c
    · obtain ⟨c, hmem, hc⟩ := hcs
      obtain ⟨a, b, rfl⟩ := List.append_of_mem hmem
      simp only [List.length_append, List.length_cons] at h
      exact cut a c b hc (ih a.length (by omega) a rfl) (ih b.length (by omega) b rfl)
    · exact unbroken cs fun c hmem hc => hcs ⟨c, hmem, hc⟩

section Count

/-- The number of words of a list of characters. -/
def countWordsIn (cs : List Char) : Nat :=
  (pieces isWordBreak cs).countP fun run => !run.all isBlank

theorem countWords_eq (s : String) : countWords s = countWordsIn s.toList :=
  rfl

theorem pieces_of_unbroken (h : ∀ c ∈ cs, ¬ IsSeparator c) : pieces isWordBreak cs = [cs] := by
  refine pieces_of_forall fun c hc => ?_
  simpa [← isWordBreak_iff] using h c hc

theorem countWordsIn_of_unbroken (h : ∀ c ∈ cs, ¬ IsSeparator c) :
    countWordsIn cs = if cs.all isBlank then 0 else 1 := by
  rw [countWordsIn, pieces_of_unbroken h, List.countP_singleton]
  cases cs.all isBlank <;> rfl

theorem countWordsIn_cut (hc : IsSeparator c) (a b : List Char) :
    countWordsIn (a ++ c :: b) = countWordsIn a + countWordsIn b := by
  rw [countWordsIn, pieces_append_cons (isWordBreak_iff.mpr hc), List.countP_append]
  rfl

@[simp] theorem countWordsIn_nil : countWordsIn [] = 0 :=
  rfl

theorem countWordsIn_cons (hc : IsSeparator c) (b : List Char) :
    countWordsIn (c :: b) = countWordsIn b := by
  simpa using countWordsIn_cut hc [] b

theorem countWordsIn_append_of_separators (h : ∀ c ∈ seps, IsSeparator c) (b : List Char) :
    countWordsIn (seps ++ b) = countWordsIn b := by
  induction seps with
  | nil => rfl
  | cons c seps ih =>
    rw [List.cons_append, countWordsIn_cons (h c (List.mem_cons_self ..)),
      ih fun d hd => h d (List.mem_cons_of_mem _ hd)]

/-- Any number of separators, but at least one, splits the count. -/
theorem countWordsIn_separated (h : ∀ c ∈ seps, IsSeparator c) (hne : seps ≠ [])
    (a b : List Char) : countWordsIn (a ++ seps ++ b) = countWordsIn a + countWordsIn b := by
  obtain ⟨c, seps, rfl⟩ := List.exists_cons_of_ne_nil hne
  rw [List.append_assoc, List.cons_append, countWordsIn_cut (h c (List.mem_cons_self ..)),
    countWordsIn_append_of_separators fun d hd => h d (List.mem_cons_of_mem _ hd)]

theorem countWordsIn_append_separators (h : ∀ c ∈ seps, IsSeparator c) (a : List Char) :
    countWordsIn (a ++ seps) = countWordsIn a := by
  cases seps with
  | nil => rw [List.append_nil]
  | cons c seps => simpa using countWordsIn_separated h (List.cons_ne_nil c seps) a []

theorem countWordsIn_concat_of_blank (hc : isBlank c = true) (cs : List Char) :
    countWordsIn (cs ++ [c]) = countWordsIn cs := by
  by_cases hsep : IsSeparator c
  · exact countWordsIn_cut hsep cs []
  · induction cs using separator_induction with
    | unbroken cs h =>
      have hall : ∀ d ∈ cs ++ [c], ¬ IsSeparator d :=
        List.forall_mem_append.mpr ⟨h, List.forall_mem_singleton.mpr hsep⟩
      simp [countWordsIn_of_unbroken hall, countWordsIn_of_unbroken h, hc]
    | cut a d b hd _ ihb =>
      rw [List.append_assoc, List.cons_append, countWordsIn_cut hd, countWordsIn_cut hd, ihb]

theorem countWordsIn_append_le (a b : List Char) :
    countWordsIn (a ++ b) ≤ countWordsIn a + countWordsIn b ∧
      countWordsIn a + countWordsIn b ≤ countWordsIn (a ++ b) + 1 := by
  induction a using separator_induction with
  | cut a₁ c a₂ hc _ ih =>
    rw [List.append_assoc, List.cons_append, countWordsIn_cut hc, countWordsIn_cut hc]
    omega
  | unbroken a ha =>
    induction b using separator_induction with
    | cut b₁ c b₂ hc ih _ =>
      rw [← List.append_assoc, countWordsIn_cut hc, countWordsIn_cut hc]
      omega
    | unbroken b hb =>
      -- Two runs meet and become one, so at most one of two words is lost.
      have hab : ∀ c ∈ a ++ b, ¬ IsSeparator c := List.forall_mem_append.mpr ⟨ha, hb⟩
      rw [countWordsIn_of_unbroken hab, countWordsIn_of_unbroken ha, countWordsIn_of_unbroken hb,
        List.all_append]
      cases a.all isBlank <;> cases b.all isBlank <;> decide

/-- The text before the part that is switched is carried along, for a word may reach into it. -/
theorem LinesSwitched.countWordsIn_append (h : LinesSwitched a b) (cs : List Char) :
    countWordsIn (cs ++ a) = countWordsIn (cs ++ b) := by
  have hfeed : IsSeparator '\n' := .inr rfl
  -- A carriage return is blank and ends no word, so it only adds to the run before it.
  have hreturn (cs rest : List Char) :
      countWordsIn (cs ++ '\r' :: '\n' :: rest) = countWordsIn (cs ++ '\n' :: rest) := by
    rw [List.append_cons, countWordsIn_cut hfeed, countWordsIn_cut hfeed,
      countWordsIn_concat_of_blank (by decide)]
  induction h generalizing cs with
  | nil => rfl
  | keep c _ ih => simpa using ih (cs ++ [c])
  | @lengthen as bs _ ih =>
    have hrest : countWordsIn as = countWordsIn bs := ih []
    rw [hreturn, countWordsIn_cut hfeed, countWordsIn_cut hfeed, hrest]
  | @shorten as bs _ ih =>
    have hrest : countWordsIn as = countWordsIn bs := ih []
    rw [hreturn, countWordsIn_cut hfeed, countWordsIn_cut hfeed, hrest]

end Count

section Words

/-- The run in a text that goes on. -/
def Run.followedBy (t : List Char) (r : Run) : Run :=
  { r with after := r.after ++ t }

/-- The run in a text that starts earlier. -/
def Run.precededBy (t : List Char) (r : Run) : Run :=
  { r with before := t ++ r.before }

theorem Run.followedBy_injective (t : List Char) : (Run.followedBy t).Injective := by
  intro r q h
  simpa [followedBy, Run.ext_iff] using h

theorem Run.precededBy_injective (t : List Char) : (Run.precededBy t).Injective := by
  intro r q h
  simpa [precededBy, Run.ext_iff] using h

/-- A text without a separator is one run. -/
theorem Run.isMaximal_iff_of_unbroken {r : Run} (h : ∀ c ∈ cs, ¬ IsSeparator c) :
    r.IsMaximal cs ↔ r = ⟨[], cs, []⟩ := by
  constructor
  · rintro ⟨rfl, -, starts, ends⟩
    have hbefore : r.before = [] := by
      refine List.getLast?_eq_none_iff.mp (Option.eq_none_iff_forall_not_mem.mpr fun c hc => ?_)
      exact h c (by simp [List.mem_of_getLast? hc]) (starts c hc)
    have hafter : r.after = [] := by
      refine List.head?_eq_none_iff.mp (Option.eq_none_iff_forall_not_mem.mpr fun c hc => ?_)
      exact h c (by simp [List.mem_of_head? hc]) (ends c hc)
    ext1 <;> simp [hbefore, hafter]
  · rintro rfl
    exact ⟨by simp, h, by simp, by simp⟩

/-- A part of a list without a given member lies on one side of each place where that stands. -/
theorem eq_append_or_of_not_mem {xs run ys : List Char} (hrun : c ∉ run)
    (h : xs ++ run ++ ys = a ++ c :: b) :
    (∃ d, a = xs ++ run ++ d ∧ ys = d ++ c :: b) ∨ ∃ d, xs = a ++ c :: d ∧ b = d ++ run ++ ys := by
  rcases List.append_eq_append_iff.mp h with ⟨d, ha, hys⟩ | ⟨_ | ⟨e, d⟩, hleft, hright⟩
  · exact .inl ⟨d, ha, hys⟩
  · exact .inl ⟨[], by simpa using hleft.symm, by simpa using hright.symm⟩
  · obtain ⟨rfl, rfl⟩ := List.cons.inj hright
    rcases List.append_eq_append_iff.mp hleft with ⟨l, -, rfl⟩ | ⟨_ | ⟨e, l⟩, hxs, hcons⟩
    · simp at hrun
    · rw [List.nil_append] at hcons
      simp [← hcons] at hrun
    · obtain ⟨rfl, rfl⟩ := List.cons.inj hcons
      exact .inr ⟨l, hxs, rfl⟩

/-- A maximal run stands on one side of each separator. -/
theorem Run.isMaximal_cut_iff {r : Run} (hc : IsSeparator c) :
    r.IsMaximal (a ++ c :: b) ↔
      (∃ q : Run, q.IsMaximal a ∧ q.followedBy (c :: b) = r) ∨
        ∃ q : Run, q.IsMaximal b ∧ q.precededBy (a ++ [c]) = r := by
  constructor
  · obtain ⟨before, letters, after⟩ := r
    rintro ⟨cut, unbroken, starts, ends⟩
    rcases eq_append_or_of_not_mem (fun h => unbroken c h hc) cut with ⟨d, rfl, rfl⟩ | ⟨d, rfl, rfl⟩
    · refine .inl ⟨⟨before, letters, d⟩, ⟨rfl, unbroken, starts, fun e he => ?_⟩, rfl⟩
      exact ends e (List.mem_head?_append_of_mem_head? he)
    · refine .inr ⟨⟨d, letters, after⟩, ⟨rfl, unbroken, fun e he => ?_, ends⟩, ?_⟩
      · exact starts e (List.mem_getLast?_append_of_mem_getLast? (List.mem_getLast?_cons he))
      · simp [precededBy]
  · rintro (⟨q, ⟨rfl, unbroken, starts, ends⟩, rfl⟩ | ⟨q, ⟨rfl, unbroken, starts, ends⟩, rfl⟩)
    · refine ⟨by simp [followedBy], unbroken, starts, fun d hd => ?_⟩
      cases h : q.after with
      | nil => simp [followedBy, h] at hd; exact hd ▸ hc
      | cons e l => exact ends d (by simpa [followedBy, h] using hd)
    · refine ⟨by simp [precededBy], unbroken, fun d hd => ?_, ends⟩
      cases h : q.before with
      | nil => simp [precededBy, h] at hd; exact hd ▸ hc
      | cons e l => exact starts d (by simpa [precededBy, h, List.getLast?_append_cons] using hd)

theorem words_cut (hc : IsSeparator c) :
    words (a ++ c :: b) =
      Run.followedBy (c :: b) '' words a ∪ Run.precededBy (a ++ [c]) '' words b := by
  ext r
  constructor
  · rintro ⟨hmax, hink⟩
    rcases (Run.isMaximal_cut_iff hc).mp hmax with ⟨q, hq, rfl⟩ | ⟨q, hq, rfl⟩
    · exact .inl ⟨q, ⟨hq, hink⟩, rfl⟩
    · exact .inr ⟨q, ⟨hq, hink⟩, rfl⟩
  · rintro (⟨q, ⟨hq, hink⟩, rfl⟩ | ⟨q, ⟨hq, hink⟩, rfl⟩)
    · exact ⟨(Run.isMaximal_cut_iff hc).mpr (.inl ⟨q, hq, rfl⟩), hink⟩
    · exact ⟨(Run.isMaximal_cut_iff hc).mpr (.inr ⟨q, hq, rfl⟩), hink⟩

/-- A run before a separator is none behind it. -/
theorem not_mem_precededBy {r : Run} (h : r ∈ Run.followedBy (c :: b) '' words a) :
    r ∉ Run.precededBy (a ++ [c]) '' words b := by
  rintro ⟨q, -, heq⟩
  obtain ⟨r, ⟨⟨rfl, -, -, -⟩, -⟩, rfl⟩ := h
  have hlen := congrArg (List.length ∘ Run.before) heq
  simp [Run.followedBy, Run.precededBy] at hlen

/-- The count is the number of words. -/
theorem encard_words (cs : List Char) : (words cs).encard = countWordsIn cs := by
  induction cs using separator_induction with
  | unbroken cs h =>
    rw [countWordsIn_of_unbroken h]
    split
    · next hblank =>
      refine Set.encard_eq_zero.mpr (Set.eq_empty_iff_forall_notMem.mpr ?_)
      rintro r ⟨hmax, c, hmem, hc⟩
      rw [(Run.isMaximal_iff_of_unbroken h).mp hmax] at hmem
      simp [List.all_eq_true.mp hblank c hmem] at hc
    · next hink =>
      obtain ⟨c, hmem, hc⟩ : ∃ c ∈ cs, isBlank c = false := by simpa using hink
      refine Set.encard_eq_one.mpr ⟨⟨[], cs, []⟩, Set.eq_singleton_iff_unique_mem.mpr ⟨?_, ?_⟩⟩
      · exact ⟨(Run.isMaximal_iff_of_unbroken h).mpr rfl, c, hmem, hc⟩
      · exact fun r hr => (Run.isMaximal_iff_of_unbroken h).mp hr.1
  | cut a c b hc iha ihb =>
    rw [words_cut hc, Set.encard_union_eq (Set.disjoint_left.mpr fun r hr => not_mem_precededBy hr),
      (Run.followedBy_injective _).encard_image, (Run.precededBy_injective _).encard_image,
      iha, ihb, countWordsIn_cut hc, Nat.cast_add]

end Words

/-- A word count is the number of words, splits at any separators, does not depend on how lines end,
and is off by at most one where two texts meet without a separator. -/
theorem countWords_counts_runs (a : String) :
    (words a.toList).encard = countWords a ∧
      (∀ seps b : String, (∀ c ∈ seps.toList, IsSeparator c) →
        countWords (seps ++ b) = countWords b ∧ countWords (a ++ seps) = countWords a ∧
          (seps ≠ "" → countWords (a ++ seps ++ b) = countWords a + countWords b)) ∧
      (∀ b : String, LinesSwitched a.toList b.toList → countWords a = countWords b) ∧
      ∀ b : String, (countWords a + countWords b - 1 : ℤ) ≤ countWords (a ++ b) ∧
        countWords (a ++ b) ≤ countWords a + countWords b := by
  simp only [countWords_eq, String.toList_append]
  refine ⟨encard_words _, fun seps b h => ⟨?_, ?_, fun hne => ?_⟩, fun b h => ?_, fun b => ?_⟩
  · exact countWordsIn_append_of_separators h _
  · exact countWordsIn_append_separators h _
  · exact countWordsIn_separated h (by simpa using hne) _ _
  · exact h.countWordsIn_append []
  · have := countWordsIn_append_le a.toList b.toList
    omega

/-- Separators in a row end one word only, and a tab ends none. -/
theorem countWords_counts_runs_sample :
    (∀ c ∈ " \n".toList, IsSeparator c) ∧
      countWords ("to do" ++ " \n" ++ "a\tb") = 3 ∧
      LinesSwitched "one\ntwo".toList "one\r\ntwo".toList ∧ countWords "one\r\ntwo" = 2 := by
  have hseps : ∀ c ∈ " \n".toList, IsSeparator c :=
    List.forall_mem_cons.mpr ⟨.inl rfl, List.forall_mem_singleton.mpr (.inr rfl)⟩
  have hlines : LinesSwitched "one\ntwo".toList "one\r\ntwo".toList :=
    .keep _ (.keep _ (.keep _ (.lengthen (.keep _ (.keep _ (.keep _ .nil))))))
  obtain ⟨-, hseparated, -, -⟩ := countWords_counts_runs "to do"
  obtain ⟨-, -, hswitched, -⟩ := countWords_counts_runs "one\ntwo"
  refine ⟨hseps, ?_, hlines, (hswitched _ hlines).symm.trans (by decide)⟩
  exact ((hseparated " \n" "a\tb" hseps).2.2 (by decide)).trans (by decide)

end ItemMetrics.Text
