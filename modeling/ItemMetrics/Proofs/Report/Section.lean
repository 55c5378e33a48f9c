import ItemMetrics.Proofs.Report.Color
import ItemMetrics.Proofs.Report.Totals

/-! # What a report lists

The lines of the types end before the first that is not registered (`Report.typeLines_append`). As
the types increase that is the smallest of those that occur (`Report.exists_section`), wherever among
the items it occurs, so items in any order are reported under the same lines, and what follows these
is the block of each item (`Report.console_lists`). -/

namespace ItemMetrics.Report

variable {colors : Bool} {registry : Registry} {items items' : List Item} {type : String}
  {before after totals : List (String × Nat)} {total : String × Nat} {lines : List String}

/-- A text between the codes that turn a style on and off, where colours are wanted. -/
def styled (colors : Bool) (on off s : String) : String :=
  if colors then "\x1b[" ++ on ++ "m" ++ s ++ "\x1b[" ++ off ++ "m" else s

/-- The title, underlined over the width of the report, and an empty line. -/
def title (colors : Bool) : String :=
  styled colors "1" "0" "Summary Report" ++ "\n" ++
    "============================================================" ++ "\n\n"

/-- The line about a type that is registered: its schema and the number of its items. -/
def ListsType (colors : Bool) (registry : Registry) (total : String × Nat) (text : String) : Prop :=
  ∃ m ∈ registry.manifests, m.type.text = total.1 ∧
    text = "Type: " ++ styled colors "1" "0" (styled colors "36" "39" total.1) ++
      " (schema: " ++ m.schema.text ++ ") -> " ++ toString total.2 ++ " item(s)" ++ "\n"

/-- The smallest type that occurs among the items and is not registered. -/
structure Missing (registry : Registry) (items : List Item) (type : String) : Prop where
  occurs : ∃ item ∈ items, item.evaluation.type = type
  unregistered : type ∉ registry.types
  least : ∀ item ∈ items, item.evaluation.type ∉ registry.types →
    item.evaluation.type = type ∨ Text.bytes type < Text.bytes item.evaluation.type

/-- The lines of the types that occur, and the type at which they stop. -/
inductive Section (colors : Bool) (registry : Registry) (items : List Item) :
    List String → Option String → Prop
  | complete {lines : List String} : (∀ item ∈ items, item.evaluation.type ∈ registry.types) →
    List.Forall₂ (ListsType colors registry) (tally items) lines →
    Section colors registry items lines none
  | stopped {lines : List String} {type : String} : Missing registry items type →
    List.Forall₂ (ListsType colors registry)
      ((tally items).filter fun total => Text.bytes total.1 < Text.bytes type) lines →
    Section colors registry items lines (some type)

/-- The line about one value of an item. -/
def valueText (colors : Bool) (entry : String × Scalar) : String :=
  "  - " ++ styled colors "32" "39" entry.1 ++ ": " ++ entry.2.display ++ "\n"

/-- The lines about an item: what it is, its values in their order, and an empty line. -/
def itemText (colors : Bool) (item : Item) : String :=
  "Item " ++ styled colors "1" "0" item.id ++ " [" ++ styled colors "36" "39" item.type ++ "]" ++
    "\n" ++ String.join (item.evaluation.values.entries.map (valueText colors)) ++ "\n"

/-- A report with its lines of types: then the items, or nothing after a type that is missing. -/
def report (colors : Bool) (items : List Item) (lines : List String) :
    Option String → String × Except RegistryError Unit
  | none =>
    (title colors ++ String.join lines ++ "\n" ++ String.join (items.map (itemText colors)), .ok ())
  | some type => (title colors ++ String.join lines, .error (.unregistered type))

/-! ## Single lines -/

theorem apply_eq_styled (style : Style) (s : String) :
    style.apply s = styled true style.codes.1 style.codes.2 s := by
  simp only [Style.apply, Style.sequence, styled, if_true, String.append_assoc]

/-- Painting styles a text from the inside out. -/
theorem paint_eq_styled (colors : Bool) (styles : List Style) (s : String) :
    Style.paint colors styles s =
      styles.foldl (fun s style => styled colors style.codes.1 style.codes.2 s) s := by
  cases colors with
  | false =>
    induction styles with
    | nil => rfl
    | cons style styles ih => exact ih
  | true => simp only [Style.paint, if_true, apply_eq_styled]

theorem banner_eq (colors : Bool) : banner colors = title colors := by
  cases colors <;> decide +kernel

theorem typeLine_eq (colors : Bool) (type schema : String) (n : Nat) :
    typeLine colors type schema n =
      "Type: " ++ styled colors "1" "0" (styled colors "36" "39" type) ++ " (schema: " ++ schema ++
        ") -> " ++ toString n ++ " item(s)" ++ "\n" := by
  rw [typeLine, paint_eq_styled]
  rfl

theorem valueLine_eq (colors : Bool) (entry : String × Scalar) :
    valueLine colors entry = valueText colors entry := by
  rw [valueLine, paint_eq_styled]
  rfl

theorem itemBlock_eq (colors : Bool) (item : Item) :
    itemBlock colors item = itemText colors item := by
  have hvalues : valueLine colors = valueText colors := funext (valueLine_eq colors)
  rw [itemBlock, paint_eq_styled, paint_eq_styled, hvalues]
  rfl

/-! ## The lines of the types -/

theorem typeLines_of_not_mem (h : total.1 ∉ registry.types) :
    typeLines colors registry (total :: after) = ("", .error (.unregistered total.1)) := by
  rw [typeLines, Registry.get_eq_error_iff.mpr ⟨h, rfl⟩]

/-- Types that are registered are listed in front of what becomes of the others. -/
theorem typeLines_append (colors : Bool) (h : ∀ total ∈ before, total.1 ∈ registry.types)
    (after : List (String × Nat)) :
    ∃ lines, List.Forall₂ (ListsType colors registry) before lines ∧
      typeLines colors registry (before ++ after) =
        (String.join lines ++ (typeLines colors registry after).1,
          (typeLines colors registry after).2) := by
  induction before with
  | nil => exact ⟨[], .nil, by simp⟩
  | cons total before ih =>
    obtain ⟨htotal, hbefore⟩ := List.forall_mem_cons.mp h
    obtain ⟨lines, hlines, heq⟩ := ih hbefore
    obtain ⟨m, hm⟩ := Registry.exists_get_iff.mpr htotal
    obtain ⟨hmem, htype⟩ := Registry.get_eq_ok_iff.mp hm
    have hline := typeLine_eq colors total.1 m.schema.text total.2
    refine ⟨_ :: lines, .cons ⟨m, hmem, htype, hline⟩ hlines, ?_⟩
    rw [List.cons_append, typeLines, hm, heq, String.join_cons, String.append_assoc]

/-- In front of a type stand those that are smaller. -/
theorem Totals.filter_eq (h : Totals items (before ++ total :: after)) :
    (before ++ total :: after).filter (fun t => Text.bytes t.1 < Text.bytes total.1) = before := by
  obtain ⟨-, hafter, hcross⟩ := List.pairwise_append.mp h.increasing
  have hbefore : before.filter (fun t => Text.bytes t.1 < Text.bytes total.1) = before :=
    List.filter_eq_self.mpr fun t ht =>
      decide_eq_true (hcross t ht total List.mem_cons_self)
  have hrest : (total :: after).filter (fun t => Text.bytes t.1 < Text.bytes total.1) = [] := by
    refine List.filter_eq_nil_iff.mpr fun t ht => ?_
    rw [decide_eq_true_eq]
    rcases List.mem_cons.mp ht with rfl | ht
    · exact List.lt_irrefl _
    · exact List.lt_asymm (List.rel_of_pairwise_cons hafter ht)
  rw [List.filter_append, hbefore, hrest, List.append_nil]

/-- Of the types in increasing order the first that is not registered is the smallest. -/
theorem missing_of_tally (htally : tally items = before ++ total :: after)
    (hbefore : ∀ t ∈ before, t.1 ∈ registry.types) (htotal : total.1 ∉ registry.types) :
    Missing registry items total.1 where
  occurs := mem_map_fst_tally.mp (List.mem_map_of_mem (htally ▸ List.mem_append_cons_self))
  unregistered := htotal
  least item hitem hnot := by
    obtain ⟨t, ht, htype⟩ := List.mem_map.mp (mem_map_fst_tally.mpr ⟨item, hitem, rfl⟩)
    rw [← htype] at hnot ⊢
    rw [htally, List.mem_append, List.mem_cons] at ht
    have hincreasing := (totals_tally items).increasing
    rw [htally, List.pairwise_append] at hincreasing
    rcases ht with ht | rfl | ht
    · exact absurd (hbefore t ht) hnot
    · exact .inl rfl
    · exact .inr (List.rel_of_pairwise_cons hincreasing.2.1 ht)

theorem exists_section (colors : Bool) (registry : Registry) (items : List Item) :
    ∃ lines stop, Section colors registry items lines stop ∧
      typeLines colors registry (tally items) =
        (String.join lines, stop.elim (.ok ()) fun type => .error (.unregistered type)) := by
  cases hfind : (tally items).find? fun total => total.1 ∉ registry.types with
  | none =>
    have hall : ∀ total ∈ tally items, total.1 ∈ registry.types := by
      simpa using List.find?_eq_none.mp hfind
    obtain ⟨lines, hlines, heq⟩ := typeLines_append colors hall []
    refine ⟨lines, none, .complete (fun item hitem => ?_) hlines, ?_⟩
    · obtain ⟨t, ht, htype⟩ := List.mem_map.mp (mem_map_fst_tally.mpr ⟨item, hitem, rfl⟩)
      exact htype ▸ hall t ht
    · rw [List.append_nil] at heq
      rw [heq, typeLines, String.append_empty]
      rfl
  | some total =>
    obtain ⟨htotal, before, after, htally, hbefore⟩ := List.find?_eq_some_iff_append.mp hfind
    have hnot : total.1 ∉ registry.types := by simpa using htotal
    have hall : ∀ t ∈ before, t.1 ∈ registry.types := by simpa using hbefore
    obtain ⟨lines, hlines, heq⟩ := typeLines_append colors hall (total :: after)
    refine ⟨lines, some total.1, .stopped (missing_of_tally htally hall hnot) ?_, ?_⟩
    · have htotals : Totals items (before ++ total :: after) := htally ▸ totals_tally items
      rwa [htally, htotals.filter_eq]
    · rw [htally, heq, typeLines_of_not_mem hnot, String.append_empty]
      rfl

/-! ## The whole report -/

theorem tally_ne_nil (h : items ≠ []) : tally items ≠ [] := by
  obtain ⟨item, hitem⟩ := List.exists_mem_of_ne_nil items h
  have hmem := mem_map_fst_tally.mpr ⟨item, hitem, rfl⟩
  intro hnil
  rw [hnil] at hmem
  cases hmem

theorem console_eq_report {stop : Option String} (hitems : items ≠ [])
    (h : typeLines colors registry (tally items) =
      (String.join lines, stop.elim (.ok ()) fun type => .error (.unregistered type))) :
    console colors registry items = report colors items lines stop := by
  cases stop with
  | none =>
    have hblocks : itemBlock colors = itemText colors := funext (itemBlock_eq colors)
    rw [console_of_lines (tally_ne_nil hitems) h, banner_eq, hblocks]
    rfl
  | some type =>
    rw [console_of_error h, banner_eq]
    rfl

/-- **What a report lists.** The types that occur are listed in increasing order, each once and with
the number of its items, and after them the items in their own order. If a type is not registered the
report ends with an error at the smallest such type, after the lines of the types before it. The
lines are the same for the items in any other order. -/
theorem console_lists (colors : Bool) (registry : Registry) (hitems : items ≠ []) :
    Totals items (tally items) ∧ ((tally items).map Prod.snd).sum = items.length ∧
      ((console colors registry items).2 ≠ .ok () ↔
        ∃ item ∈ items, item.evaluation.type ∉ registry.types) ∧
      ∃ lines stop, Section colors registry items lines stop ∧
        ∀ items' : List Item, items'.Perm items →
          console colors registry items' = report colors items' lines stop := by
  obtain ⟨lines, stop, hsection, hlines⟩ := exists_section colors registry items
  refine ⟨totals_tally items, sum_tally items, ?_, lines, stop, hsection, fun items' hperm => ?_⟩
  · rw [ne_eq, console_eq_ok_iff]
    simp
  · have htally : tally items' = tally items :=
      (totals_tally items).eq_of_perm (totals_tally items') hperm
    have hitems' : items' ≠ [] := fun hnil => hitems (hnil ▸ hperm).nil_eq.symm
    exact console_eq_report hitems' (htally ▸ hlines)

/-- Items of three types, the first and the third of which are not registered. -/
def mixedItems : List Item :=
  [⟨"t-1", "task", ⟨"task", .ofList [("done", .boolean true)], []⟩⟩,
    ⟨"n-1", "note", ⟨"note", .ofList [("words", .integer 12)], []⟩⟩,
    ⟨"p-1", "plan", ⟨"plan", ∅, []⟩⟩, ⟨"n-2", "note", ⟨"note", ∅, []⟩⟩]

/-- Items of one type that is registered, the second of which has no values and goes by another
name. -/
def noteItems : List Item :=
  [⟨"n-1", "note", ⟨"note", .ofList [("words", .integer 12), ("read", .boolean true)], []⟩⟩,
    ⟨"n-2", "memo", ⟨"note", ∅, []⟩⟩]

/-- The notes are counted and the plan is what is missing, also when the items come in reverse. Where
nothing is missing the items follow, here with colours. -/
theorem console_lists_mixed :
    mixedItems ≠ [] ∧ Totals mixedItems (tally mixedItems) ∧
      console false sampleRegistry mixedItems.reverse =
        ("Summary Report\n============================================================\n\n" ++
          "Type: note (schema: notes.json) -> 2 item(s)\n", .error (.unregistered "plan")) ∧
      noteItems ≠ [] ∧
      console true sampleRegistry noteItems =
        ("\x1b[1mSummary Report\x1b[0m\n" ++
          "============================================================\n\n" ++
          "Type: \x1b[1m\x1b[36mnote\x1b[39m\x1b[0m (schema: notes.json) -> 2 item(s)\n\n" ++
          "Item \x1b[1mn-1\x1b[0m [\x1b[36mnote\x1b[39m]\n" ++
          "  - \x1b[32mwords\x1b[39m: 12\n  - \x1b[32mread\x1b[39m: true\n\n" ++
          "Item \x1b[1mn-2\x1b[0m [\x1b[36mmemo\x1b[39m]\n\n", .ok ()) := by
  have hmixed : mixedItems ≠ [] := List.cons_ne_nil _ _
  have hnotes : noteItems ≠ [] := List.cons_ne_nil _ _
  obtain ⟨htotals, -, -, lines, stop, -, hreport⟩ := console_lists false sampleRegistry hmixed
  obtain ⟨-, -, -, lines', stop', hsection', hreport'⟩ := console_lists true sampleRegistry hnotes
  refine ⟨hmixed, htotals, ?_, hnotes, ?_⟩
  · have hself := hreport mixedItems (.refl _)
    have htext : console false sampleRegistry mixedItems =
        ("Summary Report\n============================================================\n\n" ++
          "Type: note (schema: notes.json) -> 2 item(s)\n", .error (.unregistered "plan")) := by
      decide +kernel
    cases stop with
    | none =>
      have houtcome : Except.error (RegistryError.unregistered "plan") = Except.ok () :=
        congrArg Prod.snd (htext.symm.trans hself)
      cases houtcome
    | some type =>
      rw [hreport _ (List.reverse_perm mixedItems), ← htext, hself]
      rfl
  · have htally : tally noteItems = [("note", 2)] := by decide +kernel
    cases hsection' with
    | stopped hmissing =>
      obtain ⟨⟨item, hitem, rfl⟩, hunregistered, -⟩ := hmissing
      have hall : ∀ item ∈ noteItems, item.evaluation.type ∈ sampleRegistry.types := by
        decide +kernel
      exact absurd (hall item hitem) hunregistered
    | complete _ hlines =>
      rw [htally] at hlines
      cases hlines with
      | cons hline hnil =>
        cases hnil
        obtain ⟨m, hm, -, rfl⟩ := hline
        cases List.mem_singleton.mp hm
        rw [hreport' noteItems (.refl _)]
        decide +kernel

end ItemMetrics.Report
