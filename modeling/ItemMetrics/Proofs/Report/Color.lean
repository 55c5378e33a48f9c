import ItemMetrics.Proofs.Report.Console
import ItemMetrics.Proofs.Report.Style

/-! # The report with colours

Colours are all that the report with colours has more than the report without them
(`Report.console_unstyled`). Each part of the one is followed through beside the same part of the
other. -/

namespace ItemMetrics.Report

/-- The texts of an item that the report shows start no control sequence. -/
structure Item.EscapeFree (item : Item) : Prop where
  id : Report.EscapeFree item.id
  type : Report.EscapeFree item.type
  counted : Report.EscapeFree item.evaluation.type
  keys : ∀ entry ∈ item.evaluation.values.entries, Report.EscapeFree entry.1
  texts : ∀ entry ∈ item.evaluation.values.entries, ∀ s, entry.2 = .text s → Report.EscapeFree s

/-- What was written with styles and without them comes to the same. -/
structure Matches (painted plain : String × Except RegistryError Unit) : Prop where
  text : Unstyles painted.1 plain.1
  outcome : painted.2 = plain.2

variable {registry : Registry} {items : List Item} {item : Item} {cs : List (String × Nat)}
  {painted plain : String} {entry : String × Scalar}

theorem unstyles_line (h : Unstyles painted plain) : Unstyles (line painted) (line plain) :=
  h.concat (by decide)

theorem unstyles_banner : Unstyles (banner true) (banner false) := by
  have htitle : Unstyles (Style.paint true [.bold] "Summary Report")
      (Style.paint false [.bold] "Summary Report") := .paint _ (by decide)
  exact ((unstyles_line htitle).concat (by decide)).concat (by decide)

theorem unstyles_typeLine {type schema : String} (htype : EscapeFree type)
    (hschema : EscapeFree schema) (n : Nat) :
    Unstyles (typeLine true type schema n) (typeLine false type schema n) := by
  have hhead := (Unstyles.refl (s := "Type: ") (by decide)).append (.paint [.cyan, .bold] htype)
  have hline := (((hhead.concat (t := " (schema: ") (by decide)).concat hschema).concat
    (t := ") -> ") (by decide)).concat (escapeFree_nat n)
  exact unstyles_line (hline.concat (by decide))

theorem matches_typeLines (hregistry : ∀ m ∈ registry.manifests, EscapeFree m.schema.text)
    (htypes : ∀ c ∈ cs, EscapeFree c.1) :
    Matches (typeLines true registry cs) (typeLines false registry cs) := by
  induction cs with
  | nil => exact ⟨.nil, rfl⟩
  | cons c cs ih =>
    obtain ⟨type, n⟩ := c
    obtain ⟨htype, hrest⟩ := List.forall_mem_cons.mp htypes
    obtain ⟨htext, houtcome⟩ := ih hrest
    rw [typeLines, typeLines]
    cases hget : registry.get type with
    | error e => exact ⟨.nil, rfl⟩
    | ok m =>
      have hschema := hregistry m (Registry.get_eq_ok_iff.mp hget).1
      exact ⟨(unstyles_typeLine htype hschema n).append htext, houtcome⟩

theorem unstyles_valueLine (hkey : EscapeFree entry.1)
    (htext : ∀ s, entry.2 = .text s → EscapeFree s) :
    Unstyles (valueLine true entry) (valueLine false entry) := by
  have hhead := (Unstyles.refl (s := "  - ") (by decide)).append (.paint [.green] hkey)
  exact unstyles_line ((hhead.concat (by decide)).concat (escapeFree_display htext))

theorem unstyles_itemBlock (h : item.EscapeFree) :
    Unstyles (itemBlock true item) (itemBlock false item) := by
  have hid := (Unstyles.refl (s := "Item ") (by decide)).append (.paint [.bold] h.id)
  have htype := (hid.concat (t := " [") (by decide)).append (.paint [.cyan] h.type)
  have hvalues : Unstyles (String.join (item.evaluation.values.entries.map (valueLine true)))
      (String.join (item.evaluation.values.entries.map (valueLine false))) :=
    .join fun entry hentry => unstyles_valueLine (h.keys entry hentry) (h.texts entry hentry)
  exact ((unstyles_line (htype.concat (by decide))).append hvalues).concat (by decide)

theorem matches_console (hregistry : ∀ m ∈ registry.manifests, EscapeFree m.schema.text)
    (hitems : ∀ item ∈ items, item.EscapeFree) :
    Matches (console true registry items) (console false registry items) := by
  have htypes : ∀ c ∈ tally items, EscapeFree c.1 := by
    intro c hc
    obtain ⟨item, hitem, htype⟩ := mem_map_fst_tally.mp (List.mem_map_of_mem hc)
    rw [← htype]
    exact (hitems item hitem).counted
  have hblocks := Unstyles.join fun item hitem => unstyles_itemBlock (hitems item hitem)
  obtain ⟨htext, houtcome⟩ := matches_typeLines hregistry htypes
  rcases hpainted : typeLines true registry (tally items) with ⟨text, outcome⟩
  rcases hplain : typeLines false registry (tally items) with ⟨text', outcome'⟩
  rw [hpainted, hplain] at htext houtcome
  cases houtcome
  have hhead := unstyles_banner.append htext
  cases outcome with
  | error e =>
    rw [console_of_error hpainted, console_of_error hplain]
    exact ⟨hhead, rfl⟩
  | ok _ =>
    by_cases htally : tally items = []
    · rw [console_of_no_types htally, console_of_no_types htally]
      exact ⟨unstyles_banner.concat (by decide), rfl⟩
    · rw [console_of_lines htally hpainted, console_of_lines htally hplain]
      exact ⟨(hhead.concat (by decide)).append hblocks, rfl⟩

/-- **Colours change nothing but colours.** The report with colours succeeds when the one without
them does and fails with the same error. Without its style sequences, what was written of it is what
was written without colours, also before a failure. -/
theorem console_unstyled (registry : Registry) (items : List Item)
    (hregistry : ∀ m ∈ registry.manifests, EscapeFree m.schema.text)
    (hitems : ∀ item ∈ items, item.EscapeFree) :
    (console true registry items).2 = (console false registry items).2 ∧
      unstyled (console true registry items).1.toList =
        (console false registry items).1.toList := by
  obtain ⟨htext, houtcome⟩ := matches_console hregistry hitems
  exact ⟨houtcome, htext.unstyled_eq⟩

def sampleRegistry : Registry where
  manifests := [⟨⟨"note", by decide, by decide⟩, ⟨"notes.json", by decide, by decide⟩, []⟩]
  nodup := by decide

/-- A note and, later in the order of types, an item of a type that is not registered. -/
def sampleItems : List Item :=
  [⟨"t-1", "task", ⟨"task", ⟨[("done", .boolean true)], by decide⟩, []⟩⟩,
    ⟨"n-1", "note", ⟨"note", ⟨[("words", .integer 12), ("title", .text "A")], by decide⟩, []⟩⟩]

theorem console_unstyled_sample :
    (console true sampleRegistry sampleItems).2 = .error (.unregistered "task") ∧
      unstyled (console true sampleRegistry sampleItems).1.toList =
        (console false sampleRegistry sampleItems).1.toList ∧
      (console true sampleRegistry sampleItems).1 ≠
        (console false sampleRegistry sampleItems).1 := by
  have hitems : ∀ item ∈ sampleItems, item.EscapeFree := by
    refine List.forall_mem_cons.mpr ⟨?_, List.forall_mem_singleton.mpr ?_⟩
    · refine ⟨by decide, by decide, by decide, by decide, List.forall_mem_singleton.mpr ?_⟩
      intro s hs
      cases hs
    · refine ⟨by decide, by decide, by decide, by decide, List.forall_mem_cons.mpr ⟨?_, ?_⟩⟩
      · intro s hs
        cases hs
      · refine List.forall_mem_singleton.mpr fun s hs => ?_
        cases hs
        decide
  obtain ⟨houtcome, htext⟩ := console_unstyled sampleRegistry sampleItems (by decide) hitems
  exact ⟨houtcome.trans (by decide +kernel), htext, by decide +kernel⟩

end ItemMetrics.Report
