import ItemMetrics.Evaluator.Definitions
import ItemMetrics.Proofs.Except
import ItemMetrics.Registry.Basic

/-! # What the name of a document is for

The name of a document decides its format and stands in errors; what is read does not depend on it
otherwise. So a document counts only through its contents: the value at a path is `Contents.value?`
of what stands there (`Document.toOption_load`), and with it the definition and the manifest in it
are fixed (`Document.toOption_definition`, `Document.toOption_manifest`). -/

namespace ItemMetrics

/-! ## Fields -/

namespace Json

variable {payload : Json} {key owner owner' field field' : String}

theorem requireLabel_eq_ok_iff {l : Label} :
    payload.requireLabel key owner = .ok l ↔ (payload.get? key).bind label? = some l := by
  unfold requireLabel
  split
  · next h => simp [h]
  · next h => simp [h]

theorem requireLabel_congr {ε : Type} {g g' : FieldError → ε} :
    ((payload.requireLabel key owner).mapError g).toOption =
      ((payload.requireLabel key owner').mapError g').toOption := by
  ext l
  simp only [Except.toOption_mapError, Except.toOption_eq_some_iff, requireLabel_eq_ok_iff]

/-- A list of labels is absent, null, or an array that holds nothing else. -/
theorem labels_eq_ok_iff {ls : List Label} :
    payload.labels key field = .ok ls ↔
      (payload.get? key = none ∨ payload.get? key = some .null) ∧ ls = [] ∨
        ∃ items, payload.get? key = some (.array items) ∧ items.map label? = ls.map some := by
  unfold labels
  split
  · next h => simp [h, eq_comm]
  · next h => simp [h, eq_comm]
  · next items h =>
    rw [Except.mapM_eq_ok_iff]
    simp only [h, reduceCtorEq, Option.some.injEq, false_or, false_and, array.injEq, exists_eq_left']
    refine iff_of_eq (congrArg (· = ls.map some) (List.map_congr_left fun item _ => ?_))
    cases item.label? <;> rfl
  · next value hnull harray h =>
    simp only [h, reduceCtorEq, Option.some.injEq, false_or, false_iff]
    rintro (⟨rfl, -⟩ | ⟨items, rfl, -⟩)
    · exact hnull rfl
    · exact harray items rfl

theorem labels_congr {ε : Type} {g g' : FieldError → ε} :
    ((payload.labels key field).mapError g).toOption =
      ((payload.labels key field').mapError g').toOption := by
  ext ls
  simp only [Except.toOption_mapError, Except.toOption_eq_some_iff, labels_eq_ok_iff]

theorem bind_string?_eq_some_iff {value : Option Json} {s : String} :
    value.bind string? = some s ↔ value = some (.string s) := by
  constructor
  · intro h
    obtain ⟨v, rfl, hv⟩ := Option.bind_eq_some_iff.mp h
    cases v <;> cases hv
    rfl
  · rintro rfl
    rfl

theorem bind_array?_eq_some_iff {value : Option Json} {items : List Json} :
    value.bind array? = some items ↔ value = some (.array items) := by
  constructor
  · intro h
    obtain ⟨v, rfl, hv⟩ := Option.bind_eq_some_iff.mp h
    cases v <;> cases hv
    rfl
  · rintro rfl
    rfl

/-- A label is the text of a field, less the blanks around it. -/
theorem bind_label?_eq_some_iff {value : Option Json} {l : Label} :
    value.bind label? = some l ↔ ∃ s, value = some (.string s) ∧ Text.trim s = l.text := by
  constructor
  · intro h
    obtain ⟨v, rfl, hlabel⟩ := Option.bind_eq_some_iff.mp h
    obtain ⟨s, hs, hl⟩ := Option.bind_eq_some_iff.mp hlabel
    cases v <;> cases hs
    exact ⟨s, rfl, Label.ofString?_eq_some_iff.mp hl⟩
  · rintro ⟨s, rfl, h⟩
    exact Label.ofString?_eq_some_iff.mpr h

end Json

/-! ## Definitions and manifests -/

theorem Metric.toOption_parse {payload : Json} {entry entry' source source' : String} :
    (Metric.parse payload entry source).toOption =
      (Metric.parse payload entry' source').toOption := by
  unfold Metric.parse
  refine Except.toOption_bind_congr Json.requireLabel_congr fun key => ?_
  refine Except.toOption_bind_congr Json.requireLabel_congr fun description => ?_
  refine Except.toOption_bind_congr Json.requireLabel_congr fun operation => ?_
  cases Metric.config? payload with
  | none => rfl
  | some config => exact Except.toOption_bind_congr Json.labels_congr fun dependsOn => rfl

namespace TypeDefinition

variable {payload : Json} {source source' : String} {d : TypeDefinition}

theorem toOption_readEntries {type : Label} {position position' : Nat} {seen : List Label}
    {entries : List Json} :
    (readEntries type source position seen entries).toOption =
      (readEntries type source' position' seen entries).toOption := by
  induction entries generalizing position position' seen with
  | nil => rfl
  | cons entry entries ih =>
    rw [readEntries, readEntries]
    split
    · refine Except.toOption_bind_congr Metric.toOption_parse fun metric => ?_
      split
      · rfl
      · exact Except.toOption_bind_congr ih fun metrics => rfl
    · rfl

/-- A definition has the type and the metrics that its document holds. -/
theorem ofJson_eq_ok_iff :
    ofJson payload source = .ok d ↔
      (payload.get? "type").bind Json.label? = some d.type ∧
        ∃ entries, (payload.get? "metrics").bind Json.array? = some entries ∧
          readEntries d.type source 1 [] entries = .ok d.metrics := by
  simp only [ofJson, Except.bind_eq_ok_iff, Except.mapError_eq_ok_iff, Json.requireLabel_eq_ok_iff]
  constructor
  · rintro ⟨type, htype, h⟩
    split at h
    · cases h
    · next entries hentries =>
      split at h
      · next metrics hmetrics =>
        cases h
        exact ⟨htype, entries, hentries, hmetrics⟩
      · cases h
  · rintro ⟨htype, entries, hentries, hmetrics⟩
    refine ⟨d.type, htype, ?_⟩
    split
    · next hnone => cases hnone.symm.trans hentries
    · next entries' hsome =>
      cases hsome.symm.trans hentries
      split
      · next metrics h =>
        cases h.symm.trans hmetrics
        rfl
      · next e h => cases h.symm.trans hmetrics

theorem toOption_ofJson : (ofJson payload source).toOption = (ofJson payload source').toOption := by
  ext d
  simp only [Except.toOption_eq_some_iff, ofJson_eq_ok_iff]
  refine and_congr_right fun _ => exists_congr fun entries => and_congr_right fun _ => ?_
  rw [← Except.toOption_eq_some_iff, ← Except.toOption_eq_some_iff, toOption_readEntries]

end TypeDefinition

theorem Manifest.toOption_ofJson {payload : Json} {source source' : String} :
    (Manifest.ofJson payload source).toOption = (Manifest.ofJson payload source').toOption := by
  unfold Manifest.ofJson
  split
  · rfl
  · refine Except.toOption_bind_congr Json.requireLabel_congr fun type => ?_
    refine Except.toOption_bind_congr Json.requireLabel_congr fun schema => ?_
    exact Except.toOption_bind_congr Json.labels_congr fun capabilities => rfl

/-! ## Documents -/

namespace Document

/-- A document without its name: its format, and its text or why there is none. -/
structure Contents where
  format : Option Format
  text : Except FileError String

/-- What stands at a path. -/
def contents (tree : FileTree) (path : String) : Contents :=
  ⟨Format.ofPath? path, tree.readText path⟩

/-- The value of a document, if it has one. -/
def Contents.value? (c : Contents) : Option Json := do
  let format ← c.format
  let text ← c.text.toOption
  if Text.allBlank text then some (.object [])
  else
    match format with
    | .yaml => (Yaml.read text).toOption
    | .json => (Json.read text).toOption

/-- The definition in a document, if there is one. -/
def Contents.definition? (c : Contents) : Option TypeDefinition :=
  c.value?.bind fun payload =>
    if payload.isObject then (TypeDefinition.ofJson payload "").toOption else none

/-- The manifest in a document, if there is one. -/
def Contents.manifest? (c : Contents) : Option Manifest :=
  c.value?.bind fun payload => (Manifest.ofJson payload "").toOption

variable {tree : FileTree} {path : String}

theorem toOption_load : (load tree path).toOption = (contents tree path).value? := by
  unfold load contents Contents.value?
  cases Format.ofPath? path with
  | none => rfl
  | some format =>
    dsimp only
    rw [Except.toOption_bind, Except.toOption_mapError]
    refine Option.bind_congr fun text _ => ?_
    split
    · rfl
    · cases format <;> exact Except.toOption_mapError _

theorem toOption_definition :
    (Definitions.read tree path).toOption = (contents tree path).definition? := by
  unfold Definitions.read Contents.definition?
  rw [Except.toOption_bind, Except.toOption_mapError, toOption_load]
  refine Option.bind_congr fun payload _ => ?_
  cases payload.isObject with
  | false => rfl
  | true => exact (Except.toOption_mapError _).trans TypeDefinition.toOption_ofJson

theorem toOption_manifest :
    (Registry.read tree path).toOption = (contents tree path).manifest? := by
  unfold Registry.read Contents.manifest?
  rw [Except.toOption_bind, Except.toOption_mapError, toOption_load]
  refine Option.bind_congr fun payload _ => ?_
  exact (Except.toOption_mapError _).trans Manifest.toOption_ofJson

end Document
end ItemMetrics
