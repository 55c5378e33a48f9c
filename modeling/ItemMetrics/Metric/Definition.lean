import ItemMetrics.Document.Field

/-! Metrics as documents declare them, and the list of metrics that a document declares for one
type of item. -/

namespace ItemMetrics

/-- Why a document is no definition. -/
inductive DefinitionError where
  | field (error : FieldError)
  | configNotMapping (metric source : String)
  | metricsNotList (type source : String)
  | entryNotMapping (position : Nat) (type source : String)
  | duplicateMetric (metric type source : String)
  deriving DecidableEq, Repr

def DefinitionError.message : DefinitionError → String
  | .field e => e.message
  | .configNotMapping metric source =>
    s!"Metric '{metric}' in {source} must define a mapping under 'config'"
  | .metricsNotList type source =>
    s!"Derived definition for type '{type}' in {source} must contain a list of metric definitions under 'metrics'"
  | .entryNotMapping position type source =>
    s!"Metric entry #{position} of type '{type}' in {source} must be a mapping"
  | .duplicateMetric metric type source =>
    s!"Duplicate metric key '{metric}' for type '{type}' in {source}"

/-- One declared metric. The operation is kept by name; neither it nor the configuration is checked
before the metric is computed. -/
structure Metric where
  key : Label
  description : Label
  operation : Label
  config : Json.Members
  dependsOn : List Label

namespace Metric

def config? (payload : Json) : Option Json.Members :=
  match payload.get? "config" with
  | none => some []
  | some .null => some []
  | some (.object config) => some config
  | some _ => none

/-- Reads a metric. `entry` describes the payload as long as its key is not known. -/
def parse (payload : Json) (entry source : String) : Except DefinitionError Metric := do
  let key ← (payload.requireLabel "key" s!"{entry} in {source}").mapError .field
  let owner := s!"metric '{key.text}' in {source}"
  let description ← (payload.requireLabel "description" owner).mapError .field
  let operation ← (payload.requireLabel "operation" owner).mapError .field
  match config? payload with
  | none => .error (.configNotMapping key.text source)
  | some config =>
    let dependsOn ← (payload.labels "depends_on" s!"'depends_on' for {owner}").mapError .field
    return { key, description, operation, config, dependsOn := dependsOn.eraseDups }

/-- Reads a metric that stands alone. -/
def ofJson (payload : Json) (source : String) : Except DefinitionError Metric :=
  parse payload "metric entry" source

/-- Reads the entry at a position, counted from one, of the metrics of a type. -/
def ofEntry (payload : Json) (type : String) (position : Nat) (source : String) :
    Except DefinitionError Metric :=
  parse payload s!"metric entry #{position} of type '{type}'" source

end Metric

/-- The metrics declared for one type of item, with distinct keys. -/
structure TypeDefinition where
  type : Label
  metrics : List Metric
  nodup : (metrics.map Metric.key).Nodup

namespace TypeDefinition

/-- Reads the entries from `position` on. The keys in `seen` are taken. -/
def readEntries (type : Label) (source : String) :
    (position : Nat) → (seen : List Label) → List Json → Except DefinitionError (List Metric)
  | _, _, [] => .ok []
  | position, seen, entry :: entries =>
    if entry.isObject then do
      let metric ← Metric.ofEntry entry type.text position source
      if metric.key ∈ seen then .error (.duplicateMetric metric.key.text type.text source)
      else return metric :: (← readEntries type source (position + 1) (metric.key :: seen) entries)
    else .error (.entryNotMapping position type.text source)

theorem nodup_of_readEntries {type : Label} {source : String} {position : Nat}
    {seen : List Label} {entries : List Json} {metrics : List Metric}
    (h : readEntries type source position seen entries = .ok metrics) :
    (metrics.map Metric.key).Nodup ∧ ∀ k ∈ metrics.map Metric.key, k ∉ seen := by
  induction entries generalizing position seen metrics with
  | nil => cases h; simp
  | cons entry entries ih =>
    rw [readEntries] at h
    split at h
    · cases hm : Metric.ofEntry entry type.text position source with
      | error e => simp [hm, bind, Except.bind] at h
      | ok m =>
        simp only [hm, bind, Except.bind] at h
        split at h
        · cases h
        · next hseen =>
          cases hr : readEntries type source (position + 1) (m.key :: seen) entries with
          | error e => simp [hr] at h
          | ok ms =>
            simp only [hr, pure, Except.pure, Except.ok.injEq] at h
            subst h
            obtain ⟨hnodup, hfresh⟩ := ih hr
            simp only [List.map_cons, List.nodup_cons, List.mem_cons, forall_eq_or_imp]
            refine ⟨⟨fun hk => hfresh _ hk (List.mem_cons_self ..), hnodup⟩, hseen, fun k hk hs =>
              hfresh k hk (List.mem_cons_of_mem _ hs)⟩
    · cases h

/-- Reads a whole definition document. -/
def ofJson (payload : Json) (source : String) : Except DefinitionError TypeDefinition := do
  let type ← (payload.requireLabel "type" s!"derived definition in {source}").mapError .field
  match (payload.get? "metrics").bind Json.array? with
  | none => .error (.metricsNotList type.text source)
  | some entries =>
    match h : readEntries type source 1 [] entries with
    | .ok metrics => return ⟨type, metrics, (nodup_of_readEntries h).1⟩
    | .error e => .error e

def metric? (d : TypeDefinition) (key : String) : Option Metric :=
  d.metrics.find? (·.key.text == key)

end TypeDefinition
end ItemMetrics
