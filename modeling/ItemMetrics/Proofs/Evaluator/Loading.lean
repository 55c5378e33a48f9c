import ItemMetrics.Evaluator.Basic
import ItemMetrics.Proofs.Except

/-! # The states of an evaluator

An evaluator is created from the files and may be reloaded any number of times, each time from the
files as they then are (`Evaluator.Reachable`). Whatever it has loaded is for a registered type
(`Evaluator.Reachable.contains`). -/

namespace ItemMetrics

namespace Definitions

/-- The type of every definition is registered. -/
def Registered (ds : Definitions) (registry : Registry) : Prop :=
  ∀ d ∈ ds.toList, registry.contains d.type.text = true

variable {tree : FileTree} {registry : Registry} {ds ds' : Definitions} {d e : TypeDefinition}
  {path root type : String}

theorem mem_place {l : List TypeDefinition} : e ∈ place d l ↔ e = d ∨ e ∈ l := by
  induction l with
  | nil => simp [place]
  | cons c l ih =>
    rw [place]
    split
    · simp
    · simp only [List.mem_cons, ih]
      exact or_left_comm

theorem mem_insert? (h : ds.insert? d = some ds') : e ∈ ds'.toList ↔ e = d ∨ e ∈ ds.toList := by
  unfold insert? at h
  split at h <;> cases h
  exact mem_place

theorem registered_empty : (∅ : Definitions).Registered registry := by
  intro d hd
  cases hd

theorem Registered.add (hds : ds.Registered registry) (h : add tree registry ds path = .ok ds') :
    ds'.Registered registry := by
  obtain ⟨d, -, h⟩ := Except.bind_eq_ok_iff.mp h
  split at h
  · cases h
  · next hregistered =>
    split at h
    · next hinsert =>
      cases h
      intro e he
      rcases (mem_insert? hinsert).mp he with rfl | he
      · simpa using hregistered
      · exact hds e he
    · cases h

theorem registered_of_load (h : load tree root registry = .ok ds) : ds.Registered registry := by
  obtain ⟨paths, -, h⟩ := Except.bind_eq_ok_iff.mp h
  refine Except.foldlM_invariant (P := fun ds : Definitions => ds.Registered registry) ?_
    registered_empty h
  intro ds path ds' hds hadd
  exact hds.add hadd

theorem Registered.contains (hds : ds.Registered registry) (h : ds.find? type = some d) :
    registry.contains type = true := by
  have htype : d.type.text = type := by simpa using List.find?_some h
  rw [← htype]
  exact hds d (List.mem_of_find?_eq_some h)

end Definitions

namespace Evaluator

/-- The evaluators there can be: each is created from the files, and reloaded from the files as they
have become. -/
inductive Reachable : Evaluator → Prop
  | new {tree : FileTree} {root : String} {registry : Registry} {ev : Evaluator} :
    new tree root registry = .ok ev → Reachable ev
  | reload {ev : Evaluator} (tree : FileTree) : Reachable ev → Reachable (ev.reload tree).2

theorem registered_of_new {tree : FileTree} {root : String} {registry : Registry} {ev : Evaluator}
    (h : new tree root registry = .ok ev) : ev.definitions.Registered ev.registry := by
  obtain ⟨ds, hload, h⟩ := Except.bind_eq_ok_iff.mp h
  cases h
  exact Definitions.registered_of_load hload

theorem registered_reload (ev : Evaluator) (tree : FileTree) :
    (ev.reload tree).2.definitions.Registered (ev.reload tree).2.registry := by
  unfold reload
  split
  · next hload => exact Definitions.registered_of_load hload
  · exact Definitions.registered_empty

theorem Reachable.registered {ev : Evaluator} (h : ev.Reachable) :
    ev.definitions.Registered ev.registry := by
  cases h with
  | new h => exact registered_of_new h
  | reload tree _ => exact registered_reload _ tree

/-- What is loaded is registered. -/
theorem Reachable.contains {ev : Evaluator} {type : String} {d : TypeDefinition} (h : ev.Reachable)
    (hd : ev.definitions.find? type = some d) : ev.registry.contains type = true :=
  h.registered.contains hd

end Evaluator
end ItemMetrics
