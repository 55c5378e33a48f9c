import ItemMetrics.FieldPath
import ItemMetrics.Proofs.Text.Pieces

/-! # The segments of a path

Joining the segments of a path gives the path (`join_segments`), and a point between two paths puts
their segments side by side (`segments_append`). Joining may be done in stages, as long as no stage
is empty (`join_map_join`). -/

namespace ItemMetrics.FieldPath

variable {ws vs : List String}

@[simp] theorem join_singleton (w : String) : join [w] = w :=
  String.intercalate_singleton

theorem join_append (hws : ws ≠ []) (hvs : vs ≠ []) :
    join (ws ++ vs) = join ws ++ "." ++ join vs :=
  String.intercalate_append_of_ne_nil hws hvs

theorem join_cons (w : String) (hws : ws ≠ []) : join (w :: ws) = w ++ "." ++ join ws :=
  String.intercalate_cons_of_ne_nil hws

/-- Two segments are joined by a point. -/
theorem dot_mem_join (h : 1 < ws.length) : '.' ∈ (join ws).toList := by
  match ws, h with
  | w :: v :: vs, _ => simp [join_cons w (List.cons_ne_nil v vs)]

theorem join_map_join {gs : List (List String)} (h : ∀ g ∈ gs, g ≠ []) :
    join (gs.map join) = join gs.flatten := by
  induction gs with
  | nil => rfl
  | cons g gs ih =>
    obtain ⟨hg, hgs⟩ := List.forall_mem_cons.mp h
    cases gs with
    | nil => simp
    | cons g' gs =>
      have hflat : (g' :: gs).flatten ≠ [] := by simp [hgs g' List.mem_cons_self]
      rw [List.map_cons, join_cons _ (by simp), ih hgs, ← join_append hg hflat, ← List.flatten_cons]

theorem segments_ne_nil (path : String) : segments path ≠ [] :=
  Text.split_ne_nil '.' path

theorem join_segments (path : String) : join (segments path) = path :=
  Text.intercalate_split '.' path

theorem segments_append (p q : String) : segments (p ++ "." ++ q) = segments p ++ segments q :=
  Text.split_append (by simp)

end ItemMetrics.FieldPath
