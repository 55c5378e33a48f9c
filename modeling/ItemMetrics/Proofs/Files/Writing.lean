import ItemMetrics.Files.Tree
import ItemMetrics.Proofs.Except
import ItemMetrics.Proofs.Keys

/-! # Writing a file

A file that is written can be read at its path, and elsewhere stands what stood there before
(`FileTree.writes_of_write`). -/

namespace ItemMetrics.FileTree

variable {tree tree' : FileTree} {key start other : FileKey} {node : FileNode} {path : String}
  {content : Content} {parts : List Path.Part}

/-- What is left of a tree when a text has been written to a path: the text can be read there, and
nothing is changed at any other place. -/
structure Writes (tree : FileTree) (path text : String) (tree' : FileTree) : Prop where
  frame : ∃ key, tree.locate path = .ok key ∧
    ∀ other, other ≠ key → tree'.node? other = tree.node? other
  closed : tree'.closed = tree.closed
  readText : tree'.readText path = .ok text

/-! ## Filing a node -/

theorem lookup_erase (other : FileKey) :
    (tree.erase key).entries.lookup other = if other = key then none else tree.entries.lookup other :=
  lookup_filter_ne tree.entries key other

theorem node?_put_of_ne (h : other ≠ key) : (tree.put key node).node? other = tree.node? other := by
  have hlookup : [(key, node)].lookup other = none := by
    rw [List.lookup_cons, beq_eq_false_iff_ne.mpr h, List.lookup_nil]
  unfold node?
  rw [put, List.lookup_append, lookup_erase, if_neg h, hlookup, Option.or_none]

theorem node?_put_self (h : isAlwaysThere key = false) :
    (tree.put key node).node? key = some node := by
  rw [node?, h, put, List.lookup_append, lookup_erase, if_pos rfl]
  simp

/-! ## Going along a path -/

theorem step_congr (h : tree'.node? start = tree.node? start) (part : Path.Part) :
    tree'.step start part = tree.step start part := by
  simp only [step, h]

/-- Only a directory can be left. -/
theorem directory_of_step {part : Path.Part} (h : tree.step start part = .ok other) :
    tree.node? start = some .directory := by
  unfold step at h
  split at h
  · cases h
  · cases h
  · assumption

/-- What stands at the end of a path has no part in where the path leads. -/
theorem locate_congr (hnode : tree.node? key ≠ some .directory)
    (hother : ∀ other, other ≠ key → tree'.node? other = tree.node? other)
    (h : tree.locate path = .ok key) : tree'.locate path = .ok key := by
  have hparts (parts : List Path.Part) (start : FileKey)
      (h : parts.foldlM tree.step start = .ok key) : parts.foldlM tree'.step start = .ok key := by
    -- a place that is gone through is a directory, and so not the one where the trees differ
    induction parts generalizing start with
    | nil => exact h
    | cons part parts ih =>
      rw [List.foldlM_cons] at h ⊢
      obtain ⟨next, hstep, h⟩ := Except.bind_eq_ok_iff.mp h
      have hstart : start ≠ key := fun heq => hnode (heq ▸ directory_of_step hstep)
      rw [step_congr (hother start hstart), hstep, Except.ok_bind]
      exact ih next h
  unfold locate at h ⊢
  split at h
  · cases h
  · next hpath =>
    rw [if_neg hpath]
    exact hparts _ _ h

/-! ## Writing -/

theorem isAlwaysThere_eq_false (h : tree.node? key ≠ some .directory) :
    isAlwaysThere key = false := by
  unfold node? at h
  split at h
  · exact absurd rfl h
  · next hkey => exact Bool.eq_false_iff.mpr hkey

/-- A file is written where no directory stands, at a path that does not ask for one. -/
theorem exists_put_of_write (h : tree.write path content = .ok tree') :
    ∃ key, tree.locate path = .ok key ∧ tree.node? key ≠ some .directory ∧
      Path.endsAsDirectory path = false ∧ tree' = tree.put key (.file content) := by
  obtain ⟨key, hkey, h⟩ := Except.bind_eq_ok_iff.mp h
  refine ⟨key, hkey, ?_⟩
  split at h
  · cases h
  · next hnode =>
    split at h
    · cases h
    · next hends =>
      cases h
      exact ⟨hnode, Bool.eq_false_iff.mpr hends, rfl⟩
  · cases h
  · cases h

/-- A file that is written holds the text, and nothing else is changed. -/
theorem writes_of_write {text : String} (h : tree.write path (.text text) = .ok tree') :
    tree.Writes path text tree' := by
  obtain ⟨key, hkey, hnode, hends, rfl⟩ := exists_put_of_write h
  have hother : ∀ other, other ≠ key →
      (tree.put key (.file (.text text))).node? other = tree.node? other :=
    fun other hne => node?_put_of_ne hne
  refine ⟨⟨key, hkey, hother⟩, rfl, ?_⟩
  simp only [readText, stat, locate_congr hnode hother hkey, Except.ok_bind,
    node?_put_self (isAlwaysThere_eq_false hnode), hends]
  rfl

end ItemMetrics.FileTree
