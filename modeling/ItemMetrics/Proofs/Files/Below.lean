import ItemMetrics.Proofs.Files.Path
import ItemMetrics.Proofs.Files.Writing
import ItemMetrics.Proofs.Text.Bytes

/-! # What stands below a place

The files below a place are those that names lead to from it (`FileTree.mem_filesBelow_iff`), also
names that are no texts; a name is shown as what its bytes stand for
(`Path.Part.display_eq_lossy`). In which order a tree files its entries does not matter to what stands
anywhere (`FileTree.SameFiles.of_perm`). -/

namespace ItemMetrics

namespace Path

variable {way : List Part}

theorem Part.display_eq_lossy (part : Part) : part.display = Text.lossy part.bytes := by
  cases part with
  | name s _ =>
    have hshown := Text.lossy_append s []
    rw [List.append_nil, show Text.lossy [] = "" from rfl, String.append_empty] at hshown
    exact hshown.symm
  | _ => rfl

/-- A way down: each of its parts names something that stands in a directory. -/
def IsDescent (way : List Part) : Prop :=
  ∀ part ∈ way, part.isEntry = true

theorem isDescent_names (names : List FileName) : IsDescent (names.map FileName.part) := by
  intro part hpart
  obtain ⟨n, -, rfl⟩ := List.mem_map.mp hpart
  rfl

/-- The names on a way down are texts if each of them is spelled. -/
theorem all_isSpelled_iff (h : IsDescent way) :
    way.all Part.isSpelled = true ↔ ∃ names : List FileName, way = names.map FileName.part := by
  refine ⟨fun hall => ?_, ?_⟩
  · induction way with
    | nil => exact ⟨[], rfl⟩
    | cons part way ih =>
      obtain ⟨hpart, hway⟩ := List.forall_mem_cons.mp h
      obtain ⟨hspelled, hrest⟩ := Bool.and_eq_true_iff.mp hall
      obtain ⟨names, rfl⟩ := ih hway hrest
      cases part with
      | name s hs => exact ⟨⟨s, hs⟩ :: names, rfl⟩
      | raw => cases hspelled
      | _ => cases hpart
  · rintro ⟨names, rfl⟩
    simp [FileName.part, Part.isSpelled]

/-- Where all names are texts, what is shown for the path is the path. -/
theorem descend_names (base : String) (names : List FileName) :
    descend base (names.map FileName.part) = (names.map FileName.text).foldl join base := by
  rw [descend, List.map_map]
  rfl

end Path

namespace FileTree

variable {tree tree' : FileTree} {key other : FileKey} {way : List Path.Part}

/-! ## The way down -/

theorem wayDown?_eq_some_iff :
    wayDown? key other = some way ↔ other = key ++ way ∧ Path.IsDescent way := by
  induction key generalizing other with
  | nil =>
    rw [wayDown?, Option.ite_none_right_eq_some, List.all_eq_true, Option.some_inj, List.nil_append]
    refine and_comm.trans (and_congr_right ?_)
    rintro rfl
    rfl
  | cons part key ih =>
    cases other with
    | nil => simp [wayDown?]
    | cons part' other =>
      rw [wayDown?]
      split
      · next heq => simp [ih, heq]
      · next hne => simp [Ne.symm hne]

theorem mem_closedBelow_iff :
    way ∈ tree.closedBelow key ↔ Path.IsDescent way ∧ key ++ way ∈ tree.closed := by
  simp only [closedBelow, List.mem_filterMap, wayDown?_eq_some_iff]
  refine ⟨?_, fun ⟨hway, hclosed⟩ => ⟨_, hclosed, rfl, hway⟩⟩
  rintro ⟨other, hclosed, rfl, hway⟩
  exact ⟨hway, hclosed⟩

/-! ## The files there -/

/-- The way that leads from a place down to an entry, if that is a file below it. -/
def fileBelow? (key : FileKey) (entry : FileKey × FileNode) : Option (List Path.Part) :=
  match entry.2, wayDown? key entry.1 with
  | .file _, some (part :: way) => some (part :: way)
  | _, _ => none

theorem filesBelow_eq (tree : FileTree) (key : FileKey) :
    tree.filesBelow key = tree.entries.filterMap (fileBelow? key) :=
  rfl

theorem fileBelow?_eq_some_iff {entry : FileKey × FileNode} :
    fileBelow? key entry = some way ↔
      Path.IsDescent way ∧ way ≠ [] ∧ ∃ content, entry = (key ++ way, .file content) := by
  obtain ⟨other, node⟩ := entry
  constructor
  · intro h
    unfold fileBelow? at h
    split at h
    · next content part way' hnode hway =>
      cases h
      obtain ⟨hother, hdescent⟩ := wayDown?_eq_some_iff.mp hway
      exact ⟨hdescent, List.cons_ne_nil part way', content, Prod.ext hother hnode⟩
    · cases h
  · rintro ⟨hdescent, hne, content, h⟩
    obtain ⟨rfl, rfl⟩ := Prod.mk.inj h
    obtain ⟨part, way, rfl⟩ := List.exists_cons_of_ne_nil hne
    rw [fileBelow?, wayDown?_eq_some_iff.mpr ⟨rfl, hdescent⟩]

theorem isAlwaysThere_below (h : Path.IsDescent way) (hne : way ≠ []) :
    isAlwaysThere (key ++ way) = false := by
  obtain ⟨part, hpart⟩ := List.exists_mem_of_ne_nil way hne
  have hmem : part ∈ key ++ way := List.mem_append_right key hpart
  have hentry := h part hpart
  refine Bool.eq_false_iff.mpr fun hthere => ?_
  rcases Bool.or_eq_true_iff.mp hthere with hup | hroot
  · rw [beq_iff_eq.mp (List.all_eq_true.mp hup _ hmem)] at hentry
    cases hentry
  · rw [beq_iff_eq.mp hroot] at hmem
    rw [List.mem_singleton.mp hmem] at hentry
    cases hentry

/-- The files below a place are those to which names lead from there. -/
theorem mem_filesBelow_iff :
    way ∈ tree.filesBelow key ↔
      Path.IsDescent way ∧ way ≠ [] ∧ ∃ content, tree.node? (key ++ way) = some (.file content) := by
  simp only [filesBelow_eq, List.mem_filterMap, fileBelow?_eq_some_iff]
  constructor
  · rintro ⟨entry, hmem, hdescent, hne, content, rfl⟩
    refine ⟨hdescent, hne, content, ?_⟩
    rwa [node?, isAlwaysThere_below hdescent hne, if_neg (by simp),
      lookup_eq_some_iff_mem tree.nodup]
  · rintro ⟨hdescent, hne, content, h⟩
    rw [node?, isAlwaysThere_below hdescent hne, if_neg (by simp),
      lookup_eq_some_iff_mem tree.nodup] at h
    exact ⟨_, h, hdescent, hne, content, rfl⟩

/-- Different ways lead to the files below a place. -/
theorem nodup_filesBelow (tree : FileTree) (key : FileKey) : (tree.filesBelow key).Nodup := by
  rw [filesBelow_eq]
  refine (List.pairwise_map.mp tree.nodup).filterMap _ fun entry entry' hne way h way' h' => ?_
  obtain ⟨-, -, content, rfl⟩ := fileBelow?_eq_some_iff.mp h
  obtain ⟨-, -, content', rfl⟩ := fileBelow?_eq_some_iff.mp h'
  intro hway
  exact hne (by rw [hway])

/-! ## The same files -/

/-- The same stands everywhere in two trees, and the same directories may not be listed. -/
structure SameFiles (tree tree' : FileTree) : Prop where
  node : ∀ key, tree'.node? key = tree.node? key
  closed : ∀ key, key ∈ tree'.closed ↔ key ∈ tree.closed

namespace SameFiles

theorem symm (h : SameFiles tree tree') : SameFiles tree' tree :=
  ⟨fun key => (h.node key).symm, fun key => (h.closed key).symm⟩

theorem locate (h : SameFiles tree tree') (path : String) :
    tree'.locate path = tree.locate path := by
  have hstep : tree'.step = tree.step :=
    funext fun key => funext fun part => step_congr (h.node key) part
  rw [FileTree.locate, FileTree.locate, hstep]

theorem stat (h : SameFiles tree tree') (path : String) : tree'.stat path = tree.stat path := by
  simp only [FileTree.stat, h.locate, h.node]

/-- The order in which a tree files its entries does not matter. -/
theorem of_perm (h : tree'.entries.Perm tree.entries) (hclosed : tree'.closed.Perm tree.closed) :
    SameFiles tree tree' where
  node key := by rw [node?, node?, lookup_eq_of_perm tree.nodup h]
  closed _ := hclosed.mem_iff

end SameFiles

end FileTree
end ItemMetrics
