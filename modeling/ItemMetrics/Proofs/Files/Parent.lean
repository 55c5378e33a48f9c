import Mathlib.Data.List.TakeWhile
import ItemMetrics.Proofs.Files.Path
import ItemMetrics.Proofs.Files.Writing

/-! # The directory of a file

The parent of a path has its parts but the last (`Path.parts_of_parent?`), and a path at which a text
can be read has a parent (`FileTree.exists_parent?_of_readText`). -/

namespace ItemMetrics

namespace Path

variable {path dir first piece : String} {rest kept : List String}

/-! ## Paths by their pieces -/

/-- The parts that the first piece of a path stands for. -/
def lead (first : String) (rest : List String) : List Part :=
  if first = "" ∧ rest ≠ [] then [.root]
  else if first = "." then [.here]
  else (Part.ofPiece? first).toList

theorem isAbsolute_intercalate (h : '/' ∉ first.toList) (rest : List String) :
    isAbsolute ("/".intercalate (first :: rest)) = true ↔ first = "" ∧ rest ≠ [] := by
  have hhead : first.toList.head? ≠ some '/' := fun heq => h (List.mem_of_head? heq)
  by_cases hrest : rest = []
  · rw [hrest, String.intercalate_singleton, isAbsolute, beq_iff_eq]
    simp [hhead]
  · rw [String.intercalate_cons_of_ne_nil hrest, isAbsolute_append (by simp)]
    by_cases hfirst : first = ""
    · simp [hfirst, hrest, isAbsolute]
    · rw [isAbsolute_append hfirst, isAbsolute, beq_iff_eq]
      simp [hfirst, hhead]

theorem parts_intercalate (h : ∀ piece ∈ first :: rest, '/' ∉ piece.toList) :
    parts ("/".intercalate (first :: rest)) = lead first rest ++ rest.filterMap Part.ofPiece? := by
  have hsplit : Text.split '/' ("/".intercalate (first :: rest)) = first :: rest :=
    Text.split_intercalate (List.cons_ne_nil first rest) h
  rw [parts_eq hsplit, lead]
  simp only [isAbsolute_intercalate (h first List.mem_cons_self)]

theorem lead_of_ne_nil (hrest : rest ≠ []) (hkept : kept ≠ []) :
    lead first rest = lead first kept := by
  simp [lead, hrest, hkept]

theorem lead_of_ne_empty (h : first ≠ "") (rest : List String) : lead first rest = lead first [] := by
  simp [lead, h]

theorem lead_eq_nil_or_singleton (first : String) (rest : List String) :
    lead first rest = [] ∨ ∃ part, lead first rest = [part] := by
  unfold lead
  split
  · exact .inr ⟨_, rfl⟩
  · split
    · exact .inr ⟨_, rfl⟩
    · cases Part.ofPiece? first with
      | none => exact .inl rfl
      | some part => exact .inr ⟨part, rfl⟩

/-! ## Idle pieces -/

theorem ofPiece?_of_isIdle (h : isIdle piece = true) : Part.ofPiece? piece = none := by
  have hpiece : piece = "" ∨ piece = "." := by simpa [isIdle] using h
  rcases hpiece with rfl | rfl <;> rfl

theorem exists_ofPiece? (hslash : '/' ∉ piece.toList) (h : ¬ isIdle piece = true) :
    ∃ part, Part.ofPiece? piece = some part := by
  have hidle : piece ≠ "" ∧ piece ≠ "." := by simpa [isIdle] using h
  unfold Part.ofPiece?
  split
  · exact ⟨.up, rfl⟩
  · next hup =>
    have hname : isName piece = true := by simp [isName, hidle, hup, hslash]
    exact ⟨.name piece hname, dif_pos hname⟩

/-- Idle pieces at the end stand for no parts. -/
theorem filterMap_dropWhile_isIdle (pieces : List String) :
    (pieces.dropWhile isIdle).reverse.filterMap Part.ofPiece? =
      pieces.reverse.filterMap Part.ofPiece? := by
  rw [List.filterMap_reverse, List.filterMap_reverse]
  congr 1
  induction pieces with
  | nil => rfl
  | cons piece pieces ih =>
    rw [List.dropWhile_cons]
    split
    · next h => rw [List.filterMap_cons_none (ofPiece?_of_isIdle h), ih]
    · rfl

/-- The last of some pieces that is not idle stands for their last part. -/
theorem filterMap_eq_concat (hslash : ∀ piece ∈ rest, '/' ∉ piece.toList)
    (h : rest.any (!isIdle ·) = true) :
    ∃ part, rest.filterMap Part.ofPiece? =
      ((rest.reverse.dropWhile isIdle).tail.dropWhile isIdle).reverse.filterMap Part.ofPiece? ++
        [part] := by
  obtain ⟨piece, hpiece, hbusy⟩ := List.any_eq_true.mp h
  have hne : rest.reverse.dropWhile isIdle ≠ [] := by
    intro hnil
    have hidle := List.dropWhile_eq_nil_iff.mp hnil piece (List.mem_reverse.mpr hpiece)
    simp [hidle] at hbusy
  have hhead := List.head_dropWhile_not isIdle hne
  obtain ⟨last, before, hlast⟩ := List.exists_cons_of_ne_nil hne
  have hmem : last ∈ rest := by
    refine List.mem_reverse.mp (List.dropWhile_subset isIdle ?_)
    rw [hlast]
    exact List.mem_cons_self
  obtain ⟨part, hpart⟩ := exists_ofPiece? (hslash last hmem) (by simpa [hlast] using hhead)
  refine ⟨part, ?_⟩
  calc rest.filterMap Part.ofPiece?
    _ = (last :: before).reverse.filterMap Part.ofPiece? := by
      rw [← hlast, filterMap_dropWhile_isIdle, List.reverse_reverse]
    _ = before.reverse.filterMap Part.ofPiece? ++ [part] := by
      rw [List.reverse_cons, List.filterMap_append, List.filterMap_cons_some hpart,
        List.filterMap_nil]
    _ = _ := by rw [hlast, List.tail_cons, filterMap_dropWhile_isIdle]

theorem filterMap_eq_nil (h : ∀ piece ∈ rest, isIdle piece = true) :
    rest.filterMap Part.ofPiece? = [] :=
  List.filterMap_eq_nil_iff.mpr fun piece hpiece => ofPiece?_of_isIdle (h piece hpiece)

/-! ## The parent -/

/-- The directory that the pieces of a path lead to, when those behind the first that are kept are
given from the last on. -/
def above (first : String) (rest kept : List String) : String :=
  match kept with
  | [] =>
    if isAbsolute ("/".intercalate (first :: rest)) then "/"
    else if rest.any (!isIdle ·) then first
    else ""
  | kept => "/".intercalate (first :: kept.reverse)

theorem parent?_intercalate (hslash : ∀ piece ∈ first :: rest, '/' ∉ piece.toList) :
    parent? ("/".intercalate (first :: rest)) =
      if (lead first rest ++ rest.filterMap Part.ofPiece?).getLast? ∈ [none, some .root] then none
      else some (above first rest ((rest.reverse.dropWhile isIdle).tail.dropWhile isIdle)) := by
  have hsplit : Text.split '/' ("/".intercalate (first :: rest)) = first :: rest :=
    Text.split_intercalate (List.cons_ne_nil first rest) hslash
  rw [parent?, hsplit, parts_intercalate hslash]
  congr 1
  dsimp only
  cases (rest.reverse.dropWhile isIdle).tail.dropWhile isIdle with
  | nil =>
    dsimp only
    rw [above, apply_ite some, apply_ite some]
  | cons piece kept => rfl

/-- Behind the root or the first piece, the parent is what was kept. -/
theorem parts_above (hslash : ∀ piece ∈ first :: rest, '/' ∉ piece.toList)
    (hkept : kept ⊆ rest) (hbusy : rest.any (!isIdle ·) = true) :
    parts (above first rest kept) = lead first rest ++ kept.reverse.filterMap Part.ofPiece? := by
  have habsolute := isAbsolute_intercalate (hslash first List.mem_cons_self) rest
  have hne : rest ≠ [] := by
    rintro rfl
    cases hbusy
  obtain ⟨hfirst, hrest⟩ := List.forall_mem_cons.mp hslash
  unfold above
  split
  · split
    · next hroot =>
      obtain ⟨rfl, -⟩ := habsolute.mp hroot
      rw [lead, if_pos ⟨rfl, hne⟩]
      rfl
    · next hroot =>
      have hempty : first ≠ "" := fun heq => hroot (habsolute.mpr ⟨heq, hne⟩)
      have halone : parts first = lead first [] ++ [].filterMap Part.ofPiece? := by
        rw [← parts_intercalate (List.forall_mem_singleton.mpr hfirst),
          String.intercalate_singleton]
      rw [halone, lead_of_ne_empty hempty rest]
      rfl
  · next hne' =>
    have hpieces : ∀ piece ∈ first :: kept.reverse, '/' ∉ piece.toList :=
      List.forall_mem_cons.mpr ⟨hfirst, fun piece h => hrest piece (hkept (List.mem_reverse.mp h))⟩
    rw [parts_intercalate hpieces, lead_of_ne_nil (List.reverse_ne_nil_iff.mpr hne') hne]

/-- A path whose pieces behind the first are idle leads no further than its first piece. -/
theorem above_of_isIdle (hslash : ∀ piece ∈ first :: rest, '/' ∉ piece.toList)
    (hroot : (lead first rest).getLast? ≠ some .root) (hidle : ∀ piece ∈ rest, isIdle piece = true) :
    above first rest [] = "" := by
  have hrelative : ¬ isAbsolute ("/".intercalate (first :: rest)) = true := by
    rw [isAbsolute_intercalate (hslash first List.mem_cons_self)]
    intro h
    rw [lead, if_pos h] at hroot
    exact hroot rfl
  rw [above, if_neg hrelative, if_neg (by simpa using hidle)]

theorem parts_of_parent?_intercalate (hslash : ∀ piece ∈ first :: rest, '/' ∉ piece.toList)
    (h : parent? ("/".intercalate (first :: rest)) = some dir) :
    ∃ last, parts ("/".intercalate (first :: rest)) = parts dir ++ [last] := by
  have hkept : (rest.reverse.dropWhile isIdle).tail.dropWhile isIdle ⊆ rest := fun piece h =>
    List.mem_reverse.mp (List.dropWhile_subset _ (List.mem_of_mem_tail (List.dropWhile_subset _ h)))
  rw [parent?_intercalate hslash] at h
  split at h
  · cases h
  next hlast =>
  cases h
  rw [parts_intercalate hslash]
  by_cases hbusy : rest.any (!isIdle ·) = true
  · obtain ⟨part, hrest⟩ := filterMap_eq_concat (List.forall_mem_cons.mp hslash).2 hbusy
    exact ⟨part, by rw [parts_above hslash hkept hbusy, hrest, List.append_assoc]⟩
  · have hidle : ∀ piece ∈ rest, isIdle piece = true := by simpa using hbusy
    have hnil : rest.reverse.dropWhile isIdle = [] :=
      List.dropWhile_eq_nil_iff.mpr fun piece h => hidle piece (List.mem_reverse.mp h)
    rw [filterMap_eq_nil hidle, List.append_nil] at hlast ⊢
    obtain ⟨hempty, hroot⟩ := not_or.mp (mt List.mem_cons.mpr hlast)
    rw [hnil, List.tail_nil, List.dropWhile_nil,
      above_of_isIdle hslash (mt List.mem_singleton.mpr hroot) hidle]
    obtain hlead | hlead := lead_eq_nil_or_singleton first rest
    · exact absurd (hlead ▸ rfl) hempty
    · exact hlead

theorem exists_slashless (path : String) :
    ∃ first rest, path = "/".intercalate (first :: rest) ∧
      ∀ piece ∈ first :: rest, '/' ∉ piece.toList := by
  obtain ⟨first, rest, hsplit⟩ := List.exists_cons_of_ne_nil (Text.split_ne_nil '/' path)
  refine ⟨first, rest, ?_, fun piece hpiece => Text.not_mem_of_mem_split (hsplit ▸ hpiece)⟩
  exact hsplit ▸ (Text.intercalate_split '/' path).symm

/-- The parent of a path leads to where the last part of the path stands. -/
theorem parts_of_parent? (h : parent? path = some dir) :
    ∃ last, parts path = parts dir ++ [last] := by
  obtain ⟨first, rest, rfl, hslash⟩ := exists_slashless path
  exact parts_of_parent?_intercalate hslash h

theorem exists_parent? (hempty : parts path ≠ []) (hroot : (parts path).getLast? ≠ some .root) :
    ∃ dir, parent? path = some dir := by
  obtain ⟨first, rest, rfl, hslash⟩ := exists_slashless path
  rw [parent?_intercalate hslash, ← parts_intercalate hslash, if_neg (by simp [hempty, hroot])]
  exact ⟨_, rfl⟩

end Path

namespace FileTree

variable {tree : FileTree} {path text : String} {content : Content}

theorem node?_ne_file {key : FileKey} (h : isAlwaysThere key = true) :
    tree.node? key ≠ some (.file content) := by
  rw [node?, if_pos h]
  simp

/-- A file has a directory: nothing stands at the empty path, and no file at the root. -/
theorem exists_parent?_of_readText (h : tree.readText path = .ok text) :
    ∃ dir, Path.parent? path = some dir := by
  obtain ⟨node, hstat, h⟩ := Except.bind_eq_ok_iff.mp h
  obtain ⟨key, hkey, hstat⟩ := Except.bind_eq_ok_iff.mp hstat
  have hfile : ∃ content, tree.node? key = some (.file content) := by
    split at hstat
    · cases hstat
    · exact ⟨_, ‹_›⟩
    · cases hstat
      cases h
  obtain ⟨content, hfile⟩ := hfile
  have hparts : (Path.parts path).foldlM tree.step [] = .ok key := by
    unfold locate at hkey
    split at hkey
    · cases hkey
    · exact hkey
  refine Path.exists_parent? (fun hempty => ?_) fun hroot => ?_
  · rw [hempty] at hparts
    cases hparts
    exact node?_ne_file rfl hfile
  · obtain ⟨before, hbefore⟩ := List.getLast?_eq_some_iff.mp hroot
    rw [hbefore, List.foldlM_append] at hparts
    obtain ⟨start, -, hstep⟩ := Except.bind_eq_ok_iff.mp hparts
    obtain ⟨next, hstep, hend⟩ := Except.bind_eq_ok_iff.mp hstep
    cases hend
    have hstart := directory_of_step hstep
    rw [step, hstart] at hstep
    cases hstep
    exact node?_ne_file rfl hfile

end FileTree
end ItemMetrics
