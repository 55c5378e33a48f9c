import ItemMetrics.Document.Discovery
import ItemMetrics.Proofs.Files.Below
import ItemMetrics.Proofs.Files.Order

/-! # Which documents are found

The documents that are found under a root are the files below it that have the extension of a
document, each once, in the order of their paths and in whatever order they are come upon. A search
fails where a directory cannot be listed or a file has a path that is no text, and at the first such
place (`Document.discover_lists`). -/

namespace ItemMetrics.Document

/-- A name has an extension of documents, in whatever case its ASCII letters are. -/
def Named (n : FileName) : Prop :=
  ∃ extension, n.HasExtension extension ∧
    String.ofList (extension.toList.map Char.toLower) ∈ ["yaml", "yml", "json"]

/-- The root is there, and `above` and then `n` lead from it down to a file that is named as a
document. The file stands directly in the root unless the search is recursive. -/
structure LeadsTo (tree : FileTree) (root : String) (recursive : Bool) (above : List FileName)
    (n : FileName) : Prop where
  present : ∃ node, tree.stat root = .ok node
  file : ∃ key content, tree.locate root = .ok key ∧
    tree.node? (key ++ (above ++ [n]).map FileName.part) = some (.file content)
  depth : recursive = true ∨ above = []
  named : Named n

/-- A path leads down to a document. -/
def Finds (tree : FileTree) (root : String) (recursive : Bool) (path : String) : Prop :=
  ∃ above n, LeadsTo tree root recursive above n ∧
    path = Path.join root (Path.relative (above ++ [n]))

/-- Nothing stops a search: every directory that it goes through can be listed, and only names that
are texts lead to the files that it comes to. -/
structure Searchable (tree : FileTree) (root : String) (recursive : Bool) : Prop where
  listed : ∀ key way, tree.locate root = .ok key → Path.IsDescent way → recursive = true ∨ way = [] →
    key ++ way ∉ tree.closed
  legible : ∀ key way content, tree.locate root = .ok key → Path.IsDescent way →
    recursive = true ∨ way.length = 1 → tree.node? (key ++ way) = some (.file content) →
    ∃ names : List FileName, way = names.map FileName.part

/-- A place where a search cannot go on, by the way down to it, and what is said of it: a directory
that may not be listed, or a file to which names lead that are no texts. -/
inductive Obstacle (tree : FileTree) (root : String) (recursive : Bool) :
    List Path.Part → DocumentError → Prop
  | closed {key : FileKey} {way : List Path.Part} : tree.locate root = .ok key → Path.IsDescent way →
    recursive = true ∨ way = [] → key ++ way ∈ tree.closed →
    Obstacle tree root recursive way (.unlistable root)
  | illegible {key : FileKey} {way : List Path.Part} {content : Content} :
    tree.locate root = .ok key → Path.IsDescent way → recursive = true ∨ way.length = 1 →
    (recursive = true → key ++ way ∉ tree.closed) → tree.node? (key ++ way) = some (.file content) →
    (∀ names : List FileName, way ≠ names.map FileName.part) →
    Obstacle tree root recursive way (.illegible (Path.descend root way))

/-- The root is there, and an error is what a search says of the first place where it cannot go on.
Directories come before what is in them, and what is in one in the order of the names. -/
structure StopsWith (tree : FileTree) (root : String) (recursive : Bool) (e : DocumentError) :
    Prop where
  present : ∃ node, tree.stat root = .ok node
  first : ∃ way, Obstacle tree root recursive way e ∧
    ∀ other e', Obstacle tree root recursive other e' → Path.partsBefore other way = false

variable {tree tree' : FileTree} {root path : String} {recursive : Bool} {key : FileKey}
  {node : FileNode} {way : List Path.Part} {above : List FileName} {n : FileName} {e : DocumentError}

/-! ## The extensions of documents -/

theorem isSome_ofExtension?_iff {extension : String} :
    (Format.ofExtension? extension).isSome = true ↔
      String.ofList (extension.toList.map Char.toLower) ∈ ["yaml", "yml", "json"] := by
  unfold Format.ofExtension?
  split <;> simp_all

theorem isSome_ofPath?_iff (h : Path.fileName? path = some n.text) :
    (Format.ofPath? path).isSome = true ↔ Named n := by
  simp only [Named, ← isSome_ofExtension?_iff, ← Path.extension?_eq_some_iff h,
    Option.isSome_iff_exists, Format.ofPath?, Option.bind_eq_some_iff]
  exact ⟨fun ⟨format, extension, h⟩ => ⟨extension, h.1, format, h.2⟩,
    fun ⟨extension, hpath, format, h⟩ => ⟨format, extension, hpath, h⟩⟩

/-! ## What a search comes to -/

theorem mem_closedWays_iff :
    way ∈ closedWays tree key recursive ↔
      Path.IsDescent way ∧ (recursive = true ∨ way = []) ∧ key ++ way ∈ tree.closed := by
  rw [closedWays, List.mem_filter, FileTree.mem_closedBelow_iff, Bool.or_eq_true, List.isEmpty_iff,
    and_assoc, and_comm (b := _ ∨ _)]

theorem mem_fileWays_iff :
    way ∈ fileWays tree key recursive ↔
      Path.IsDescent way ∧ way ≠ [] ∧ (recursive = true ∨ way.length = 1) ∧
        ∃ content, tree.node? (key ++ way) = some (.file content) := by
  rw [fileWays, List.mem_filter, FileTree.mem_filesBelow_iff, Bool.or_eq_true, decide_eq_true_eq]
  constructor
  · rintro ⟨⟨hdescent, hne, hfile⟩, hdepth⟩
    exact ⟨hdescent, hne, hdepth, hfile⟩
  · rintro ⟨hdescent, hne, hdepth, hfile⟩
    exact ⟨⟨hdescent, hne, hfile⟩, hdepth⟩

/-- The obstacles of a search are the places where it cannot go on. -/
theorem obstacle_iff (hkey : tree.locate root = .ok key) :
    Obstacle tree root recursive way e ↔
      way ∈ obstacles tree key recursive ∧
        e = if way ∈ closedWays tree key recursive then .unlistable root
          else .illegible (Path.descend root way) := by
  constructor
  · intro h
    cases h with
    | closed hkey' hdescent hdepth hclosed =>
      cases hkey.symm.trans hkey'
      have hmem := mem_closedWays_iff.mpr ⟨hdescent, hdepth, hclosed⟩
      exact ⟨List.mem_append_left _ hmem, (if_pos hmem).symm⟩
    | illegible hkey' hdescent hdepth hopen hfile hraw =>
      cases hkey.symm.trans hkey'
      have hne : way ≠ [] := hraw []
      have hnot : way ∉ closedWays tree key recursive := by
        intro hmem
        obtain ⟨-, hdeep, hclosed⟩ := mem_closedWays_iff.mp hmem
        exact hopen (hdeep.resolve_right hne) hclosed
      refine ⟨List.mem_append_right _ (List.mem_filter.mpr ⟨?_, ?_⟩), (if_neg hnot).symm⟩
      · exact mem_fileWays_iff.mpr ⟨hdescent, hne, hdepth, _, hfile⟩
      · rw [Bool.not_eq_true', Bool.eq_false_iff, ne_eq, Path.all_isSpelled_iff hdescent]
        exact not_exists.mpr hraw
  · rintro ⟨hmem, rfl⟩
    split
    · next hclosed =>
      obtain ⟨hdescent, hdepth, hclosed⟩ := mem_closedWays_iff.mp hclosed
      exact .closed hkey hdescent hdepth hclosed
    · next hopen =>
      obtain ⟨hfile, hraw⟩ := List.mem_filter.mp ((List.mem_append.mp hmem).resolve_left hopen)
      obtain ⟨hdescent, hne, hdepth, content, hfile⟩ := mem_fileWays_iff.mp hfile
      rw [Bool.not_eq_true', Bool.eq_false_iff, ne_eq, Path.all_isSpelled_iff hdescent] at hraw
      refine .illegible hkey hdescent hdepth (fun hdeep hclosed => ?_) hfile (not_exists.mp hraw)
      exact hopen (mem_closedWays_iff.mpr ⟨hdescent, .inl hdeep, hclosed⟩)

theorem searchable_iff :
    Searchable tree root recursive ↔ ∀ way e, ¬ Obstacle tree root recursive way e := by
  constructor
  · intro hsearch way e h
    cases h with
    | closed hkey hdescent hdepth hclosed =>
      exact hsearch.listed _ _ hkey hdescent hdepth hclosed
    | illegible hkey hdescent hdepth _ hfile hraw =>
      obtain ⟨names, hnames⟩ := hsearch.legible _ _ _ hkey hdescent hdepth hfile
      exact hraw names hnames
  · intro h
    have hlisted : ∀ key way, tree.locate root = .ok key → Path.IsDescent way →
        recursive = true ∨ way = [] → key ++ way ∉ tree.closed :=
      fun key way hkey hdescent hdepth hclosed => h _ _ (.closed hkey hdescent hdepth hclosed)
    refine ⟨hlisted, fun key way content hkey hdescent hdepth hfile => ?_⟩
    by_contra hraw
    refine h _ _ (.illegible hkey hdescent hdepth (fun hdeep => ?_) hfile (not_exists.mp hraw))
    exact hlisted key way hkey hdescent (.inl hdeep)

theorem first?_obstacles_eq_none_iff (hkey : tree.locate root = .ok key) :
    Path.first? (obstacles tree key recursive) = none ↔ Searchable tree root recursive := by
  rw [Path.first?_eq_none_iff, searchable_iff, List.eq_nil_iff_forall_not_mem]
  simp [obstacle_iff hkey]

/-! ## The candidates -/

theorem mem_candidates_iff (hkey : tree.locate root = .ok key)
    (h : Searchable tree root recursive) :
    path ∈ candidates tree key root recursive ↔
      ∃ above n, (∃ content, tree.node? (key ++ (above ++ [n]).map FileName.part) =
          some (.file content)) ∧ (recursive = true ∨ above = []) ∧ Named n ∧
        path = Path.join root (Path.relative (above ++ [n])) := by
  simp only [candidates, List.mem_filter, List.mem_map, mem_fileWays_iff]
  constructor
  · rintro ⟨⟨way, ⟨hdescent, hne, hdepth, content, hfile⟩, rfl⟩, hformat⟩
    obtain ⟨names, rfl⟩ := h.legible _ _ _ hkey hdescent hdepth hfile
    have hnames : names ≠ [] := fun hnil => hne (by rw [hnil, List.map_nil])
    obtain ⟨above, n, rfl⟩ : ∃ above n, names = above ++ [n] :=
      ⟨_, _, (List.dropLast_append_getLast hnames).symm⟩
    rw [Path.descend_names, Path.foldl_join root hnames] at hformat ⊢
    exact ⟨above, n, ⟨content, hfile⟩, by simpa using hdepth,
      (isSome_ofPath?_iff (Path.fileName?_join root above n)).mp hformat, rfl⟩
  · rintro ⟨above, n, hfile, hdepth, hnamed, rfl⟩
    have hne : above ++ [n] ≠ [] := List.concat_ne_nil n above
    refine ⟨⟨(above ++ [n]).map FileName.part, ⟨Path.isDescent_names _, ?_, ?_, hfile⟩, ?_⟩,
      (isSome_ofPath?_iff (Path.fileName?_join root above n)).mpr hnamed⟩
    · simp
    · simpa using hdepth
    · rw [Path.descend_names, Path.foldl_join root hne]

theorem nodup_parts_candidates (hkey : tree.locate root = .ok key)
    (h : Searchable tree root recursive) :
    ((candidates tree key root recursive).map Path.parts).Nodup := by
  have hways : (((fileWays tree key recursive).map (Path.descend root)).map Path.parts).Nodup := by
    rw [List.map_map]
    refine List.Nodup.map_on ?_ ((FileTree.nodup_filesBelow tree key).filter _)
    intro way hway way' hway' heq
    obtain ⟨hdescent, -, hdepth, content, hfile⟩ := mem_fileWays_iff.mp hway
    obtain ⟨hdescent', -, hdepth', content', hfile'⟩ := mem_fileWays_iff.mp hway'
    obtain ⟨names, rfl⟩ := h.legible _ _ _ hkey hdescent hdepth hfile
    obtain ⟨names', rfl⟩ := h.legible _ _ _ hkey hdescent' hdepth' hfile'
    simpa only [Function.comp_apply, Path.descend_names, Path.parts_foldl_join,
      List.append_cancel_left_eq] using heq
  exact hways.sublist (List.filter_sublist.map _)

/-! ## The search -/

theorem found_or_missing (tree : FileTree) (root : String) :
    (∃ node key, tree.stat root = .ok node ∧ tree.locate root = .ok key) ∨
      ∀ node, tree.stat root ≠ .ok node := by
  cases hstat : tree.stat root with
  | error e =>
    apply Or.inr
    intro node h
    cases h
  | ok node =>
    obtain ⟨key, hkey, -⟩ := Except.bind_eq_ok_iff.mp hstat
    exact .inl ⟨node, key, rfl, hkey⟩

theorem discover_of_missing (h : ∀ node, tree.stat root ≠ .ok node) (recursive : Bool) :
    discover tree root recursive = .ok [] := by
  rw [discover]
  split
  · next hstat _ => exact absurd hstat (h _)
  · rfl

theorem discover_eq_ok (hstat : tree.stat root = .ok node) (hkey : tree.locate root = .ok key)
    (h : Searchable tree root recursive) :
    discover tree root recursive =
      .ok ((candidates tree key root recursive).mergeSort fun a b => !Path.before b a) := by
  rw [discover, hstat, hkey]
  simp only [(first?_obstacles_eq_none_iff hkey).mpr h]

theorem discover_eq_error (hstat : tree.stat root = .ok node) (hkey : tree.locate root = .ok key)
    (h : Path.first? (obstacles tree key recursive) = some way) :
    discover tree root recursive =
      .error (if way ∈ closedWays tree key recursive then .unlistable root
        else .illegible (Path.descend root way)) := by
  rw [discover, hstat, hkey]
  simp only [h]

/-- A search that nothing stops finds the documents there, in increasing order. -/
theorem exists_discover_eq
    (h : (∀ node, tree.stat root ≠ .ok node) ∨ Searchable tree root recursive) :
    ∃ paths, discover tree root recursive = .ok paths ∧
      (paths.Pairwise fun a b => Path.before a b = true) ∧
      ∀ path, path ∈ paths ↔ Finds tree root recursive path := by
  rcases found_or_missing tree root with ⟨node, key, hstat, hkey⟩ | hmissing
  · have hsearch := h.resolve_left fun hmissing => hmissing node hstat
    have hsorted := Path.pairwise_before_mergeSort (nodup_parts_candidates hkey hsearch)
    refine ⟨_, discover_eq_ok hstat hkey hsearch, hsorted, fun path => ?_⟩
    rw [List.mem_mergeSort, mem_candidates_iff hkey hsearch]
    constructor
    · rintro ⟨above, n, ⟨content, hfile⟩, hdepth, hnamed, hpath⟩
      exact ⟨above, n, ⟨⟨node, hstat⟩, ⟨key, content, hkey, hfile⟩, hdepth, hnamed⟩, hpath⟩
    · rintro ⟨above, n, ⟨-, ⟨key', content, hkey', hfile⟩, hdepth, hnamed⟩, hpath⟩
      cases hkey.symm.trans hkey'
      exact ⟨above, n, ⟨content, hfile⟩, hdepth, hnamed, hpath⟩
  · refine ⟨[], discover_of_missing hmissing recursive, .nil, fun path => ?_⟩
    simp only [List.not_mem_nil, false_iff]
    rintro ⟨above, n, hleads, -⟩
    obtain ⟨node, hstat⟩ := hleads.present
    exact hmissing node hstat

theorem exists_discover_eq_iff :
    (∃ paths, discover tree root recursive = .ok paths) ↔
      (∀ node, tree.stat root ≠ .ok node) ∨ Searchable tree root recursive := by
  constructor
  · rintro ⟨paths, hpaths⟩
    rcases found_or_missing tree root with ⟨node, key, hstat, hkey⟩ | hmissing
    · cases hfirst : Path.first? (obstacles tree key recursive) with
      | none => exact .inr ((first?_obstacles_eq_none_iff hkey).mp hfirst)
      | some way => cases hpaths.symm.trans (discover_eq_error hstat hkey hfirst)
    · exact .inl hmissing
  · intro h
    obtain ⟨paths, hpaths, -⟩ := exists_discover_eq h
    exact ⟨paths, hpaths⟩

theorem discover_eq_ok_iff {paths : List String} :
    discover tree root recursive = .ok paths ↔
      ((∀ node, tree.stat root ≠ .ok node) ∨ Searchable tree root recursive) ∧
        (paths.Pairwise fun a b => Path.before a b = true) ∧
        ∀ path, path ∈ paths ↔ Finds tree root recursive path := by
  constructor
  · intro h
    have hsearch := exists_discover_eq_iff.mp ⟨paths, h⟩
    obtain ⟨paths', hpaths', hsorted⟩ := exists_discover_eq hsearch
    cases h.symm.trans hpaths'
    exact ⟨hsearch, hsorted⟩
  · rintro ⟨hsearch, hsorted, hmem⟩
    obtain ⟨paths', hpaths', hsorted', hmem'⟩ := exists_discover_eq hsearch
    have hperm : paths.Perm paths' := by
      apply (List.perm_ext_iff_of_nodup (Path.nodup_of_pairwise_before hsorted)
        (Path.nodup_of_pairwise_before hsorted')).mpr
      intro path
      rw [hmem, hmem']
    rw [hpaths', Path.eq_of_perm_of_pairwise hperm hsorted hsorted']

theorem discover_eq_error_iff :
    discover tree root recursive = .error e ↔ StopsWith tree root recursive e := by
  constructor
  · intro h
    rcases found_or_missing tree root with ⟨node, key, hstat, hkey⟩ | hmissing
    · refine ⟨⟨node, hstat⟩, ?_⟩
      cases hfirst : Path.first? (obstacles tree key recursive) with
      | none =>
        have hsearch := (first?_obstacles_eq_none_iff hkey).mp hfirst
        cases h.symm.trans (discover_eq_ok hstat hkey hsearch)
      | some way =>
        cases h.symm.trans (discover_eq_error hstat hkey hfirst)
        obtain ⟨hmem, hleast⟩ := Path.first?_spec hfirst
        refine ⟨way, (obstacle_iff hkey).mpr ⟨hmem, rfl⟩, ?_⟩
        intro other e' hother
        exact hleast other ((obstacle_iff hkey).mp hother).1
    · cases h.symm.trans (discover_of_missing hmissing recursive)
  · rintro ⟨⟨node, hstat⟩, way, hway, hleast⟩
    rcases found_or_missing tree root with ⟨_, key, -, hkey⟩ | hmissing
    · obtain ⟨hmem, rfl⟩ := (obstacle_iff hkey).mp hway
      apply discover_eq_error hstat hkey
      refine Path.first?_eq_some_iff.mpr ⟨hmem, fun other hother => ?_⟩
      exact hleast other _ ((obstacle_iff hkey).mpr ⟨hother, rfl⟩)
    · exact absurd hstat (hmissing node)

/-! ## The same files -/

section
variable (h : FileTree.SameFiles tree tree')
include h

theorem Obstacle.congr (ho : Obstacle tree root recursive way e) :
    Obstacle tree' root recursive way e := by
  cases ho with
  | closed hkey hdescent hdepth hclosed =>
    exact .closed ((h.locate root).trans hkey) hdescent hdepth ((h.closed _).mpr hclosed)
  | illegible hkey hdescent hdepth hopen hfile hraw =>
    refine .illegible ((h.locate root).trans hkey) hdescent hdepth (fun hdeep hclosed => ?_)
      ((h.node _).trans hfile) hraw
    exact hopen hdeep ((h.closed _).mp hclosed)

theorem obstacle_congr :
    Obstacle tree' root recursive way e ↔ Obstacle tree root recursive way e :=
  ⟨fun ho => ho.congr h.symm, fun ho => ho.congr h⟩

theorem Finds.congr (hf : Finds tree root recursive path) : Finds tree' root recursive path := by
  obtain ⟨above, n, ⟨⟨node, hstat⟩, ⟨key, content, hkey, hfile⟩, hdepth, hnamed⟩, hpath⟩ := hf
  refine ⟨above, n, ⟨⟨node, ?_⟩, ⟨key, content, ?_, ?_⟩, hdepth, hnamed⟩, hpath⟩
  · rw [h.stat, hstat]
  · rw [h.locate, hkey]
  · rw [h.node, hfile]

theorem finds_congr : Finds tree' root recursive path ↔ Finds tree root recursive path :=
  ⟨fun hf => hf.congr h.symm, fun hf => hf.congr h⟩

/-- What a search comes to depends only on what stands where. -/
theorem discover_congr (root : String) (recursive : Bool) :
    discover tree' root recursive = discover tree root recursive := by
  cases hd : discover tree root recursive with
  | ok paths =>
    rw [discover_eq_ok_iff, searchable_iff] at hd ⊢
    simpa only [h.stat, obstacle_congr h, finds_congr h] using hd
  | error e =>
    obtain ⟨hpresent, hfirst⟩ := discover_eq_error_iff.mp hd
    apply discover_eq_error_iff.mpr
    refine ⟨?_, ?_⟩
    · simpa only [h.stat] using hpresent
    · simpa only [obstacle_congr h] using hfirst

end

/-! ## Flat and deep searches -/

theorem Searchable.shallow (h : Searchable tree root true) : Searchable tree root false where
  listed key way hkey hdescent _ := h.listed key way hkey hdescent (.inl rfl)
  legible key way content hkey hdescent _ := h.legible key way content hkey hdescent (.inl rfl)

theorem Finds.deep (h : Finds tree root recursive path) : Finds tree root true path := by
  obtain ⟨above, n, hleads, hpath⟩ := h
  exact ⟨above, n, ⟨hleads.present, hleads.file, .inl rfl, hleads.named⟩, hpath⟩

/-- What is found without going deep stands directly in the root. -/
theorem finds_false_iff :
    Finds tree root false path ↔
      Finds tree root true path ∧ ∃ n : FileName, path = Path.join root n.text := by
  constructor
  · intro h
    refine ⟨h.deep, ?_⟩
    obtain ⟨above, n, hleads, rfl⟩ := h
    obtain rfl := hleads.depth.resolve_left (by simp)
    exact ⟨n, by rw [List.nil_append, Path.relative_singleton]⟩
  · rintro ⟨⟨above, n, hleads, rfl⟩, m, hm⟩
    have hparts := congrArg Path.parts hm
    rw [← Path.foldl_join root (List.concat_ne_nil n above), Path.parts_foldl_join, Path.parts_join,
      List.append_cancel_left_eq, List.map_append, List.map_singleton] at hparts
    have hlength := congrArg List.length hparts
    have habove : above = [] := by simpa using hlength
    exact ⟨above, n, ⟨hleads.present, hleads.file, .inr habove, hleads.named⟩, rfl⟩

/-- A directory that has a document, a note and a directory with another document in it. -/
def sampleTree : FileTree :=
  .addFile (.addFile (.addFile .empty "items/a.yaml" .binary) "items/a/z.YML" .binary)
    "items/notes.txt" .binary

/-- The same, filed the other way round. -/
def reversedTree : FileTree where
  entries := sampleTree.entries.reverse
  nodup := by
    rw [List.map_reverse, List.nodup_reverse]
    exact sampleTree.nodup

/-- The same with a note more, whose name is no text. -/
def illegibleTree : FileTree :=
  sampleTree.addFileAt (FileTree.keyOf "items/a" ++ [.raw [0x7A, 0xFF] (by decide +kernel)]) .binary

/-- The same, where the directory of that note may not be listed. -/
def closedTree : FileTree :=
  illegibleTree.addClosed "items/a"

end ItemMetrics.Document
