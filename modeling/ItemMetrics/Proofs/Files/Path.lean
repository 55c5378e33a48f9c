import ItemMetrics.Document.Format
import ItemMetrics.Proofs.FieldPath.Segments

/-! # Paths that lead down

A name that is joined to a path adds one part to it (`Path.parts_join`), so names that are joined one
after the other are the parts that a path has more (`Path.parts_foldl_join`). The last of them has the
extension of the path (`Path.extension?_eq_some_iff`). -/

namespace ItemMetrics

/-- What a file or a directory is called where it stands. -/
structure FileName where
  text : String
  valid : Path.isName text = true

namespace FileName

@[ext] theorem ext {a b : FileName} (h : a.text = b.text) : a = b := by
  cases a; cases b; cases h; rfl

def part (n : FileName) : Path.Part :=
  .name n.text n.valid

/-- The text after the last point, if the name does not start with that. -/
def HasExtension (n : FileName) (extension : String) : Prop :=
  ∃ stem, stem ≠ "" ∧ n.text = stem ++ "." ++ extension ∧ '.' ∉ extension.toList

variable (n : FileName)

theorem text_ne : n.text ≠ "" ∧ n.text ≠ "." ∧ n.text ≠ ".." ∧ '/' ∉ n.text.toList := by
  simpa [Path.isName, and_assoc] using n.valid

theorem ofPiece?_text : Path.Part.ofPiece? n.text = some n.part := by
  rw [Path.Part.ofPiece?, if_neg n.text_ne.2.2.1, dif_pos n.valid]
  rfl

theorem split_text : Text.split '/' n.text = [n.text] :=
  Text.split_of_not_mem n.text_ne.2.2.2

end FileName

namespace Path

variable {base s t path : String} {first : String} {rest : List String}

/-! ## Joining -/

theorem isAbsolute_append (h : s ≠ "") (t : String) : isAbsolute (s ++ t) = isAbsolute s := by
  rw [isAbsolute, isAbsolute, String.toList_append, List.head?_append_of_ne_nil]
  exact mt String.toList_eq_nil_iff.mp h

theorem parts_eq (h : Text.split '/' path = first :: rest) :
    parts path =
      (if isAbsolute path then [.root] else if first = "." then [.here]
        else (Part.ofPiece? first).toList) ++ rest.filterMap Part.ofPiece? := by
  rw [parts, h]

theorem split_append_slash (base : String) :
    Text.split '/' (base ++ "/") = Text.split '/' base ++ [""] :=
  Text.split_append (b := "") (by simp)

theorem filterMap_idle : [""].filterMap Part.ofPiece? = [] :=
  rfl

/-- A piece behind a slash adds its part. -/
theorem parts_append (base : String) (h : '/' ∉ t.toList) :
    parts (base ++ "/" ++ t) = parts (base ++ "/") ++ (Part.ofPiece? t).toList := by
  obtain ⟨first, rest, hbase⟩ := List.exists_cons_of_ne_nil (Text.split_ne_nil '/' base)
  have hslash := split_append_slash base
  have hpiece : Text.split '/' (base ++ "/" ++ t) = Text.split '/' base ++ Text.split '/' t :=
    Text.split_append (by simp)
  rw [Text.split_of_not_mem h, hbase, List.cons_append] at hpiece
  rw [hbase, List.cons_append] at hslash
  rw [parts_eq hpiece, parts_eq hslash, isAbsolute_append (by simp), List.filterMap_append,
    List.filterMap_append, filterMap_idle, List.append_nil, List.append_assoc]
  cases ht : Part.ofPiece? t <;> simp [ht]

theorem parts_append_slash (h : base ≠ "") : parts (base ++ "/") = parts base := by
  obtain ⟨first, rest, hbase⟩ := List.exists_cons_of_ne_nil (Text.split_ne_nil '/' base)
  have hslash := split_append_slash base
  rw [hbase, List.cons_append] at hslash
  rw [parts_eq hslash, parts_eq hbase, isAbsolute_append h, List.filterMap_append, filterMap_idle,
    List.append_nil]

theorem isAbsolute_text (n : FileName) : isAbsolute n.text = false := by
  refine Bool.eq_false_iff.mpr fun h => n.text_ne.2.2.2 ?_
  exact List.mem_of_head? (by simpa [isAbsolute] using h)

theorem parts_text (n : FileName) : parts n.text = [n.part] := by
  rw [parts_eq n.split_text, isAbsolute_text, if_neg (by simp), if_neg n.text_ne.2.1,
    n.ofPiece?_text]
  rfl

/-- Joining a name adds its part. -/
theorem parts_join (base : String) (n : FileName) :
    parts (join base n.text) = parts base ++ [n.part] := by
  have hpart : (Part.ofPiece? n.text).toList = [n.part] := by rw [n.ofPiece?_text]; rfl
  rw [join, isAbsolute_text, if_neg (by simp)]
  split
  · next h =>
    rcases Bool.or_eq_true_iff.mp h with hempty | hslash
    · rw [of_decide_eq_true hempty, String.empty_append, parts_text]
      rfl
    · obtain ⟨cs, hcs⟩ := List.getLast?_eq_some_iff.mp (beq_iff_eq.mp hslash)
      have hbase : base = String.ofList cs ++ "/" := by
        rw [← String.toList_inj, hcs]
        simp
      rw [hbase, parts_append _ n.text_ne.2.2.2, hpart]
  · next h =>
    have hempty : base ≠ "" := fun heq => h (by simp [heq])
    rw [parts_append _ n.text_ne.2.2.2, parts_append_slash hempty, hpart]

theorem parts_foldl_join (base : String) (names : List FileName) :
    parts ((names.map FileName.text).foldl join base) = parts base ++ names.map FileName.part := by
  induction names generalizing base with
  | nil => simp
  | cons n names ih => simp [ih, parts_join]

/-- The path that leads down along some names. -/
def relative (names : List FileName) : String :=
  "/".intercalate (names.map FileName.text)

theorem relative_singleton (n : FileName) : relative [n] = n.text :=
  String.intercalate_singleton

theorem relative_cons (n : FileName) {names : List FileName} (h : names ≠ []) :
    relative (n :: names) = n.text ++ "/" ++ relative names :=
  String.intercalate_cons_of_ne_nil (by simpa using h)

theorem isAbsolute_relative {names : List FileName} (h : names ≠ []) :
    isAbsolute (relative names) = false := by
  match names, h with
  | [n], _ => rw [relative_singleton, isAbsolute_text]
  | n :: m :: names, _ =>
    rw [relative_cons n (List.cons_ne_nil m names), isAbsolute_append (by simp),
      isAbsolute_append n.text_ne.1, isAbsolute_text]

/-- What stands before a path that is joined does not depend on it. -/
theorem exists_join (base : String) :
    ∃ lead, ∀ t, isAbsolute t = false → join base t = lead ++ t := by
  by_cases h : (base = "" || base.toList.getLast? == some '/') = true
  · exact ⟨base, fun t ht => by rw [join, ht, if_neg (by simp), if_pos h]⟩
  · exact ⟨base ++ "/", fun t ht => by rw [join, ht, if_neg (by simp), if_neg h]⟩

/-- A name and a path that leads on from it are joined at once or one after the other. -/
theorem join_join (base : String) (n : FileName) (h : isAbsolute t = false) :
    join (join base n.text) t = join base (n.text ++ "/" ++ t) := by
  obtain ⟨lead, hlead⟩ := exists_join base
  have hname : isAbsolute (n.text ++ "/" ++ t) = false := by
    rw [isAbsolute_append (by simp), isAbsolute_append n.text_ne.1, isAbsolute_text]
  have hends : ¬ (lead ++ n.text = "" || (lead ++ n.text).toList.getLast? == some '/') = true := by
    have hne : n.text.toList ≠ [] := mt String.toList_eq_nil_iff.mp n.text_ne.1
    rw [Bool.or_eq_true, decide_eq_true_eq, beq_iff_eq, String.toList_append,
      List.getLast?_append_of_ne_nil _ hne]
    rintro (hempty | hlast)
    · exact n.text_ne.1 (String.append_eq_empty_iff.mp hempty).2
    · exact n.text_ne.2.2.2 (List.mem_of_getLast? hlast)
  rw [hlead _ (isAbsolute_text n), hlead _ hname, join, h, if_neg (by simp), if_neg hends]
  simp only [String.append_assoc]

/-- Names that are joined one after the other are a path that leads down. -/
theorem foldl_join (base : String) {names : List FileName} (h : names ≠ []) :
    (names.map FileName.text).foldl join base = join base (relative names) := by
  induction names generalizing base with
  | nil => exact absurd rfl h
  | cons n names ih =>
    rw [List.map_cons, List.foldl_cons]
    cases names with
    | nil => rw [relative_singleton]; rfl
    | cons m names =>
      have hrest := List.cons_ne_nil m names
      rw [ih _ hrest, join_join base n (isAbsolute_relative hrest), relative_cons n hrest]

/-! ## Extensions -/

theorem fileName?_join (base : String) (above : List FileName) (n : FileName) :
    fileName? (join base (relative (above ++ [n]))) = some n.text := by
  rw [← foldl_join base (List.concat_ne_nil n above), fileName?, parts_foldl_join, List.map_append,
    List.map_singleton, ← List.append_assoc, List.getLast?_concat]
  rfl

theorem hasExtension_iff {n : FileName} {extension : String} :
    n.HasExtension extension ↔
      ∃ front, Text.split '.' n.text = front ++ [extension] ∧ front ≠ [] ∧ front ≠ [""] := by
  constructor
  · rintro ⟨stem, hstem, htext, hdot⟩
    have hsplit : Text.split '.' n.text = Text.split '.' stem ++ Text.split '.' extension :=
      Text.split_append (by simp [htext])
    rw [Text.split_of_not_mem hdot] at hsplit
    refine ⟨_, hsplit, Text.split_ne_nil _ _, fun hempty => hstem ?_⟩
    rw [← FieldPath.join_segments stem, FieldPath.segments, hempty]
    rfl
  · rintro ⟨front, hsplit, hne, hempty⟩
    have hjoin : n.text = FieldPath.join front ++ "." ++ extension := by
      rw [← FieldPath.join_segments n.text, FieldPath.segments, hsplit,
        FieldPath.join_append hne (List.cons_ne_nil _ _), FieldPath.join_singleton]
    refine ⟨FieldPath.join front, fun hstem => ?_, hjoin, ?_⟩
    · obtain ⟨w, front, rfl⟩ := List.exists_cons_of_ne_nil hne
      cases front with
      | nil => exact hempty (by rw [← hstem, FieldPath.join_singleton])
      | cons v front =>
        have hdot : '.' ∈ (FieldPath.join (w :: v :: front)).toList :=
          FieldPath.dot_mem_join (by simp)
        simp [hstem] at hdot
    · exact Text.not_mem_of_mem_split (a := n.text) (hsplit ▸ by simp)

theorem extension?_eq_some_iff {extension : String} {n : FileName}
    (h : fileName? path = some n.text) :
    extension? path = some extension ↔ n.HasExtension extension := by
  have hfront (last : String) (rest : List String)
      (hrev : (Text.split '.' n.text).reverse = last :: rest) (front : List String) :
      Text.split '.' n.text = front ++ [extension] ↔ last = extension ∧ front = rest.reverse := by
    rw [← List.reverse_inj, hrev, List.reverse_append, List.reverse_singleton,
      List.singleton_append, List.cons.injEq]
    refine and_congr_right fun _ => ⟨?_, ?_⟩
    · rintro rfl
      exact (List.reverse_reverse front).symm
    · rintro rfl
      exact (List.reverse_reverse rest).symm
  rw [hasExtension_iff, extension?, h, Option.bind_some]
  split
  · next last hrev => simp [hfront _ _ hrev]
  · next last hrev => simp [hfront _ _ hrev]
  · next last rest hone htwo hrev =>
    have hne : rest ≠ [] := hone
    have hempty : rest.reverse ≠ [""] := fun h => htwo (List.reverse_eq_iff.mp h)
    simp [hfront _ _ hrev, hne, hempty]
  · next hrev => exact absurd (List.reverse_eq_nil_iff.mp hrev) (Text.split_ne_nil _ _)

end Path
end ItemMetrics
