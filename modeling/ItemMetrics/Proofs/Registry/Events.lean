import ItemMetrics.Proofs.Registry.Loading
import ItemMetrics.Proofs.Trace.Growth

/-! # The events of loading a registry

Loading a directory comes to what building a registry in memory comes to, for the manifests in its
documents in the order of their paths. What is added to the log follows the documents: a span with
one event for each that is registered, and with one more if all of them are
(`Registry.load_refines_ofManifests`). -/

namespace ItemMetrics.Registry

/-! ## What a directory comes to -/

/-- The document at a path can be read and holds a manifest. -/
def Holds (tree : FileTree) (path : String) (m : Manifest) : Prop :=
  ∃ payload, Document.load tree path = .ok payload ∧ Manifest.ofJson payload path = .ok m

/-- A registry is what is built in memory of the manifests that some documents hold. -/
structure BuiltOf (tree : FileTree) (found : List (String × Manifest)) (r : Registry) : Prop where
  holds : ∀ f ∈ found, Holds tree f.1 f.2
  built : ofManifests (found.map Prod.snd) = .ok r

/-- Why the document at a path cannot be registered in a registry. -/
inductive Refused (tree : FileTree) (r : Registry) (path : String) : RegistryError → Prop
  | unread {e : DocumentError} : Document.load tree path = .error e →
    Refused tree r path (.document e)
  | malformed {payload : Json} {e : ManifestError} : Document.load tree path = .ok payload →
    Manifest.ofJson payload path = .error e → Refused tree r path (.manifest e)
  | duplicate {m : Manifest} : Holds tree path m → m.type.text ∈ r.types →
    Refused tree r path (.duplicateIn m.type.text path)

/-- The span in which a registry is loaded. -/
def loadSpan (id root : String) : Span :=
  ⟨id, "registry.load_types", [("schema_root", .string root)]⟩

/-- The event of a document whose manifest has been registered. -/
def loadedEvent (id : String) (f : String × Manifest) : Event :=
  ⟨"registry.type.loaded",
    [("source", .string f.1), ("span_id", .string id), ("type_key", .string f.2.type.text)]⟩

/-- The event of a directory all of whose documents have been registered. -/
def completeEvent (id : String) (count : Nat) : Event :=
  ⟨"registry.load_complete", [("count", .ofNat count), ("span_id", .string id)]⟩

/-- What loading a directory comes to, with the events that it adds to the log. -/
inductive Account (tree : FileTree) (root : String) :
    Except RegistryError Registry → List Event → Prop
  | unlisted {id : String} {e : DocumentError} {duration : Json} :
    Document.discover tree root true = .error e →
    Account tree root (.error (.document e))
      [(loadSpan id root).startEvent, (loadSpan id root).endEvent duration]
  /-- The documents in front of the one at `path` are registered and that one is not. -/
  | stopped {id path : String} {found : List (String × Manifest)} {after : List String}
      {r : Registry} {e : RegistryError} {duration : Json} :
    Document.discover tree root true = .ok (found.map Prod.fst ++ path :: after) →
    BuiltOf tree found r → Refused tree r path e →
    Account tree root (.error e)
      ((loadSpan id root).startEvent :: found.map (loadedEvent id) ++
        [(loadSpan id root).endEvent duration])
  | loaded {id : String} {found : List (String × Manifest)} {r : Registry} {duration : Json} :
    Document.discover tree root true = .ok (found.map Prod.fst) → BuiltOf tree found r →
    Account tree root (.ok r)
      ((loadSpan id root).startEvent :: found.map (loadedEvent id) ++
        [completeEvent id r.size, (loadSpan id root).endEvent duration])

variable {tree : FileTree} {root path : String} {r r' : Registry} {m : Manifest} {span : Span}
  {log : Log} {found : List (String × Manifest)} {paths : List String} {ms : List Manifest}
  {e : RegistryError}

/-! ## One document -/

theorem read_eq_ok_iff : read tree path = .ok m ↔ Holds tree path m := by
  simp only [read, Holds, Except.bind_eq_ok_iff, Except.mapError_eq_ok_iff]

theorem refused_of_read (h : read tree path = .error e) : Refused tree r path e := by
  simp only [read, Except.bind_eq_error_iff, Except.mapError_eq_error_iff,
    Except.mapError_eq_ok_iff] at h
  obtain ⟨e', hload, rfl⟩ | ⟨payload, hload, e', hmanifest, rfl⟩ := h
  · exact .unread hload
  · exact .malformed hload hmanifest

theorem builtOf_nil (tree : FileTree) : BuiltOf tree [] ∅ := ⟨by simp, rfl⟩

theorem BuiltOf.append (h : BuiltOf tree found r) (hm : Holds tree path m)
    (hinsert : r.insert? m = some r') : BuiltOf tree (found ++ [(path, m)]) r' := by
  refine ⟨?_, ?_⟩
  · intro f hf
    rcases List.mem_append.mp hf with hf | hf
    · exact h.holds f hf
    · rw [List.mem_singleton.mp hf]
      exact hm
  · have hbuilt := h.built
    rw [ofManifests] at hbuilt
    rw [ofManifests, List.map_append, List.foldlM_append, hbuilt]
    simp [register, hinsert]

theorem loadedEvent_eq (id path : String) (m : Manifest) :
    loadedEvent id (path, m) = .of "registry.type.loaded"
      [("span_id", .string id), ("type_key", .string m.type.text), ("source", .string path)] := by
  simp only [loadedEvent, Event.of, Json.Members.ofList, List.foldl_cons, List.foldl_nil,
    Json.Members.insert, String.reduceLT, String.reduceEq, if_true, if_false]

theorem completeEvent_eq (id : String) (count : Nat) :
    completeEvent id count = .of "registry.load_complete"
      [("span_id", .string id), ("count", .ofNat count)] := by
  simp only [completeEvent, Event.of, Json.Members.ofList, List.foldl_cons, List.foldl_nil,
    Json.Members.insert, String.reduceLT, String.reduceEq, if_true, if_false]

/-- A document is registered and has its event, or it is refused and has none. -/
theorem on_loadDocument (h : BuiltOf tree found r) (span : Span) (path : String) (log : Log) :
    (∃ m r', BuiltOf tree (found ++ [(path, m)]) r' ∧
      (loadDocument tree span r path).on log =
        (.ok r', log.add (loadedEvent span.id (path, m)))) ∨
    ∃ e, Refused tree r path e ∧ (loadDocument tree span r path).on log = (.error e, log) := by
  cases hread : read tree path with
  | error e =>
    refine .inr ⟨e, refused_of_read hread, ?_⟩
    simp only [loadDocument, Logged.on_bind, Logged.on_ofExcept, hread]
  | ok m =>
    have hm := read_eq_ok_iff.mp hread
    cases hinsert : r.insert? m with
    | none =>
      refine .inr ⟨_, .duplicate hm (insert?_eq_none_iff.mp hinsert), ?_⟩
      simp only [loadDocument, Logged.on_bind, Logged.on_ofExcept, hread, hinsert, Logged.on_throw]
    | some r' =>
      refine .inl ⟨m, r', h.append hm hinsert, ?_⟩
      simp only [loadDocument, Logged.on_bind, Logged.on_ofExcept, hread, hinsert, Logged.on_emit,
        Logged.on_pure, loadedEvent_eq, Log.emit]

/-! ## All documents -/

/-- One document after another is registered, up to the first that is refused. -/
theorem exists_on_loadDocuments (h : BuiltOf tree found r) (span : Span) (paths : List String)
    (log : Log) :
    ∃ more r' log', BuiltOf tree (found ++ more) r' ∧
      log.Grows (more.map (loadedEvent span.id)) log' ∧
      (paths = more.map Prod.fst ∧
          (paths.foldlM (loadDocument tree span) r).on log = (.ok r', log') ∨
        ∃ path after e, paths = more.map Prod.fst ++ path :: after ∧ Refused tree r' path e ∧
          (paths.foldlM (loadDocument tree span) r).on log = (.error e, log')) := by
  -- on the documents that are left; what those before them have built is carried in `h`
  induction paths generalizing found r log with
  | nil => exact ⟨[], r, log, by simpa using h, .refl log, .inl ⟨rfl, rfl⟩⟩
  | cons path paths ih =>
    obtain ⟨m, r₁, hbuilt, hstep⟩ | ⟨e, hrefused, hstep⟩ := on_loadDocument h span path log
    · obtain ⟨more, r', log', hbuilt', hgrows, hend⟩ :=
        ih hbuilt (log.add (loadedEvent span.id (path, m)))
      have hrun : ((path :: paths).foldlM (loadDocument tree span) r).on log =
          (paths.foldlM (loadDocument tree span) r₁).on
            (log.add (loadedEvent span.id (path, m))) := by
        rw [List.foldlM_cons, Logged.on_bind, hstep]
      refine ⟨(path, m) :: more, r', log', ?_, ?_, ?_⟩
      · rwa [List.append_assoc, List.singleton_append] at hbuilt'
      · exact (log.grows_add _).trans hgrows
      · rw [hrun]
        obtain ⟨hpaths, hend⟩ | ⟨path', after, e, hpaths, hrefused, hend⟩ := hend
        · exact .inl ⟨by rw [hpaths, List.map_cons], hend⟩
        · exact .inr ⟨path', after, e, by rw [hpaths]; rfl, hrefused, hend⟩
    · refine ⟨[], r, log, by simpa using h, .refl log, .inr ⟨path, paths, e, rfl, hrefused, ?_⟩⟩
      rw [List.foldlM_cons, Logged.on_bind, hstep]

theorem openSpan_load (root : String) (log : Log) :
    ∃ id opened, log.openSpan "registry.load_types"
      (Json.Members.ofList [("schema_root", .string root)]) = (loadSpan id root, opened) :=
  ⟨_, _, rfl⟩

/-- Around what the documents add stand the start and the end of the span. -/
theorem exists_on_load {id : String} {opened log₁ : Log} {es : List Event} (tree : FileTree)
    (outcome : Except RegistryError Registry)
    (hopen : log.openSpan "registry.load_types"
      (Json.Members.ofList [("schema_root", .string root)]) = (loadSpan id root, opened))
    (hgrows : opened.Grows es log₁)
    (hbody : Logged.on (do
      let paths ← Logged.ofExcept ((Document.discover tree root true).mapError .document)
      let r ← paths.foldlM (loadDocument tree (loadSpan id root)) ∅
      Logged.emit "registry.load_complete" [("span_id", .string id), ("count", .ofNat r.size)]
      return r) opened = (outcome, log₁)) :
    ∃ log', log.Grows ((loadSpan id root).startEvent :: es ++
        [(loadSpan id root).endEvent (.ofNat 0)]) log' ∧
      (load tree root).on log = (outcome, log') := by
  unfold load
  exact Logged.exists_on_inSpan hopen hgrows hbody

/-- Loading a directory is accounted for. -/
theorem exists_account (tree : FileTree) (root : String) (log : Log) :
    ∃ outcome es log', (load tree root).on log = (outcome, log') ∧
      Account tree root outcome es ∧ log.Grows es log' := by
  obtain ⟨id, opened, hopen⟩ := openSpan_load root log
  cases hpaths : Document.discover tree root true with
  | error e =>
    obtain ⟨log', hgrows, hload⟩ := exists_on_load tree (.error (.document e)) hopen (.refl opened)
      (by simp only [hpaths, Except.mapError, Logged.on_bind, Logged.on_ofExcept])
    exact ⟨_, _, log', hload, .unlisted hpaths, hgrows⟩
  | ok paths =>
    obtain ⟨found, r, log₁, hbuilt, hgrows₁, hend⟩ :=
      exists_on_loadDocuments (builtOf_nil tree) (loadSpan id root) paths opened
    rw [List.nil_append] at hbuilt
    obtain ⟨rfl, hrun⟩ | ⟨path, after, e, rfl, hrefused, hrun⟩ := hend
    · obtain ⟨log', hgrows, hload⟩ := exists_on_load tree (.ok r) hopen
        (hgrows₁.trans (log₁.grows_add (completeEvent id r.size)))
        (by simp only [hpaths, Except.mapError, Logged.on_bind, Logged.on_ofExcept, hrun,
          Logged.on_emit, Logged.on_pure, completeEvent_eq, Log.emit])
      rw [← List.cons_append, List.append_assoc] at hgrows
      exact ⟨_, _, log', hload, .loaded hpaths hbuilt, hgrows⟩
    · obtain ⟨log', hgrows, hload⟩ := exists_on_load tree (.error e) hopen hgrows₁
        (by simp only [hpaths, Except.mapError, Logged.on_bind, Logged.on_ofExcept, hrun])
      exact ⟨_, _, log', hload, .stopped hpaths hbuilt hrefused, hgrows⟩

/-- Documents that hold manifests are read one after another. -/
theorem mapM_read_eq_ok_iff :
    paths.mapM (read tree) = .ok ms ↔
      ∃ found : List (String × Manifest), found.map Prod.fst = paths ∧
        found.map Prod.snd = ms ∧ ∀ f ∈ found, Holds tree f.1 f.2 := by
  induction paths generalizing ms with
  | nil =>
    constructor
    · intro h
      cases h
      exact ⟨[], rfl, rfl, by simp⟩
    · rintro ⟨found, hfst, rfl, -⟩
      cases List.map_eq_nil_iff.mp hfst
      rfl
  | cons path paths ih =>
    simp only [List.mapM_cons, Except.bind_eq_ok_iff, ih, read_eq_ok_iff]
    constructor
    · rintro ⟨m, hm, _, ⟨found, rfl, rfl, hholds⟩, h⟩
      cases h
      exact ⟨(path, m) :: found, rfl, rfl, List.forall_mem_cons.mpr ⟨hm, hholds⟩⟩
    · rintro ⟨found, hfst, rfl, hholds⟩
      obtain ⟨⟨_, m⟩, found, rfl, rfl, rfl⟩ := List.map_eq_cons_iff.mp hfst
      obtain ⟨hm, hholds⟩ := List.forall_mem_cons.mp hholds
      exact ⟨m, hm, _, ⟨found, rfl, rfl, hholds⟩, rfl⟩

/-- **Loading a directory refines building a registry in memory.** It succeeds exactly when every
document that is found holds a manifest and a registry can be built of these manifests in the order
of the documents, and comes to that registry. Whatever it comes to, what it adds to a log is a span
with the events of the documents that were registered. -/
theorem load_refines_ofManifests (tree : FileTree) (root : String) (log : Log) :
    (∀ r, ((load tree root).on log).1 = .ok r ↔
      ∃ found : List (String × Manifest),
        Document.discover tree root true = .ok (found.map Prod.fst) ∧
        (∀ f ∈ found, Holds tree f.1 f.2) ∧ ofManifests (found.map Prod.snd) = .ok r) ∧
    ∃ es, log.Grows es ((load tree root).on log).2 ∧
      Account tree root ((load tree root).on log).1 es := by
  refine ⟨fun r => ?_, ?_⟩
  · rw [load_eq_ok_iff]
    simp only [mapM_read_eq_ok_iff]
    constructor
    · rintro ⟨_, _, hpaths, ⟨found, rfl, rfl, hholds⟩, hr⟩
      exact ⟨found, hpaths, hholds, hr⟩
    · rintro ⟨found, hpaths, hholds, hr⟩
      exact ⟨_, _, hpaths, ⟨found, rfl, rfl, hholds⟩, hr⟩
  · obtain ⟨outcome, es, log', hload, haccount, hgrows⟩ := exists_account tree root log
    rw [hload]
    exact ⟨es, hgrows, haccount⟩

example : ((load (.addFile .empty "s/a.yaml" (.text "type: note\nschema: a\n")) "s").on
    .recording).2.names =
      ["trace.start", "registry.type.loaded", "registry.load_complete", "trace.end"] := by
  decide +kernel

end ItemMetrics.Registry
