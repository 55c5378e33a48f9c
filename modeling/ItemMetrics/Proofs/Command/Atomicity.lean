import ItemMetrics.Proofs.Command.Check
import ItemMetrics.Proofs.Command.Session
import ItemMetrics.Proofs.Files.Writing
import ItemMetrics.Proofs.Settings.Loading

/-! # An evaluation reports on all items or on none

Nothing is printed and no file is written before the last item is evaluated. A run that meets an
obstacle on the way there leaves nothing behind, one whose items do not pass the check leaves its
complaints and an exit code, and only a run that has evaluated everything comes to its reports
(`Command.evaluateItems_atomic`). -/

namespace ItemMetrics

namespace Command

section Stages

variable (tree : FileTree) (workingDir : String) (config : Option String) (paths : List String)

/-- The paths at which the items are looked for: those given, or the one in the settings. -/
def itemPaths (session : Session) : List String :=
  if paths.isEmpty then [session.settings.itemsPath] else paths

/-- The session and the items have been loaded. -/
structure Loaded (session : Session) (items : List LoadedItem) : Prop where
  opened : Session.Opened tree workingDir config session
  found : loadItems tree (itemPaths paths session) = .ok items

/-- The problems that the check finds among the items, if there are any. -/
structure Refused (problems : List String) : Prop where
  exists_loaded : ∃ session items, Loaded tree workingDir config paths session items ∧
    checkItems session.settings.requiredFields session.registry items = problems
  ne_nil : problems ≠ []

/-- The items have passed the check. -/
structure Passed (session : Session) (items : List LoadedItem) : Prop
    extends Loaded tree workingDir config paths session items where
  check : checkItems session.settings.requiredFields session.registry items = []

/-- All items are evaluated, and are to be reported in the order in which they were loaded. -/
structure Evaluated (session : Session) (items : List LoadedItem) (reported : List Report.Item) :
    Prop extends Passed tree workingDir config paths session items where
  evaluated : List.Forall₂
    (fun item r => ∃ e, ((session.evaluator.evaluate item.payload).on .disabled).1 = .ok e ∧
      .of item.payload e = r)
    items reported

/-- Why the check is not reached, or not all items are evaluated after it: the first thing that
fails. -/
inductive Obstacle : CommandError → Prop
  | session {e : CommandError} : Session.Obstacle tree workingDir config e → Obstacle e
  | items {session : Session} {e : DocumentError} : Session.Opened tree workingDir config session →
    loadItems tree (itemPaths paths session) = .error e → Obstacle (.document e)
  | evaluation {session : Session} {before after : List LoadedItem} {item : LoadedItem}
    {e : EvaluationError} :
    Passed tree workingDir config paths session (before ++ item :: after) →
    (∀ b ∈ before, ∃ e, ((session.evaluator.evaluate b.payload).on .disabled).1 = .ok e) →
    ((session.evaluator.evaluate item.payload).on .disabled).1 = .error e →
    Obstacle (.evaluation e)

/-- How an evaluation ends: before its reports, or with them. -/
inductive Ending (json : Option String) (events colors : Bool) : Outcome → Prop
  | stopped {e : CommandError} : Obstacle tree workingDir config paths e →
    Ending json events colors (.failure e)
  | refused {problems : List String} : Refused tree workingDir config paths problems →
    Ending json events colors
      { Outcome.failure (.invalidItems problems.length) with
        stderr := problemLines problems, exit := some 1 }
  | printed {session : Session} {items : List LoadedItem} {reported : List Report.Item}
    {text rest : String} : Evaluated tree workingDir config paths session items reported →
    Report.console colors session.registry reported = (text, .ok ()) →
    (events = false → rest = "") → json = none →
    Ending json events colors (.success (text ++ rest))
  | written {session : Session} {items : List LoadedItem} {reported : List Report.Item}
    {text rest path : String} {tree' : FileTree} :
    Evaluated tree workingDir config paths session items reported →
    Report.console colors session.registry reported = (text, .ok ()) →
    (events = false → rest = "") → json = some path →
    tree.write path (.text (Report.document reported)) = .ok tree' →
    Ending json events colors
      { Outcome.success (text ++ rest) with written := some (path, Report.document reported) }
  | unwritten {session : Session} {items : List LoadedItem} {reported : List Report.Item}
    {text path : String} {cause : FileError} :
    Evaluated tree workingDir config paths session items reported → json = some path →
    tree.write path (.text (Report.document reported)) = .error cause →
    Ending json events colors { Outcome.failure (.unwritableReport path cause) with stdout := text }

end Stages

variable {tree : FileTree} {workingDir : String} {config : Option String} {paths : List String}
  {session : Session} {items : List LoadedItem} {reported : List Report.Item} {log : Log}
  {problems : List String} {e : CommandError} {ev : Evaluator}

/-! ## Evaluating the items -/

theorem fst_on_evaluateMany_eq_ok_iff {results : List (Json × Evaluation)} :
    ((ev.evaluateMany (items.map LoadedItem.payload)).on log).1 = .ok results ↔
      List.Forall₂ (fun item r => ∃ e, ((ev.evaluate item.payload).on .disabled).1 = .ok e ∧
        (item.payload, e) = r) items results := by
  simp only [Evaluator.fst_on_evaluateMany, Evaluator.fst_on_evaluate,
    Except.mapM_eq_ok_iff_forall₂, List.forall₂_map_left_iff, Except.map_eq_ok_iff]

/-- What is to be reported of items that are all evaluated. -/
theorem exists_evaluateMany_iff (log : Log) :
    (∃ results, ((ev.evaluateMany (items.map LoadedItem.payload)).on log).1 = .ok results ∧
      (results.map fun r => Report.Item.of r.1 r.2) = reported) ↔
        List.Forall₂ (fun item r => ∃ e, ((ev.evaluate item.payload).on .disabled).1 = .ok e ∧
          .of item.payload e = r) items reported := by
  simp only [fst_on_evaluateMany_eq_ok_iff]
  constructor
  · rintro ⟨results, h, rfl⟩
    rw [List.forall₂_map_right_iff]
    refine h.imp fun item r hr => ?_
    obtain ⟨e, he, rfl⟩ := hr
    exact ⟨e, he, rfl⟩
  · intro h
    induction h with
    | nil => exact ⟨[], .nil, rfl⟩
    | cons hr _ ih =>
      obtain ⟨e, he, rfl⟩ := hr
      obtain ⟨results, hresults, rfl⟩ := ih
      exact ⟨_ :: results, .cons ⟨e, he, rfl⟩ hresults, rfl⟩

theorem fst_on_evaluateMany_eq_error_iff {err : EvaluationError} :
    ((ev.evaluateMany (items.map LoadedItem.payload)).on log).1 = .error err ↔
      ∃ before item after, items = before ++ item :: after ∧
        (∀ b ∈ before, ∃ e, ((ev.evaluate b.payload).on .disabled).1 = .ok e) ∧
        ((ev.evaluate item.payload).on .disabled).1 = .error err := by
  simp only [Evaluator.fst_on_evaluateMany, Evaluator.fst_on_evaluate, List.mapM_map,
    Except.mapM_eq_error_iff, Function.comp_apply, Except.map_eq_error_iff]
  refine exists_congr fun before => exists_congr fun item => exists_congr fun after => ?_
  rw [exists_and_left, exists_and_right, Except.exists_mapM_eq_ok_iff]
  simp only [Function.comp_apply, Except.map_eq_ok_iff, exists_comm, exists_eq_right']

/-! ## What is prepared -/

/-- What comes of items that are loaded: their problems, or their evaluations. -/
def judge (session : Session) (items : List LoadedItem) : Logged CommandError Prepared :=
  match checkItems session.settings.requiredFields session.registry items with
  | [] => do
    let results ← (session.evaluator.evaluateMany (items.map LoadedItem.payload)).adapt .evaluation
    return .evaluated session.registry (results.map fun r => .of r.1 r.2)
  | problems => return .refused problems

theorem prepare_eq (tree : FileTree) (workingDir : String) (config : Option String)
    (paths : List String) :
    prepare tree workingDir config paths = (do
      let session ← Session.load tree workingDir config
      let items ← Logged.ofExcept ((loadItems tree (itemPaths paths session)).mapError .document)
      judge session items) := rfl

theorem on_judge_of_problems
    (h : checkItems session.settings.requiredFields session.registry items ≠ []) (log : Log) :
    (judge session items).on log =
      (.ok (.refused (checkItems session.settings.requiredFields session.registry items)),
        log) := by
  unfold judge
  split
  · next hnil => exact absurd hnil h
  · rfl

theorem fst_on_judge_of_check
    (h : checkItems session.settings.requiredFields session.registry items = []) (log : Log) :
    ((judge session items).on log).1 =
      ((session.evaluator.evaluateMany (items.map LoadedItem.payload)).on log).1.mapError
        .evaluation >>= fun results =>
          .ok (.evaluated session.registry (results.map fun r => .of r.1 r.2)) := by
  unfold judge
  rw [h]
  dsimp only
  rw [Logged.fst_on_bind, Logged.on_adapt]
  rfl

/-- Once everything is loaded, the log goes on as loading the session has left it. -/
theorem on_prepare_of_loaded (h : Loaded tree workingDir config paths session items) (log : Log) :
    (prepare tree workingDir config paths).on log =
      (judge session items).on ((Session.load tree workingDir config).on log).2 := by
  have hsession : ((Session.load tree workingDir config).on log).1 = .ok session :=
    Session.fst_on_load_eq_ok_iff.mpr h.opened
  obtain ⟨log₁, hload⟩ := Logged.exists_on_eq hsession
  rw [prepare_eq, Logged.on_bind, hload]
  dsimp only
  rw [h.found, Logged.on_bind, Logged.on_ofExcept]
  rfl

theorem on_prepare_of_refused (h : Refused tree workingDir config paths problems) (log : Log) :
    (prepare tree workingDir config paths).on log =
      (.ok (.refused problems), ((Session.load tree workingDir config).on log).2) := by
  obtain ⟨⟨session, items, hloaded, rfl⟩, hne⟩ := h
  rw [on_prepare_of_loaded hloaded, on_judge_of_problems hne]

theorem fst_on_prepare_of_evaluated
    (h : Evaluated tree workingDir config paths session items reported) (log : Log) :
    ((prepare tree workingDir config paths).on log).1 =
      .ok (.evaluated session.registry reported) := by
  obtain ⟨results, hresults, rfl⟩ := (exists_evaluateMany_iff
    ((Session.load tree workingDir config).on log).2).mpr h.evaluated
  rw [on_prepare_of_loaded h.toLoaded, fst_on_judge_of_check h.check, hresults]
  rfl

theorem fst_on_prepare_of_obstacle (h : Obstacle tree workingDir config paths e) (log : Log) :
    ((prepare tree workingDir config paths).on log).1 = .error e := by
  cases h with
  | session h =>
    rw [prepare_eq, Logged.fst_on_bind, Session.fst_on_load_eq_error_iff.mpr h, Except.error_bind]
  | items hopened he =>
    rw [prepare_eq, Logged.fst_on_bind, Session.fst_on_load_eq_ok_iff.mpr hopened, Except.ok_bind,
      he, Logged.fst_on_bind, Logged.on_ofExcept]
    rfl
  | evaluation hpassed hbefore he =>
    rw [on_prepare_of_loaded hpassed.toLoaded, fst_on_judge_of_check hpassed.check,
      fst_on_evaluateMany_eq_error_iff.mpr ⟨_, _, _, rfl, hbefore, he⟩]
    rfl

/-- Every run meets an obstacle, or has its items refused, or evaluates them all. -/
theorem stages_total (tree : FileTree) (workingDir : String) (config : Option String)
    (paths : List String) :
    (∃ e, Obstacle tree workingDir config paths e) ∨
      (∃ problems, Refused tree workingDir config paths problems) ∨
      ∃ session items reported, Evaluated tree workingDir config paths session items reported := by
  -- in the order of the stages, each of which asks that those before it are done
  cases hload : ((Session.load tree workingDir config).on .disabled).1 with
  | error e => exact .inl ⟨e, .session (Session.fst_on_load_eq_error_iff.mp hload)⟩
  | ok session =>
    have hopened := Session.fst_on_load_eq_ok_iff.mp hload
    cases hitems : loadItems tree (itemPaths paths session) with
    | error e => exact .inl ⟨_, .items hopened hitems⟩
    | ok items =>
      have hloaded : Loaded tree workingDir config paths session items := ⟨hopened, hitems⟩
      by_cases hcheck :
        checkItems session.settings.requiredFields session.registry items = []
      · have hpassed : Passed tree workingDir config paths session items := ⟨hloaded, hcheck⟩
        cases hrun : ((session.evaluator.evaluateMany (items.map LoadedItem.payload)).on
          .disabled).1 with
        | error err =>
          obtain ⟨before, item, after, rfl, hbefore, he⟩ := fst_on_evaluateMany_eq_error_iff.mp hrun
          exact .inl ⟨_, .evaluation hpassed hbefore he⟩
        | ok results =>
          have hreported := (exists_evaluateMany_iff _).mp ⟨results, hrun, rfl⟩
          exact .inr (.inr ⟨session, items, _, hpassed, hreported⟩)
      · exact .inr (.inl ⟨_, ⟨session, items, hloaded, rfl⟩, hcheck⟩)

/-! ## The reports -/

theorem exists_console_of_evaluated
    (h : Evaluated tree workingDir config paths session items reported) (colors : Bool) :
    ∃ text, Report.console colors session.registry reported = (text, .ok ()) := by
  obtain ⟨results, hresults, rfl⟩ := (exists_evaluateMany_iff .disabled).mpr h.evaluated
  exact ⟨_, Prod.ext rfl (console_of_evaluateMany hresults colors)⟩

/-! ## The command -/

variable {json : Option String} {events colors : Bool}

theorem evaluateItems_of_obstacle (h : Obstacle tree workingDir config paths e) :
    evaluateItems tree workingDir config paths json events colors = .failure e := by
  obtain ⟨log', hlog⟩ := Logged.exists_on_eq
    (fst_on_prepare_of_obstacle h (if events then Log.recording else Log.disabled))
  unfold evaluateItems
  dsimp only
  rw [hlog]

theorem evaluateItems_of_refused (h : Refused tree workingDir config paths problems) :
    evaluateItems tree workingDir config paths json events colors =
      { Outcome.failure (.invalidItems problems.length) with
        stderr := problemLines problems, exit := some 1 } := by
  unfold evaluateItems
  dsimp only
  rw [on_prepare_of_refused h]

theorem exists_evaluateItems_eq_report
    (h : Evaluated tree workingDir config paths session items reported) (json : Option String)
    (events colors : Bool) :
    ∃ log, evaluateItems tree workingDir config paths json events colors =
      report tree colors json (if events then some log else none) session.registry reported := by
  obtain ⟨log', hlog⟩ := Logged.exists_on_eq
    (fst_on_prepare_of_evaluated h (if events then Log.recording else Log.disabled))
  refine ⟨log', ?_⟩
  unfold evaluateItems
  dsimp only
  rw [hlog]

theorem ending_of_evaluated (h : Evaluated tree workingDir config paths session items reported) :
    Ending tree workingDir config paths json events colors
      (evaluateItems tree workingDir config paths json events colors) := by
  obtain ⟨log, hreport⟩ := exists_evaluateItems_eq_report h json events colors
  obtain ⟨text, hconsole⟩ := exists_console_of_evaluated h colors
  have hrest : events = false →
      ((if events then some log else none).map eventLines).getD "" = "" := by
    rintro rfl
    rfl
  rw [hreport, report, hconsole]
  dsimp only
  cases hjson : json with
  | none => exact .printed h hconsole hrest rfl
  | some path =>
    cases hwrite : tree.write path (.text (Report.document reported)) with
    | ok tree' =>
      simp only [hwrite]
      exact .written h hconsole hrest rfl hwrite
    | error cause =>
      simp only [hwrite]
      exact .unwritten h rfl hwrite

/-- Every evaluation ends in one of these ways. -/
theorem ending_evaluateItems (tree : FileTree) (workingDir : String) (config : Option String)
    (paths : List String) (json : Option String) (events colors : Bool) :
    Ending tree workingDir config paths json events colors
      (evaluateItems tree workingDir config paths json events colors) := by
  obtain ⟨e, h⟩ | ⟨problems, h⟩ | ⟨session, items, reported, h⟩ :=
    stages_total tree workingDir config paths
  · rw [evaluateItems_of_obstacle h]
    exact .stopped h
  · rw [evaluateItems_of_refused h]
    exact .refused h
  · exact ending_of_evaluated h

/-- Nothing is printed and no file is written. -/
structure LeavesNothing (o : Outcome) (tree : FileTree) : Prop where
  stdout : o.stdout = ""
  written : o.written = none
  files : o.files tree = tree

/-- **An evaluation is atomic up to its reports.** A run that meets an obstacle fails with it and
leaves nothing behind, whatever was evaluated before. One whose items are refused leaves a line for
each problem and asks for the exit code 1, as no other run does, and evaluates nothing. Any other
failure is one to write the file that was asked for, after all items were evaluated. What is left of
a run that succeeds is the report of all items in the order in which they were loaded, and that
file. -/
theorem evaluateItems_atomic (tree : FileTree) (workingDir : String) (config : Option String)
    (paths : List String) (json : Option String) (events colors : Bool) {o : Outcome}
    (h : evaluateItems tree workingDir config paths json events colors = o) :
    (∀ e, Obstacle tree workingDir config paths e → o.result = .error e ∧ LeavesNothing o tree) ∧
    (∀ problems, Refused tree workingDir config paths problems →
      o.result = .error (.invalidItems problems.length) ∧ LeavesNothing o tree ∧
      o.stderr = String.join (problems.map fun p => "Validation error: " ++ p ++ "\n") ∧
      ∀ log, (prepare tree workingDir config paths).on log =
        (.ok (.refused problems), ((Session.load tree workingDir config).on log).2)) ∧
    (∀ code, o.exit = some code ↔
      code = 1 ∧ ∃ problems, Refused tree workingDir config paths problems) ∧
    (∀ e, o.result = .error e →
      Obstacle tree workingDir config paths e ∨
      (∃ problems, Refused tree workingDir config paths problems ∧
        e = .invalidItems problems.length) ∨
      ∃ session items reported path cause,
        Evaluated tree workingDir config paths session items reported ∧ json = some path ∧
        tree.write path (.text (Report.document reported)) = .error cause ∧
        e = .unwritableReport path cause) ∧
    (o.result = .ok () → ∃ session items reported text rest,
      Evaluated tree workingDir config paths session items reported ∧
      Report.console colors session.registry reported = (text, .ok ()) ∧
      o.stdout = text ++ rest ∧ (events = false → rest = "") ∧
      (json = none → o.files tree = tree) ∧
      ∀ path, json = some path → tree.Writes path (Report.document reported) (o.files tree)) := by
  refine ⟨fun e he => ?_, fun problems hproblems => ?_, ?_⟩
  · rw [← h, evaluateItems_of_obstacle he]
    exact ⟨rfl, rfl, rfl, rfl⟩
  · rw [← h, evaluateItems_of_refused hproblems]
    exact ⟨rfl, ⟨rfl, rfl, rfl⟩, rfl, on_prepare_of_refused hproblems⟩
  -- the other three facts hold of every ending
  have hending := ending_evaluateItems tree workingDir config paths json events colors
  rw [h] at hending
  refine ⟨fun code => ⟨fun hcode => ?_, ?_⟩, fun e he => ?_, fun hok => ?_⟩
  · cases hending with
    | refused hproblems =>
      cases hcode
      exact ⟨rfl, _, hproblems⟩
    | _ => cases hcode
  · rintro ⟨rfl, problems, hproblems⟩
    rw [← h, evaluateItems_of_refused hproblems]
  · cases hending with
    | stopped hobstacle =>
      cases he
      exact .inl hobstacle
    | refused hproblems =>
      cases he
      exact .inr (.inl ⟨_, hproblems, rfl⟩)
    | unwritten hevaluated hjson hwrite =>
      cases he
      exact .inr (.inr ⟨_, _, _, _, _, hevaluated, hjson, hwrite, rfl⟩)
    | _ => cases he
  · cases hending with
    | printed hevaluated hconsole hrest hjson =>
      refine ⟨_, _, _, _, _, hevaluated, hconsole, rfl, hrest, fun _ => rfl, fun path hpath => ?_⟩
      cases hjson.symm.trans hpath
    | written hevaluated hconsole hrest hjson hwrite =>
      refine ⟨_, _, _, _, _, hevaluated, hconsole, rfl, hrest, fun hnone => ?_,
        fun path hpath => ?_⟩
      · cases hjson.symm.trans hnone
      · cases hjson.symm.trans hpath
        simp only [Outcome.files, hwrite]
        exact FileTree.writes_of_write hwrite
    | _ => cases hok

end Command

/-- The files of one type, of an item of that type and of an item without a type. -/
def Sample.workspace : FileTree :=
  .addFile (.addFile (.addFile (.addFile .empty
    "schema/types/task.yaml" (.text "type: task\nschema: task\n"))
    "schema/derived/task.yaml" (.text "type: task\nmetrics: []\n"))
    "good.yaml" (.text "id: 1\nitem_type: task\nfields: []\n"))
    "bad.yaml" (.text "id: 2\n")

namespace Command

open Sample

theorem evaluateItems_atomic_sample :
    (∃ problems, Refused workspace "." none ["good.yaml", "bad.yaml"] problems) ∧
    (evaluateItems workspace "." none ["good.yaml", "bad.yaml"] (some "out.json") false false).files
      workspace = workspace ∧
    ∃ session items reported, Evaluated workspace "." none ["good.yaml"] session items reported ∧
      workspace.Writes "out.json" (Report.document reported)
        ((evaluateItems workspace "." none ["good.yaml"] (some "out.json") false false).files
          workspace) := by
  have hsettings : Settings.load workspace "." none = .ok (.default ".") :=
    Settings.load_of_missing (by decide +kernel)
  have hexit : (evaluateItems workspace "." none ["good.yaml", "bad.yaml"] (some "out.json") false
      false).exit = some 1 := by
    rw [evaluateItems, prepare, Session.load, hsettings]
    decide +kernel
  have hresult : (evaluateItems workspace "." none ["good.yaml"] (some "out.json") false
      false).result = .ok () := by
    rw [evaluateItems, prepare, Session.load, hsettings]
    decide +kernel
  obtain ⟨-, hrefused, hcode, -⟩ :=
    evaluateItems_atomic workspace "." none ["good.yaml", "bad.yaml"] (some "out.json") false false
      rfl
  obtain ⟨-, -, -, -, hok⟩ :=
    evaluateItems_atomic workspace "." none ["good.yaml"] (some "out.json") false false rfl
  obtain ⟨-, problems, hproblems⟩ := (hcode 1).mp hexit
  obtain ⟨session, items, reported, _, _, hevaluated, -, -, -, -, hwritten⟩ := hok hresult
  exact ⟨⟨problems, hproblems⟩, (hrefused problems hproblems).2.1.files, session, items, reported,
    hevaluated, hwritten _ rfl⟩

end Command
end ItemMetrics
