import Mathlib.Data.List.Nodup
import Mathlib.Data.List.Perm.Basic
import ItemMetrics.Proofs.Trace.Growth

/-! # Spans that overlap

A log is used by emitting events, opening spans and dropping any span that is open. `History` says
what such a sequence of uses does, without a log: which spans are opened and dropped, and which are
left open. What a log records is the history of its uses, event by event, and its spans are paired:
each is told by its id, starts once, and ends once if it is dropped, after its start
(`run_records`). -/

namespace ItemMetrics

/-- A span is dropped by its place among the spans that are open. -/
inductive Log.Use where
  | emit (name : String) (attributes : List (String × Json))
  | openSpan (name : String) (attributes : Json.Members)
  | dropSpan (place : Nat)

/-- The event that a use emits by its name. -/
def Log.Use.emitted? : Log.Use → Option Event
  | emit name attributes => some (.of name attributes)
  | _ => none

/-- A log with the spans of it that are open, in the order in which they were opened. -/
structure Tracing where
  log : Log
  spans : List Span

namespace Tracing

/-- Nothing is dropped where no span is open. -/
def step (t : Tracing) : Log.Use → Tracing
  | .emit name attributes => { t with log := t.log.emit name attributes }
  | .openSpan name attributes =>
    let (span, log) := t.log.openSpan name attributes
    ⟨log, t.spans ++ [span]⟩
  | .dropSpan place =>
    match t.spans[place]? with
    | some span => ⟨t.log.closeSpan span, t.spans.eraseIdx place⟩
    | none => t

def run (log : Log) (uses : List Log.Use) : Tracing :=
  uses.foldl step ⟨log, []⟩

end Tracing

/-! ## What uses do -/

/-- What one use has done. -/
inductive Deed where
  | emitted (e : Event)
  | opened (span : Span)
  | dropped (span : Span)

namespace Deed

def emitted? : Deed → Option Event
  | emitted e => some e
  | _ => none

def opened? : Deed → Option Span
  | opened span => some span
  | _ => none

def dropped? : Deed → Option Span
  | dropped span => some span
  | _ => none

/-- The event of a deed. How long a span took is left open. -/
inductive Records : Deed → Event → Prop where
  | emitted (e : Event) : Records (.emitted e) e
  | opened (span : Span) : Records (.opened span) span.startEvent
  | dropped (span : Span) (duration : Json) : Records (.dropped span) (span.endEvent duration)

end Deed

/-- `History spans uses deeds left`: where `spans` are open, the uses do these deeds and leave the
spans `left` open. The ids under which spans are opened are not determined. -/
inductive History : List Span → List Log.Use → List Deed → List Span → Prop where
  | nil {spans : List Span} : History spans [] [] spans
  | emit {spans left : List Span} {uses : List Log.Use} {deeds : List Deed} {name : String}
    {attributes : List (String × Json)} : History spans uses deeds left →
    History spans (.emit name attributes :: uses) (.emitted (.of name attributes) :: deeds) left
  | openSpan {spans left : List Span} {uses : List Log.Use} {deeds : List Deed} {id name : String}
    {attributes : Json.Members} : History (spans ++ [⟨id, name, attributes⟩]) uses deeds left →
    History spans (.openSpan name attributes :: uses) (.opened ⟨id, name, attributes⟩ :: deeds) left
  | dropSpan {spans left : List Span} {uses : List Log.Use} {deeds : List Deed} {place : Nat}
    {span : Span} : spans[place]? = some span → History (spans.eraseIdx place) uses deeds left →
    History spans (.dropSpan place :: uses) (.dropped span :: deeds) left
  | dropNone {spans left : List Span} {uses : List Log.Use} {deeds : List Deed} {place : Nat} :
    spans[place]? = none → History spans uses deeds left →
    History spans (.dropSpan place :: uses) deeds left

/-- The id of the span whose start an event looks like. -/
def Event.started? (e : Event) : Option String :=
  match e.name, e.attribute? "span_id" with
  | "trace.start", some (.string id) => some id
  | _, _ => none

/-- The id of the span whose end an event looks like. -/
def Event.ended? (e : Event) : Option String :=
  match e.name, e.attribute? "span_id" with
  | "trace.end", some (.string id) => some id
  | _, _ => none

section
variable (span : Span) (duration : Json)

@[simp] theorem Span.started?_startEvent : span.startEvent.started? = some span.id := rfl

@[simp] theorem Span.ended?_startEvent : span.startEvent.ended? = none := rfl

@[simp] theorem Span.started?_endEvent : (span.endEvent duration).started? = none := rfl

@[simp] theorem Span.ended?_endEvent : (span.endEvent duration).ended? = some span.id := rfl

end

/-! ## Facts of every history -/

namespace History

variable {spans left : List Span} {uses : List Log.Use} {deeds : List Deed}

/-- No span is lost: what was open or is opened has been dropped or is left. -/
theorem perm (h : History spans uses deeds left) :
    (spans ++ deeds.filterMap Deed.opened?).Perm (deeds.filterMap Deed.dropped? ++ left) := by
  induction h with
  | nil => simp
  | emit _ ih => exact ih
  | @openSpan spans left uses deeds id name attributes _ ih =>
    rwa [List.append_assoc] at ih
  | @dropSpan spans left uses deeds place span hspan _ ih =>
    obtain ⟨hplace, rfl⟩ := List.getElem?_eq_some_iff.mp hspan
    have hspans := (List.getElem_cons_eraseIdx_perm hplace).symm
    exact (hspans.append_right _).trans (ih.cons _)
  | dropNone _ _ ih => exact ih

/-- A span that is dropped was open at first or has been opened before. -/
theorem mem_or_opened_of_dropped (h : History spans uses deeds left) {before after : List Deed}
    {span : Span} (hdeeds : deeds = before ++ .dropped span :: after) :
    span ∈ spans ∨ .opened span ∈ before := by
  induction h generalizing before with
  | nil => simp at hdeeds
  | emit _ ih =>
    cases before with
    | nil => cases hdeeds
    | cons deed before =>
      obtain ⟨rfl, hrest⟩ := List.cons.inj hdeeds
      exact (ih hrest).imp_right (List.mem_cons_of_mem _)
  | openSpan _ ih =>
    cases before with
    | nil => cases hdeeds
    | cons deed before =>
      obtain ⟨rfl, hrest⟩ := List.cons.inj hdeeds
      rcases ih hrest with hspan | hspan
      · rcases List.mem_append.mp hspan with hspan | hspan
        · exact .inl hspan
        · rw [List.mem_singleton.mp hspan]
          exact .inr List.mem_cons_self
      · exact .inr (List.mem_cons_of_mem _ hspan)
  | dropSpan hspan _ ih =>
    cases before with
    | nil =>
      cases hdeeds
      exact .inl (List.mem_of_getElem? hspan)
    | cons deed before =>
      obtain ⟨rfl, hrest⟩ := List.cons.inj hdeeds
      exact (ih hrest).imp List.mem_of_mem_eraseIdx (List.mem_cons_of_mem _)
  | dropNone _ _ ih => exact ih hdeeds

/-- What is emitted is what the uses ask for. -/
theorem filterMap_emitted? (h : History spans uses deeds left) :
    deeds.filterMap Deed.emitted? = uses.filterMap Log.Use.emitted? := by
  induction h with
  | nil => rfl
  | emit _ ih => exact congrArg _ ih
  | openSpan _ ih | dropSpan _ _ ih | dropNone _ _ ih => exact ih

end History

/-! ## The history of a log -/

namespace Log

theorem opened_add (log : Log) (e : Event) : (log.add e).opened = log.opened := by
  unfold add
  split <;> rfl

theorem process_add (log : Log) (e : Event) : (log.add e).process = log.process := by
  unfold add
  split <;> rfl

/-- Different numbers are written with different digits. -/
theorem repr_injective : Function.Injective Nat.repr := by
  intro n n' h
  rw [Nat.repr_eq_ofList_toDigits, Nat.repr_eq_ofList_toDigits, String.ofList_inj] at h
  calc n
    _ = Nat.ofDigitChars 10 (Nat.toDigits 10 n) 0 := Nat.ofDigitChars_ten_toDigits.symm
    _ = Nat.ofDigitChars 10 (Nat.toDigits 10 n') 0 := by rw [h]
    _ = n' := Nat.ofDigitChars_ten_toDigits

/-- The ids of spans that are opened one after another. -/
def freshIds (process opened count : Nat) : List String :=
  (List.range' (opened + 1) count).map fun n => s!"{process}-{n}"

theorem nodup_freshIds (process opened count : Nat) : (freshIds process opened count).Nodup := by
  have hnumbers : (List.range' (opened + 1) count).Nodup := List.nodup_range'
  apply hnumbers.map
  intro n n' h
  exact repr_injective ((String.append_right_inj _).mp h)

end Log

namespace Tracing

/-- Uses have a history; the log grows by the events of its deeds, whatever the log keeps, and each
span that is opened has the next number as its id. -/
theorem exists_history (t : Tracing) (uses : List Log.Use) :
    ∃ deeds es count, History t.spans uses deeds (uses.foldl step t).spans ∧
      t.log.Grows es (uses.foldl step t).log ∧ List.Forall₂ Deed.Records deeds es ∧
      (deeds.filterMap Deed.opened?).map Span.id =
        Log.freshIds t.log.process t.log.opened count := by
  induction uses generalizing t with
  | nil => exact ⟨[], [], 0, .nil, .refl t.log, .nil, rfl⟩
  | cons use uses ih =>
    obtain ⟨deeds, es, count, hhistory, hgrows, hrecords, hids⟩ := ih (t.step use)
    rw [List.foldl_cons]
    cases use with
    | emit name attributes =>
      have hadd := t.log.grows_emit name attributes
      refine ⟨_, _, count, hhistory.emit, hadd.trans hgrows, .cons (.emitted _) hrecords, ?_⟩
      rwa [step, Log.emit, Log.process_add, Log.opened_add] at hids
    | openSpan name attributes =>
      have hadd := t.log.grows_openSpan name attributes
      refine ⟨_, _, count + 1, hhistory.openSpan, hadd.trans hgrows, .cons (.opened _) hrecords, ?_⟩
      rw [step, Log.openSpan, Log.emit, Log.process_add, Log.opened_add] at hids
      rw [Log.freshIds, List.range'_succ]
      exact congrArg _ hids
    | dropSpan place =>
      cases hspan : t.spans[place]? with
      | none =>
        have hstep : t.step (.dropSpan place) = t := by simp only [step, hspan]
        rw [hstep] at hhistory hgrows hids ⊢
        exact ⟨deeds, es, count, hhistory.dropNone hspan, hgrows, hrecords, hids⟩
      | some span =>
        have hstep : t.step (.dropSpan place) = ⟨t.log.closeSpan span, t.spans.eraseIdx place⟩ := by
          simp only [step, hspan]
        rw [hstep] at hhistory hgrows hids ⊢
        have hadd := t.log.grows_closeSpan span
        refine ⟨_, _, count, hhistory.dropSpan hspan, hadd.trans hgrows,
          .cons (.dropped span _) hrecords, ?_⟩
        rwa [Log.closeSpan, Log.emit, Log.process_add, Log.opened_add] at hids

end Tracing

/-! ## What the events show -/

namespace Deed

variable {deeds : List Deed} {es : List Event} {span : Span}

theorem opened_mem_iff : .opened span ∈ deeds ↔ span ∈ deeds.filterMap opened? := by
  have hopened (deed : Deed) : deed.opened? = some span ↔ deed = .opened span := by
    cases deed <;> simp [opened?]
  simp only [List.mem_filterMap, hopened, exists_eq_right]

theorem dropped_mem_iff : .dropped span ∈ deeds ↔ span ∈ deeds.filterMap dropped? := by
  have hdropped (deed : Deed) : deed.dropped? = some span ↔ deed = .dropped span := by
    cases deed <;> simp [dropped?]
  simp only [List.mem_filterMap, hdropped, exists_eq_right]

section
variable {find : Event → Option String} {pick : Deed → Option Span}

/-- One deed that emitted nothing by its name: an id is found in its event as a span in the deed. -/
theorem perm_filterMap_cons {deed : Deed} {e : Event} (hdeed : deed.emitted? = none)
    (he : find e = (pick deed).map Span.id)
    (h : (es.filterMap find).Perm
      ((deeds.filterMap pick).map Span.id ++ (deeds.filterMap emitted?).filterMap find)) :
    ((e :: es).filterMap find).Perm (((deed :: deeds).filterMap pick).map Span.id ++
      ((deed :: deeds).filterMap emitted?).filterMap find) := by
  rw [List.filterMap_cons_none hdeed]
  cases hpick : pick deed with
  | none =>
    rw [hpick] at he
    rw [List.filterMap_cons_none he, List.filterMap_cons_none hpick]
    exact h
  | some span =>
    rw [hpick] at he
    rw [List.filterMap_cons_some he, List.filterMap_cons_some hpick]
    exact h.cons span.id

/-- What is found in the events are the ids of the spans found in the deeds, and what is found in
events that were emitted by their names. -/
theorem perm_filterMap (hemitted : ∀ e, pick (.emitted e) = none)
    (hopened : ∀ span, find span.startEvent = (pick (.opened span)).map Span.id)
    (hdropped : ∀ span duration, find (span.endEvent duration) =
      (pick (.dropped span)).map Span.id) (h : List.Forall₂ Records deeds es) :
    (es.filterMap find).Perm
      ((deeds.filterMap pick).map Span.id ++ (deeds.filterMap emitted?).filterMap find) := by
  induction h with
  | nil => exact .nil
  | @cons deed e deeds es hrecord _ ih =>
    cases hrecord with
    | opened span => exact perm_filterMap_cons rfl (hopened span) ih
    | dropped span duration => exact perm_filterMap_cons rfl (hdropped span duration) ih
    | emitted =>
      have hcons : (Deed.emitted e :: deeds).filterMap emitted? =
        e :: deeds.filterMap emitted? := rfl
      rw [List.filterMap_cons_none (hemitted e), hcons]
      cases he : find e with
      | none =>
        rw [List.filterMap_cons_none he, List.filterMap_cons_none he]
        exact ih
      | some id =>
        rw [List.filterMap_cons_some he, List.filterMap_cons_some he]
        exact (ih.cons id).trans List.perm_middle.symm

end

/-- What looks like a start is the start of a span that was opened, or was emitted as it is. -/
theorem perm_started (h : List.Forall₂ Records deeds es) :
    (es.filterMap Event.started?).Perm ((deeds.filterMap opened?).map Span.id ++
      (deeds.filterMap emitted?).filterMap Event.started?) :=
  perm_filterMap (fun _ => rfl) (fun _ => rfl) (fun _ _ => rfl) h

theorem perm_ended (h : List.Forall₂ Records deeds es) :
    (es.filterMap Event.ended?).Perm ((deeds.filterMap dropped?).map Span.id ++
      (deeds.filterMap emitted?).filterMap Event.ended?) :=
  perm_filterMap (fun _ => rfl) (fun _ => rfl) (fun _ _ => rfl) h

end Deed

/-- The spans of a history are paired, and so are those of its events: `forged` are the events that
were emitted by their names, which may look like the start or the end of any span. -/
structure Paired (deeds : List Deed) (left : List Span) (es forged : List Event) : Prop where
  distinct : ((deeds.filterMap Deed.opened?).map Span.id).Nodup
  opened_before : ∀ {before after : List Deed} {span : Span},
    deeds = before ++ .dropped span :: after → .opened span ∈ before
  dropped_once : (deeds.filterMap Deed.dropped?).Nodup
  mem_left_iff : ∀ span, span ∈ left ↔ .opened span ∈ deeds ∧ .dropped span ∉ deeds
  starts : ∀ {span : Span}, .opened span ∈ deeds →
    (es.filterMap Event.started?).count span.id =
      1 + (forged.filterMap Event.started?).count span.id
  ends : ∀ {span : Span}, .dropped span ∈ deeds →
    (es.filterMap Event.ended?).count span.id = 1 + (forged.filterMap Event.ended?).count span.id
  ends_left : ∀ {span : Span}, span ∈ left →
    (es.filterMap Event.ended?).count span.id = (forged.filterMap Event.ended?).count span.id

/-- A history that starts without open spans is paired if its spans have distinct ids. -/
theorem History.paired {uses : List Log.Use} {deeds : List Deed} {left : List Span}
    {es : List Event} (h : History [] uses deeds left) (hes : List.Forall₂ Deed.Records deeds es)
    (hids : ((deeds.filterMap Deed.opened?).map Span.id).Nodup) :
    Paired deeds left es (uses.filterMap Log.Use.emitted?) := by
  have hperm : (deeds.filterMap Deed.opened?).Perm (deeds.filterMap Deed.dropped? ++ left) := h.perm
  have hends : ((deeds.filterMap Deed.dropped?).map Span.id ++ left.map Span.id).Nodup := by
    rw [← List.map_append]
    exact (hperm.map Span.id).nodup_iff.mp hids
  obtain ⟨hdropped, -, hdisjoint⟩ := List.nodup_append'.mp hends
  have hstarted := Deed.perm_started hes
  have hended := Deed.perm_ended hes
  rw [h.filterMap_emitted?] at hstarted hended
  refine ⟨hids, ?_, hdropped.of_map, ?_, ?_, ?_, ?_⟩
  · intro before after span hdeeds
    exact (h.mem_or_opened_of_dropped hdeeds).resolve_left List.not_mem_nil
  · intro span
    rw [Deed.opened_mem_iff, Deed.dropped_mem_iff, hperm.mem_iff, List.mem_append]
    constructor
    · intro hleft
      exact ⟨.inr hleft, fun hspan => hdisjoint (List.mem_map_of_mem hspan)
        (List.mem_map_of_mem hleft)⟩
    · rintro ⟨hspan, hnot⟩
      exact hspan.resolve_left hnot
  · intro span hspan
    have hid := List.mem_map_of_mem (f := Span.id) (Deed.opened_mem_iff.mp hspan)
    rw [hstarted.count_eq, List.count_append, List.count_eq_one_of_mem hids hid]
  · intro span hspan
    have hid := List.mem_map_of_mem (f := Span.id) (Deed.dropped_mem_iff.mp hspan)
    rw [hended.count_eq, List.count_append, List.count_eq_one_of_mem hdropped hid]
  · intro span hspan
    have hid := fun h => hdisjoint h (List.mem_map_of_mem (f := Span.id) hspan)
    rw [hended.count_eq, List.count_append, List.count_eq_zero_of_not_mem hid, Nat.zero_add]

/-- **Spans are paired in what a log records.** From an empty log, the events are those of a history
of the uses, one for each deed and in their order. The spans that are opened have distinct ids; each
of them starts once, and ends once and later if it is dropped, and does not end if it is left. A
disabled log records nothing. -/
theorem Tracing.run_records (process opened : Nat) (uses : List Log.Use) :
    (∃ deeds, History [] uses deeds (run ⟨process, true, opened, #[]⟩ uses).spans ∧
      List.Forall₂ Deed.Records deeds (run ⟨process, true, opened, #[]⟩ uses).log.events.toList ∧
      Paired deeds (run ⟨process, true, opened, #[]⟩ uses).spans
        (run ⟨process, true, opened, #[]⟩ uses).log.events.toList (uses.filterMap Log.Use.emitted?)) ∧
    (run ⟨process, false, opened, #[]⟩ uses).log.events = #[] := by
  constructor
  · obtain ⟨deeds, es, count, hhistory, hgrows, hrecords, hids⟩ :=
      exists_history ⟨⟨process, true, opened, #[]⟩, []⟩ uses
    have hevents : (run ⟨process, true, opened, #[]⟩ uses).log.events.toList = es := hgrows.events
    rw [hevents]
    have hdistinct : ((deeds.filterMap Deed.opened?).map Span.id).Nodup := by
      rw [hids]
      exact Log.nodup_freshIds process opened count
    exact ⟨deeds, hhistory, hrecords, hhistory.paired hrecords hdistinct⟩
  · obtain ⟨deeds, es, count, -, hgrows, -, -⟩ :=
      exists_history ⟨⟨process, false, opened, #[]⟩, []⟩ uses
    have hevents : (run ⟨process, false, opened, #[]⟩ uses).log.events.toList = [] := hgrows.events
    exact Array.toList_eq_nil_iff.mp hevents

/-- Two spans that overlap, the outer one dropped first. -/
example : (Tracing.run .recording [.openSpan "outer" [], .openSpan "inner" [], .dropSpan 0,
    .dropSpan 0]).log.events.toList.map (fun e => (e.started?, e.ended?)) =
      [(some "0-1", none), (some "0-2", none), (none, some "0-1"), (none, some "0-2")] := by
  decide +kernel

end ItemMetrics
