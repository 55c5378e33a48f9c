import ItemMetrics.Proofs.Trace.Logged

/-! # What a run adds to a log

A log only grows: `log.Grows es log'` says that `log'` has the events `es` behind those of `log`. A
disabled log grows without keeping anything, so the relation does not ask whether events are kept.
A span that is run adds its start, what its body adds, and its end (`Logged.exists_on_inSpan`). -/

namespace ItemMetrics

namespace Span

/-- The event at the start of a span. -/
def startEvent (span : Span) : Event :=
  ⟨"trace.start",
    [("attributes", .object span.attributes), ("span", .string span.name),
      ("span_id", .string span.id)]⟩

/-- The event at the end of a span that took some time. -/
def endEvent (span : Span) (duration : Json) : Event :=
  ⟨"trace.end",
    [("attributes", .object span.attributes), ("duration_ms", duration),
      ("span", .string span.name), ("span_id", .string span.id)]⟩

theorem startEvent_eq (span : Span) :
    span.startEvent = .of "trace.start"
      [("span", .string span.name), ("span_id", .string span.id),
        ("attributes", .object span.attributes)] := by
  simp only [startEvent, Event.of, Json.Members.ofList, List.foldl_cons, List.foldl_nil,
    Json.Members.insert, String.reduceLT, String.reduceEq, if_true, if_false]

theorem endEvent_eq (span : Span) (duration : Json) :
    span.endEvent duration = .of "trace.end"
      [("span", .string span.name), ("span_id", .string span.id), ("duration_ms", duration),
        ("attributes", .object span.attributes)] := by
  simp only [endEvent, Event.of, Json.Members.ofList, List.foldl_cons, List.foldl_nil,
    Json.Members.insert, String.reduceLT, String.reduceEq, if_true, if_false]

end Span

namespace Log

/-- `log'` is `log` with `es` added, if the log keeps what is added. -/
structure Grows (log : Log) (es : List Event) (log' : Log) : Prop where
  enabled : log'.enabled = log.enabled
  events : log'.events.toList = log.events.toList ++ if log.enabled then es else []

variable {log log₁ log₂ : Log} {es es' : List Event}

theorem Grows.refl (log : Log) : log.Grows [] log := ⟨rfl, by simp⟩

theorem Grows.trans (h : log.Grows es log₁) (h' : log₁.Grows es' log₂) :
    log.Grows (es ++ es') log₂ := by
  refine ⟨h'.enabled.trans h.enabled, ?_⟩
  rw [h'.events, h.events, h.enabled]
  cases log.enabled <;> simp

theorem grows_add (log : Log) (e : Event) : log.Grows [e] (log.add e) := by
  unfold add
  split
  · next h => exact ⟨rfl, by simp [h]⟩
  · next h => exact ⟨rfl, by simp [h]⟩

theorem grows_emit (log : Log) (name : String) (attributes : List (String × Json)) :
    log.Grows [.of name attributes] (log.emit name attributes) :=
  grows_add log _

theorem grows_openSpan (log : Log) (name : String) (attributes : Json.Members) :
    log.Grows [(log.openSpan name attributes).1.startEvent] (log.openSpan name attributes).2 := by
  have h := grows_add { log with opened := log.opened + 1 }
    (log.openSpan name attributes).1.startEvent
  rw [Span.startEvent_eq] at h ⊢
  exact ⟨h.enabled, h.events⟩

theorem grows_closeSpan (log : Log) (span : Span) :
    log.Grows [span.endEvent (.ofNat 0)] (log.closeSpan span) := by
  rw [Span.endEvent_eq]
  exact grows_emit log _ _

end Log

namespace Logged

open Log

variable {ε α : Type} {log opened log₁ : Log} {es : List Event}

/-- A span adds its start and its end around what the body adds, however the body ends. -/
theorem exists_on_inSpan {name : String} {attributes : List (String × Json)}
    {body : Span → Logged ε α} {span : Span} {r : Except ε α}
    (hopen : log.openSpan name (Json.Members.ofList attributes) = (span, opened))
    (hgrows : opened.Grows es log₁) (hbody : (body span).on opened = (r, log₁)) :
    ∃ log', log.Grows (span.startEvent :: es ++ [span.endEvent (.ofNat 0)]) log' ∧
      (inSpan name attributes body).on log = (r, log') := by
  have hstart := grows_openSpan log name (Json.Members.ofList attributes)
  rw [hopen] at hstart
  refine ⟨log₁.closeSpan span, (hstart.trans hgrows).trans (grows_closeSpan log₁ span), ?_⟩
  rw [on_inSpan, hopen]
  dsimp only
  rw [hbody]

end Logged
end ItemMetrics
