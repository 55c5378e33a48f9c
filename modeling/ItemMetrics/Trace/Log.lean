import ItemMetrics.Trace.Event

/-! The log of a run. Events are kept in the order in which they are emitted, unless the log is
disabled. A span is a stretch of the run between a start event and an end event with one id; spans
are numbered as they are opened, in a disabled log too. The numbers have no bound, so their ids are
those of a counter of 64 bits only as long as fewer than 2 ^ 64 spans have been opened. -/

namespace ItemMetrics

structure Log where
  /-- The number of the process, with which the ids of its spans start; 0 where it is not told. -/
  process : Nat := 0
  enabled : Bool
  opened : Nat
  events : Array Event

structure Span where
  id : String
  name : String
  attributes : Json.Members

namespace Log

/-- A log that keeps what is emitted. -/
def recording : Log := { enabled := true, opened := 0, events := #[] }

def disabled : Log := { enabled := false, opened := 0, events := #[] }

def add (log : Log) (e : Event) : Log :=
  if log.enabled then { log with events := log.events.push e } else log

def emit (log : Log) (name : String) (attributes : List (String × Json)) : Log :=
  log.add (.of name attributes)

/-- Opens a span and emits its start. -/
def openSpan (log : Log) (name : String) (attributes : Json.Members) : Span × Log :=
  let span : Span := ⟨s!"{log.process}-{log.opened + 1}", name, attributes⟩
  let log := { log with opened := log.opened + 1 }
  (span, log.emit "trace.start"
    [("span", .string name), ("span_id", .string span.id), ("attributes", .object attributes)])

/-- Ends a span. A run of pure functions takes no time. -/
def closeSpan (log : Log) (span : Span) : Log :=
  log.emit "trace.end"
    [("span", .string span.name), ("span_id", .string span.id), ("duration_ms", .ofNat 0),
      ("attributes", .object span.attributes)]

def clear (log : Log) : Log :=
  { log with events := #[] }

def names (log : Log) : List String :=
  log.events.toList.map Event.name

end Log

/-- A computation that may fail and that writes to a log. The log survives a failure. -/
abbrev Logged (ε α : Type) := ExceptT ε (StateM Log) α

namespace Logged

variable {ε α : Type}

def emit (name : String) (attributes : List (String × Json)) : Logged ε Unit :=
  ExceptT.lift (modify (·.emit name attributes))

/-- A computation that does not touch the log. -/
def ofExcept (x : Except ε α) : Logged ε α :=
  ExceptT.mk (pure x)

/-- Runs `body` inside a span, which ends with the body however that ends. -/
def inSpan (name : String) (attributes : List (String × Json)) (body : Span → Logged ε α) :
    Logged ε α :=
  ExceptT.mk do
    let span ← modifyGet fun log : Log => log.openSpan name (Json.Members.ofList attributes)
    let outcome ← (body span).run
    modify (·.closeSpan span)
    return outcome

/-- Runs a computation on a log: its outcome, and the log with what was added. -/
def on (body : Logged ε α) (log : Log) : Except ε α × Log :=
  StateT.run body.run log

end Logged
end ItemMetrics
