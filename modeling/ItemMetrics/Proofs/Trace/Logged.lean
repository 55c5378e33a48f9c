import ItemMetrics.Trace.Log

/-! # Running logged computations

What each way of building a logged computation does when it is run on a log. Later modules compute
outcomes and logs with these equations and do not open the monad. -/

namespace ItemMetrics.Logged

variable {ε α β : Type} {log : Log}

@[simp] theorem on_pure (a : α) : (pure a : Logged ε α).on log = (.ok a, log) := rfl

@[simp] theorem on_throw (e : ε) : (throw e : Logged ε α).on log = (.error e, log) := rfl

@[simp] theorem on_ofExcept (x : Except ε α) : (ofExcept x).on log = (x, log) := rfl

@[simp] theorem on_emit (name : String) (attributes : List (String × Json)) :
    (emit name attributes : Logged ε Unit).on log = (.ok (), log.emit name attributes) := rfl

/-- A failure skips what comes after it and keeps the log. -/
theorem on_bind (x : Logged ε α) (f : α → Logged ε β) :
    (x >>= f).on log =
      match x.on log with
      | (.ok a, log') => (f a).on log'
      | (.error e, log') => (.error e, log') := by
  change (ExceptT.bind x f).run log = _
  simp only [ExceptT.bind, on, ExceptT.run, ExceptT.mk, StateT.run, bind, StateT.bind]
  cases x log with
  | mk r log' => cases r <;> rfl

theorem fst_on_bind (x : Logged ε α) (f : α → Logged ε β) :
    ((x >>= f).on log).1 = (x.on log).1 >>= fun a => ((f a).on (x.on log).2).1 := by
  rw [on_bind]
  cases x.on log with
  | mk r log' => cases r <;> rfl

theorem exists_on_eq {x : Logged ε α} {r : Except ε α} (h : (x.on log).1 = r) :
    ∃ log', x.on log = (r, log') :=
  ⟨_, Prod.ext h rfl⟩

theorem on_adapt {ε' : Type} (f : ε → ε') (x : Logged ε α) :
    on (x.adapt f) log = ((x.on log).1.mapError f, (x.on log).2) := rfl

theorem on_inSpan (name : String) (attributes : List (String × Json)) (body : Span → Logged ε α) :
    (inSpan name attributes body).on log =
      let (span, opened) := log.openSpan name (Json.Members.ofList attributes)
      (((body span).on opened).1, ((body span).on opened).2.closeSpan span) := rfl

end ItemMetrics.Logged
