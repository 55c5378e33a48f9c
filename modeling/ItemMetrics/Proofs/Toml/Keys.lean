import ItemMetrics.Proofs.Except
import ItemMetrics.Toml.Reader

/-! # Keys of a table

Each statement of a text sets one member of the table that the text spells (`Toml.sets_of_statement`),
so no key occurs twice in what is read (`Toml.nodup_of_read`). -/

namespace ItemMetrics.Toml

namespace Draft

variable {ms ms' : Members} {key : String} {v : Value} {path : List String}

/-- One member was set, whatever it was set to. -/
def Sets (ms ms' : Members) : Prop :=
  ∃ key d, ms' = Entries.set ms key d

theorem sets_of_assign (h : assign ms v path = .ok ms') : Sets ms ms' := by
  match path with
  | [] => cases h
  | [key] =>
    rw [assign] at h
    split at h
    · cases h; exact ⟨_, _, rfl⟩
    · cases h
  | key :: next :: path =>
    rw [assign] at h
    · split at h
      · obtain ⟨inner, -, rfl⟩ := Except.map_eq_ok_iff.mp h
        exact ⟨_, _, rfl⟩
      · obtain ⟨inner, -, rfl⟩ := Except.map_eq_ok_iff.mp h
        exact ⟨_, _, rfl⟩
      · cases h
    · simp

theorem sets_of_openTable (h : openTable key ms = .ok ms') : Sets ms ms' := by
  unfold openTable at h
  split at h
  · cases h; exact ⟨_, _, rfl⟩
  · cases h; exact ⟨_, _, rfl⟩
  · cases h

theorem sets_of_openElement (h : openElement key ms = .ok ms') : Sets ms ms' := by
  unfold openElement at h
  split at h
  · cases h; exact ⟨_, _, rfl⟩
  · cases h; exact ⟨_, _, rfl⟩
  · cases h

/-- What is done to a table further in sets the member that leads there. -/
theorem sets_of_within {f : Members → Except Fault Members}
    (hf : ∀ {ms ms'}, f ms = .ok ms' → Sets ms ms') (h : within ms f path = .ok ms') :
    Sets ms ms' := by
  cases path with
  | nil => exact hf h
  | cons key path =>
    rw [within] at h
    split at h
    · obtain ⟨inner, -, rfl⟩ := Except.map_eq_ok_iff.mp h
      exact ⟨_, _, rfl⟩
    · obtain ⟨inner, -, rfl⟩ := Except.map_eq_ok_iff.mp h
      exact ⟨_, _, rfl⟩
    · obtain ⟨inner, -, rfl⟩ := Except.map_eq_ok_iff.mp h
      exact ⟨_, _, rfl⟩
    · cases h

theorem map_fst_values (ms : Members) : (values ms).map Prod.fst = ms.map Prod.fst := by
  induction ms with
  | nil => rw [values]; rfl
  | cons m ms ih => rw [values, List.map_cons, ih, List.map_cons]

end Draft

variable {sheet sheet' : Sheet} {cs rest : List Char} {ks : List String} {v : Value}

theorem Sheet.sets_of_openHeader {opener : String → Draft.Members → Except Fault Draft.Members}
    (hopener : ∀ {key ms ms'}, opener key ms = .ok ms' → Draft.Sets ms ms')
    (h : sheet.openHeader opener ks = .ok sheet') : Draft.Sets sheet.members sheet'.members := by
  unfold Sheet.openHeader at h
  split at h
  · cases h
  · obtain ⟨members, hmembers, rfl⟩ := Except.map_eq_ok_iff.mp h
    exact Draft.sets_of_within hopener hmembers

theorem Sheet.sets_of_assign (h : sheet.assign ks v = .ok sheet') :
    Draft.Sets sheet.members sheet'.members := by
  obtain ⟨members, hmembers, rfl⟩ := Except.map_eq_ok_iff.mp h
  exact Draft.sets_of_within Draft.sets_of_assign hmembers

theorem unexpected_ne_ok {α : Type} {a : α} : unexpected cs ≠ .ok a := by
  intro h
  cases cs <;> cases h

theorem sets_of_statement (h : statement sheet cs = .ok (sheet', rest)) :
    Draft.Sets sheet.members sheet'.members := by
  unfold statement at h
  split at h
  · obtain ⟨⟨ks, cs⟩, -, h⟩ := Except.bind_eq_ok_iff.mp h
    dsimp only at h
    split at h
    · obtain ⟨opened, hopened, h⟩ := Except.bind_eq_ok_iff.mp h
      obtain ⟨_, -, h⟩ := Except.bind_eq_ok_iff.mp h
      cases h
      exact Sheet.sets_of_openHeader Draft.sets_of_openElement hopened
    · exact absurd h unexpected_ne_ok
  · obtain ⟨⟨ks, cs⟩, -, h⟩ := Except.bind_eq_ok_iff.mp h
    dsimp only at h
    split at h
    · obtain ⟨opened, hopened, h⟩ := Except.bind_eq_ok_iff.mp h
      obtain ⟨_, -, h⟩ := Except.bind_eq_ok_iff.mp h
      cases h
      exact Sheet.sets_of_openHeader Draft.sets_of_openTable hopened
    · exact absurd h unexpected_ne_ok
  · obtain ⟨⟨⟨ks, v⟩, cs⟩, -, h⟩ := Except.bind_eq_ok_iff.mp h
    obtain ⟨assigned, hassigned, h⟩ := Except.bind_eq_ok_iff.mp h
    obtain ⟨_, -, h⟩ := Except.bind_eq_ok_iff.mp h
    cases h
    exact Sheet.sets_of_assign hassigned

theorem nodup_of_statements {fuel : Nat} (hnodup : (sheet.members.map Prod.fst).Nodup)
    (h : statements fuel sheet cs = .ok sheet') : (sheet'.members.map Prod.fst).Nodup := by
  induction fuel generalizing sheet cs with
  | zero =>
    cases h
    exact hnodup
  | succ fuel ih =>
    obtain ⟨cs, -, h⟩ := Except.bind_eq_ok_iff.mp h
    split at h
    · cases h
      exact hnodup
    · obtain ⟨⟨next, cs⟩, hnext, h⟩ := Except.bind_eq_ok_iff.mp h
      obtain ⟨key, d, hset⟩ := sets_of_statement hnext
      exact ih (hset ▸ Entries.nodup_set hnodup) h

/-- No key occurs twice in a table that is read. -/
theorem nodup_of_read {text : String} {ms : List (String × Value)} (h : read text = .ok ms) :
    (ms.map Prod.fst).Nodup := by
  obtain ⟨sheet, hsheet, h⟩ := Except.bind_eq_ok_iff.mp h
  cases h
  have hempty : ((⟨[], []⟩ : Sheet).members.map Prod.fst).Nodup := List.nodup_nil
  rw [Draft.map_fst_values]
  exact nodup_of_statements hempty hsheet

end ItemMetrics.Toml
