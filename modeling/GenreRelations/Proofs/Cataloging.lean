import GenreRelations.Catalog.Report
import Mathlib.Data.List.Forall2

/-!
Reports. A report that goes on after failures holds what became of each record, entries and failures
each in the order of the records; one that stops at the first failure is the report of fewer
records: `report_parts`.
-/

namespace GenreRelations.Catalog

/-- The expression of a record that is parsed. -/
def expressionOf (qualifying : Bool) (r : Record) : Text :=
  if qualifying then qualify r.genre r.subgenre else r.subgenre

/-- The expression of the record is parsed to a tree. -/
def accepts (qualifying : Bool) (r : Record) : Bool := (Tree.parse (expressionOf qualifying r)).isOk

/-- The entry shows the tree of the record. -/
def IsEntryOf (qualifying : Bool) (r : Record) (e : Entry) : Prop :=
  ∃ t, Tree.parse (expressionOf qualifying r) = .ok t ∧
    e = .ofTree r.line (expressionOf qualifying r) t

/-- The failure shows the error of the record. -/
def IsFailureOf (qualifying : Bool) (r : Record) (f : Failure) : Prop :=
  ∃ e, Tree.parse (expressionOf qualifying r) = .error e ∧
    f = ⟨r.line, expressionOf qualifying r, e⟩

section

variable {q : Bool} {r : Record}

theorem accepts_of_ok {t : Tree} (read : Tree.parse (expressionOf q r) = .ok t) :
    accepts q r = true := by
  rw [accepts, read]
  rfl

theorem accepts_of_error {e : ParseError} (failed : Tree.parse (expressionOf q r) = .error e) :
    accepts q r = false := by
  rw [accepts, failed]
  rfl

theorem subgenre_prepared (q : Bool) (r : Record) :
    (if q then r.qualified else r).subgenre = expressionOf q r := by
  cases q <;> rfl

theorem line_prepared (q : Bool) (r : Record) : (if q then r.qualified else r).line = r.line := by
  cases q <;> rfl

theorem outcomes_cons_of_ok {t : Tree} (read : Tree.parse (expressionOf q r) = .ok t)
    (rs : List Record) : outcomes q (r :: rs) =
      .entry (.ofTree r.line (expressionOf q r) t) :: outcomes q rs := by
  rw [outcomes, List.map_cons, Outcome.ofRecord, subgenre_prepared, line_prepared, read]
  rfl

theorem outcomes_cons_of_error {e : ParseError}
    (failed : Tree.parse (expressionOf q r) = .error e) (rs : List Record) :
    outcomes q (r :: rs) = .failure ⟨r.line, expressionOf q r, e⟩ :: outcomes q rs := by
  rw [outcomes, List.map_cons, Outcome.ofRecord, subgenre_prepared, line_prepared, failed]
  rfl

end

/-! ### Records one by one -/

/-- The accepted records have the entries, and the others the failures. -/
theorem forall₂_outcomes (q : Bool) (rs : List Record) :
    List.Forall₂ (IsEntryOf q) (rs.filter (accepts q))
      (Report.ofOutcomes (outcomes q rs)).entries ∧
    List.Forall₂ (IsFailureOf q) (rs.filter fun r => !accepts q r)
      (Report.ofOutcomes (outcomes q rs)).failures := by
  induction rs with
  | nil => exact ⟨.nil, .nil⟩
  | cons r rs ih =>
    obtain ⟨entries, failures⟩ := ih
    cases read : Tree.parse (expressionOf q r) with
    | ok t =>
      have accepted := accepts_of_ok read
      rw [outcomes_cons_of_ok read, List.filter_cons_of_pos accepted,
        List.filter_cons_of_neg (by simp [accepted])]
      exact ⟨.cons ⟨t, read, rfl⟩ entries, failures⟩
    | error e =>
      have rejected := accepts_of_error read
      rw [outcomes_cons_of_error read, List.filter_cons_of_neg (by simp [rejected]),
        List.filter_cons_of_pos (by simp [rejected])]
      exact ⟨entries, .cons ⟨e, read, rfl⟩ failures⟩

/-! ### Stopping -/

/-- What remains of the outcomes are the outcomes of fewer records. -/
theorem untilFailure_outcomes (q : Bool) (rs : List Record) :
    Outcome.untilFailure (outcomes q rs) =
      outcomes q (rs.take (rs.findIdx (fun r => !accepts q r) + 1)) := by
  induction rs with
  | nil => rfl
  | cons r rs ih =>
    rw [List.findIdx_cons, List.take_succ_cons]
    cases read : Tree.parse (expressionOf q r) with
    | ok t =>
      rw [outcomes_cons_of_ok read, outcomes_cons_of_ok read, accepts_of_ok read,
        Outcome.untilFailure, ih]
      rfl
    | error e =>
      rw [outcomes_cons_of_error read, outcomes_cons_of_error read, accepts_of_error read,
        Outcome.untilFailure]
      rfl

theorem length_report (q : Bool) (rs : List Record) :
    (report ⟨q, false⟩ rs).entries.length + (report ⟨q, false⟩ rs).failures.length = rs.length := by
  obtain ⟨entries, failures⟩ := forall₂_outcomes q rs
  have parted := List.length_eq_length_filter_add (l := rs) (accepts q)
  rw [entries.length_eq, failures.length_eq] at parted
  exact parted.symm

theorem map_eq_map_of_forall₂ {α β γ : Type} {shows : α → β → Prop} {f : α → γ} {g : β → γ}
    (same : ∀ a b, shows a b → f a = g b) {as : List α} {bs : List β}
    (each : List.Forall₂ shows as bs) : bs.map g = as.map f := by
  rw [eq_comm, ← List.forall₂_eq_eq_eq, List.forall₂_map_left_iff, List.forall₂_map_right_iff]
  exact each.imp same

/-- Entries and failures keep the line numbers of their records. -/
theorem map_line_report (q : Bool) (rs : List Record) :
    (report ⟨q, false⟩ rs).entries.map Entry.line = (rs.filter (accepts q)).map Record.line ∧
    (report ⟨q, false⟩ rs).failures.map Failure.line =
      (rs.filter fun r => !accepts q r).map Record.line := by
  obtain ⟨entries, failures⟩ := forall₂_outcomes q rs
  constructor
  · refine map_eq_map_of_forall₂ ?_ entries
    rintro r e ⟨t, -, rfl⟩
    rfl
  · refine map_eq_map_of_forall₂ ?_ failures
    rintro r f ⟨e, -, rfl⟩
    rfl

/-- Every entry of a report shows the tree of a record. -/
theorem exists_record_of_mem_entries {p : Policy} {rs : List Record} {e : Entry}
    (member : e ∈ (report p rs).entries) : ∃ r, IsEntryOf p.qualify r e := by
  obtain ⟨q, failFast⟩ := p
  have entry : ∀ rs, e ∈ (Report.ofOutcomes (outcomes q rs)).entries → ∃ r, IsEntryOf q r e := by
    intro rs isIn
    obtain ⟨i, before, rfl⟩ := List.getElem_of_mem isIn
    have each := (forall₂_outcomes q rs).1
    exact ⟨_, each.get (each.length_eq ▸ before) before⟩
  cases failFast with
  | false => exact entry rs member
  | true =>
    have kept : e ∈ (Report.ofOutcomes (Outcome.untilFailure (outcomes q rs))).entries := member
    rw [untilFailure_outcomes] at kept
    exact entry _ kept

/-- A report holds one entry or one failure for each record, both in the order of the records, and
the report of two lists of records is their two reports. A report that stops at the first failure is
that of the records up to and including the first that fails. -/
theorem report_parts (q : Bool) (rs qs : List Record) :
    List.Forall₂ (IsEntryOf q) (rs.filter (accepts q)) (report ⟨q, false⟩ rs).entries ∧
    List.Forall₂ (IsFailureOf q) (rs.filter fun r => !accepts q r)
      (report ⟨q, false⟩ rs).failures ∧
    (report ⟨q, false⟩ rs).entries.length + (report ⟨q, false⟩ rs).failures.length = rs.length ∧
    report ⟨q, false⟩ (rs ++ qs) =
      ⟨(report ⟨q, false⟩ rs).entries ++ (report ⟨q, false⟩ qs).entries,
        (report ⟨q, false⟩ rs).failures ++ (report ⟨q, false⟩ qs).failures⟩ ∧
    report ⟨q, true⟩ rs =
      report ⟨q, false⟩ (rs.take (rs.findIdx (fun r => !accepts q r) + 1)) := by
  obtain ⟨entries, failures⟩ := forall₂_outcomes q rs
  refine ⟨entries, failures, length_report q rs, ?_, ?_⟩
  · simp [report, outcomes, Report.ofOutcomes]
  · exact congrArg Report.ofOutcomes (untilFailure_outcomes q rs)

end GenreRelations.Catalog
