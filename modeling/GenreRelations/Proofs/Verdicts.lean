import GenreRelations.Program.FileTree
import GenreRelations.Program.Run
import GenreRelations.Proofs.Cataloging
import GenreRelations.Proofs.Printing
import Mathlib.Data.List.Infix

/-!
Verdicts on record files. Checking the records of a file and cataloging them end with the same exit
code if there are no records to be read; and else checking fails exactly if cataloging leaves
records out, whether it stops at the first of them or not: `verdicts_agree`. Both tell the user of
every failure in the report: `Command.failures_told`.
-/

namespace GenreRelations

namespace Catalog

/-! ### Stopping at the first failure -/

theorem isPrefix_untilFailure (os : List Outcome) : Outcome.untilFailure os <+: os := by
  fun_induction Outcome.untilFailure os with
  | case1 => exact List.prefix_rfl
  | case2 e os ih => exact (List.prefix_cons_inj _).mpr ih
  | case3 f os => exact ⟨os, rfl⟩

theorem failures_untilFailure_eq_nil_iff (os : List Outcome) :
    (Report.ofOutcomes (Outcome.untilFailure os)).failures = [] ↔
      (Report.ofOutcomes os).failures = [] := by
  fun_induction Outcome.untilFailure os with
  | case1 => rfl
  | case2 e os ih => exact ih
  | case3 f os => simp [Report.ofOutcomes, Outcome.failure?]

theorem accepts_iff {q : Bool} {r : Record} :
    accepts q r = true ↔ ∃ t, Tree.parse (expressionOf q r) = .ok t := by
  cases read : Tree.parse (expressionOf q r) with
  | ok t => simp [accepts_of_ok read]
  | error e => simp [accepts_of_error read]

/-- A report has no failures if the expressions of all records are parsed, whether it stops at the
first failure or not. -/
theorem failures_report_eq_nil_iff (p : Policy) (rs : List Record) :
    (report p rs).failures = [] ↔
      ∀ r ∈ rs, ∃ t, Tree.parse (expressionOf p.qualify r) = .ok t := by
  have policy : (report p rs).failures = [] ↔
      (Report.ofOutcomes (outcomes p.qualify rs)).failures = [] := by
    unfold report
    split
    · exact failures_untilFailure_eq_nil_iff _
    · rfl
  have each := (forall₂_outcomes p.qualify rs).2.length_eq
  rw [policy, ← List.length_eq_zero_iff, ← each, List.length_eq_zero_iff, List.filter_eq_nil_iff]
  simp [accepts_iff]

theorem isPrefix_entries_report (q : Bool) (rs : List Record) :
    (report ⟨q, true⟩ rs).entries <+: (report ⟨q, false⟩ rs).entries :=
  (isPrefix_untilFailure _).filterMap _

/-- An entry is printed on one line. -/
theorem lines_unlines_entries (es : List Entry) :
    Text.lines (Text.unlines (es.map Entry.text)) = es.map Entry.text :=
  Text.lines_unlines (List.forall_mem_map.mpr fun e _ => Json.controlFree_compact e.toJson)

end Catalog

/-! ### Runs -/

/-- The run of a command that the command line gives. -/
def Command.run (color : Bool) (places : Locations) (files : Files) (s : Settings)
    (c : Command) : Run := .ofPrinted color (c.execute s color places files)

namespace Command

section

variable {s : Settings} {files : Files} {path content : Text}

theorem reportOn_of_missing (missing : files path = none) :
    reportOn s files path = .error (.unreadable .records path) := by
  rw [reportOn, Files.records, Files.read, missing]
  rfl

theorem reportOn_of_invalid {line : Nat} (found : files path = some content)
    (invalid : Record.readAll content = .error line) :
    reportOn s files path = .error (.record path line) := by
  have read : files.read .records path = .ok content := by rw [Files.read, found]
  simp [reportOn, Files.records, read, bind, Except.bind, invalid, throw, throwThe,
    MonadExceptOf.throw]

theorem reportOn_of_valid {rs : List Record} (found : files path = some content)
    (valid : Record.readAll content = .ok rs) :
    reportOn s files path = .ok (Catalog.report s.policy rs) := by
  have read : files.read .records path = .ok content := by rw [Files.read, found]
  simp [reportOn, Files.records, read, bind, Except.bind, valid, pure, Except.pure]

/-- The records of a file are the same under all settings. -/
theorem reportOn_cases (files : Files) (path : Text) :
    (∃ f, ∀ s, reportOn s files path = .error f) ∨
      ∃ rs, ∀ s, reportOn s files path = .ok (Catalog.report s.policy rs) := by
  cases found : files path with
  | none => exact .inl ⟨_, fun s => reportOn_of_missing found⟩
  | some content =>
    cases read : Record.readAll content with
    | error line => exact .inl ⟨_, fun s => reportOn_of_invalid found read⟩
    | ok rs => exact .inr ⟨rs, fun s => reportOn_of_valid found read⟩

variable {color : Bool} {places : Locations}

theorem run_of_failed {f : Failure} (failed : reportOn s files path = .error f) :
    ∀ c ∈ [check path, catalog path],
      c.run color places files s = .ofPrinted color (.failed f) := by
  simp [run, execute, failed, Printed.ofResult]

theorem exitCode_check_of_report {r : Catalog.Report} (report : reportOn s files path = .ok r) :
    ((check path).run color places files s).exitCode = if r.failures = [] then 0 else 65 := by
  rw [run, execute, report, Printed.ofResult, printCheck, Catalog.Report.isClean]
  cases r.failures with
  | nil => rfl
  | cons f fs => rfl

theorem run_catalog_of_report {r : Catalog.Report} (report : reportOn s files path = .ok r) :
    (catalog path).run color places files s =
      ⟨0, Text.unlines (r.entries.map Catalog.Entry.text),
        Text.unlines (r.failures.map (warning color path))⟩ := by
  rw [run, execute, report]
  rfl

theorem stdout_check_of_report {r : Catalog.Report} (report : reportOn s files path = .ok r)
    (rejected : r.failures ≠ []) : ((check path).run color places files s).stdout =
      Text.unlines (Style.heading.apply color ("Rejected records in ".toList ++ path) ::
        r.failures.flatMap (rejection color)) := by
  have unclean : r.isClean = false := by
    rw [Catalog.Report.isClean, List.isEmpty_eq_false_iff]
    exact rejected
  rw [run, execute, report, Printed.ofResult, printCheck, unclean]
  rfl

/-- What a warning says behind its mark. -/
theorem suffix_warning (color : Bool) (file : Text) (f : Catalog.Failure) :
    file ++ ':' :: Text.ofNat f.line ++ ": skipped: ".toList ++ f.error.message <:+
      warning color file f :=
  ⟨Style.warning.apply color "Warning".toList ++ ": ".toList, by simp [warning]⟩

theorem infix_rejection (color : Bool) (f : Catalog.Failure) :
    Text.ofNat f.line ++ ": ".toList ++ f.error.message ++ "\n  ".toList ++ f.subgenre <:+:
      Text.unlines (rejection color f) :=
  ⟨"  ".toList ++ Style.rejection.apply color ['✗'] ++ " line ".toList, ['\n'],
    by simp [rejection, Text.unlines]⟩

/-- Cataloging tells of every failure of the report by its file, line and error, and checking by its
line, error and expression. -/
theorem failures_told {r : Catalog.Report} (report : reportOn s files path = .ok r)
    {f : Catalog.Failure} (failed : f ∈ r.failures) :
    path ++ ':' :: Text.ofNat f.line ++ ": skipped: ".toList ++ f.error.message <:+:
      ((catalog path).run color places files s).stderr ∧
    Text.ofNat f.line ++ ": ".toList ++ f.error.message ++ "\n  ".toList ++ f.subgenre <:+:
      ((check path).run color places files s).stdout := by
  constructor
  · rw [run_catalog_of_report report]
    exact (suffix_warning color path f).isInfix.trans
      (Text.infix_unlines (List.mem_map_of_mem failed))
  · have lines : rejection color f <:+: r.failures.flatMap (rejection color) :=
      List.infix_of_mem_flatten (List.mem_map_of_mem failed)
    rw [stdout_check_of_report report (List.ne_nil_of_mem failed)]
    exact (infix_rejection color f).trans ((List.infix_cons lines).flatMap _)

/-- Where a report stops makes no difference to exit codes. -/
theorem exitCode_failFast (failFast : Bool) : ∀ c ∈ [check path, catalog path],
    (c.run color places files { s with failFast }).exitCode =
      (c.run color places files s).exitCode := by
  intro c member
  rcases reportOn_cases files path with ⟨f, failed⟩ | ⟨rs, report⟩
  · rw [run_of_failed (failed _) c member, run_of_failed (failed _) c member]
  · rcases List.mem_cons.mp member with rfl | member
    · rw [exitCode_check_of_report (report _), exitCode_check_of_report (report _)]
      refine if_congr ?_ rfl rfl
      rw [Catalog.failures_report_eq_nil_iff, Catalog.failures_report_eq_nil_iff]
      rfl
    · rw [List.mem_singleton.mp member, run_catalog_of_report (report _),
        run_catalog_of_report (report _)]

theorem isPrefix_stdout_catalog :
    ((catalog path).run color places files { s with failFast := true }).stdout <+:
      ((catalog path).run color places files { s with failFast := false }).stdout := by
  rcases reportOn_cases files path with ⟨f, failed⟩ | ⟨rs, report⟩
  · have member : catalog path ∈ [check path, catalog path] := by simp
    rw [run_of_failed (failed _) _ member, run_of_failed (failed _) _ member]
  · rw [run_catalog_of_report (report _), run_catalog_of_report (report _)]
    exact ((Catalog.isPrefix_entries_report s.qualify rs).map _).flatMap _

/-- What is printed and how the commands end if there are records to report on. -/
theorem runs_of_report {rs : List Record}
    (report : reportOn s files path = .ok (Catalog.report s.policy rs)) :
    ((catalog path).run color places files s).exitCode = 0 ∧
    Text.lines ((catalog path).run color places files s).stdout =
      (Catalog.report s.policy rs).entries.map Catalog.Entry.text ∧
    ((catalog path).run color places files s).stderr =
      Text.unlines ((Catalog.report s.policy rs).failures.map (warning color path)) ∧
    (((check path).run color places files s).exitCode = 0 ↔
      ((catalog path).run color places files s).stderr = []) ∧
    (((check path).run color places files s).exitCode = 0 ↔
      ∀ r ∈ rs, ∃ t, Tree.parse (Catalog.expressionOf s.qualify r) = .ok t) ∧
    (((check path).run color places files s).exitCode ≠ 0 →
      ((check path).run color places files s).exitCode = 65) := by
  rw [run_catalog_of_report report, exitCode_check_of_report report]
  have clean : (if (Catalog.report s.policy rs).failures = [] then 0 else 65) = 0 ↔
      (Catalog.report s.policy rs).failures = [] := by simp
  have silent : Text.unlines ((Catalog.report s.policy rs).failures.map (warning color path)) =
      [] ↔ (Catalog.report s.policy rs).failures = [] := by
    rw [Text.unlines_eq_nil_iff, List.map_eq_nil_iff]
  exact ⟨rfl, Catalog.lines_unlines_entries _, rfl, clean.trans silent.symm,
    clean.trans (Catalog.failures_report_eq_nil_iff s.policy rs),
    fun rejected => if_neg (mt clean.mpr rejected)⟩

end

/-- Checking the records of a file and cataloging them both end with exit code 74 if there is no
such file, and with 65 if a line of it gives no subgenre. Otherwise cataloging succeeds, prints one
line for each entry, and warns of each record that it leaves out; checking succeeds if there is no
such warning, which is if the expressions of all records are parsed, and else it ends with 65. The
exit codes are the same if the report stops at the first failure, and what cataloging prints is then
the beginning of what it prints otherwise. -/
theorem verdicts_agree (color : Bool) (places : Locations) (files : Files) (s : Settings)
    (path : Text) :
    (files path = none → ∀ c ∈ [check path, catalog path],
      (c.run color places files s).exitCode = 74) ∧
    (∀ content line, files path = some content → Record.readAll content = .error line →
      ∀ c ∈ [check path, catalog path], (c.run color places files s).exitCode = 65) ∧
    (∀ content rs, files path = some content → Record.readAll content = .ok rs →
      ((catalog path).run color places files s).exitCode = 0 ∧
      Text.lines ((catalog path).run color places files s).stdout =
        (Catalog.report s.policy rs).entries.map Catalog.Entry.text ∧
      ((catalog path).run color places files s).stderr =
        Text.unlines ((Catalog.report s.policy rs).failures.map (warning color path)) ∧
      (((check path).run color places files s).exitCode = 0 ↔
        ((catalog path).run color places files s).stderr = []) ∧
      (((check path).run color places files s).exitCode = 0 ↔
        ∀ r ∈ rs, ∃ t, Tree.parse (Catalog.expressionOf s.qualify r) = .ok t) ∧
      (((check path).run color places files s).exitCode ≠ 0 →
        ((check path).run color places files s).exitCode = 65)) ∧
    (∀ failFast, ∀ c ∈ [check path, catalog path],
      (c.run color places files { s with failFast }).exitCode =
        (c.run color places files s).exitCode) ∧
    ((catalog path).run color places files { s with failFast := true }).stdout <+:
      ((catalog path).run color places files { s with failFast := false }).stdout := by
  refine ⟨fun missing c member => ?_, fun content line found invalid c member => ?_,
    fun content rs found valid => runs_of_report (reportOn_of_valid found valid),
    exitCode_failFast, isPrefix_stdout_catalog⟩
  · rw [run_of_failed (reportOn_of_missing missing) c member]
    rfl
  · rw [run_of_failed (reportOn_of_invalid found invalid) c member]
    rfl

theorem verdicts_agree_mixed : ∃ files : Files,
    files "a".toList = some "House\nCrunk |".toList ∧ files "b".toList = some "House\t ".toList ∧
    files "c".toList = none ∧
    (∀ c ∈ [check "c".toList, catalog "c".toList],
      (c.run true ⟨none, []⟩ files {}).exitCode = 74) ∧
    (∀ c ∈ [check "b".toList, catalog "b".toList],
      (c.run true ⟨none, []⟩ files {}).exitCode = 65) ∧
    ((catalog "a".toList).run true ⟨none, []⟩ files {}).exitCode = 0 ∧
    ((check "a".toList).run true ⟨none, []⟩ files {}).exitCode = 65 := by
  obtain ⟨files, mixed, broken, missing⟩ : ∃ files : Files,
      files "a".toList = some "House\nCrunk |".toList ∧
      files "b".toList = some "House\t ".toList ∧ files "c".toList = none :=
    ⟨.ofList [("a".toList, "House\nCrunk |".toList), ("b".toList, "House\t ".toList)], by decide⟩
  have invalid : Record.readAll "House\t ".toList = .error 1 := by decide
  have valid : Record.readAll "House\nCrunk |".toList =
      .ok [⟨1, none, "House".toList⟩, ⟨2, none, "Crunk |".toList⟩] := by decide
  have rejected : Tree.parse "Crunk |".toList = .error (.misplacedOperator "Crunk |".toList 1) := by
    cbv
  obtain ⟨gone, -⟩ := verdicts_agree true ⟨none, []⟩ files {} "c".toList
  obtain ⟨-, faulty, -⟩ := verdicts_agree true ⟨none, []⟩ files {} "b".toList
  obtain ⟨-, -, records, -⟩ := verdicts_agree true ⟨none, []⟩ files {} "a".toList
  obtain ⟨cataloged, -, -, -, clean, checked⟩ := records _ _ mixed valid
  refine ⟨files, mixed, broken, missing, gone missing, faulty _ _ broken invalid, cataloged,
    checked fun succeeded => ?_⟩
  obtain ⟨t, read⟩ := clean.mp succeeded ⟨2, none, "Crunk |".toList⟩ (by simp)
  have same : Catalog.expressionOf ({} : Settings).qualify ⟨2, none, "Crunk |".toList⟩ =
      "Crunk |".toList := rfl
  rw [same, rejected] at read
  cases read

end Command

end GenreRelations
