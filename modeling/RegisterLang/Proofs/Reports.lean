import RegisterLang.Report

/-! # Reports that are merged

However a report came about, it stores the first errors that were reported and counts all of them, and stores all
warnings. To merge two reports is to report to the first what was reported to the second. Main statement:
`extend_reports`.
-/

namespace RegisterLang.Report

open List

/-- How a report came about. -/
inductive Origin where
  | empty
  | error (before : Origin) (d : Diagnostic)
  | warning (before : Origin) (d : Diagnostic)
  | extend (before later : Origin)

namespace Origin

def report : Origin → Report
  | empty => .empty
  | error before d => before.report.error d
  | warning before d => before.report.warning d
  | extend before later => before.report.extend later.report

/-- All errors in the order in which they were reported. -/
def errors : Origin → List Diagnostic
  | empty => []
  | error before d => before.errors ++ [d]
  | warning before _ => before.errors
  | extend before later => before.errors ++ later.errors

/-- All warnings in the order in which they were reported. -/
def warnings : Origin → List Diagnostic
  | empty => []
  | error before _ => before.warnings
  | warning before d => before.warnings ++ [d]
  | extend before later => before.warnings ++ later.warnings

end Origin

def asWarning (d : Diagnostic) : Diagnostic :=
  { d with severity := .warning }

/-- A report of exactly these errors and warnings. -/
structure Reports (r : Report) (errors warnings : List Diagnostic) : Prop where
  stored : r.errors.toList = errors.take limit
  counted : r.totalErrors = errors.length
  warned : r.warnings.toList = warnings.map asWarning
  countedWarnings : r.totalWarnings = warnings.length

namespace Reports

variable {r later : Report} {es es' ws ws' : List Diagnostic}

theorem error (reports : r.Reports es ws) (d : Diagnostic) : (r.error d).Reports (es ++ [d]) ws where
  stored := by
    have size : r.errors.size = min limit es.length := by
      rw [← Array.length_toList, reports.stored, length_take]
    rw [Report.error]
    split
    · next room =>
      have short : es.length < limit := by omega
      rw [Array.toList_push, reports.stored, take_of_length_le (Nat.le_of_lt short),
        take_of_length_le (by rw [length_append]; exact short)]
    · next full => rw [reports.stored, take_append_of_le_length (by omega)]
  counted := by rw [length_append, ← reports.counted]; rfl
  warned := reports.warned
  countedWarnings := reports.countedWarnings

theorem warning (reports : r.Reports es ws) (d : Diagnostic) : (r.warning d).Reports es (ws ++ [d]) where
  stored := reports.stored
  counted := reports.counted
  warned := by rw [map_append, ← reports.warned]; exact Array.toList_push ..
  countedWarnings := by rw [length_append, ← reports.countedWarnings]; rfl

theorem errors (ds : List Diagnostic) (reports : r.Reports es ws) :
    (ds.foldl Report.error r).Reports (es ++ ds) ws := by
  induction ds generalizing r es with
  | nil => rwa [append_nil]
  | cons d ds ih => simpa using ih (reports.error d)

theorem warnings (ds : List Diagnostic) (reports : r.Reports es ws) :
    (ds.foldl Report.warning r).Reports es (ws ++ ds) := by
  induction ds generalizing r ws with
  | nil => rwa [append_nil]
  | cons d ds ih => simpa using ih (reports.warning d)

theorem extend (reports : r.Reports es ws) (reports' : later.Reports es' ws') :
    (r.extend later).Reports (es ++ es') (ws ++ ws') := by
  have stored := reports.errors later.errors.toList
  rw [Array.foldl_toList, reports'.stored] at stored
  have warned (q : Report) : later.warnings.foldl Report.warning q = ws'.foldl Report.warning q := by
    rw [← Array.foldl_toList, reports'.warned, foldl_map]
    rfl
  rw [Report.extend, warned]
  refine warnings ws' ⟨stored.stored.trans ?_, ?_, stored.warned, stored.countedWarnings⟩
  · -- What the second report dropped is beyond the limit of the first as well.
    rw [take_append, take_append, take_take, Nat.min_eq_left (Nat.sub_le ..)]
  · have kept := congrArg length reports'.stored
    rw [Array.length_toList, length_take] at kept
    change _ + later.dropped = _
    rw [stored.counted, dropped, reports'.counted, kept, length_append, length_append, length_take]
    omega

end Reports

theorem Origin.reports : (o : Origin) → o.report.Reports o.errors o.warnings
  | empty => ⟨rfl, rfl, rfl, rfl⟩
  | error before d => before.reports.error d
  | warning before d => before.reports.warning d
  | extend before later => before.reports.extend later.reports

/-- A merged report is one of all that was reported to the first and then to the second, and no more errors are stored
than counted. Whether there are errors, and whether they are too many, depends on their number only. -/
theorem extend_reports (a b : Origin) :
    (a.report.extend b.report).Reports (a.errors ++ b.errors) (a.warnings ++ b.warnings) ∧
      b.report.dropped + b.report.errors.size = b.errors.length ∧
      (a.report.extend b.report).hasErrors = decide (0 < a.errors.length + b.errors.length) ∧
      (a.report.extend b.report).atLimit = decide (limit ≤ a.errors.length + b.errors.length) := by
  have merged := a.reports.extend b.reports
  refine ⟨merged, ?_, ?_, ?_⟩
  · rw [← b.reports.counted]
    exact Nat.sub_add_cancel b.report.stored_le
  · rw [hasErrors, merged.counted, List.length_append]
  · rw [atLimit, merged.counted, List.length_append]

end RegisterLang.Report
