import PowerTrace.Report.Separated

/-!
# The formats of a report by name
-/

namespace PowerTrace.Report

/-- All formats, in the order of their names. -/
def formats : List Format := [comparison, separated, boxed]

/-- The names of all formats. -/
def formatNames : List String := formats.map (·.name)

/-- The format with a given name. -/
def formatNamed (name : String) : Except Error Format :=
  match formats.find? (·.name == name) with
  | some f => .ok f
  | none => .error (.unknownReportFormat name)

end PowerTrace.Report
