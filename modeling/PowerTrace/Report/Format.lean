import PowerTrace.Analysis
import PowerTrace.Report.Section

/-!
# Report formats

A format says how each part of a table is written; the order of the parts is the same for all.

* `TableFormat`: how one table is written;
* `Format`: how all three are;
* `render`: the report of an analysis.
-/

namespace PowerTrace

/-- How a table with rows of one kind is written, as lines of text. -/
structure TableFormat (ρ : Type) where
  /-- The lines before the first section. -/
  head : List String
  /-- The lines that name a group. -/
  label : GroupLevel → String → List String
  /-- The lines of a row, none where the format passes over the row. -/
  row : ρ → List String
  /-- The lines after the last section. -/
  foot : List String

namespace TableFormat

variable {ρ : Type}

/-- The lines of a section: the name of its group, then its rows. -/
def sectionLines (f : TableFormat ρ) (s : Section ρ) : List String :=
  f.label s.level s.label ++ s.rows.flatMap f.row

/-- The lines of a table. -/
def lines (f : TableFormat ρ) (sections : List (Section ρ)) : List String :=
  f.head ++ sections.flatMap f.sectionLines ++ f.foot

end TableFormat

/-- How a report is written. -/
structure Format where
  /-- The name it is asked for by. -/
  name : String
  /-- Whether it shows nothing without a baseline. -/
  needsBaseline : Bool
  /-- The table of idle states. -/
  cstates : TableFormat (CStateRow Float)
  /-- The table of frequencies. -/
  pstates : TableFormat (PStateRow Float)
  /-- The table of wake-up sources. -/
  wakeups : TableFormat WakeupSource

/-- Lines as text, each with its line feed. -/
def joinLines (ls : List String) : String := String.join (ls.map (· ++ "\n"))

namespace Format

/-- The lines of a report with the chosen tables. -/
def lines (f : Format) (o : ReportOptions) (t : Topology Float)
    (baseline : Option (Topology Float)) : List String :=
  (if o.idle then f.cstates.lines (cstateSections t baseline) else []) ++
    (if o.frequency then f.pstates.lines (pstateSections t baseline) else []) ++
      if o.wakeup then f.wakeups.lines (wakeupSections t) else []

/-- The report of an analysis.  A format that shows differences is refused without a baseline. -/
def render (f : Format) (o : ReportOptions) (a : Analysis Float) : Except Error String :=
  if f.needsBaseline && a.baseline.isNone then
    .error (.config (f.name ++ " report requires a baseline trace"))
  else .ok (joinLines (f.lines o a.topology a.baseline))

end Format

end PowerTrace
