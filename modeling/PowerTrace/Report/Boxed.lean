import PowerTrace.Report.Amount
import PowerTrace.Report.Format
import PowerTrace.Text.Column

/-!
# Boxed tables

Tables for the eye: every line of a table is as wide as its rules, as long as the contents fit
their columns.

* `boxed`: the format `default`;
* `comparison`: the format `comparison`, in which a row is followed by its difference to the
  baseline.
-/

namespace PowerTrace.Report

open Text (padLeft padRight cut)

/-- Width of the table of idle states. -/
def cstateWidth : Nat := 80

/-- Width of the table of frequencies. -/
def pstateWidth : Nat := 64

/-- Width of the table of wake-up sources. -/
def wakeupWidth : Nat := 55

/-- A horizontal rule. -/
def rule (width : Nat) : String := String.ofList (List.replicate width '-')

/-- Cells side by side in a box. -/
def cells (cs : List String) : String := "|" ++ String.join (cs.map fun c => " " ++ c ++ " |")

/-- How far a label is indented beyond the left side of the box. -/
def indent : GroupLevel → Nat
  | .cluster => 0
  | .core => 5
  | .cpu => 12

/-- The name of a group between two rules. -/
def boxedLabel (width : Nat) (level : GroupLevel) (label : String) : List String :=
  [rule width, cells [Text.spaces (indent level) ++ padRight (width - 4 - indent level) label],
    rule width]

/-- The columns that every table of durations has: the shortest, the longest, the mean and the sum
of the durations. -/
def durationCells (s : DurationStats Float) : List String :=
  [s.min, s.max, s.avg, s.total].map fun us => padLeft 8 (duration us)

/-- The row of an idle state. -/
def cstateLine (name : String) (s : CState Float) : String :=
  cells (padLeft 8 name :: durationCells s.stats ++
    [s.stats.count, s.early, s.late].map fun n => padLeft 5 (toString n))

/-- The row of a frequency. -/
def pstateLine (freq : Nat) (s : DurationStats Float) : String :=
  cells (padLeft 8 (frequency freq) :: durationCells s ++ [padLeft 5 (toString s.count)])

/-- The number of a wake-up source, `IPI` if it has none. -/
def sourceNumber (s : WakeupSource) : String :=
  match s.id with
  | some id => toString id
  | none => "IPI"

/-- The row of a wake-up source; a long name is cut. -/
def wakeupLine (s : WakeupSource) : String :=
  cells (padRight 3 (sourceNumber s) :: padRight 15 (cut 15 s.name) ::
    [s.count, s.early, s.late].map fun n => padLeft 7 (toString n))

/-- A table of idle states whose rows are written in a given way. -/
def boxedCStates (row : CStateRow Float → List String) : TableFormat (CStateRow Float) where
  head := [rule cstateWidth,
    "| C-state  |   min    |   max    |   avg    |   total  | hits  |  over | under |"]
  label := boxedLabel cstateWidth
  row := row
  foot := [rule cstateWidth, ""]

/-- A table of frequencies whose rows are written in a given way. -/
def boxedPStates (row : PStateRow Float → List String) : TableFormat (PStateRow Float) where
  head := [rule pstateWidth, "| P-state  |   min    |   max    |   avg    |   total  | hits  |"]
  label := boxedLabel pstateWidth
  row := row
  foot := [rule pstateWidth, ""]

/-- The table of wake-up sources. -/
def boxedWakeups : TableFormat WakeupSource where
  head := [rule wakeupWidth, "| IRQ |       Name      |  Count  |  early  |  late   |"]
  label := boxedLabel wakeupWidth
  row := fun s => [wakeupLine s]
  foot := [rule wakeupWidth, ""]

/-- Boxed tables of the run alone.  What only the baseline used is passed over. -/
def boxed : Format where
  name := "default"
  needsBaseline := false
  cstates := boxedCStates fun r => (r.current.map (cstateLine r.name)).toList
  pstates := boxedPStates fun r => (r.current.map fun p => pstateLine r.freq p.stats).toList
  wakeups := boxedWakeups

/-! ### Differences to the baseline -/

/-- The differences of two aggregates of durations, under the columns that they belong to, and
those of some counts. -/
def deltaLine (current baseline : DurationStats Float) (counts : List (Nat × Nat)) : String :=
  let durations := [(current.min, baseline.min), (current.max, baseline.max),
    (current.avg, baseline.avg), (current.total, baseline.total)]
  cells (Text.spaces 8 :: durations.map (fun (c, b) => padLeft 8 (durationDelta (c - b))) ++
    counts.map fun (c, b) => padLeft 5 (countDelta c b))

/-- The row of an idle state and its difference to the baseline, if the baseline used it. -/
def cstateComparison (r : CStateRow Float) : List String :=
  let s := r.current.getD .unsupported
  cstateLine r.name s :: (r.baseline.map fun b =>
    deltaLine s.stats b.stats
      [(s.stats.count, b.stats.count), (s.early, b.early), (s.late, b.late)]).toList

/-- The row of a frequency and its difference to the baseline, if the baseline used it. -/
def pstateComparison (r : PStateRow Float) : List String :=
  let s := (r.current.map (·.stats)).getD .empty
  pstateLine r.freq s :: (r.baseline.map fun b =>
    deltaLine s b.stats [(s.count, b.stats.count)]).toList

/-- Boxed tables with the differences to the baseline. -/
def comparison : Format where
  name := "comparison"
  needsBaseline := true
  cstates := boxedCStates cstateComparison
  pstates := boxedPStates pstateComparison
  wakeups := boxedWakeups

end PowerTrace.Report
