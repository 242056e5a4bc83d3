import PowerTrace.Report.Boxed

/-!
# Comma separated tables

Tables for spreadsheets: one row a line, the fields of a row separated by commas, durations in
microseconds and frequencies in kHz.  A field is written as it is, without quotes.
-/

namespace PowerTrace.Report

/-- Fields separated by commas. -/
def fields (fs : List String) : String := ",".intercalate fs

/-- The name of a group, under the column of its level. -/
def separatedLabel (level : GroupLevel) (label : String) : List String :=
  match level with
  | .cluster => [label]
  | .core => [fields ["", label]]
  | .cpu => [fields ["", "", label]]

/-- The shortest, the longest, the mean and the sum of the durations, in microseconds. -/
def durationFields (s : DurationStats Float) : List String :=
  [s.min, s.max, s.avg, s.total].map (Text.fixed 6)

/-- The row of an idle state. -/
def cstateFields (name : String) (s : CState Float) : List String :=
  ["", "", "", name] ++ durationFields s.stats ++ [s.stats.count, s.early, s.late].map toString

/-- The row of a frequency. -/
def pstateFields (freq : Nat) (s : DurationStats Float) : List String :=
  ["", "", "", toString (freq / 1000)] ++ durationFields s ++ [toString s.count]

/-- The row of a wake-up source. -/
def wakeupFields (s : WakeupSource) : List String :=
  ["", "", "", sourceNumber s, s.name] ++ [s.count, s.early, s.late].map toString

/-- Comma separated tables of the run alone.  What only the baseline used is passed over. -/
def separated : Format where
  name := "csv"
  needsBaseline := false
  cstates := {
    head := ["C-State Table",
      "cluster,core,cpu,C-state,min (us),max (us),avg (us),total (us),hits,over,under"]
    label := separatedLabel
    row := fun r => (r.current.map fun s => fields (cstateFields r.name s)).toList
    foot := ["", ""] }
  pstates := {
    head := ["P-State Table", ",,,P-state (kHz),min (us),max (us),avg (us),total (us),hits"]
    label := separatedLabel
    row := fun r => (r.current.map fun p => fields (pstateFields r.freq p.stats)).toList
    foot := ["", ""] }
  wakeups := {
    head := ["Wakeup Table", "cluster,core,cpu,IRQ,Name,Count,early,late"]
    label := separatedLabel
    row := fun s => [fields (wakeupFields s)]
    foot := ["", ""] }

end PowerTrace.Report
