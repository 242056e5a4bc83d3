/-!
# Settings

What a user can choose about a replay and about a report.  Every choice has a default, so the
settings of a user who chose nothing are a value too.

* `ReplayOptions`: how much is said while replaying, which frequency stands for a group, whether
  idle intervals are kept;
* `ReportOptions`: which format, and which tables;
* `Settings`: both.
-/

namespace PowerTrace

/-- How much a replay says. -/
inductive Verbosity where
  /-- Structural problems only. -/
  | quiet
  /-- Structural problems and the summary. -/
  | normal
  /-- Everything, also discarded intervals and wake-ups that are not charged. -/
  | verbose
  deriving DecidableEq, Repr

namespace Verbosity

instance : Inhabited Verbosity := ⟨normal⟩

/-- Whether every single interval may be remarked on. -/
def isVerbose (v : Verbosity) : Bool := v == verbose

/-- Whether the summary is wanted. -/
def isAboveQuiet (v : Verbosity) : Bool := v != quiet

end Verbosity

/-- Which frequency among the running members of a group stands for the group. -/
inductive Extremum where
  /-- The lowest. -/
  | min
  /-- The highest. -/
  | max
  deriving DecidableEq, Repr

instance : Inhabited Extremum := ⟨.min⟩

/-- The options of a replay. -/
structure ReplayOptions where
  /-- How much is said. -/
  verbosity : Verbosity := default
  /-- Which member frequency stands for a core or a cluster. -/
  compositeFrequency : Extremum := default
  /-- Whether the idle intervals of every CPU are kept for overlap queries. -/
  retainIntervals : Bool := false
  deriving DecidableEq, Repr, Inhabited

/-- The options of a report. -/
structure ReportOptions where
  /-- Name of the format. -/
  format : String := "default"
  /-- Whether idle states are shown. -/
  idle : Bool := true
  /-- Whether frequencies are shown. -/
  frequency : Bool := false
  /-- Whether wake-up sources are shown. -/
  wakeup : Bool := false
  deriving DecidableEq, Repr, Inhabited

/-- Whether any table is shown. -/
def ReportOptions.anySelected (o : ReportOptions) : Bool := o.idle || o.frequency || o.wakeup

/-- All settings of a user. -/
structure Settings where
  /-- The options of a replay. -/
  replay : ReplayOptions := {}
  /-- The options of a report. -/
  report : ReportOptions := {}
  deriving DecidableEq, Repr, Inhabited

end PowerTrace
