import PowerTrace.Description
import PowerTrace.Document.Basic
import PowerTrace.Options

/-!
# What documents say about settings and machines

The record forms of the settings and of the description of a machine.

* `Settings.ofDocument?`, `ReplayOptions.ofDocument?`, `ReportOptions.ofDocument?`: every field has
  a default;
* `Description.ofDocument?`: a core may leave out whether it holds several CPUs, and a state its
  target residency.
-/

namespace PowerTrace

/-- The name of a verbosity. -/
def Verbosity.name : Verbosity → String
  | quiet => "quiet"
  | normal => "normal"
  | verbose => "verbose"

/-- The verbosity with a given name. -/
def Verbosity.named? (s : String) : Option Verbosity := [quiet, normal, verbose].find? (·.name == s)

/-- The name of an extremum. -/
def Extremum.name : Extremum → String
  | min => "min"
  | max => "max"

/-- The extremum with a given name. -/
def Extremum.named? (s : String) : Option Extremum :=
  [Extremum.min, Extremum.max].find? (·.name == s)

/-- The options of a replay that a document holds. -/
def ReplayOptions.ofDocument? (dialect : Dialect) (d : Document) : Option ReplayOptions := do
  match ← d.record? dialect ["verbosity", "composite_frequency", "retain_intervals"] 0 with
  | [verbosity, frequency, retain] =>
    let verbosity ← optional default (fun d => (d.variant? dialect).bind Verbosity.named?) verbosity
    let frequency ← optional default (fun d => (d.variant? dialect).bind Extremum.named?) frequency
    let retain ← optional false Document.bool? retain
    some ⟨verbosity, frequency, retain⟩
  | _ => none

/-- The options of a report that a document holds. -/
def ReportOptions.ofDocument? (dialect : Dialect) (d : Document) : Option ReportOptions := do
  match ← d.record? dialect ["format", "idle", "frequency", "wakeup"] 0 with
  | [format, idle, frequency, wakeup] =>
    let format ← optional "default" Document.text? format
    let idle ← optional true Document.bool? idle
    let frequency ← optional false Document.bool? frequency
    let wakeup ← optional false Document.bool? wakeup
    some ⟨format, idle, frequency, wakeup⟩
  | _ => none

/-- The settings that a document holds. -/
def Settings.ofDocument? (dialect : Dialect) (d : Document) : Option Settings := do
  match ← d.record? dialect ["analysis", "report"] 0 with
  | [replay, report] =>
    let replay ← optional {} (ReplayOptions.ofDocument? dialect) replay
    let report ← optional {} (ReportOptions.ofDocument? dialect) report
    some ⟨replay, report⟩
  | _ => none

/-! ### Machines -/

/-- A list whose items are all of one kind. -/
def listOf? {α : Type} (read : Document → Option α) (d : Document) : Option (List α) := do
  (← d.list?).mapM read

/-- The core that a document holds. -/
def CoreLayout.ofDocument? (dialect : Dialect) (d : Document) : Option CoreLayout := do
  match ← d.record? dialect ["id", "multi_cpu", "cpus"] 3 with
  | [id, multiCpu, cpus] =>
    let id ← required Document.word? id
    let multiCpu ← optional false Document.bool? multiCpu
    let cpus ← required (listOf? Document.word?) cpus
    some ⟨id, multiCpu, cpus⟩
  | _ => none

/-- The cluster that a document holds. -/
def ClusterLayout.ofDocument? (dialect : Dialect) (d : Document) : Option ClusterLayout := do
  match ← d.record? dialect ["id", "cores"] 2 with
  | [id, cores] =>
    let id ← required Document.word? id
    let cores ← required (listOf? (CoreLayout.ofDocument? dialect)) cores
    some ⟨id, cores⟩
  | _ => none

/-- The layout that a document holds. -/
def Layout.ofDocument? (dialect : Dialect) (d : Document) : Option Layout := do
  match ← d.record? dialect ["clusters"] 1 with
  | [clusters] => (required (listOf? (ClusterLayout.ofDocument? dialect)) clusters).map Layout.mk
  | _ => none

/-- The state that a document describes. -/
def StateDescriptor.ofDocument? (dialect : Dialect) (d : Document) : Option StateDescriptor := do
  match ← d.record? dialect ["cpu", "depth", "name", "target_residency"] 4 with
  | [cpu, depth, name, target] =>
    let cpu ← required Document.word? cpu
    let depth ← required Document.word64? depth
    let name ← required Document.text? name
    let target ← optional none (Document.nullable? Document.word?) target
    some ⟨cpu, depth, name, target⟩
  | _ => none

/-- The description of a machine that a document holds. -/
def Description.ofDocument? (dialect : Dialect) (d : Document) : Option Description := do
  match ← d.record? dialect ["layout", "states"] 2 with
  | [layout, states] =>
    let layout ← required (Layout.ofDocument? dialect) layout
    let states ← required (listOf? (StateDescriptor.ofDocument? dialect)) states
    some ⟨layout, states⟩
  | _ => none

end PowerTrace
