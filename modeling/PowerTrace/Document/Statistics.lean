import PowerTrace.Analysis
import PowerTrace.Document.Json

/-!
# Statistics as a document

The populated machine with every statistic, for other programs to read.
-/

namespace PowerTrace

/-- A count. -/
def Document.ofNat (n : Nat) : Document := .int n

/-- A value, or null without one. -/
def Document.ofOption {α : Type} (f : α → Document) : Option α → Document
  | some a => f a
  | none => .null

/-- The name of a class. -/
def IdleClass.name : IdleClass → String
  | asExpected => "AsExpected"
  | tooShort => "TooShort"
  | tooLong => "TooLong"

/-- Statistics as a document. -/
def DurationStats.document (s : DurationStats Float) : Document :=
  .table [("count", .ofNat s.count), ("min", .float s.min), ("max", .float s.max),
    ("avg", .float s.avg), ("total", .float s.total)]

/-- A depth as a document. -/
def CState.document (s : CState Float) : Document :=
  .table [("name", .ofOption .text s.name),
    ("target_residency", .ofOption (fun t => .ofNat t.toNat) s.target),
    ("stats", s.stats.document), ("early_wakeups", .ofNat s.early),
    ("late_wakeups", .ofNat s.late), ("as_expected", .ofNat s.asExpected)]

/-- The idle states of an entity as a document. -/
def CStateTrack.document (t : CStateTrack Float) : Document :=
  .table [("states", .list (t.slots.toList.map CState.document)),
    ("current", .ofOption (fun d => .ofNat d.val) t.current),
    ("highest", .ofOption (fun d => .ofNat d.val) t.highest),
    ("begin", .float t.since), ("last_residency", .text t.lastClass.name)]

/-- A frequency as a document. -/
def PState.document (p : PState Float) : Document :=
  .table [("freq", .ofNat p.freq), ("stats", p.stats.document)]

/-- The frequencies of an entity as a document. -/
def PStateTrack.document (t : PStateTrack Float) : Document :=
  .table [("states", .list (t.slots.map PState.document)), ("current", .ofOption .ofNat t.current),
    ("idle", .bool t.idle), ("dwell_start", .float t.dwellStart)]

/-- A wake-up source as a document. -/
def WakeupSource.document (s : WakeupSource) : Document :=
  .table [("id", .ofOption .int s.id), ("name", .text s.name), ("count", .ofNat s.count),
    ("early_triggers", .ofNat s.early), ("late_triggers", .ofNat s.late)]

/-- The wake-up sources of a CPU as a document. -/
def WakeupTable.document (t : WakeupTable) : Document :=
  .table [("irqs", .list (t.sources.map WakeupSource.document))]

/-- A CPU as a document. -/
def Cpu.document (c : Cpu Float) : Document :=
  .table [("id", .ofNat c.id.toNat), ("cstates", c.cstates.document),
    ("pstates", c.pstates.document), ("wakeups", c.wakeups.document)]

/-- A core as a document. -/
def Core.document (k : Core Float) : Document :=
  .table [("id", .ofNat k.id.toNat), ("multi_cpu", .bool k.multiCpu),
    ("cpus", .list (k.cpus.map Cpu.document)), ("cstates", k.cstates.document),
    ("pstates", k.pstates.document)]

/-- A cluster as a document. -/
def Cluster.document (c : Cluster Float) : Document :=
  .table [("id", .ofNat c.id.toNat), ("cores", .list (c.cores.map Core.document)),
    ("cstates", c.cstates.document), ("pstates", c.pstates.document)]

/-- A machine as a document. -/
def Topology.document (t : Topology Float) : Document :=
  .table [("clusters", .list (t.clusters.map Cluster.document))]

/-- The machine of an analysis as JSON text. -/
def Analysis.json (a : Analysis Float) : String := Json.text a.topology.document ++ "\n"

end PowerTrace
