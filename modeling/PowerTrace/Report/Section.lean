import PowerTrace.Report.Row

/-!
# The sections of a report

A table has one section for every group with rows to show: each cluster, then each of its cores
that holds several CPUs, followed by the CPUs of the core.  A group is paired with the group of the
baseline that has the same number.

* `Topology.groups`: all groups in the order of a report;
* `cstateSections`, `pstateSections`, `wakeupSections`: the sections of the three tables.
-/

namespace PowerTrace

/-- The level of a group. -/
inductive GroupLevel where
  /-- A cluster. -/
  | cluster
  /-- A core. -/
  | core
  /-- A CPU. -/
  | cpu
  deriving DecidableEq, Repr

/-- The statistics that every group has. -/
structure Tracks (τ : Type) where
  /-- Idle states. -/
  cstates : CStateTrack τ
  /-- Frequencies. -/
  pstates : PStateTrack τ
  deriving Repr

/-- A group and its counterpart in the baseline. -/
structure Group (τ : Type) where
  /-- Its level. -/
  level : GroupLevel
  /-- Its label. -/
  label : String
  /-- Its statistics. -/
  tracks : Tracks τ
  /-- The statistics of its counterpart. -/
  baseline : Option (Tracks τ)
  deriving Repr

/-- What a table shows of one group. -/
structure Section (ρ : Type) where
  /-- The level of the group. -/
  level : GroupLevel
  /-- The label of the group. -/
  label : String
  /-- Its rows. -/
  rows : List ρ
  deriving Repr

variable {τ ρ : Type}

/-- The statistics of a CPU. -/
def Cpu.tracks (c : Cpu τ) : Tracks τ := ⟨c.cstates, c.pstates⟩

/-- The statistics of a core. -/
def Core.tracks (k : Core τ) : Tracks τ := ⟨k.cstates, k.pstates⟩

/-- The statistics of a cluster. -/
def Cluster.tracks (c : Cluster τ) : Tracks τ := ⟨c.cstates, c.pstates⟩

/-- The core with a given number. -/
def Cluster.core? (c : Cluster τ) (id : CpuId) : Option (Core τ) := c.cores.find? (·.id == id)

/-- The cluster with a given number. -/
def Topology.cluster? (t : Topology τ) (id : CpuId) : Option (Cluster τ) :=
  t.clusters.find? (·.id == id)

/-- A CPU as a group. -/
def Cpu.group (baseline : Option (Topology τ)) (c : Cpu τ) : Group τ where
  level := .cpu
  label := c.label
  tracks := c.tracks
  baseline := (baseline.bind (·.cpu? c.id)).map (·.tracks)

/-- A core as a group, inside a cluster that has the given counterpart. -/
def Core.group (counterpart : Option (Cluster τ)) (k : Core τ) : Group τ where
  level := .core
  label := k.label
  tracks := k.tracks
  baseline := (counterpart.bind (·.core? k.id)).map (·.tracks)

/-- A cluster as a group. -/
def Cluster.group (counterpart : Option (Cluster τ)) (c : Cluster τ) : Group τ where
  level := .cluster
  label := c.label
  tracks := c.tracks
  baseline := counterpart.map (·.tracks)

/-- A core, if it holds several CPUs, and its CPUs. -/
def Core.groups (baseline : Option (Topology τ)) (counterpart : Option (Cluster τ)) (k : Core τ) :
    List (Group τ) :=
  (if k.multiCpu then [k.group counterpart] else []) ++ k.cpus.map (·.group baseline)

/-- A cluster and all that it holds. -/
def Cluster.groups (baseline : Option (Topology τ)) (c : Cluster τ) : List (Group τ) :=
  let counterpart := baseline.bind (·.cluster? c.id)
  c.group counterpart :: c.cores.flatMap (·.groups baseline counterpart)

/-- All groups of a machine. -/
def Topology.groups (t : Topology τ) (baseline : Option (Topology τ)) : List (Group τ) :=
  t.clusters.flatMap (·.groups baseline)

/-- The sections of a table that shows given rows of each group. -/
def sectionsOf (rows : Group τ → List ρ) (groups : List (Group τ)) : List (Section ρ) :=
  (groups.map fun g => { level := g.level, label := g.label, rows := rows g }).filter
    (!·.rows.isEmpty)

/-- The rows of the idle states of a group. -/
def Group.cstateRows (g : Group τ) : List (CStateRow τ) :=
  PowerTrace.cstateRows g.tracks.cstates (g.baseline.map (·.cstates))

/-- The rows of the frequencies of a group. -/
def Group.pstateRows (g : Group τ) : List (PStateRow τ) :=
  PowerTrace.pstateRows g.tracks.pstates (g.baseline.map (·.pstates))

/-- The sections of the table of idle states. -/
def cstateSections (t : Topology τ) (baseline : Option (Topology τ)) :
    List (Section (CStateRow τ)) :=
  sectionsOf Group.cstateRows (t.groups baseline)

/-- The sections of the table of frequencies. -/
def pstateSections (t : Topology τ) (baseline : Option (Topology τ)) :
    List (Section (PStateRow τ)) :=
  sectionsOf Group.pstateRows (t.groups baseline)

/-- The sections of the table of wake-up sources; only CPUs have any. -/
def wakeupSections (t : Topology τ) : List (Section WakeupSource) :=
  (t.cpus.map fun c => { level := .cpu, label := c.label, rows := c.wakeups.sources }).filter
    (!·.rows.isEmpty)

end PowerTrace
