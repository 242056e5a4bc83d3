import PowerTrace.Description
import PowerTrace.PState
import PowerTrace.Wakeup

/-!
# The populated machine

The tree of clusters, cores and CPUs with the statistics of each.  CPUs are fed by events; cores
and clusters by the composite state of their members.

* `Topology.build`: the tree of a description, all statistics empty;
* `Topology.locate`: where in the tree a CPU sits;
* `Topology.cpu?`, `coreOf?`, `clusterOf?`: a CPU and its owners.
-/

namespace PowerTrace

/-- A CPU and its statistics. -/
structure Cpu (τ : Type) where
  /-- CPU number. -/
  id : CpuId
  /-- Its idle states. -/
  cstates : CStateTrack τ
  /-- Its frequencies. -/
  pstates : PStateTrack τ
  /-- What woke it. -/
  wakeups : WakeupTable
  deriving Repr

/-- A core, its CPUs and its composite statistics. -/
structure Core (τ : Type) where
  /-- Core number. -/
  id : CpuId
  /-- Whether it holds, or is declared to hold, several CPUs. -/
  multiCpu : Bool
  /-- Its CPUs. -/
  cpus : List (Cpu τ)
  /-- Its composite idle states. -/
  cstates : CStateTrack τ
  /-- Its composite frequencies. -/
  pstates : PStateTrack τ
  deriving Repr

/-- A cluster, its cores and its composite statistics. -/
structure Cluster (τ : Type) where
  /-- Cluster number. -/
  id : CpuId
  /-- Its cores. -/
  cores : List (Core τ)
  /-- Its composite idle states. -/
  cstates : CStateTrack τ
  /-- Its composite frequencies. -/
  pstates : PStateTrack τ
  deriving Repr

/-- A machine and its statistics. -/
structure Topology (τ : Type) where
  /-- Its clusters. -/
  clusters : List (Cluster τ)
  deriving Repr

/-- Where in the tree a CPU sits: the positions of its cluster, of its core in the cluster and of
itself in the core. -/
structure CpuPath where
  /-- Position of the cluster. -/
  cluster : Nat
  /-- Position of the core. -/
  core : Nat
  /-- Position of the CPU. -/
  cpu : Nat
  deriving DecidableEq, Repr

variable {τ : Type}

/-! ### Labels and members -/

/-- `cpu3`. -/
def Cpu.label (c : Cpu τ) : String := "cpu" ++ toString c.id.toNat

/-- Whether the CPU is idle. -/
def Cpu.isIdle (c : Cpu τ) : Bool := c.cstates.isIdle

/-- `core0`. -/
def Core.label (k : Core τ) : String := "core" ++ toString k.id.toNat

/-- Whether a CPU is a member of the core. -/
def Core.owns (k : Core τ) (cpu : CpuId) : Bool := k.cpus.any (·.id == cpu)

/-- The letter that stands for a cluster number below 26. -/
def clusterLetter? (id : CpuId) : Option Char :=
  if id < 26 then some (Char.ofNat ('A'.toNat + id.toNat)) else none

/-- `clusterA` for the first 26 numbers, `cluster26` and so on above. -/
def Cluster.label (c : Cluster τ) : String :=
  "cluster" ++ match clusterLetter? c.id with
    | some letter => String.singleton letter
    | none => toString c.id.toNat

/-- The CPUs of the cluster, core by core. -/
def Cluster.cpus (c : Cluster τ) : List (Cpu τ) := c.cores.flatMap (·.cpus)

/-- Whether a CPU is a member of the cluster. -/
def Cluster.owns (c : Cluster τ) (cpu : CpuId) : Bool := c.cores.any (·.owns cpu)

namespace Topology

/-- All cores, cluster by cluster. -/
def cores (t : Topology τ) : List (Core τ) := t.clusters.flatMap (·.cores)

/-- All CPUs, cluster by cluster. -/
def cpus (t : Topology τ) : List (Cpu τ) := t.clusters.flatMap (·.cpus)

/-- How many CPUs the machine has. -/
def cpuCount (t : Topology τ) : Nat := t.cpus.length

/-- The CPU with a given number. -/
def cpu? (t : Topology τ) (id : CpuId) : Option (Cpu τ) := t.cpus.find? (·.id == id)

/-- The core that holds a CPU. -/
def coreOf? (t : Topology τ) (id : CpuId) : Option (Core τ) := t.cores.find? (·.owns id)

/-- The cluster that holds a CPU. -/
def clusterOf? (t : Topology τ) (id : CpuId) : Option (Cluster τ) := t.clusters.find? (·.owns id)

/-- Where a CPU sits, if it is part of the machine. -/
def path? (t : Topology τ) (id : CpuId) : Option CpuPath := do
  let i ← t.clusters.findIdx? (·.owns id)
  let cluster ← t.clusters[i]?
  let j ← cluster.cores.findIdx? (·.owns id)
  let core ← cluster.cores[j]?
  let k ← core.cpus.findIdx? (·.id == id)
  some ⟨i, j, k⟩

/-- Where a CPU sits, or an error that names the CPU. -/
def locate (t : Topology τ) (id : CpuId) : Except Error CpuPath :=
  match t.path? id with
  | some path => .ok path
  | none => .error (.unknownCpu id)

/-- The CPU at a place in the tree. -/
def cpuAt? (t : Topology τ) (p : CpuPath) : Option (Cpu τ) := do
  let cluster ← t.clusters[p.cluster]?
  let core ← cluster.cores[p.core]?
  core.cpus[p.cpu]?

end Topology

/-! ### Building the tree of a description -/

variable [TimeValue τ]

/-- A CPU with its idle states as described and no history. -/
def Description.cpu (d : Description) (id : CpuId) : Cpu τ where
  id := id
  cstates := .ofInfos (d.info? id)
  pstates := .empty
  wakeups := .empty

/-- The idle states of a group: those its first member describes, without their history. -/
def groupCStates (tracks : List (CStateTrack τ)) : CStateTrack τ :=
  match tracks with
  | [] => .ofInfos fun _ => none
  | first :: _ => .ofTemplate first

/-- A core with no history. -/
def Description.core (d : Description) (k : CoreLayout) : Core τ where
  id := k.id
  multiCpu := k.multiCpu || decide (1 < k.cpus.length)
  cpus := k.cpus.map d.cpu
  cstates := groupCStates ((k.cpus.map d.cpu).map (·.cstates))
  pstates := .empty

/-- A cluster with no history. -/
def Description.cluster (d : Description) (c : ClusterLayout) : Cluster τ where
  id := c.id
  cores := c.cores.map d.core
  cstates := groupCStates ((c.cores.map d.core).map (·.cstates))
  pstates := .empty

/-- The machine of a description with all statistics empty.  It fails on a cluster without cores, a
core without CPUs and a CPU that appears twice, whichever comes first. -/
def Topology.build (d : Description) : Except Error (Topology τ) :=
  match d.layout.fault? with
  | some fault => .error fault.error
  | none => .ok ⟨d.layout.clusters.map d.cluster⟩

end PowerTrace
