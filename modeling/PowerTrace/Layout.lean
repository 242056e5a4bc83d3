import PowerTrace.Error

/-!
# The layout of a machine

Which CPUs share a core and which cores share a cluster, without any statistics.

* `Layout.ofPlacements`: a layout from one (cluster, core, CPU) triple per CPU, every level in
  ascending order;
* `Layout.flat`: one cluster with a core for each CPU;
* `Layout.fault?`: the first reason, in reading order, why a layout cannot be built.
-/

namespace PowerTrace

/-- Where one CPU sits. -/
structure Placement where
  /-- Cluster number. -/
  cluster : CpuId
  /-- Core number within the cluster. -/
  core : CpuId
  /-- CPU number. -/
  cpu : CpuId
  /-- Whether the core is declared to hold several CPUs. -/
  multiCpu : Bool
  deriving DecidableEq, Repr

/-- A core and its CPUs. -/
structure CoreLayout where
  /-- Core number. -/
  id : CpuId
  /-- Whether the core is declared to hold several CPUs. -/
  multiCpu : Bool
  /-- The CPUs of the core. -/
  cpus : List CpuId
  deriving DecidableEq, Repr

/-- A cluster and its cores. -/
structure ClusterLayout where
  /-- Cluster number. -/
  id : CpuId
  /-- The cores of the cluster. -/
  cores : List CoreLayout
  deriving DecidableEq, Repr

/-- A machine: its clusters. -/
structure Layout where
  /-- The clusters. -/
  clusters : List ClusterLayout
  deriving DecidableEq, Repr, Inhabited

/-! ### Layouts from placements -/

/-- Put a number into an ascending list, unless it is there. -/
def insertCpu (cpu : CpuId) : List CpuId → List CpuId
  | [] => [cpu]
  | c :: rest =>
    if cpu < c then cpu :: c :: rest
    else if cpu = c then c :: rest
    else c :: insertCpu cpu rest

/-- Put a CPU into the core with a given number, adding the core in order if it is new. -/
def insertCore (p : Placement) : List CoreLayout → List CoreLayout
  | [] => [⟨p.core, p.multiCpu, [p.cpu]⟩]
  | k :: rest =>
    if p.core < k.id then ⟨p.core, p.multiCpu, [p.cpu]⟩ :: k :: rest
    else if p.core = k.id then ⟨k.id, k.multiCpu || p.multiCpu, insertCpu p.cpu k.cpus⟩ :: rest
    else k :: insertCore p rest

/-- Put a CPU into the cluster with a given number, adding the cluster in order if it is new. -/
def insertCluster (p : Placement) : List ClusterLayout → List ClusterLayout
  | [] => [⟨p.cluster, insertCore p []⟩]
  | c :: rest =>
    if p.cluster < c.id then ⟨p.cluster, insertCore p []⟩ :: c :: rest
    else if p.cluster = c.id then ⟨c.id, insertCore p c.cores⟩ :: rest
    else c :: insertCluster p rest

/-- Why a layout cannot be built. -/
inductive LayoutFault where
  /-- A cluster has no cores. -/
  | emptyCluster (cluster : CpuId)
  /-- A core has no CPUs. -/
  | emptyCore (core cluster : CpuId)
  /-- A CPU appears a second time. -/
  | duplicateCpu (cpu : CpuId)
  deriving DecidableEq, Repr

/-- The fault in words. -/
def LayoutFault.text : LayoutFault → String
  | emptyCluster cluster => "cluster " ++ toString cluster.toNat ++ " has no cores"
  | emptyCore core cluster =>
    "core " ++ toString core.toNat ++ " of cluster " ++ toString cluster.toNat ++ " has no cpus"
  | duplicateCpu cpu => "duplicate cpu id " ++ toString cpu.toNat

/-- The fault as an error. -/
def LayoutFault.error (f : LayoutFault) : Error := .malformedTopology f.text

/-- What is met when a layout is read from front to back: a CPU, or a group without members. -/
inductive LayoutItem where
  /-- A CPU. -/
  | cpu (id : CpuId)
  /-- A cluster without cores. -/
  | emptyCluster (cluster : CpuId)
  /-- A core without CPUs. -/
  | emptyCore (core cluster : CpuId)
  deriving DecidableEq, Repr

/-- What is met when a core of a given cluster is read. -/
def CoreLayout.items (cluster : CpuId) (k : CoreLayout) : List LayoutItem :=
  if k.cpus.isEmpty then [.emptyCore k.id cluster] else k.cpus.map .cpu

/-- What is met when a cluster is read. -/
def ClusterLayout.items (c : ClusterLayout) : List LayoutItem :=
  if c.cores.isEmpty then [.emptyCluster c.id] else c.cores.flatMap (·.items c.id)

/-- The CPUs read before the first fault, and that fault.  A CPU is at fault when it is among those
seen already. -/
def readItems (seen : List CpuId) : List LayoutItem → List CpuId × Option LayoutFault
  | [] => ([], none)
  | .emptyCluster cluster :: _ => ([], some (.emptyCluster cluster))
  | .emptyCore core cluster :: _ => ([], some (.emptyCore core cluster))
  | .cpu id :: rest =>
    if id ∈ seen then ([], some (.duplicateCpu id))
    else (id :: (readItems (id :: seen) rest).1, (readItems (id :: seen) rest).2)

namespace Layout

/-- The machine with the given placements. -/
def ofPlacements (ps : List Placement) : Layout :=
  ⟨ps.foldl (fun clusters p => insertCluster p clusters) []⟩

/-- One cluster, with a core for each of `n` CPUs. -/
def flat (n : CpuId) : Layout :=
  ⟨[⟨0, (List.range n.toNat).map fun i => ⟨.ofNat i, false, [.ofNat i]⟩⟩]⟩

/-- The CPUs, in reading order. -/
def cpuIds (l : Layout) : List CpuId := l.clusters.flatMap fun c => c.cores.flatMap (·.cpus)

/-- How many CPUs the layout names. -/
def cpuCount (l : Layout) : Nat := l.cpuIds.length

/-- What is met when the layout is read from front to back. -/
def items (l : Layout) : List LayoutItem := l.clusters.flatMap (·.items)

/-- The first fault of the layout. -/
def fault? (l : Layout) : Option LayoutFault := (readItems [] l.items).2

/-- The CPUs that come before the first fault. -/
def soundCpus (l : Layout) : List CpuId := (readItems [] l.items).1

end Layout

end PowerTrace
