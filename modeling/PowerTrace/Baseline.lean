import PowerTrace.Topology

/-!
# Lining up two runs

Before a run is compared with a baseline, the frequency tables of both are lined up: each gets a
slot, with nothing recorded, for every frequency that only the other one has.

* `alignTracks`: two tables;
* `alignTopologies`: all tables of two machines.  Clusters are matched by number, cores by number
  inside matched clusters, CPUs by number anywhere; what is in one machine only is left alone.
-/

namespace PowerTrace

variable {τ : Type} [TimeValue τ]

/-- Give each of two tables the frequencies of the other. -/
def alignTracks (a b : PStateTrack τ) : PStateTrack τ × PStateTrack τ :=
  (a.cover b.freqs, b.cover a.freqs)

/-- Line up an item with the first partner that it matches, if there is one. -/
def alignFirst {α : Type} (matched : α → α → Bool) (align : α → α → α × α) (x : α) :
    List α → α × List α
  | [] => (x, [])
  | y :: ys =>
    if matched x y then ((align x y).1, (align x y).2 :: ys)
    else ((alignFirst matched align x ys).1, y :: (alignFirst matched align x ys).2)

/-- Line up the items of a list, first to last, each with the first partner that it matches. -/
def alignAll {α : Type} (matched : α → α → Bool) (align : α → α → α × α) :
    List α → List α → List α × List α
  | [], ys => ([], ys)
  | x :: xs, ys =>
    let (x, ys) := alignFirst matched align x ys
    let (xs, ys) := alignAll matched align xs ys
    (x :: xs, ys)

/-- Line up two cores. -/
def alignCores (a b : Core τ) : Core τ × Core τ :=
  ({ a with pstates := (alignTracks a.pstates b.pstates).1 },
    { b with pstates := (alignTracks a.pstates b.pstates).2 })

/-- Line up two clusters and their cores. -/
def alignClusters (a b : Cluster τ) : Cluster τ × Cluster τ :=
  let cores := alignAll (fun x y => x.id == y.id) alignCores a.cores b.cores
  ({ a with pstates := (alignTracks a.pstates b.pstates).1, cores := cores.1 },
    { b with pstates := (alignTracks a.pstates b.pstates).2, cores := cores.2 })

/-- Give a CPU the frequencies of the CPU with the same number in another machine. -/
def Cpu.alignWith (other : Topology τ) (c : Cpu τ) : Cpu τ :=
  match other.cpu? c.id with
  | some partner => { c with pstates := c.pstates.cover partner.pstates.freqs }
  | none => c

/-- Give every CPU of a machine the frequencies of the CPU with the same number in another. -/
def Topology.alignCpus (other t : Topology τ) : Topology τ :=
  ⟨t.clusters.map fun c =>
    { c with cores := c.cores.map fun k => { k with cpus := k.cpus.map (·.alignWith other) } }⟩

/-- Line up a machine with its baseline.  Both must have the same number of CPUs. -/
def alignTopologies (current baseline : Topology τ) : Except Error (Topology τ × Topology τ) :=
  if current.cpuCount = baseline.cpuCount then
    let clusters :=
      alignAll (fun x y => x.id == y.id) alignClusters current.clusters baseline.clusters
    .ok (Topology.alignCpus baseline ⟨clusters.1⟩, Topology.alignCpus current ⟨clusters.2⟩)
  else
    .error (.inconsistentBaseline ("baseline has " ++ toString baseline.cpuCount ++
      " cpus, current run has " ++ toString current.cpuCount))

end PowerTrace
