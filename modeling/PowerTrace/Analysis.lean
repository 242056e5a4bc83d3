import PowerTrace.Baseline
import PowerTrace.Replay

/-!
# The analysis of a trace

A replay that is over.  Idle intervals still open at the end are closed with no length, so they
count nowhere.

* `Replay.finish`, `analyze`: from a replay, and from a whole trace, to its analysis;
* `Analysis.attachBaseline`: compare with another run;
* `Analysis.overlap`: how long CPUs were idle together.
-/

namespace PowerTrace

variable {τ : Type} [TimeValue τ]

/-- The statistics of a replay that is over. -/
structure Analysis (τ : Type) where
  /-- The machine. -/
  topology : Topology τ
  /-- What was seen. -/
  summary : Summary τ
  /-- The machine of another run to compare with. -/
  baseline : Option (Topology τ)
  /-- The idle intervals, if they were kept. -/
  retained : Option (RetainedIntervals τ)
  deriving Repr

/-- Close the open idle interval of a CPU. -/
def Cpu.abandon (c : Cpu τ) : Cpu τ := { c with cstates := c.cstates.abandon.1 }

/-- Close the open idle intervals of a core and its CPUs. -/
def Core.abandon (k : Core τ) : Core τ :=
  { k with cstates := k.cstates.abandon.1, cpus := k.cpus.map (·.abandon) }

/-- Close the open idle intervals of a cluster and its cores. -/
def Cluster.abandon (c : Cluster τ) : Cluster τ :=
  { c with cstates := c.cstates.abandon.1, cores := c.cores.map (·.abandon) }

/-- Close every open idle interval. -/
def Topology.abandon (t : Topology τ) : Topology τ := ⟨t.clusters.map (·.abandon)⟩

theorem Cluster.cpus_abandon (c : Cluster τ) : c.abandon.cpus = c.cpus.map (·.abandon) := by
  rw [cpus, abandon, List.flatMap_map, cpus, List.map_flatMap]
  rfl

theorem Topology.cpus_abandon (t : Topology τ) : t.abandon.cpus = t.cpus.map (·.abandon) := by
  rw [cpus, abandon, List.flatMap_map, cpus, List.map_flatMap]
  simp only [Cluster.cpus_abandon]

/-- What is remarked on a CPU at the end: the interval that is still open. -/
def Cpu.danglingMessages (c : Cpu τ) : List (Message τ) :=
  match c.cstates.abandon.2 with
  | some i => [.danglingInterval c.id i.depth i.start]
  | none => []

namespace Replay

/-- End a replay. -/
def finish (r : Replay τ) : Analysis τ where
  topology := r.topology.abandon
  summary := r.summary
  baseline := none
  retained := r.retained

/-- What is remarked at the end: by a replay that says everything, the intervals still open; and
the summary, unless it is quiet. -/
def finishMessages (r : Replay τ) : List (Message τ) :=
  (if r.options.verbosity.isVerbose then r.topology.cpus.flatMap (·.danglingMessages) else []) ++
    if r.options.verbosity.isAboveQuiet then
      [.replayed r.summary.duration r.summary.events]
    else []

/-- End a replay, with what is remarked at the end. -/
def finishLogged (r : Replay τ) : Logged τ (Analysis τ) := ⟨r.finishMessages, .ok r.finish⟩

end Replay

/-- Replay a whole trace. -/
def analyze (d : Description) (es : List (Event τ)) (o : ReplayOptions) :
    Except Error (Analysis τ) := do
  let r ← Replay.start d o
  let r ← r.processAll es
  .ok r.finish

/-- An analysis is what is left at the end of a replay. -/
theorem analyze_of_run {d : Description} {es : List (Event τ)} {o : ReplayOptions} {r₀ r : Replay τ}
    (h₀ : Replay.start d o = .ok r₀) (hr : r₀.processAll es = .ok r) : analyze d es o = .ok r.finish := by
  simp only [analyze, h₀, hr, bind, Except.bind]

/-- Replay a whole trace, with all that is remarked on the way. -/
def analyzeLogged (d : Description) (es : List (Event τ)) (o : ReplayOptions) :
    Logged τ (Analysis τ) := do
  let r ← Replay.startLogged d o
  let r ← es.foldlM Replay.processLogged r
  r.finishLogged

theorem Replay.result_processLogged (r : Replay τ) (es : List (Event τ)) :
    (es.foldlM processLogged r : Logged τ (Replay τ)).result = r.processAll es := by
  induction es generalizing r with
  | nil => rfl
  | cons e es ih =>
    rw [List.foldlM_cons, Logged.result_bind, processAll_cons]
    exact bind_congr fun r => ih r

/-- **An analysis is the same whether or not it is remarked on.** -/
theorem result_analyzeLogged (d : Description) (es : List (Event τ)) (o : ReplayOptions) :
    (analyzeLogged d es o).result = analyze d es o := by
  rw [analyzeLogged, Logged.result_bind]
  refine bind_congr fun r => ?_
  rw [Logged.result_bind, Replay.result_processLogged]
  rfl

namespace Analysis

/-- Line up the run with another one and keep that as its baseline. -/
def attachBaseline (a b : Analysis τ) : Except Error (Analysis τ) := do
  let (current, baseline) ← alignTopologies a.topology b.topology
  .ok { a with topology := current, baseline := some baseline }

/-- How long, in microseconds, all CPUs of a list were idle at a depth together; and the analysis
afterwards. -/
def overlap (a : Analysis τ) (cpus : List CpuId) (depth : Nat) : Except Error (τ × Analysis τ) :=
  match a.retained with
  | none => .error (.config "interval retention is disabled")
  | some kept => do
    let (total, kept) ← kept.overlap cpus depth
    .ok (total, { a with retained := some kept })

end Analysis

end PowerTrace
