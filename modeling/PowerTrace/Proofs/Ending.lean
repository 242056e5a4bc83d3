import PowerTrace.Proofs.RetainedTotals

/-!
# What ending a replay changes

Ending a replay closes every interval that is still open, at the instant it was opened, by the same
transition that closes intervals during the replay.  That transition counts whatever has a duration;
here it must count nothing, on any node.

* `CStateTrack.stopped` and its companions: a machine whose nodes all run, and which is otherwise as
  it was;
* `CStateTrack.abandon_eq_stopped`: an interval that is empty when closed where it began leaves no
  trace;
* `Topology.abandon_eq_stopped`: nor do all intervals of a machine, on its three levels;
* `Topology.since_run`: every open interval began at an event;
* `Replay.finish_stops`: hence what the end of a replay changes where all instants are finite.
-/

namespace PowerTrace

open TimeValue

variable {τ : Type}

/-! ### Nothing but the open intervals -/

/-- The track of an entity that runs.  If it did not before, no class is kept of its last interval. -/
def CStateTrack.stopped (t : CStateTrack τ) : CStateTrack τ :=
  { t with current := none, lastClass := if t.isIdle then .asExpected else t.lastClass }

/-- The CPU, running. -/
def Cpu.stopped (c : Cpu τ) : Cpu τ := { c with cstates := c.cstates.stopped }

/-- The core and its CPUs, running. -/
def Core.stopped (k : Core τ) : Core τ :=
  { k with cstates := k.cstates.stopped, cpus := k.cpus.map (·.stopped) }

/-- The cluster and its cores, running. -/
def Cluster.stopped (c : Cluster τ) : Cluster τ :=
  { c with cstates := c.cstates.stopped, cores := c.cores.map (·.stopped) }

/-- The machine, running everywhere. -/
def Topology.stopped (t : Topology τ) : Topology τ := ⟨t.clusters.map (·.stopped)⟩

variable [TimeValue τ]

/-! ### Giving up an interval -/

/-- The open interval, if there is one, is empty when it is closed where it began. -/
def CStateTrack.IsEmptyAtStart (t : CStateTrack τ) : Prop :=
  t.isIdle = true → le (span t.since t.since) zero = true

/-- **An interval that is given up leaves no trace** if it is empty where it began. -/
theorem CStateTrack.abandon_eq_stopped {t : CStateTrack τ} (h : t.IsEmptyAtStart) :
    t.abandon.1 = t.stopped := by
  cases hc : t.current with
  | none =>
    have hrun : t.isIdle = false := by rw [isIdle, hc]; rfl
    rw [abandon, closeOpen_of_none hc, stopped, hrun, ← hc]
    rfl
  | some d =>
    have hidle : t.isIdle = true := by rw [isIdle, hc]; rfl
    rw [abandon, closeOpen_of_some hc, close, if_pos (h hidle), stopped, hidle]
    rfl

theorem Cpu.abandon_eq_stopped {c : Cpu τ} (h : c.cstates.IsEmptyAtStart) :
    c.abandon = c.stopped := by
  rw [abandon, CStateTrack.abandon_eq_stopped h, stopped]

theorem Core.abandon_eq_stopped {k : Core τ}
    (h : ∀ m ∈ k.entities, m.tracks.cstates.IsEmptyAtStart) : k.abandon = k.stopped := by
  have hself : k.cstates.IsEmptyAtStart := h (.core k) List.mem_cons_self
  have hcpus : ∀ c ∈ k.cpus, c.abandon = c.stopped := fun c hc =>
    Cpu.abandon_eq_stopped (h (.cpu c) (List.mem_cons_of_mem _ (List.mem_map_of_mem hc)))
  rw [abandon, CStateTrack.abandon_eq_stopped hself, List.map_congr_left hcpus, stopped]

theorem Cluster.abandon_eq_stopped {c : Cluster τ}
    (h : ∀ m ∈ c.entities, m.tracks.cstates.IsEmptyAtStart) : c.abandon = c.stopped := by
  have hself : c.cstates.IsEmptyAtStart := h (.cluster c) List.mem_cons_self
  have hcores : ∀ k ∈ c.cores, k.abandon = k.stopped := fun k hk =>
    Core.abandon_eq_stopped fun m hm =>
      h m (List.mem_cons_of_mem _ (List.mem_flatMap.mpr ⟨k, hk, hm⟩))
  rw [abandon, CStateTrack.abandon_eq_stopped hself, List.map_congr_left hcores, stopped]

/-- **No level of a machine keeps a trace of the intervals that are given up.** -/
theorem Topology.abandon_eq_stopped {t : Topology τ}
    (h : ∀ m ∈ t.entities, m.tracks.cstates.IsEmptyAtStart) : t.abandon = t.stopped := by
  have hclusters : ∀ c ∈ t.clusters, c.abandon = c.stopped := fun c hc =>
    Cluster.abandon_eq_stopped fun m hm => h m (List.mem_flatMap.mpr ⟨c, hc, hm⟩)
  rw [abandon, List.map_congr_left hclusters, stopped]

/-- What a node keeps when the intervals on it and below it are given up. -/
theorem Entity.abandon_keeps {m : Entity τ} (h : m.tracks.cstates.IsEmptyAtStart) :
    m.abandon.tracks.cstates = m.tracks.cstates.stopped ∧
      m.abandon.tracks.pstates = m.tracks.pstates ∧
      m.abandon.members.map (·.wakeups) = m.members.map (·.wakeups) := by
  refine ⟨?_, m.pstates_abandon, ?_⟩
  · rw [cstates_abandon, CStateTrack.abandon_eq_stopped h]
  · rw [members_abandon, List.map_map]
    rfl

/-! ### Where intervals begin -/

/-- What is said of the instants of all events is said of the start of every open interval. -/
theorem Topology.since_run {d : Description} {t : Topology τ} (h : Topology.build d = .ok t)
    (x : Extremum) {P : τ → Prop} {es : List (Event τ)} (hes : ∀ e ∈ es, P e.time) :
    ∀ m ∈ (t.run x es).entities, m.tracks.cstates.isIdle = true → P m.tracks.cstates.since := by
  intro m hm hidle
  rw [Topology.entities_run] at hm
  obtain ⟨m₀, hm₀, rfl⟩ := List.mem_map.mp hm
  have hrecounts := (Entity.recounts_run (settled_of_build h x m₀ hm₀) (t.fresh_of_build h m₀ hm₀)
    t.cpuIds es).1
  have hmoved : (m₀.idling x t.cpuIds es).Moved P :=
    m₀.moved_itinerary Entity.depth x t.cpuIds (Itinerary.moved_nowhere P) hes
  obtain ⟨d, hd⟩ := Option.isSome_iff_exists.mp hidle
  rw [← hrecounts.since d hd]
  exact hmoved.since (by rw [hrecounts.here]; exact hidle)

/-! ### Every replay -/

/-- **Ending a replay closes what is open and changes nothing else.**  Whatever the machine, the options
and the events, if all their instants are finite: afterwards every CPU, core and cluster runs; the
tracks that were idle keep no class of their last interval; and all else is as it was, that is the
description, the statistics and the counts by class of every depth, the deepest depth, the frequencies
and the wake-up sources of every node, the summary and the intervals that are kept. -/
theorem Replay.finish_stops {d : Description} {t : Topology Float} (h : Topology.build d = .ok t)
    (o : ReplayOptions) {es : List (Event Float)} (hfinite : ∀ e ∈ es, e.time.isFinite = true) :
    ∃ r₀ r : Replay Float, start d o = .ok r₀ ∧ r₀.processAll es = .ok r ∧
      r.finish = { topology := r.topology.stopped, summary := r.summary, baseline := none,
                   retained := r.retained } ∧
      r.finish.topology.entities.length = r.topology.entities.length ∧
      ∀ (n : ℕ) (m : Entity Float), r.topology.entities[n]? = some m →
        ∃ m', r.finish.topology.entities[n]? = some m' ∧
          m'.tracks.cstates.current = none ∧
          (∀ depth, m'.tracks.cstates.slot depth = m.tracks.cstates.slot depth) ∧
          m'.tracks.cstates.highest = m.tracks.cstates.highest ∧
          m'.tracks.pstates = m.tracks.pstates ∧
          m'.members.map (·.wakeups) = m.members.map (·.wakeups) := by
  obtain ⟨r₀, r, h₀, hr, -, htop⟩ := exists_run h o es
  have hempty : ∀ m ∈ r.topology.entities, m.tracks.cstates.IsEmptyAtStart := by
    intro m hm hidle
    rw [htop] at hm
    have hsince := Topology.since_run h o.compositeFrequency (P := fun a => a.isFinite = true) hfinite
      m hm hidle
    exact FloatOrder.le_span_zero hsince hsince rfl
  have hfinish : r.finish.topology = r.topology.abandon := rfl
  refine ⟨r₀, r, h₀, hr, ?_, ?_, ?_⟩
  · rw [finish, Topology.abandon_eq_stopped hempty]
  · rw [hfinish, Topology.entities_abandon, List.length_map]
  intro n m hm
  obtain ⟨hcstates, hpstates, hwakeups⟩ :=
    Entity.abandon_keeps (hempty m (List.mem_of_getElem? hm))
  refine ⟨m.abandon, ?_, ?_, ?_, ?_, hpstates, hwakeups⟩
  · rw [hfinish, Topology.entities_abandon, List.getElem?_map, hm, Option.map_some]
  · rw [hcstates]
    rfl
  · intro depth
    rw [hcstates]
    rfl
  · rw [hcstates]
    rfl

/-- Both CPUs of a core are idle at the end, one of them for the second time. -/
def Event.endsIdle : List (Event Float) :=
  [⟨1, 0, .idleEnter 1⟩, ⟨2, 0, .idleExit⟩, ⟨2, 0, .wakeup (some 4) "timer"⟩, ⟨2.5, 0, .idleEnter 0⟩,
    ⟨3, 1, .idleEnter 2⟩]

/-- The core and its cluster are idle as well, until the replay ends. -/
theorem Replay.finish_stops_allIdle :
    ∃ (r₀ r : Replay Float) (m' : Entity Float),
      start .sharedCore { retainIntervals := true } = .ok r₀ ∧
      r₀.processAll Event.endsIdle = .ok r ∧
      (∀ m ∈ r.topology.entities, m.tracks.cstates.isIdle = true) ∧
      r.finish.topology = r.topology.stopped ∧ r.finish.topology.entities[0]? = some m' ∧
      m'.tracks.cstates.current = none := by
  have hfinite : ∀ e ∈ Event.endsIdle, e.time.isFinite = true := by decide +kernel
  obtain ⟨r₀, r, h₀, hr, hfinish, -, hall⟩ :=
    Replay.finish_stops (d := .sharedCore) rfl { retainIntervals := true } hfinite
  cases h₀
  cases hr
  obtain ⟨m', hm', hcurrent, -⟩ := hall 0 _ rfl
  exact ⟨_, _, m', rfl, rfl, by decide +kernel, congrArg Analysis.topology hfinish, hm', hcurrent⟩

end PowerTrace
