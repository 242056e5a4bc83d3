import PowerTrace.Analysis
import PowerTrace.Proofs.Retention

/-!
# What happens elsewhere

The statistics of a node depend on the events of its own CPUs and on nothing else.  Two traces that
agree on these events, in their order, leave the node in the same state, whatever happens on other
CPUs and however the events are interleaved.

* `Entity.run`, `Topology.entities_run`: a run acts on every node by itself;
* `Cpu.run`, `Topology.cpus_run`: so it does on every CPU;
* `Entity.run_filter`: events on other CPUs do not matter to a node;
* `Replay.statistics_local`: hence two runs that agree on the events of a node agree on the node, and
  on what is kept of its idle intervals if it is a CPU.
-/

namespace PowerTrace

variable {τ : Type} [TimeValue τ]

/-! ### One node during a run -/

/-- What the events of a list do to a node of a machine with the given CPUs, first to last. -/
def Entity.run (x : Extremum) (ids : List CpuId) (m : Entity τ) (es : List (Event τ)) : Entity τ :=
  es.foldl (·.step x ids) m

/-- **A run acts on every node by itself.** -/
theorem Topology.entities_run (x : Extremum) (t : Topology τ) (es : List (Event τ)) :
    (t.run x es).entities = t.entities.map (·.run x t.cpuIds es) := by
  induction es generalizing t with
  | nil => exact (List.map_id _).symm
  | cons e es ih =>
    rw [run_cons, ih, cpuIds_step, entities_step, List.map_map]
    rfl

/-- What an event does to a CPU of a machine with the given CPUs. -/
def Cpu.step (ids : List CpuId) (c : Cpu τ) (e : Event τ) : Cpu τ :=
  match e.action? ids with
  | some a => if c.id = e.cpu then c.apply e.time a else c
  | none => c

/-- What the events of a list do to a CPU, first to last. -/
def Cpu.run (ids : List CpuId) (c : Cpu τ) (es : List (Event τ)) : Cpu τ := es.foldl (·.step ids) c

@[simp] theorem Cpu.id_step (ids : List CpuId) (c : Cpu τ) (e : Event τ) :
    (c.step ids e).id = c.id := by
  unfold Cpu.step
  split
  · split
    · exact c.id_apply _ _
    · rfl
  · rfl

@[simp] theorem Cpu.id_run (ids : List CpuId) (c : Cpu τ) (es : List (Event τ)) :
    (c.run ids es).id = c.id := by
  induction es generalizing c with
  | nil => rfl
  | cons e es ih => exact (ih _).trans (c.id_step ids e)

theorem Entity.step_cpu (x : Extremum) (ids : List CpuId) (c : Cpu τ) (e : Event τ) :
    (cpu c).step x ids e = cpu (c.step ids e) := by
  unfold Entity.step Cpu.step
  cases e.action? ids with
  | none => rfl
  | some a => rfl

theorem Entity.run_cpu (x : Extremum) (ids : List CpuId) (c : Cpu τ) (es : List (Event τ)) :
    (cpu c).run x ids es = cpu (c.run ids es) := by
  induction es generalizing c with
  | nil => rfl
  | cons e es ih =>
    show ((cpu c).step x ids e).run x ids es = _
    rw [step_cpu, ih]
    rfl

theorem Topology.cpus_step (x : Extremum) (t : Topology τ) (e : Event τ) :
    (t.step x e).cpus = t.cpus.map (·.step t.cpuIds e) := by
  unfold Topology.step Cpu.step
  cases e.action? t.cpuIds with
  | none => exact (List.map_id _).symm
  | some a => exact t.cpus_apply x e.cpu e.time a

/-- So it does on every CPU. -/
theorem Topology.cpus_run (x : Extremum) (t : Topology τ) (es : List (Event τ)) :
    (t.run x es).cpus = t.cpus.map (·.run t.cpuIds es) := by
  induction es generalizing t with
  | nil => exact (List.map_id _).symm
  | cons e es ih =>
    rw [run_cons, ih, cpuIds_step, cpus_step, List.map_map]
    rfl

@[simp] theorem Entity.owns_step (x : Extremum) (ids : List CpuId) (m : Entity τ) (e : Event τ)
    (id : CpuId) : (m.step x ids e).owns id = m.owns id := by
  unfold Entity.step
  split
  · exact m.owns_apply x e.cpu e.time _ id
  · rfl

/-- Events on CPUs that are not members of a node do not matter to it. -/
theorem Entity.run_filter (x : Extremum) (ids : List CpuId) (m : Entity τ) (es : List (Event τ)) :
    m.run x ids (es.filter fun e => m.owns e.cpu) = m.run x ids es := by
  induction es generalizing m with
  | nil => rfl
  | cons e es ih =>
    show _ = (m.step x ids e).run x ids es
    cases ho : m.owns e.cpu with
    | true =>
      rw [← ih, List.filter_cons, if_pos ho]
      simp only [owns_step]
      rfl
    | false =>
      have hstay : m.step x ids e = m :=
        Entity.step_of_not_concerns x (by rw [Event.concerns, ho, Bool.and_false])
      rw [hstay, List.filter_cons, if_neg (by rw [ho]; exact Bool.false_ne_true), ih]

/-! ### One node at the end -/

/-- Close the open idle intervals of a node and of all below it. -/
def Entity.abandon : Entity τ → Entity τ
  | cpu c => cpu c.abandon
  | core k => core k.abandon
  | cluster c => cluster c.abandon

@[simp] theorem Entity.cstates_abandon (m : Entity τ) :
    m.abandon.tracks.cstates = m.tracks.cstates.abandon.1 := by
  cases m <;> rfl

@[simp] theorem Entity.pstates_abandon (m : Entity τ) :
    m.abandon.tracks.pstates = m.tracks.pstates := by
  cases m <;> rfl

@[simp] theorem Entity.isGroup_abandon (m : Entity τ) : m.abandon.isGroup = m.isGroup := by
  cases m <;> rfl

theorem Entity.members_abandon (m : Entity τ) : m.abandon.members = m.members.map (·.abandon) := by
  cases m with
  | cpu c => rfl
  | core k => rfl
  | cluster c =>
    exact c.cpus_abandon

theorem Topology.entities_abandon (t : Topology τ) :
    t.abandon.entities = t.entities.map (·.abandon) := by
  have hcore : ∀ k : Core τ, k.abandon.entities = k.entities.map (·.abandon) := by
    intro k
    rw [Core.entities, Core.abandon, List.map_map, Core.entities, List.map_cons, List.map_map]
    rfl
  have hcluster : ∀ c : Cluster τ, c.abandon.entities = c.entities.map (·.abandon) := by
    intro c
    rw [Cluster.entities, Cluster.abandon, List.flatMap_map, Cluster.entities, List.map_cons,
      List.map_flatMap]
    simp only [hcore]
    rfl
  rw [entities, Topology.abandon, List.flatMap_map, entities, List.map_flatMap]
  simp only [hcluster]

/-- What becomes of a node of a machine in a replay of it, and at the end of that. -/
theorem Replay.entities_of_run {t : Topology τ} {x : Extremum} {es : List (Event τ)} {r : Replay τ}
    (h : r.topology = t.run x es) {n : ℕ} {m : Entity τ} (hm : t.entities[n]? = some m) :
    r.topology.entities[n]? = some (m.run x t.cpuIds es) ∧
      r.finish.topology.entities[n]? = some (m.run x t.cpuIds es).abandon := by
  have hrun : r.topology.entities[n]? = some (m.run x t.cpuIds es) := by
    rw [h, Topology.entities_run, List.getElem?_map, hm, Option.map_some]
  refine ⟨hrun, ?_⟩
  show r.topology.abandon.entities[n]? = _
  rw [Topology.entities_abandon, List.getElem?_map, hrun, Option.map_some]

/-! ### Two runs -/

omit [TimeValue τ] in
/-- Runs that agree on the events of a CPU end the same idle periods on it. -/
theorem closedPeriods_congr {ids : List CpuId} {c : Cpu τ} {es₁ es₂ : List (Event τ)}
    (h : (es₁.filter fun e => (Entity.cpu c).owns e.cpu) =
      es₂.filter fun e => (Entity.cpu c).owns e.cpu) :
    closedPeriods ids c.id none es₁ = closedPeriods ids c.id none es₂ := by
  have howns : ∀ e : Event τ, (Entity.cpu c).owns e.cpu = (e.cpu == c.id) := by
    intro e
    rw [Entity.owns, Entity.members, List.any_cons, List.any_nil, Bool.or_false]
    exact BEq.comm
  simp only [howns] at h
  rw [← closedPeriods_filter, h, closedPeriods_filter]

namespace Replay

/-- **The statistics of a node are its own.**  Whatever the machine and the options, two traces that
hold the same events on the members of a node, a CPU, a core or a cluster, leave the node the same,
during the replay and in the analysis: all its tracks, for a CPU its wake-up sources too.  For a CPU
they also leave the same idle intervals at every depth. -/
theorem statistics_local {d : Description} {t : Topology τ} (h : Topology.build d = .ok t)
    (o : ReplayOptions) (es₁ es₂ : List (Event τ)) :
    ∃ r₀ r₁ r₂ : Replay τ, start d o = .ok r₀ ∧
      r₀.processAll es₁ = .ok r₁ ∧ analyze d es₁ o = .ok r₁.finish ∧
      r₀.processAll es₂ = .ok r₂ ∧ analyze d es₂ o = .ok r₂.finish ∧
      ∀ (n : Nat) (m₀ : Entity τ), r₀.topology.entities[n]? = some m₀ →
        (es₁.filter fun e => m₀.owns e.cpu) = (es₂.filter fun e => m₀.owns e.cpu) →
        ∃ m : Entity τ,
          r₁.topology.entities[n]? = some m ∧ r₁.finish.topology.entities[n]? = some m.abandon ∧
          r₂.topology.entities[n]? = some m ∧ r₂.finish.topology.entities[n]? = some m.abandon ∧
          ∀ c, m₀ = .cpu c → ∀ depth, r₁.intervals? c.id depth = r₂.intervals? c.id depth := by
  obtain ⟨r₀, r₁, h₀, hr₁, ht₀, ht₁⟩ := exists_run h o es₁
  obtain ⟨r₀', r₂, h₀', hr₂, -, ht₂⟩ := exists_run h o es₂
  obtain rfl : r₀ = r₀' := Except.ok.inj (h₀.symm.trans h₀')
  refine ⟨r₀, r₁, r₂, h₀, hr₁, analyze_of_run h₀ hr₁, hr₂, analyze_of_run h₀ hr₂, ?_⟩
  intro n m₀ hm₀ hsame
  rw [ht₀] at hm₀
  have hnode : ∀ {es : List (Event τ)} {r : Replay τ},
      r.topology = t.run o.compositeFrequency es →
        r.topology.entities[n]? = some (m₀.run o.compositeFrequency t.cpuIds es) ∧
        r.finish.topology.entities[n]? =
          some (m₀.run o.compositeFrequency t.cpuIds es).abandon := by
    intro es r hr
    have hrun : r.topology.entities[n]? = some (m₀.run o.compositeFrequency t.cpuIds es) := by
      rw [hr, Topology.entities_run, List.getElem?_map, hm₀]
      rfl
    refine ⟨hrun, ?_⟩
    show r.topology.abandon.entities[n]? = _
    rw [Topology.entities_abandon, List.getElem?_map, hrun]
    rfl
  have heq : m₀.run o.compositeFrequency t.cpuIds es₂ = m₀.run o.compositeFrequency t.cpuIds es₁ := by
    rw [← Entity.run_filter, ← hsame, Entity.run_filter]
  obtain ⟨hnode₁, hend₁⟩ := hnode ht₁
  obtain ⟨hnode₂, hend₂⟩ := hnode ht₂
  rw [heq] at hnode₂ hend₂
  refine ⟨_, hnode₁, hend₁, hnode₂, hend₂, ?_⟩
  rintro c rfl depth
  have hview : ∀ {es : List (Event τ)} {r : Replay τ}, r₀.processAll es = .ok r →
      r.intervals? c.id depth = if o.retainIntervals = true then
        (closedPeriods d.layout.cpuIds c.id none es).foldl (keepPeriod depth) none else none := by
    intro es r hr
    obtain ⟨r₀', r', h₀', hr', -, -, hview⟩ := intervals?_of_run h o es
    obtain rfl : r₀ = r₀' := Except.ok.inj (h₀.symm.trans h₀')
    obtain rfl : r = r' := Except.ok.inj (hr.symm.trans hr')
    exact hview c.id depth
  rw [hview hr₁, hview hr₂, closedPeriods_congr hsame]

/-- The second CPU of a core goes idle and is woken, once while the first CPU goes idle in between
and once while that one changes its frequency before. -/
theorem statistics_local_sharedCore :
    ∃ (r₀ r₁ r₂ : Replay Float) (m : Entity Float),
      start .sharedCore { retainIntervals := true } = .ok r₀ ∧
      r₀.processAll [⟨0.5, 1, .idleEnter 0⟩, ⟨0.6, 0, .idleEnter 1⟩, ⟨0.7, 1, .idleExit⟩,
        ⟨0.7, 1, .wakeup (some 4) "timer"⟩] = .ok r₁ ∧
      r₀.processAll [⟨0.1, 0, .freqChange 800⟩, ⟨0.5, 1, .idleEnter 0⟩, ⟨0.7, 1, .idleExit⟩,
        ⟨0.7, 1, .wakeup (some 4) "timer"⟩, ⟨0.9, 7, .idleExit⟩] = .ok r₂ ∧
      r₁.topology.entities[3]? = some m ∧ r₂.topology.entities[3]? = some m ∧
      r₁.intervals? 1 0 = r₂.intervals? 1 0 := by
  obtain ⟨r₀, r₁, r₂, h₀, h₁, -, h₂, -, hall⟩ := statistics_local (d := .sharedCore) rfl
    { retainIntervals := true }
    [⟨0.5, 1, .idleEnter 0⟩, ⟨0.6, 0, .idleEnter 1⟩, ⟨0.7, 1, .idleExit⟩,
      (⟨0.7, 1, .wakeup (some 4) "timer"⟩ : Event Float)]
    [⟨0.1, 0, .freqChange 800⟩, ⟨0.5, 1, .idleEnter 0⟩, ⟨0.7, 1, .idleExit⟩,
      ⟨0.7, 1, .wakeup (some 4) "timer"⟩, ⟨0.9, 7, .idleExit⟩]
  cases h₀
  have howns : ∀ id, (Entity.cpu (Description.sharedCore.cpu 1 : Cpu Float)).owns id = (1 == id) :=
    fun id => Bool.or_false _
  obtain ⟨m, hm₁, -, hm₂, -, hkept⟩ := hall 3 (.cpu (Description.sharedCore.cpu 1)) rfl
    (by simp [howns])
  exact ⟨_, r₁, r₂, m, rfl, h₁, h₂, hm₁, hm₂, hkept _ rfl 0⟩

end Replay

end PowerTrace
