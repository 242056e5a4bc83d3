import PowerTrace.Analysis
import PowerTrace.Report.Section

/-!
# The nodes of a machine under a replay

A replay touches three kinds of node, CPUs, cores and clusters, and each of them only through the
CPUs below it.  This file says so once for all three kinds:

* `Entity`: a node of the tree, its member CPUs and its two tracks;
* `Topology.entities`: all nodes in reading order;
* `Topology.entities_apply`: an action on a CPU acts on every node by itself;
* `Entity.apply_of_not_owns`: a node without that CPU stays as it is;
* `Entity.members_apply`, `Entity.tracks_apply_of_isGroup`: what becomes of the other nodes;
* `Entity.apply_cases`: all that an action can do to a node.
-/

namespace PowerTrace

/-- A node of the tree. -/
inductive Entity (τ : Type) where
  /-- A CPU. -/
  | cpu (c : Cpu τ)
  /-- A core. -/
  | core (k : Core τ)
  /-- A cluster. -/
  | cluster (c : Cluster τ)

variable {τ : Type}

namespace Entity

/-- The CPUs below a node; a CPU is its own only member. -/
def members : Entity τ → List (Cpu τ)
  | cpu c => [c]
  | core k => k.cpus
  | cluster c => c.cpus

/-- The statistics of a node. -/
def tracks : Entity τ → Tracks τ
  | cpu c => c.tracks
  | core k => k.tracks
  | cluster c => c.tracks

/-- Whether a CPU is a member of a node. -/
def owns (e : Entity τ) (id : CpuId) : Bool := e.members.any (·.id == id)

/-- What an action on one CPU does to a node. -/
def apply [TimeValue τ] (x : Extremum) (id : CpuId) (time : τ) (action : Action) :
    Entity τ → Entity τ
  | cpu c => cpu (if c.id = id then c.apply time action else c)
  | core k => core (k.apply x id time action)
  | cluster c => cluster (c.apply x id time action)

end Entity

/-- A core, followed by its CPUs. -/
def Core.entities (k : Core τ) : List (Entity τ) := .core k :: k.cpus.map .cpu

/-- A cluster, followed by all that it holds. -/
def Cluster.entities (c : Cluster τ) : List (Entity τ) :=
  .cluster c :: c.cores.flatMap (·.entities)

namespace Topology

/-- All nodes, each before what it holds. -/
def entities (t : Topology τ) : List (Entity τ) := t.clusters.flatMap (·.entities)

/-- The numbers of all CPUs, in tree order. -/
def cpuIds (t : Topology τ) : List CpuId := t.cpus.map (·.id)

@[simp] theorem cpuIds_abandon [TimeValue τ] (t : Topology τ) : t.abandon.cpuIds = t.cpuIds := by
  rw [cpuIds, cpus_abandon, List.map_map]
  rfl

theorem mem_entities_cluster {t : Topology τ} {c : Cluster τ} (h : c ∈ t.clusters) :
    Entity.cluster c ∈ t.entities := by
  rw [entities, List.mem_flatMap]
  exact ⟨c, h, List.mem_cons_self⟩

theorem mem_entities_core {t : Topology τ} {c : Cluster τ} {k : Core τ} (hc : c ∈ t.clusters)
    (hk : k ∈ c.cores) : Entity.core k ∈ t.entities := by
  rw [entities, List.mem_flatMap]
  refine ⟨c, hc, List.mem_cons_of_mem _ ?_⟩
  rw [List.mem_flatMap]
  exact ⟨k, hk, List.mem_cons_self⟩

theorem mem_entities_cpu {t : Topology τ} {c : Cpu τ} (h : c ∈ t.cpus) :
    Entity.cpu c ∈ t.entities := by
  rw [cpus, List.mem_flatMap] at h
  obtain ⟨u, hu, h⟩ := h
  rw [Cluster.cpus, List.mem_flatMap] at h
  obtain ⟨k, hk, h⟩ := h
  rw [entities, List.mem_flatMap]
  refine ⟨u, hu, List.mem_cons_of_mem _ ?_⟩
  rw [List.mem_flatMap]
  exact ⟨k, hk, List.mem_cons_of_mem _ (List.mem_map_of_mem h)⟩

/-- Every member of a node is a CPU of the machine. -/
theorem mem_cpus_of_mem_members {t : Topology τ} {e : Entity τ} {c : Cpu τ} (he : e ∈ t.entities)
    (hc : c ∈ e.members) : c ∈ t.cpus := by
  rw [entities, List.mem_flatMap] at he
  obtain ⟨u, hu, he⟩ := he
  rw [cpus, List.mem_flatMap]
  refine ⟨u, hu, ?_⟩
  rw [Cluster.entities, List.mem_cons] at he
  rcases he with rfl | he
  · exact hc
  · rw [List.mem_flatMap] at he
    obtain ⟨k, hk, he⟩ := he
    rw [Cluster.cpus, List.mem_flatMap]
    refine ⟨k, hk, ?_⟩
    rw [Core.entities, List.mem_cons] at he
    rcases he with rfl | he
    · exact hc
    · rw [List.mem_map] at he
      obtain ⟨m, hm, rfl⟩ := he
      rw [Entity.members, List.mem_singleton] at hc
      exact hc ▸ hm

end Topology

/-! ### What an action does to a node -/

section Apply

variable [TimeValue τ]

@[simp] theorem Cpu.id_apply (c : Cpu τ) (time : τ) (a : Action) : (c.apply time a).id = c.id := by
  cases a <;> rfl

/-- A wake-up at most claims the interval closed last. -/
theorem Cpu.tracks_apply_wake (c : Cpu τ) (time : τ) (id : Option Int) (name : String) :
    (c.apply time (.wake id name)).tracks = c.tracks ∨
      (c.apply time (.wake id name)).tracks = ⟨c.cstates.claim, c.pstates⟩ := by
  show (⟨(c.wakeups.charge c.cstates id name).2, c.pstates⟩ : Tracks τ) = c.tracks ∨
    (⟨(c.wakeups.charge c.cstates id name).2, c.pstates⟩ : Tracks τ) = ⟨c.cstates.claim, c.pstates⟩
  unfold WakeupTable.charge
  split
  · exact .inl rfl
  · exact .inr rfl

theorem applyToCpu_eq_self {id : CpuId} {l : List (Cpu τ)} (h : l.any (·.id == id) = false)
    (time : τ) (a : Action) : applyToCpu id time a l = l := by
  rw [List.any_eq_false] at h
  have hid : ∀ c ∈ l, (if c.id = id then c.apply time a else c) = c := by
    intro c hc
    rw [if_neg]
    intro he
    exact h c hc (beq_iff_eq.mpr he)
  rw [applyToCpu, List.map_congr_left hid, List.map_id']

theorem applyToCpu_flatMap {α : Type} (id : CpuId) (time : τ) (a : Action) (f : α → List (Cpu τ))
    (l : List α) :
    applyToCpu id time a (l.flatMap f) = l.flatMap fun x => applyToCpu id time a (f x) := by
  rw [applyToCpu, List.map_flatMap]
  rfl

@[simp] theorem map_id_applyToCpu (id : CpuId) (time : τ) (a : Action) (l : List (Cpu τ)) :
    (applyToCpu id time a l).map (·.id) = l.map (·.id) := by
  rw [applyToCpu, List.map_map]
  refine List.map_congr_left fun c _ => ?_
  show (if c.id = id then c.apply time a else c).id = c.id
  split
  · exact c.id_apply time a
  · rfl

variable (x : Extremum) (id : CpuId) (time : τ) (a : Action)

@[simp] theorem Core.id_apply (k : Core τ) : (k.apply x id time a).id = k.id := by
  unfold Core.apply
  split
  · dsimp only; split <;> rfl
  · rfl

@[simp] theorem Cluster.id_apply (c : Cluster τ) : (c.apply x id time a).id = c.id := by
  unfold Cluster.apply
  split
  · dsimp only; split <;> rfl
  · rfl

theorem Core.cpus_apply (k : Core τ) : (k.apply x id time a).cpus = applyToCpu id time a k.cpus := by
  unfold Core.apply
  split
  · dsimp only; split <;> rfl
  · next h => exact (applyToCpu_eq_self (by simpa [Core.owns] using h) time a).symm

theorem Core.apply_of_not_owns {k : Core τ} (h : k.owns id = false) : k.apply x id time a = k := by
  rw [Core.apply, h]
  rfl

theorem Cluster.apply_of_not_owns {c : Cluster τ} (h : c.owns id = false) :
    c.apply x id time a = c := by
  rw [Cluster.apply, h]
  rfl

theorem Cluster.cores_apply (c : Cluster τ) :
    (c.apply x id time a).cores = c.cores.map (·.apply x id time a) := by
  unfold Cluster.apply
  split
  · dsimp only; split <;> rfl
  · next h =>
    -- no core of the cluster owns the CPU, so none of them moves
    have hno : ∀ k ∈ c.cores, k.apply x id time a = k := by
      intro k hk
      have hk' : k.owns id ≠ true := by
        intro ho
        exact h (by rw [Cluster.owns, List.any_eq_true]; exact ⟨k, hk, ho⟩)
      exact Core.apply_of_not_owns x id time a (by simpa using hk')
    rw [List.map_congr_left hno, List.map_id']

theorem Cluster.cpus_apply (c : Cluster τ) :
    (c.apply x id time a).cpus = applyToCpu id time a c.cpus := by
  rw [Cluster.cpus, Cluster.cores_apply, List.flatMap_map, Cluster.cpus, applyToCpu_flatMap]
  simp only [Core.cpus_apply]

omit [TimeValue τ] in
theorem Cluster.owns_eq (c : Cluster τ) : c.owns id = c.cpus.any (·.id == id) := by
  rw [Cluster.cpus, List.any_flatMap]
  rfl

namespace Entity

/-- An action reaches the members of a node one by one. -/
theorem members_apply (e : Entity τ) :
    (e.apply x id time a).members = applyToCpu id time a e.members := by
  cases e with
  | cpu c => rfl
  | core k => exact k.cpus_apply x id time a
  | cluster c => exact c.cpus_apply x id time a

/-- **Locality.**  An action on a CPU that is not a member of a node leaves the node alone. -/
theorem apply_of_not_owns {e : Entity τ} (h : e.owns id = false) : e.apply x id time a = e := by
  cases e with
  | cpu c =>
    have hne : c.id ≠ id := by simpa [owns, members] using h
    rw [apply, if_neg hne]
  | core k => exact congrArg core (Core.apply_of_not_owns x id time a h)
  | cluster c =>
    rw [owns, members, ← Cluster.owns_eq] at h
    exact congrArg cluster (Cluster.apply_of_not_owns x id time a h)

@[simp] theorem map_id_members_apply (e : Entity τ) :
    (e.apply x id time a).members.map (·.id) = e.members.map (·.id) := by
  rw [members_apply, map_id_applyToCpu]

@[simp] theorem owns_apply (e : Entity τ) (other : CpuId) :
    (e.apply x id time a).owns other = e.owns other := by
  have h : ∀ l : List (Cpu τ), l.any (·.id == other) = (l.map (·.id)).any (· == other) := by
    intro l
    rw [List.any_map]
    rfl
  rw [owns, h, map_id_members_apply, ← h]
  rfl

end Entity

/-- The tracks of a group after they were fed the composite state of its members. -/
def Tracks.feed (members : List (Cpu τ)) (s : Tracks τ) : Tracks τ where
  cstates := (s.cstates.record time (compositeDepth members)).1
  pstates := s.pstates.groupFreq time (compositeFreq x members)

/-- Whether a node is a core or a cluster. -/
def Entity.isGroup : Entity τ → Bool
  | cpu _ => false
  | core _ | cluster _ => true

@[simp] theorem Entity.isGroup_apply (e : Entity τ) :
    (e.apply x id time a).isGroup = e.isGroup := by
  cases e <;> rfl

/-- An action that moves groups feeds a group its composite state; any other leaves its tracks. -/
theorem Entity.tracks_apply_of_isGroup {e : Entity τ} (hg : e.isGroup = true)
    (ho : e.owns id = true) :
    (e.apply x id time a).tracks =
      if a.movesGroups then e.tracks.feed x time (applyToCpu id time a e.members) else e.tracks := by
  cases e with
  | cpu c => cases hg
  | core k =>
    have hk : k.owns id = true := ho
    show (k.apply x id time a).tracks = _
    rw [Core.apply, if_pos hk]
    dsimp only
    split <;> rfl
  | cluster c =>
    have hc : c.owns id = true := by rw [Cluster.owns_eq]; exact ho
    show (c.apply x id time a).tracks = _
    have hcpus : (c.applyToMember x id time a).cpus = applyToCpu id time a c.cpus := by
      rw [← Cluster.cpus_apply x id time a c, Cluster.apply, if_pos hc]
      dsimp only
      split <;> rfl
    rw [Cluster.apply, if_pos hc]
    dsimp only
    split
    · show Tracks.mk _ _ = Tracks.mk _ _
      rw [Cluster.refresh, hcpus]
      rfl
    · rfl

omit [TimeValue τ] in
theorem Entity.cpu_or_isGroup (e : Entity τ) : (∃ c, e = cpu c) ∨ e.isGroup = true := by
  cases e with
  | cpu c => exact .inl ⟨c, rfl⟩
  | core k => exact .inr rfl
  | cluster c => exact .inr rfl

/-- **All that an action can do to a node**: leave it alone, act on the CPU that it is, or reach the
members of a group, which is fed their composite state if the action moves groups. -/
theorem Entity.apply_cases (e : Entity τ) :
    e.apply x id time a = e ∨
      (∃ c, e = cpu c ∧ e.apply x id time a = cpu (c.apply time a)) ∨
      (e.isGroup = true ∧ (e.apply x id time a).isGroup = true ∧
        (e.apply x id time a).members = applyToCpu id time a e.members ∧
        (e.apply x id time a).tracks =
          if a.movesGroups then e.tracks.feed x time (applyToCpu id time a e.members)
          else e.tracks) := by
  cases ho : e.owns id with
  | false => exact .inl (apply_of_not_owns x id time a ho)
  | true =>
    refine .inr ?_
    obtain ⟨c, rfl⟩ | hg := e.cpu_or_isGroup
    · have hid : c.id = id := by simpa [owns, members] using ho
      exact .inl ⟨c, rfl, congrArg cpu (if_pos hid)⟩
    · refine .inr ⟨hg, ?_, members_apply x id time a e, tracks_apply_of_isGroup x id time a hg ho⟩
      rw [isGroup_apply, hg]

theorem Core.entities_apply (k : Core τ) :
    (k.apply x id time a).entities = k.entities.map (·.apply x id time a) := by
  rw [Core.entities, Core.cpus_apply, applyToCpu, List.map_map]
  rw [Core.entities, List.map_cons, List.map_map]
  rfl

namespace Topology

/-- **An action acts on every node by itself.** -/
theorem entities_apply (t : Topology τ) :
    (t.apply x id time a).entities = t.entities.map (·.apply x id time a) := by
  have hcluster : ∀ c : Cluster τ,
      (c.apply x id time a).entities = c.entities.map (·.apply x id time a) := by
    intro c
    rw [Cluster.entities, Cluster.cores_apply, List.flatMap_map, Cluster.entities, List.map_cons,
      List.map_flatMap]
    simp only [Core.entities_apply]
    rfl
  rw [entities, apply, List.flatMap_map, entities, List.map_flatMap]
  simp only [hcluster]

theorem cpus_apply (t : Topology τ) : (t.apply x id time a).cpus = applyToCpu id time a t.cpus := by
  rw [cpus, apply, List.flatMap_map, cpus, applyToCpu_flatMap]
  simp only [Cluster.cpus_apply]

/-- The CPU with a given number after an action. -/
theorem cpu?_apply (t : Topology τ) (other : CpuId) :
    (t.apply x id time a).cpu? other =
      (t.cpu? other).map fun c => if c.id = id then c.apply time a else c := by
  have hid : ∀ c : Cpu τ, (if c.id = id then c.apply time a else c).id = c.id := by
    intro c
    split
    · exact c.id_apply time a
    · rfl
  rw [cpu?, cpus_apply, applyToCpu, List.find?_map]
  simp only [Function.comp_def, hid]
  rfl

@[simp] theorem cpuIds_apply (t : Topology τ) : (t.apply x id time a).cpuIds = t.cpuIds := by
  rw [cpuIds, cpus_apply, map_id_applyToCpu]
  rfl

end Topology

end Apply

end PowerTrace
