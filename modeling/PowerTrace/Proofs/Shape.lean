import PowerTrace.Proofs.Entity

/-!
# The shape of a machine

Building a machine refuses groups without members and CPU numbers that occur twice.  What it lets
through stays so: no action changes which nodes there are.

* `Layout.fault?_eq_none_iff`: when a layout has no fault;
* `Topology.WellShaped`: the shape of a machine that was built;
* `Topology.wellShaped_of_build`, `Topology.WellShaped.apply`: it holds at first and stays;
* `Topology.fresh_of_build`: before the first event no node has a history.
-/

namespace PowerTrace

variable {τ : Type}

/-! ### Layouts without faults -/

/-- Reading meets no fault exactly when it meets nothing but CPUs, none of them twice. -/
theorem readItems_eq_none_iff (seen : List CpuId) (items : List LayoutItem) :
    (readItems seen items).2 = none ↔
      ∃ ids : List CpuId, items = ids.map .cpu ∧ ids.Nodup ∧ ∀ id ∈ ids, id ∉ seen := by
  induction items generalizing seen with
  | nil =>
    refine ⟨fun _ => ⟨[], rfl, List.nodup_nil, fun _ h => absurd h List.not_mem_nil⟩, fun _ => rfl⟩
  | cons i rest ih =>
    cases i with
    | emptyCluster cluster =>
      refine ⟨fun h => by simp [readItems] at h, ?_⟩
      rintro ⟨_ | ⟨_, _⟩, h, -⟩ <;> simp at h
    | emptyCore core cluster =>
      refine ⟨fun h => by simp [readItems] at h, ?_⟩
      rintro ⟨_ | ⟨_, _⟩, h, -⟩ <;> simp at h
    | cpu id =>
      by_cases hs : id ∈ seen
      · refine ⟨fun h => by simp [readItems, hs] at h, ?_⟩
        rintro ⟨_ | ⟨other, ids⟩, h, -, hseen⟩
        · simp at h
        · simp only [List.map_cons, List.cons.injEq, LayoutItem.cpu.injEq] at h
          exact absurd (h.1 ▸ hs) (hseen other List.mem_cons_self)
      · have hstep : (readItems seen (.cpu id :: rest)).2 = (readItems (id :: seen) rest).2 := by
          rw [readItems, if_neg hs]
        rw [hstep, ih]
        constructor
        · rintro ⟨ids, rfl, hnd, hseen⟩
          refine ⟨id :: ids, rfl, ?_, ?_⟩
          · rw [List.nodup_cons]
            exact ⟨fun h => hseen id h List.mem_cons_self, hnd⟩
          · intro other h
            rcases List.mem_cons.mp h with rfl | h
            · exact hs
            · exact fun h' => hseen other h (List.mem_cons_of_mem _ h')
        · rintro ⟨_ | ⟨other, ids⟩, h, hnd, hseen⟩
          · simp at h
          · simp only [List.map_cons, List.cons.injEq, LayoutItem.cpu.injEq] at h
            obtain ⟨rfl, rfl⟩ := h
            rw [List.nodup_cons] at hnd
            refine ⟨ids, rfl, hnd.2, ?_⟩
            intro other h h'
            rcases List.mem_cons.mp h' with rfl | h'
            · exact hnd.1 h
            · exact hseen other (List.mem_cons_of_mem _ h) h'

theorem CoreLayout.items_of_ne_nil (cluster : CpuId) {k : CoreLayout} (h : k.cpus ≠ []) :
    k.items cluster = k.cpus.map .cpu := by
  rw [CoreLayout.items, if_neg]
  rwa [List.isEmpty_iff]

theorem ClusterLayout.items_of_ne_nil {c : ClusterLayout} (h : c.cores ≠ [])
    (hk : ∀ k ∈ c.cores, k.cpus ≠ []) :
    c.items = (c.cores.flatMap (·.cpus)).map .cpu := by
  have hcores : c.items = c.cores.flatMap (·.items c.id) := by
    rw [ClusterLayout.items, if_neg]
    rwa [List.isEmpty_iff]
  rw [hcores, List.map_flatMap]
  rw [List.flatMap_def, List.flatMap_def]
  rw [List.map_congr_left fun k h => CoreLayout.items_of_ne_nil c.id (hk k h)]

/-- A layout has no fault exactly when no group in it is empty and no CPU occurs twice. -/
theorem Layout.fault?_eq_none_iff (l : Layout) :
    l.fault? = none ↔
      (∀ c ∈ l.clusters, c.cores ≠ []) ∧ (∀ c ∈ l.clusters, ∀ k ∈ c.cores, k.cpus ≠ []) ∧
        l.cpuIds.Nodup := by
  have hitems : (∀ c ∈ l.clusters, c.cores ≠ []) → (∀ c ∈ l.clusters, ∀ k ∈ c.cores, k.cpus ≠ []) →
      l.items = l.cpuIds.map .cpu := by
    intro hc hk
    rw [Layout.items, Layout.cpuIds, List.map_flatMap, List.flatMap_def, List.flatMap_def]
    rw [List.map_congr_left fun c h => ClusterLayout.items_of_ne_nil (hc c h) (hk c h)]
  rw [Layout.fault?, readItems_eq_none_iff]
  constructor
  · rintro ⟨ids, hids, hnd, -⟩
    -- a group without members would put an item of its own among the CPUs
    have hcpu : ∀ i ∈ l.items, ∃ id, i = LayoutItem.cpu id := by
      intro i hi
      rw [hids, List.mem_map] at hi
      obtain ⟨id, -, rfl⟩ := hi
      exact ⟨id, rfl⟩
    have hc : ∀ c ∈ l.clusters, c.cores ≠ [] := by
      intro c hc he
      have hmem : LayoutItem.emptyCluster c.id ∈ l.items := by
        rw [Layout.items, List.mem_flatMap]
        exact ⟨c, hc, by rw [ClusterLayout.items, he]; exact List.mem_singleton_self _⟩
      obtain ⟨_, h⟩ := hcpu _ hmem
      exact LayoutItem.noConfusion h
    have hk : ∀ c ∈ l.clusters, ∀ k ∈ c.cores, k.cpus ≠ [] := by
      intro c hc' k hk he
      have hmem : LayoutItem.emptyCore k.id c.id ∈ l.items := by
        rw [Layout.items, List.mem_flatMap]
        refine ⟨c, hc', ?_⟩
        rw [ClusterLayout.items, if_neg (by rw [List.isEmpty_iff]; exact hc c hc'), List.mem_flatMap]
        exact ⟨k, hk, by rw [CoreLayout.items, he]; exact List.mem_singleton_self _⟩
      obtain ⟨_, h⟩ := hcpu _ hmem
      exact LayoutItem.noConfusion h
    have heq : ids = l.cpuIds := by
      have hmap : ids.map LayoutItem.cpu = l.cpuIds.map .cpu := by rw [← hids, hitems hc hk]
      exact (List.map_inj_right fun _ _ h => LayoutItem.cpu.inj h).mp hmap
    exact ⟨hc, hk, heq ▸ hnd⟩
  · rintro ⟨hc, hk, hnd⟩
    exact ⟨l.cpuIds, hitems hc hk, hnd, fun _ _ => List.not_mem_nil⟩

/-! ### Looking up by number -/

section Numbers

variable {α : Type} {key : α → CpuId}

theorem find?_key_of_eq {a : α} {i : CpuId} (h : key a = i) (l : List α) :
    (a :: l).find? (key · == i) = some a := List.find?_cons_of_pos (beq_iff_eq.mpr h)

theorem find?_key_of_ne {a : α} {i : CpuId} (h : key a ≠ i) (l : List α) :
    (a :: l).find? (key · == i) = l.find? (key · == i) := by
  rw [List.find?_cons_of_neg (by rwa [beq_iff_eq])]

theorem key_of_find? (key : α → CpuId) {l : List α} {a : α} {i : CpuId} (h : l.find? (key · == i) = some a) :
    key a = i := by
  have hp := List.find?_some h
  exact beq_iff_eq.mp hp

/-- Where no number occurs twice an item is found by its number. -/
theorem find?_eq_some_of_nodup {l : List α} (h : (l.map key).Nodup) {a : α} (ha : a ∈ l) :
    l.find? (key · == key a) = some a := by
  induction l with
  | nil => exact absurd ha List.not_mem_nil
  | cons b l ih =>
    rw [List.map_cons, List.nodup_cons] at h
    rcases List.mem_cons.mp ha with rfl | ha
    · exact find?_key_of_eq rfl l
    · have hne : key b ≠ key a := fun he => h.1 (he ▸ List.mem_map_of_mem ha)
      rw [find?_key_of_ne hne]
      exact ih h.2 ha

end Numbers

/-! ### Well-shaped machines -/

namespace Topology

/-- The shape that every machine has: no group without members, no CPU number twice. -/
structure WellShaped (t : Topology τ) : Prop where
  /-- Every cluster has a core. -/
  cores_ne_nil : ∀ c ∈ t.clusters, c.cores ≠ []
  /-- Every core has a CPU. -/
  cpus_ne_nil : ∀ c ∈ t.clusters, ∀ k ∈ c.cores, k.cpus ≠ []
  /-- No CPU number occurs twice. -/
  nodup : t.cpuIds.Nodup

variable [TimeValue τ] {d : Description} {t : Topology τ}

theorem build_eq_ok_iff :
    Topology.build d = .ok t ↔ d.layout.fault? = none ∧ t = ⟨d.layout.clusters.map d.cluster⟩ := by
  unfold Topology.build
  split
  · next fault h => simp [h]
  · next h => simp [h, eq_comm]

/-- The CPUs of a machine are those of its layout, in the same order. -/
theorem cpus_of_build (h : Topology.build d = .ok t) : t.cpus = d.layout.cpuIds.map d.cpu := by
  obtain ⟨-, rfl⟩ := build_eq_ok_iff.mp h
  have hcluster : ∀ c : ClusterLayout,
      ((d.cluster c).cpus : List (Cpu τ)) = (c.cores.flatMap (·.cpus)).map d.cpu := by
    intro c
    rw [Cluster.cpus, Description.cluster, List.flatMap_map, List.map_flatMap]
    rfl
  rw [Topology.cpus, List.flatMap_map, Layout.cpuIds, List.map_flatMap]
  simp only [hcluster]

theorem cpuIds_of_build (h : Topology.build d = .ok t) : t.cpuIds = d.layout.cpuIds := by
  rw [cpuIds, cpus_of_build h, List.map_map]
  exact List.map_id _

/-- **A machine that can be built is well shaped.** -/
theorem wellShaped_of_build (h : Topology.build d = .ok t) : t.WellShaped := by
  have hids := cpuIds_of_build h
  obtain ⟨hfault, rfl⟩ := build_eq_ok_iff.mp h
  obtain ⟨hc, hk, hnd⟩ := d.layout.fault?_eq_none_iff.mp hfault
  refine ⟨?_, ?_, hids ▸ hnd⟩
  · intro u hu
    obtain ⟨c, hcm, rfl⟩ := List.mem_map.mp hu
    rw [Description.cluster, Ne, List.map_eq_nil_iff]
    exact hc c hcm
  · intro u hu v hv
    obtain ⟨c, hcm, rfl⟩ := List.mem_map.mp hu
    obtain ⟨k, hkm, rfl⟩ := List.mem_map.mp hv
    rw [Description.core, Ne, List.map_eq_nil_iff]
    exact hk c hcm k hkm

/-- A CPU is found by its number. -/
theorem WellShaped.cpu?_of_mem {τ : Type} {t : Topology τ} (h : t.WellShaped) {c : Cpu τ}
    (hc : c ∈ t.cpus) : t.cpu? c.id = some c :=
  find?_eq_some_of_nodup h.nodup hc

/-- No action changes the shape of a machine. -/
theorem WellShaped.apply (x : Extremum) (id : CpuId) (time : τ) (a : Action) (h : t.WellShaped) :
    (t.apply x id time a).WellShaped := by
  refine ⟨?_, ?_, ?_⟩
  · intro c' hc'
    obtain ⟨c, hc, rfl⟩ := List.mem_map.mp hc'
    rw [Cluster.cores_apply, Ne, List.map_eq_nil_iff]
    exact h.cores_ne_nil c hc
  · intro c' hc' k' hk'
    obtain ⟨c, hc, rfl⟩ := List.mem_map.mp hc'
    rw [Cluster.cores_apply] at hk'
    obtain ⟨k, hk, rfl⟩ := List.mem_map.mp hk'
    rw [Core.cpus_apply, applyToCpu, Ne, List.map_eq_nil_iff]
    exact h.cpus_ne_nil c hc k hk
  · rw [cpuIds_apply]
    exact h.nodup

end Topology

/-! ### Machines without a history -/

section Fresh

variable [TimeValue τ]

/-- The tracks of a node that nothing happened to yet. -/
structure Tracks.Fresh (s : Tracks τ) : Prop where
  cstates : ∃ infos, s.cstates = .ofInfos infos
  pstates : s.pstates = .empty

/-- Without a history there is nothing but the description to take from a member. -/
theorem CStateTrack.ofTemplate_ofInfos (infos : Depth → Option StateInfo) :
    CStateTrack.ofTemplate (CStateTrack.ofInfos infos : CStateTrack τ) = .ofInfos infos := by
  have hslot : ∀ i : Option StateInfo,
      (CState.described (CState.ofInfo? i : CState τ).name (CState.ofInfo? i : CState τ).target :
        CState τ) = CState.ofInfo? i := by
    intro i
    cases i <;> rfl
  unfold ofTemplate ofInfos ofSlots
  congr 1
  refine Vector.ext fun i hi => ?_
  rw [Vector.getElem_map, Vector.getElem_ofFn, hslot]

theorem exists_groupCStates {l : List (CStateTrack τ)}
    (h : ∀ s ∈ l, ∃ infos, s = CStateTrack.ofInfos infos) :
    ∃ infos, groupCStates l = .ofInfos infos := by
  cases l with
  | nil => exact ⟨_, rfl⟩
  | cons s l =>
    obtain ⟨infos, rfl⟩ := h s List.mem_cons_self
    exact ⟨infos, CStateTrack.ofTemplate_ofInfos infos⟩

theorem Description.exists_core_cstates (d : Description) (k : CoreLayout) :
    ∃ infos, (d.core k : Core τ).cstates = .ofInfos infos := by
  refine exists_groupCStates ?_
  intro s hs
  obtain ⟨c, hc, rfl⟩ := List.mem_map.mp hs
  obtain ⟨id, -, rfl⟩ := List.mem_map.mp hc
  exact ⟨_, rfl⟩

/-- **Before the first event no node has a history.** -/
theorem Topology.fresh_of_build {d : Description} (t : Topology τ) (h : Topology.build d = .ok t) :
    ∀ e ∈ t.entities, e.tracks.Fresh := by
  obtain ⟨-, rfl⟩ := build_eq_ok_iff.mp h
  intro e he
  obtain ⟨u, hu, he⟩ := List.mem_flatMap.mp he
  obtain ⟨c, -, rfl⟩ := List.mem_map.mp hu
  rcases List.mem_cons.mp he with rfl | he
  · refine ⟨exists_groupCStates ?_, rfl⟩
    intro s hs
    obtain ⟨k', hk', rfl⟩ := List.mem_map.mp hs
    obtain ⟨k, -, rfl⟩ := List.mem_map.mp hk'
    exact d.exists_core_cstates k
  · obtain ⟨v, hv, he⟩ := List.mem_flatMap.mp he
    obtain ⟨k, -, rfl⟩ := List.mem_map.mp hv
    rcases List.mem_cons.mp he with rfl | he
    · exact ⟨d.exists_core_cstates k, rfl⟩
    · obtain ⟨m, hm, rfl⟩ := List.mem_map.mp he
      obtain ⟨id, -, rfl⟩ := List.mem_map.mp hm
      exact ⟨⟨_, rfl⟩, rfl⟩

end Fresh

end PowerTrace
