import Mathlib.Data.List.Nodup
import PowerTrace.Proofs.Run

/-!
# Where CPUs sit

A place in the tree holds at most one CPU, and where no number occurs twice a number is at one place at
most.  So the searches for a CPU, for its core and for its cluster, which go through the tree each in its
own way, end at the same place.

* `Topology.places`: the numbers of all CPUs and where they sit, in tree order;
* `Topology.mem_places`: a number is listed with a place exactly when the CPU there has it;
* `Topology.map_fst_places`: the numbers that are listed are those of the CPUs;
* `Topology.WellShaped.locate_eq_ok_iff`: a number is located where the CPU has it;
* `Topology.WellShaped.owners_of_locate`: what the searches find stands along the way to that place;
* `Topology.places_run`: events move no CPU.
-/

namespace PowerTrace

variable {τ : Type}

/-! ### All places -/

/-- The CPUs of a core and where they sit, for a core at a given place. -/
def Core.places (k : Core τ) (cluster core : Nat) : List (CpuId × CpuPath) :=
  k.cpus.zipIdx.map fun (c, cpu) => (c.id, ⟨cluster, core, cpu⟩)

/-- The CPUs of a cluster and where they sit, for a cluster at a given place. -/
def Cluster.places (u : Cluster τ) (cluster : Nat) : List (CpuId × CpuPath) :=
  u.cores.zipIdx.flatMap fun (k, core) => k.places cluster core

/-- The numbers of all CPUs and where they sit, in tree order. -/
def Topology.places (t : Topology τ) : List (CpuId × CpuPath) :=
  t.clusters.zipIdx.flatMap fun (u, cluster) => u.places cluster

/-- Where positions play no part they may be left out. -/
theorem flatMap_zipIdx {α β : Type} (f : α → List β) (l : List α) :
    (l.zipIdx.flatMap fun (a, _) => f a) = l.flatMap f := by
  conv_rhs => rw [← List.zipIdx_map_fst 0 l, List.flatMap_map]

theorem Core.map_fst_places (k : Core τ) (cluster core : Nat) :
    (k.places cluster core).map Prod.fst = k.cpus.map (·.id) := by
  conv_rhs => rw [← List.zipIdx_map_fst 0 k.cpus, List.map_map]
  rw [places, List.map_map]
  rfl

theorem Cluster.map_fst_places (u : Cluster τ) (cluster : Nat) :
    (u.places cluster).map Prod.fst = u.cpus.map (·.id) := by
  rw [places, List.map_flatMap]
  simp only [Core.map_fst_places]
  rw [flatMap_zipIdx fun k : Core τ => k.cpus.map (·.id), cpus, List.map_flatMap]

namespace Topology

variable {t : Topology τ} {id : CpuId} {p q : CpuPath} {c c' : Cpu τ}

/-- **The numbers that are listed are those of the CPUs, in tree order.** -/
theorem map_fst_places (t : Topology τ) : t.places.map Prod.fst = t.cpuIds := by
  rw [places, List.map_flatMap]
  simp only [Cluster.map_fst_places]
  rw [flatMap_zipIdx fun u : Cluster τ => u.cpus.map (·.id), cpuIds, cpus, List.map_flatMap]

theorem cpuAt?_eq_some_iff :
    t.cpuAt? p = some c ↔ ∃ u, t.clusters[p.cluster]? = some u ∧
      ∃ k, u.cores[p.core]? = some k ∧ k.cpus[p.cpu]? = some c := by
  simp only [cpuAt?, Option.bind_eq_bind, Option.bind_eq_some_iff]

/-- **A number is listed with a place exactly when the CPU there has it.** -/
theorem mem_places : (id, p) ∈ t.places ↔ ∃ c, t.cpuAt? p = some c ∧ c.id = id := by
  simp only [cpuAt?_eq_some_iff, places, Cluster.places, Core.places, List.mem_flatMap, List.mem_map,
    Prod.exists, List.mk_mem_zipIdx_iff_getElem?, Prod.mk.injEq]
  constructor
  · rintro ⟨u, i, hu, k, j, hk, c, n, hc, rfl, rfl⟩
    exact ⟨c, ⟨u, hu, k, hk, hc⟩, rfl⟩
  · rintro ⟨c, ⟨u, hu, k, hk, hc⟩, rfl⟩
    exact ⟨u, _, hu, k, _, hk, c, _, hc, rfl, rfl⟩

theorem mem_cpus_of_cpuAt? (h : t.cpuAt? p = some c) : c ∈ t.cpus := by
  obtain ⟨u, hu, k, hk, hc⟩ := cpuAt?_eq_some_iff.mp h
  refine List.mem_flatMap.mpr ⟨u, List.mem_of_getElem? hu, ?_⟩
  exact List.mem_flatMap.mpr ⟨k, List.mem_of_getElem? hk, List.mem_of_getElem? hc⟩

namespace WellShaped

variable (h : t.WellShaped)
include h

/-- Where no number occurs twice a number is at one place at most. -/
theorem eq_of_cpuAt? (hp : t.cpuAt? p = some c) (hq : t.cpuAt? q = some c') (hid : c.id = c'.id) :
    p = q := by
  have hnd : (t.places.map Prod.fst).Nodup := t.map_fst_places ▸ h.nodup
  have heq := List.inj_on_of_nodup_map hnd (mem_places.mpr ⟨c, hp, rfl⟩) (mem_places.mpr ⟨c', hq, rfl⟩) hid
  exact congrArg Prod.snd heq

theorem path?_eq_some_iff : t.path? id = some p ↔ ∃ c, t.cpuAt? p = some c ∧ c.id = id := by
  have hfound : id ∈ t.cpuIds → ∃ q c, t.path? id = some q ∧ t.cpuAt? q = some c ∧ c.id = id :=
    exists_path?_of_mem
  constructor
  · intro hp
    obtain ⟨q, c, hq, hc, hid⟩ := hfound ((t.isSome_path? id).mp (by rw [hp]; rfl))
    exact ⟨c, Option.some.inj (hp.symm.trans hq) ▸ hc, hid⟩
  · rintro ⟨c, hp, rfl⟩
    obtain ⟨q, c', hq, hc', hid⟩ := hfound (List.mem_map_of_mem (mem_cpus_of_cpuAt? hp))
    rw [hq, h.eq_of_cpuAt? hp hc' hid.symm]

/-- **A number is located where the CPU has it.** -/
theorem locate_eq_ok_iff : t.locate id = .ok p ↔ ∃ c, t.cpuAt? p = some c ∧ c.id = id := by
  rw [← h.path?_eq_some_iff, locate]
  cases t.path? id <;> simp

end WellShaped

theorem cpu?_eq_none_iff : t.cpu? id = none ↔ id ∉ t.cpuIds := by
  rw [cpu?, List.find?_eq_none, cpuIds, List.mem_map]
  simp only [beq_iff_eq, not_exists, not_and]

end Topology

/-! ### Owners -/

/-- A search that only one item can end finds that item. -/
theorem find?_eq_some_of_unique {α : Type} {f : α → Bool} {l : List α} {a : α} (ha : a ∈ l) (hf : f a = true)
    (hunique : ∀ b ∈ l, f b = true → b = a) : l.find? f = some a := by
  cases hfind : l.find? f with
  | none => exact absurd hf (List.find?_eq_none.mp hfind a ha)
  | some b => rw [hunique b (List.mem_of_find?_eq_some hfind) (List.find?_some hfind)]

theorem Core.owns_iff {k : Core τ} {id : CpuId} :
    k.owns id = true ↔ ∃ (n : Nat) (c : Cpu τ), k.cpus[n]? = some c ∧ c.id = id := by
  rw [owns, List.any_eq_true]
  simp only [List.mem_iff_getElem?, beq_iff_eq]
  constructor
  · rintro ⟨c, ⟨n, hn⟩, hid⟩
    exact ⟨n, c, hn, hid⟩
  · rintro ⟨n, c, hn, hid⟩
    exact ⟨c, ⟨n, hn⟩, hid⟩

theorem Cluster.owns_iff {u : Cluster τ} {id : CpuId} :
    u.owns id = true ↔ ∃ (j : Nat) (k : Core τ), u.cores[j]? = some k ∧ k.owns id = true := by
  rw [owns, List.any_eq_true]
  simp only [List.mem_iff_getElem?]
  constructor
  · rintro ⟨k, ⟨j, hj⟩, hk⟩
    exact ⟨j, k, hj, hk⟩
  · rintro ⟨j, k, hj, hk⟩
    exact ⟨k, ⟨j, hj⟩, hk⟩

namespace Topology.WellShaped

variable {t : Topology τ} {id : CpuId} {p : CpuPath} (h : t.WellShaped)
include h

/-- **What the searches for a CPU and its owners find stands along the way to its place.** -/
theorem owners_of_locate (hp : t.locate id = .ok p) :
    ∃ u k c, t.clusters[p.cluster]? = some u ∧ u.cores[p.core]? = some k ∧ k.cpus[p.cpu]? = some c ∧
      c.id = id ∧ t.clusterOf? id = some u ∧ t.coreOf? id = some k ∧ t.cpu? id = some c := by
  obtain ⟨c, hat, rfl⟩ := h.locate_eq_ok_iff.mp hp
  obtain ⟨u, hu, k, hk, hc⟩ := cpuAt?_eq_some_iff.mp hat
  have hmem := mem_cpus_of_cpuAt? hat
  have hkowns : k.owns c.id = true := Core.owns_iff.mpr ⟨p.cpu, c, hc, rfl⟩
  -- another owner would have a place of its own for the number
  have hplace : ∀ {i j n : Nat} {v : Cluster τ} {m : Core τ} {c' : Cpu τ}, t.clusters[i]? = some v →
      v.cores[j]? = some m → m.cpus[n]? = some c' → c'.id = c.id → v = u ∧ m = k := by
    intro i j n v m c' hv hm hc' hid
    have heq : (⟨i, j, n⟩ : CpuPath) = p :=
      h.eq_of_cpuAt? (cpuAt?_eq_some_iff.mpr ⟨v, hv, m, hm, hc'⟩) hat hid
    subst heq
    have hvu : v = u := Option.some.inj (hv.symm.trans hu)
    exact ⟨hvu, Option.some.inj (hm.symm.trans (hvu ▸ hk))⟩
  refine ⟨u, k, c, hu, hk, hc, rfl, ?_, ?_, h.cpu?_of_mem hmem⟩
  · refine find?_eq_some_of_unique (List.mem_of_getElem? hu) (Cluster.owns_iff.mpr ⟨_, k, hk, hkowns⟩) ?_
    intro v hv howns
    obtain ⟨i, hi⟩ := List.mem_iff_getElem?.mp hv
    obtain ⟨j, m, hm, hown⟩ := Cluster.owns_iff.mp howns
    obtain ⟨n, c', hc', hid⟩ := Core.owns_iff.mp hown
    exact (hplace hi hm hc' hid).1
  · have hkmem : k ∈ t.cores := List.mem_flatMap.mpr ⟨u, List.mem_of_getElem? hu, List.mem_of_getElem? hk⟩
    refine find?_eq_some_of_unique hkmem hkowns ?_
    intro m hm hown
    obtain ⟨v, hv, hm⟩ := List.mem_flatMap.mp hm
    obtain ⟨i, hi⟩ := List.mem_iff_getElem?.mp hv
    obtain ⟨j, hj⟩ := List.mem_iff_getElem?.mp hm
    obtain ⟨n, c', hc', hid⟩ := Core.owns_iff.mp hown
    exact (hplace hi hj hc' hid).2

omit h in
/-- A number that no CPU has is located nowhere, and no search finds anything for it. -/
theorem owners_of_not_mem (hid : id ∉ t.cpuIds) :
    t.locate id = .error (.unknownCpu id) ∧ t.clusterOf? id = none ∧ t.coreOf? id = none ∧ t.cpu? id = none := by
  have hcluster : ∀ u ∈ t.clusters, ¬ u.owns id = true := fun u hu ho =>
    hid ((t.any_owns id).mp (List.any_eq_true.mpr ⟨u, hu, ho⟩))
  refine ⟨?_, List.find?_eq_none.mpr hcluster, List.find?_eq_none.mpr fun k hk ho => ?_, cpu?_eq_none_iff.mpr hid⟩
  · have hpath : t.path? id = none :=
      Option.not_isSome_iff_eq_none.mp fun hs => hid ((t.isSome_path? id).mp hs)
    rw [locate, hpath]
  · obtain ⟨u, hu, hk⟩ := List.mem_flatMap.mp hk
    exact hcluster u hu (List.any_eq_true.mpr ⟨k, hk, ho⟩)

end Topology.WellShaped

/-! ### Events move no CPU -/

section Moves

variable (x : Extremum) (id : CpuId) (time : τ) (a : Action) [TimeValue τ]

theorem Core.places_apply (k : Core τ) (i j : Nat) : (k.apply x id time a).places i j = k.places i j := by
  rw [places, Core.cpus_apply, applyToCpu, List.zipIdx_map, List.map_map, places]
  refine List.map_congr_left ?_
  rintro ⟨c, n⟩ -
  show ((if c.id = id then c.apply time a else c).id, _) = (c.id, _)
  split
  · rw [Cpu.id_apply]
    rfl
  · rfl

theorem Cluster.places_apply (u : Cluster τ) (i : Nat) : (u.apply x id time a).places i = u.places i := by
  rw [places, Cluster.cores_apply, List.zipIdx_map, List.flatMap_map, places]
  simp only [Prod.map, Core.places_apply]
  rfl

namespace Topology

theorem places_apply (t : Topology τ) : (t.apply x id time a).places = t.places := by
  rw [places, apply, List.zipIdx_map, List.flatMap_map, places]
  simp only [Prod.map, Cluster.places_apply]
  rfl

/-- **Events move no CPU**, so every number stays located where it was when the machine was built. -/
theorem places_run (t : Topology τ) (es : List (Event τ)) : (t.run x es).places = t.places := by
  induction es generalizing t with
  | nil => rfl
  | cons e es ih =>
    rw [run_cons, ih, step]
    split
    · exact t.places_apply x _ _ _
    · rfl

end Topology

end Moves

end PowerTrace
