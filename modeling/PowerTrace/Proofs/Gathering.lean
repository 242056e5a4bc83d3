import Mathlib.Data.List.Induction
import Mathlib.Data.List.Nodup
import Mathlib.Data.List.Sort
import PowerTrace.Proofs.Placements
import PowerTrace.Proofs.Shape

/-!
# What a list of placements says

A layout is made of placements one after the other, but what comes out is told by the placements as a
whole: the numbers that occur, put in order, and under each number what the placements with that number
say.  Neither their order nor how often each is repeated plays a part.

* `inOrder`: the numbers of a list, each once and in ascending order;
* `Layout.gathered`: a layout read off the placements as a whole;
* `Layout.ofPlacements_eq_gathered`: placing CPUs one after the other leads to it;
* `Layout.ofPlacements_congr`: lists with the same placements lead to the same layout;
* `Layout.nodup_triples`: no CPU is met twice in one core;
* `Layout.fault?_ofPlacements_eq_none_iff`: when a machine can be built of it.
-/

namespace PowerTrace

/-! ### Numbers in order -/

/-- The numbers of a list, each once and in ascending order. -/
def inOrder (l : List CpuId) : List CpuId := l.foldl (fun ids i => insertCpu i ids) []

theorem inOrder_concat (l : List CpuId) (i : CpuId) : inOrder (l ++ [i]) = insertCpu i (inOrder l) :=
  List.foldl_concat _ _ _ _

theorem mem_inOrder {l : List CpuId} {i : CpuId} : i ∈ inOrder l ↔ i ∈ l := by
  induction l using List.reverseRecOn with
  | nil => rfl
  | append_singleton l j ih =>
    rw [inOrder_concat, mem_insertCpu, ih, List.mem_append, List.mem_singleton]
    exact or_comm

theorem pairwise_inOrder (l : List CpuId) : (inOrder l).Pairwise (· < ·) := by
  induction l using List.reverseRecOn with
  | nil => exact .nil
  | append_singleton l j ih =>
    rw [inOrder_concat]
    exact pairwise_insertCpu j ih

/-- Ascending lists of the same numbers are the same. -/
theorem eq_of_ascending {l l' : List CpuId} (hl : l.Pairwise (· < ·)) (hl' : l'.Pairwise (· < ·))
    (h : ∀ i, i ∈ l ↔ i ∈ l') : l = l' := by
  have hanti : Std.Antisymm (α := CpuId) (· < ·) := ⟨fun _ _ h h' => absurd h' (UInt32.lt_asymm h)⟩
  have hirrefl : Std.Irrefl (α := CpuId) (· < ·) := ⟨fun _ => UInt32.lt_irrefl _⟩
  exact List.Pairwise.eq_of_mem_iff hl hl' h

/-- **Numbers in order are told by which ones there are.** -/
theorem inOrder_congr {l l' : List CpuId} (h : ∀ i, i ∈ l ↔ i ∈ l') : inOrder l = inOrder l' :=
  eq_of_ascending (pairwise_inOrder l) (pairwise_inOrder l') fun i => by rw [mem_inOrder, mem_inOrder, h]

/-! ### Placements as a whole -/

/-- The core with a given number, as the placements of its cluster tell it. -/
def coreOfPlacements (ps : List Placement) (core : CpuId) : CoreLayout where
  id := core
  multiCpu := ps.any fun p => p.core == core && p.multiCpu
  cpus := inOrder ((ps.filter (·.core == core)).map (·.cpu))

/-- The cores that the placements of one cluster tell. -/
def coresOfPlacements (ps : List Placement) : List CoreLayout :=
  (inOrder (ps.map (·.core))).map (coreOfPlacements ps)

/-- The cluster with a given number, as the placements tell it. -/
def clusterOfPlacements (ps : List Placement) (cluster : CpuId) : ClusterLayout where
  id := cluster
  cores := coresOfPlacements (ps.filter (·.cluster == cluster))

/-- The layout that placements tell as a whole. -/
def Layout.gathered (ps : List Placement) : Layout :=
  ⟨(inOrder (ps.map (·.cluster))).map (clusterOfPlacements ps)⟩

/-! ### One placement more -/

section Put

variable {α : Type} (key : α → CpuId)

/-- Change the item with a given number in an ascending list, or put a new one there. -/
def putAt (i : CpuId) (new : α) (change : α → α) : List α → List α
  | [] => [new]
  | a :: rest =>
    if i < key a then new :: a :: rest
    else if i = key a then change a :: rest
    else a :: putAt i new change rest

/-- **Where the items are told by their numbers, so are they after one of them was put or changed.** -/
theorem putAt_map {key} {f g : CpuId → α} {i : CpuId} {new : α} {change : α → α} {ids : List CpuId}
    (hkey : ∀ j, key (f j) = j) (hids : ids.Pairwise (· < ·)) (hnew : i ∉ ids → g i = new)
    (hchange : i ∈ ids → g i = change (f i)) (hother : ∀ j, j ≠ i → g j = f j) :
    putAt key i new change (ids.map f) = (insertCpu i ids).map g := by
  induction ids with
  | nil => rw [insertCpu, List.map_singleton, hnew List.not_mem_nil]; rfl
  | cons c rest ih =>
    obtain ⟨hc, hrest⟩ := List.pairwise_cons.mp hids
    have hsame : ∀ {l : List CpuId}, i ∉ l → l.map f = l.map g := fun hl =>
      List.map_congr_left fun j hj => (hother j fun he => hl (he ▸ hj)).symm
    rw [List.map_cons, putAt, insertCpu, hkey]
    split
    · next hlt =>
      have hnot : i ∉ c :: rest := by
        intro hm
        rcases List.mem_cons.mp hm with he | hm
        · exact UInt32.ne_of_lt hlt he
        · exact UInt32.lt_asymm hlt (hc i hm)
      rw [List.map_cons, hnew hnot, ← List.map_cons, hsame hnot]
    · split
      · next he =>
        subst he
        rw [List.map_cons, hchange List.mem_cons_self]
        rw [hsame fun hm => UInt32.lt_irrefl _ (hc _ hm)]
      · next hne =>
        rw [List.map_cons, hother c (Ne.symm hne), ih hrest]
        · exact fun hm => hnew fun hm' => (List.mem_cons.mp hm').elim hne hm
        · exact fun hm => hchange (List.mem_cons_of_mem _ hm)

end Put

variable (p : Placement)

theorem insertCore_eq_putAt (ks : List CoreLayout) :
    insertCore p ks = putAt (·.id) p.core ⟨p.core, p.multiCpu, [p.cpu]⟩
      (fun k => ⟨k.id, k.multiCpu || p.multiCpu, insertCpu p.cpu k.cpus⟩) ks := by
  induction ks with
  | nil => rfl
  | cons k rest ih => rw [insertCore, putAt, ih]

theorem insertCluster_eq_putAt (cs : List ClusterLayout) :
    insertCluster p cs = putAt (·.id) p.cluster ⟨p.cluster, insertCore p []⟩
      (fun c => ⟨c.id, insertCore p c.cores⟩) cs := by
  induction cs with
  | nil => rfl
  | cons c rest ih => rw [insertCluster, putAt, ih]

variable (ps : List Placement)

section Numbered

variable {α : Type} {key : α → CpuId} {i : CpuId}

/-- Where no item has a number, none is left under it. -/
theorem filter_key_of_new {l : List α} (h : i ∉ l.map key) : l.filter (key · == i) = [] :=
  List.filter_eq_nil_iff.mpr fun a ha he => h (List.mem_map.mpr ⟨a, ha, beq_iff_eq.mp he⟩)

/-- One item more is one more under its own number. -/
theorem filter_key_concat_self (key : α → CpuId) (l : List α) (a : α) :
    (l ++ [a]).filter (key · == key a) = l.filter (key · == key a) ++ [a] := by
  rw [List.filter_append, List.filter_singleton, beq_self_eq_true]
  rfl

theorem filter_key_concat_of_ne (l : List α) {a : α} (h : i ≠ key a) :
    (l ++ [a]).filter (key · == i) = l.filter (key · == i) := by
  rw [List.filter_append, List.filter_singleton, beq_eq_false_iff_ne.mpr h.symm]
  exact List.append_nil _

end Numbered

variable {i : CpuId}

variable {ps} in
theorem coreOfPlacements_of_new (h : i ∉ ps.map (·.core)) : coreOfPlacements ps i = ⟨i, false, []⟩ := by
  have hany : (ps.any fun q => q.core == i && q.multiCpu) = false := by
    refine List.any_eq_false.mpr fun q hq hi => h ?_
    exact List.mem_map.mpr ⟨q, hq, beq_iff_eq.mp (Bool.and_eq_true_iff.mp hi).1⟩
  rw [coreOfPlacements, filter_key_of_new h, hany]
  rfl

theorem coreOfPlacements_concat_self :
    coreOfPlacements (ps ++ [p]) p.core = ⟨p.core, (coreOfPlacements ps p.core).multiCpu || p.multiCpu,
      insertCpu p.cpu (coreOfPlacements ps p.core).cpus⟩ := by
  rw [coreOfPlacements, filter_key_concat_self, List.map_append, List.map_singleton, inOrder_concat,
    List.any_append]
  simp [coreOfPlacements]

theorem coreOfPlacements_concat_of_ne (h : i ≠ p.core) :
    coreOfPlacements (ps ++ [p]) i = coreOfPlacements ps i := by
  rw [coreOfPlacements, filter_key_concat_of_ne ps h, List.any_append]
  simp [coreOfPlacements, h.symm]

theorem coresOfPlacements_concat :
    coresOfPlacements (ps ++ [p]) = insertCore p (coresOfPlacements ps) := by
  unfold coresOfPlacements
  rw [insertCore_eq_putAt, List.map_append, List.map_singleton, inOrder_concat]
  refine (putAt_map (fun _ => rfl) (pairwise_inOrder _) (fun hnew => ?_) (fun _ => ?_) fun j hj => ?_).symm
  · rw [mem_inOrder] at hnew
    rw [coreOfPlacements_concat_self, coreOfPlacements_of_new hnew, Bool.false_or, insertCpu]
  · exact coreOfPlacements_concat_self p ps
  · exact coreOfPlacements_concat_of_ne p ps hj

theorem gathered_concat :
    (Layout.gathered (ps ++ [p])).clusters = insertCluster p (Layout.gathered ps).clusters := by
  unfold Layout.gathered
  rw [insertCluster_eq_putAt, List.map_append, List.map_singleton, inOrder_concat]
  have hself : clusterOfPlacements (ps ++ [p]) p.cluster =
      ⟨p.cluster, insertCore p (coresOfPlacements (ps.filter (·.cluster == p.cluster)))⟩ := by
    rw [clusterOfPlacements, filter_key_concat_self, coresOfPlacements_concat]
  refine (putAt_map (fun _ => rfl) (pairwise_inOrder _) (fun hnew => ?_) (fun _ => hself) fun j hj => ?_).symm
  · rw [mem_inOrder] at hnew
    rw [hself, filter_key_of_new hnew]
    rfl
  · rw [clusterOfPlacements, filter_key_concat_of_ne ps hj, clusterOfPlacements]

/-- **Placing CPUs one after the other leads to what the placements say as a whole.** -/
theorem Layout.ofPlacements_eq_gathered : ofPlacements ps = gathered ps := by
  induction ps using List.reverseRecOn with
  | nil => rfl
  | append_singleton ps p ih =>
    rw [ofPlacements, Layout.mk.injEq] at ih
    rw [ofPlacements, Layout.mk.injEq, List.foldl_concat, ih, ← gathered_concat]

/-! ### Lists with the same placements -/

section Same

variable {ps qs : List Placement}

theorem coreOfPlacements_congr (h : ∀ p, p ∈ ps ↔ p ∈ qs) (core : CpuId) :
    coreOfPlacements ps core = coreOfPlacements qs core := by
  have hany : ∀ f : Placement → Bool, ps.any f = qs.any f := fun f => by
    rw [Bool.eq_iff_iff, List.any_eq_true, List.any_eq_true]
    exact exists_congr fun p => and_congr_left fun _ => h p
  have hcpus : ∀ i, i ∈ (ps.filter (·.core == core)).map (·.cpu) ↔ i ∈ (qs.filter (·.core == core)).map (·.cpu) :=
    fun i => by simp only [List.mem_map, List.mem_filter, h]
  rw [coreOfPlacements, hany, inOrder_congr hcpus, coreOfPlacements]

theorem coresOfPlacements_congr (h : ∀ p, p ∈ ps ↔ p ∈ qs) : coresOfPlacements ps = coresOfPlacements qs := by
  have hcores : ∀ i, i ∈ ps.map (·.core) ↔ i ∈ qs.map (·.core) := fun i => by simp only [List.mem_map, h]
  rw [coresOfPlacements, inOrder_congr hcores, funext (coreOfPlacements_congr h), coresOfPlacements]

/-- **Lists with the same placements lead to the same layout**, in whatever order they stand and however
often they are repeated. -/
theorem Layout.ofPlacements_congr (h : ∀ p, p ∈ ps ↔ p ∈ qs) : ofPlacements ps = ofPlacements qs := by
  have hclusters : ∀ i, i ∈ ps.map (·.cluster) ↔ i ∈ qs.map (·.cluster) :=
    fun i => by simp only [List.mem_map, h]
  have heach : ∀ cluster, clusterOfPlacements ps cluster = clusterOfPlacements qs cluster := by
    intro cluster
    have hfilter : ∀ p, p ∈ ps.filter (·.cluster == cluster) ↔ p ∈ qs.filter (·.cluster == cluster) :=
      fun p => by simp only [List.mem_filter, h]
    rw [clusterOfPlacements, coresOfPlacements_congr hfilter, clusterOfPlacements]
  rw [ofPlacements_eq_gathered, gathered, inOrder_congr hclusters, funext heach, ← gathered,
    ← ofPlacements_eq_gathered]

end Same

/-! ### What stands in the layout -/

variable {ps} {c : ClusterLayout} {k : CoreLayout}

theorem mem_coresOfPlacements : k ∈ coresOfPlacements ps ↔ ∃ p ∈ ps, coreOfPlacements ps p.core = k := by
  rw [coresOfPlacements, List.mem_map]
  simp only [mem_inOrder, List.mem_map, exists_exists_and_eq_and]

theorem mem_cpus_coreOfPlacements {core cpu : CpuId} :
    cpu ∈ (coreOfPlacements ps core).cpus ↔ ∃ p ∈ ps, p.core = core ∧ p.cpu = cpu := by
  simp only [coreOfPlacements, mem_inOrder, List.mem_map, List.mem_filter, beq_iff_eq, and_assoc]

theorem multiCpu_coreOfPlacements {core : CpuId} :
    (coreOfPlacements ps core).multiCpu = true ↔ ∃ p ∈ ps, p.core = core ∧ p.multiCpu = true := by
  simp only [coreOfPlacements, List.any_eq_true, Bool.and_eq_true, beq_iff_eq]

namespace Layout

/-- A cluster of the layout is what the placements with its number tell. -/
theorem mem_clusters_ofPlacements :
    c ∈ (ofPlacements ps).clusters ↔ ∃ p ∈ ps, clusterOfPlacements ps p.cluster = c := by
  rw [ofPlacements_eq_gathered, gathered, List.mem_map]
  simp only [mem_inOrder, List.mem_map, exists_exists_and_eq_and]

/-- The cluster, the core and the number of every CPU, in reading order. -/
def triples (l : Layout) : List (CpuId × CpuId × CpuId) :=
  l.clusters.flatMap fun c => c.cores.flatMap fun k => k.cpus.map fun cpu => (c.id, k.id, cpu)

theorem map_triples (l : Layout) : l.triples.map (·.2.2) = l.cpuIds := by
  simp only [triples, cpuIds, List.map_flatMap, List.map_map, Function.comp_def, List.map_id']

/-- **The CPUs of the layout are those that were placed, where they were placed.** -/
theorem mem_triples_ofPlacements {cluster core cpu : CpuId} :
    (cluster, core, cpu) ∈ (ofPlacements ps).triples ↔
      ∃ p ∈ ps, p.cluster = cluster ∧ p.core = core ∧ p.cpu = cpu := by
  simp only [triples, List.mem_flatMap, List.mem_map, Prod.mk.injEq, mem_clusters_ofPlacements]
  constructor
  · rintro ⟨_, ⟨p, -, rfl⟩, k, hk, n, hn, rfl, rfl, rfl⟩
    obtain ⟨q, -, rfl⟩ := mem_coresOfPlacements.mp hk
    obtain ⟨r, hr, hcore, hcpu⟩ := mem_cpus_coreOfPlacements.mp hn
    obtain ⟨hr, hcluster⟩ := List.mem_filter.mp hr
    exact ⟨r, hr, beq_iff_eq.mp hcluster, hcore, hcpu⟩
  · rintro ⟨p, hp, rfl, rfl, rfl⟩
    have hmem : p ∈ ps.filter (·.cluster == p.cluster) := List.mem_filter.mpr ⟨hp, beq_self_eq_true _⟩
    refine ⟨_, ⟨p, hp, rfl⟩, _, mem_coresOfPlacements.mpr ⟨p, hmem, rfl⟩, p.cpu, ?_, rfl, rfl, rfl⟩
    exact mem_cpus_coreOfPlacements.mpr ⟨p, hmem, rfl, rfl⟩

theorem cores_ne_nil_ofPlacements (hc : c ∈ (ofPlacements ps).clusters) : c.cores ≠ [] := by
  obtain ⟨p, hp, rfl⟩ := mem_clusters_ofPlacements.mp hc
  refine List.ne_nil_of_mem (mem_coresOfPlacements.mpr ⟨p, ?_, rfl⟩)
  exact List.mem_filter.mpr ⟨hp, beq_self_eq_true _⟩

theorem cpus_ne_nil_ofPlacements (hc : c ∈ (ofPlacements ps).clusters) (hk : k ∈ c.cores) : k.cpus ≠ [] := by
  obtain ⟨p, -, rfl⟩ := mem_clusters_ofPlacements.mp hc
  obtain ⟨q, hq, rfl⟩ := mem_coresOfPlacements.mp hk
  exact List.ne_nil_of_mem (mem_cpus_coreOfPlacements.mpr ⟨q, hq, rfl, rfl⟩)

/-- **A core is declared to hold several CPUs where one of its placements declares it.** -/
theorem multiCpu_ofPlacements (hc : c ∈ (ofPlacements ps).clusters) (hk : k ∈ c.cores) :
    k.multiCpu = true ↔ ∃ p ∈ ps, p.cluster = c.id ∧ p.core = k.id ∧ p.multiCpu = true := by
  obtain ⟨p, -, rfl⟩ := mem_clusters_ofPlacements.mp hc
  obtain ⟨q, -, rfl⟩ := mem_coresOfPlacements.mp hk
  simp only [multiCpu_coreOfPlacements, List.mem_filter, beq_iff_eq, and_assoc]
  rfl

/-! ### Machines of such layouts -/

/-- Lists that carry different numbers have nothing in common. -/
theorem nodup_flatMap_of_key {α β : Type} {key : α → CpuId} {f : α → List β} (mark : β → CpuId) {l : List α}
    (hl : (l.map key).Nodup) (hf : ∀ a ∈ l, (f a).Nodup) (hmark : ∀ a ∈ l, ∀ b ∈ f a, mark b = key a) :
    (l.flatMap f).Nodup := by
  refine List.nodup_flatMap.mpr ⟨hf, ?_⟩
  refine (List.pairwise_map.mp hl).imp_of_mem fun {a a'} ha ha' hne => ?_
  exact fun b hb hb' => hne ((hmark a ha b hb).symm.trans (hmark a' ha' b hb'))

/-- **No CPU is met twice in one core.** -/
theorem nodup_triples (ps : List Placement) : (ofPlacements ps).triples.Nodup := by
  have hasc := ascending_ofPlacements ps
  refine nodup_flatMap_of_key (·.1) (nodup_of_ascending hasc.clusters) (fun c hc => ?_) ?_
  · have hcores := hasc.cores c hc
    refine nodup_flatMap_of_key (·.2.1) (nodup_of_ascending hcores.cores) (fun k hk => ?_) ?_
    · refine (nodup_of_ascending (hcores.cpus k hk)).map fun i j h => ?_
      exact congrArg (·.2.2) h
    · rintro k - _ ht
      obtain ⟨cpu, -, rfl⟩ := List.mem_map.mp ht
      rfl
  · rintro c - _ ht
    obtain ⟨k, -, ht⟩ := List.mem_flatMap.mp ht
    obtain ⟨cpu, -, rfl⟩ := List.mem_map.mp ht
    rfl

/-- A number occurs once in the layout unless it was placed in different cores. -/
theorem nodup_cpuIds_ofPlacements :
    (ofPlacements ps).cpuIds.Nodup ↔
      ∀ p ∈ ps, ∀ q ∈ ps, p.cpu = q.cpu → p.cluster = q.cluster ∧ p.core = q.core := by
  rw [← map_triples, List.nodup_map_iff_inj_on (nodup_triples ps)]
  constructor
  · intro h p hp q hq hcpu
    have heq := h _ (mem_triples_ofPlacements.mpr ⟨p, hp, rfl, rfl, rfl⟩) _
      (mem_triples_ofPlacements.mpr ⟨q, hq, rfl, rfl, rfl⟩) hcpu
    exact ⟨congrArg (·.1) heq, congrArg (·.2.1) heq⟩
  · rintro h ⟨i, j, n⟩ ht ⟨i', j', n'⟩ ht' rfl
    obtain ⟨p, hp, rfl, rfl, rfl⟩ := mem_triples_ofPlacements.mp ht
    obtain ⟨q, hq, rfl, rfl, hcpu⟩ := mem_triples_ofPlacements.mp ht'
    obtain ⟨hcluster, hcore⟩ := h p hp q hq hcpu.symm
    rw [hcluster, hcore]

/-- **A layout from placements has no fault** unless a CPU was placed in different cores. -/
theorem fault?_ofPlacements_eq_none_iff :
    (ofPlacements ps).fault? = none ↔
      ∀ p ∈ ps, ∀ q ∈ ps, p.cpu = q.cpu → p.cluster = q.cluster ∧ p.core = q.core := by
  rw [fault?_eq_none_iff, nodup_cpuIds_ofPlacements]
  constructor
  · exact fun h => h.2.2
  · exact fun h => ⟨fun _ => cores_ne_nil_ofPlacements, fun _ hc _ => cpus_ne_nil_ofPlacements hc, h⟩

end Layout

end PowerTrace
