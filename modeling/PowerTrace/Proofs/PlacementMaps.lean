import PowerTrace.Proofs.Gathering

/-!
# Placements gathered in ordered maps

The layout of placements can be made through ordered maps: one from cluster numbers, in it one from core
numbers for every cluster, and for every core its flag and a list of CPU numbers, into which a number is put
where a search by halving says that it belongs.

* `searchCpu`: where a number stands in an ascending list, or where it belongs;
* `placeCpu_eq_insertCpu`: putting a number there is putting it in order;
* `toList_map_eq`: what an ordered map lists, told by its look-ups;
* `Layout.throughMaps`: the layout made through maps;
* `Layout.throughMaps_eq`: it is the layout made of lists;
* `Layout.ofPlacements_gathers`: what stands in the layout, and when a machine can be built of it.
-/

namespace PowerTrace

/-! ### Searching by halving -/

/-- Where a number stands in an ascending list, or else where it belongs, found by halving. -/
def searchCpu (i : CpuId) (l : List CpuId) : Except Nat Nat :=
  match _h : l[l.length / 2]? with
  | none => .error 0
  | some c =>
    if i = c then .ok (l.length / 2)
    else if i < c then searchCpu i (l.take (l.length / 2))
    else match searchCpu i (l.drop (l.length / 2 + 1)) with
      | .ok n => .ok (l.length / 2 + 1 + n)
      | .error n => .error (l.length / 2 + 1 + n)
termination_by l.length
decreasing_by
  all_goals
    have hlt := (List.getElem?_eq_some_iff.mp _h).1
    simp only [List.length_take, List.length_drop]
    omega

/-- Put a number into an ascending list where a search says that it belongs, unless it is there. -/
def placeCpu (i : CpuId) (l : List CpuId) : List CpuId :=
  match searchCpu i l with
  | .ok _ => l
  | .error n => l.insertIdx n i

/-- What a search may answer: a place where the number stands, or one with the lower numbers before it and
the higher ones from there on. -/
def Answers (i : CpuId) (l : List CpuId) : Except Nat Nat → Prop
  | .ok n => l[n]? = some i
  | .error n =>
    n ≤ l.length ∧ ∀ (k : Nat) (j : CpuId), l[k]? = some j → (k < n → j < i) ∧ (n ≤ k → i < j)

/-- In an ascending list what stands before a number is lower and what stands behind it is higher. -/
theorem lt_of_getElem? {l : List CpuId} (h : l.Pairwise (· < ·)) {m k : Nat} {c j : CpuId}
    (hc : l[m]? = some c) (hj : l[k]? = some j) : (k < m → j < c) ∧ (m < k → c < j) := by
  obtain ⟨hm, rfl⟩ := List.getElem?_eq_some_iff.mp hc
  obtain ⟨hk, rfl⟩ := List.getElem?_eq_some_iff.mp hj
  have hlt := List.pairwise_iff_getElem.mp h
  exact ⟨hlt k m hk hm, hlt m k hm hk⟩

/-- What is answered about the numbers before a higher one is right about the whole list. -/
theorem Answers.of_take {i c : CpuId} {l : List CpuId} (h : l.Pairwise (· < ·)) {m : Nat}
    (hc : l[m]? = some c) (hlt : i < c) {r : Except Nat Nat} (hr : Answers i (l.take m) r) :
    Answers i l r := by
  have hm := (List.getElem?_eq_some_iff.mp hc).1
  cases r with
  | ok n =>
    have hfound : (l.take m)[n]? = some i := hr
    rw [List.getElem?_take] at hfound
    split at hfound
    · exact hfound
    · cases hfound
  | error n =>
    obtain ⟨hn, hplace⟩ := hr
    rw [List.length_take] at hn
    refine ⟨by omega, fun k j hj => ?_⟩
    rcases Nat.lt_or_ge k m with hk | hk
    · exact hplace k j (by rw [List.getElem?_take_of_lt hk, hj])
    · refine ⟨fun hkn => by omega, fun _ => ?_⟩
      -- from there on there are higher numbers only
      rcases Nat.lt_or_eq_of_le hk with hk | rfl
      · exact UInt32.lt_trans hlt ((lt_of_getElem? h hc hj).2 hk)
      · exact Option.some.inj (hc.symm.trans hj) ▸ hlt

/-- What is answered about the numbers behind a lower one is right about the whole list, counted from its
start. -/
theorem Answers.of_drop {i c : CpuId} {l : List CpuId} (h : l.Pairwise (· < ·)) {m : Nat}
    (hc : l[m]? = some c) (hlt : c < i) {r : Except Nat Nat} :
    Answers i (l.drop (m + 1)) r → Answers i l (match r with
      | .ok n => .ok (m + 1 + n)
      | .error n => .error (m + 1 + n)) := by
  intro hr
  have hm := (List.getElem?_eq_some_iff.mp hc).1
  cases r with
  | ok n =>
    have hfound : (l.drop (m + 1))[n]? = some i := hr
    rwa [List.getElem?_drop] at hfound
  | error n =>
    obtain ⟨hn, hplace⟩ := hr
    rw [List.length_drop] at hn
    refine ⟨by omega, fun k j hj => ?_⟩
    rcases Nat.lt_or_ge m k with hk | hk
    · obtain ⟨k, rfl⟩ := Nat.exists_eq_add_of_lt hk
      obtain ⟨hbefore, hafter⟩ := hplace k j (by rw [List.getElem?_drop, ← hj]; congr 1; omega)
      exact ⟨fun hkn => hbefore (by omega), fun hnk => hafter (by omega)⟩
    · refine ⟨fun _ => ?_, fun hnk => by omega⟩
      -- up to there there are lower numbers only
      rcases Nat.lt_or_eq_of_le hk with hk | rfl
      · exact UInt32.lt_trans ((lt_of_getElem? h hc hj).1 hk) hlt
      · exact Option.some.inj (hc.symm.trans hj) ▸ hlt

/-- **The search answers rightly in an ascending list.** -/
theorem answers_searchCpu (i : CpuId) {l : List CpuId} (h : l.Pairwise (· < ·)) :
    Answers i l (searchCpu i l) := by
  fun_induction searchCpu i l with
  | case1 l hnone =>
    -- only an empty list has no middle
    have hlen := List.getElem?_eq_none_iff.mp hnone
    obtain rfl : l = [] := List.length_eq_zero_iff.mp (by omega)
    exact ⟨Nat.le_refl 0, fun k j hk => by cases hk⟩
  | case2 l hmiddle => exact hmiddle
  | case3 l c hmiddle hne hlt ih => exact (ih (h.sublist (List.take_sublist _ _))).of_take h hmiddle hlt
  | case4 l c hmiddle hne hle n hn ih =>
    have hlt : c < i := UInt32.lt_of_le_of_ne (UInt32.not_lt.mp hle) (Ne.symm hne)
    rw [hn] at ih
    exact (ih (h.sublist (List.drop_sublist _ _))).of_drop h hmiddle hlt
  | case5 l c hmiddle hne hle n hn ih =>
    have hlt : c < i := UInt32.lt_of_le_of_ne (UInt32.not_lt.mp hle) (Ne.symm hne)
    rw [hn] at ih
    exact (ih (h.sublist (List.drop_sublist _ _))).of_drop h hmiddle hlt

/-- **Putting a number where the search says is putting it in order.** -/
theorem placeCpu_eq_insertCpu (i : CpuId) {l : List CpuId} (h : l.Pairwise (· < ·)) :
    placeCpu i l = insertCpu i l := by
  have hanswer := answers_searchCpu i h
  unfold placeCpu
  cases hs : searchCpu i l with
  | ok n =>
    rw [hs] at hanswer
    exact (insertCpu_of_mem h (List.mem_of_getElem? hanswer)).symm
  | error n =>
    rw [hs] at hanswer
    exact (insertCpu_eq_insertIdx hanswer.1 hanswer.2).symm

/-! ### Ordered maps -/

/-- **What an ordered map lists is told by its look-ups**: the entries of all its numbers, in order. -/
theorem toList_map_eq {β γ : Type} {m : Std.TreeMap CpuId β} {ids : List CpuId} {f : CpuId × β → γ}
    {g : CpuId → γ} (hm : ∀ i, i ∈ m ↔ i ∈ ids) (hg : ∀ i b, m[i]? = some b → f (i, b) = g i) :
    m.toList.map f = (inOrder ids).map g := by
  have hkeys : inOrder ids = m.keys := by
    refine eq_of_ascending (pairwise_inOrder ids) ?_ fun i => ?_
    · exact Std.TreeMap.ordered_keys.imp fun h => Std.compare_eq_lt.mp h
    · rw [mem_inOrder, Std.TreeMap.mem_keys, hm]
  rw [hkeys, ← Std.TreeMap.map_fst_toList_eq_keys, List.map_map]
  refine List.map_congr_left ?_
  rintro ⟨i, b⟩ hib
  exact hg i b (Std.TreeMap.mem_toList_iff_getElem?_eq_some.mp hib)

section Alter

variable {β : Type} {m : Std.TreeMap CpuId β} {i j : CpuId} (f : Option β → β)

theorem mem_alter_some : j ∈ m.alter i (fun b => some (f b)) ↔ j ∈ m ∨ j = i := by
  rw [Std.TreeMap.mem_alter]
  split
  · next h => simp [Std.LawfulEqCmp.compare_eq_iff_eq.mp h]
  · next h =>
    have hne : j ≠ i := fun he => h (Std.LawfulEqCmp.compare_eq_iff_eq.mpr he.symm)
    simp [hne]

theorem getElem?_alter_some_self : (m.alter i fun b => some (f b))[i]? = some (f m[i]?) := by
  rw [Std.TreeMap.getElem?_alter, if_pos (Std.LawfulEqCmp.compare_eq_iff_eq.mpr rfl)]

theorem getElem?_alter_some_of_ne (h : j ≠ i) : (m.alter i fun b => some (f b))[j]? = m[j]? := by
  rw [Std.TreeMap.getElem?_alter, if_neg fun he => h (Std.LawfulEqCmp.compare_eq_iff_eq.mp he).symm]

end Alter

/-- The cores of a cluster by number: the flag and the CPUs of each. -/
abbrev CoreMap := Std.TreeMap CpuId (Bool × List CpuId)

/-- What a core holds with one CPU more; nothing stands for a core that holds none yet. -/
def Placement.extend (p : Placement) (entry : Option (Bool × List CpuId)) : Bool × List CpuId :=
  let (multiCpu, cpus) := entry.getD (false, [])
  (multiCpu || p.multiCpu, placeCpu p.cpu cpus)

/-- Put a CPU into its core. -/
def CoreMap.place (cores : CoreMap) (p : Placement) : CoreMap :=
  cores.alter p.core fun entry => some (p.extend entry)

/-- The cores in the order of their numbers. -/
def CoreMap.layout (cores : CoreMap) : List CoreLayout :=
  cores.toList.map fun (id, multiCpu, cpus) => ⟨id, multiCpu, cpus⟩

/-- The clusters of a machine by number. -/
abbrev ClusterMap := Std.TreeMap CpuId CoreMap

/-- Put a CPU into its cluster. -/
def ClusterMap.place (clusters : ClusterMap) (p : Placement) : ClusterMap :=
  clusters.alter p.cluster fun cores => some ((cores.getD ∅).place p)

/-- The clusters in the order of their numbers. -/
def ClusterMap.layout (clusters : ClusterMap) : Layout :=
  ⟨clusters.toList.map fun (id, cores) => ⟨id, cores.layout⟩⟩

section Places

variable (ps : List Placement)

/-- The cores of a cluster, placement after placement. -/
def coreMap : CoreMap := ps.foldl CoreMap.place ∅

/-- The clusters of a machine, placement after placement. -/
def clusterMap : ClusterMap := ps.foldl ClusterMap.place ∅

/-- The layout of placements, gathered in ordered maps. -/
def Layout.throughMaps : Layout := (clusterMap ps).layout

/-! ### Placement after placement -/

/-- The map of the cores holds those that were placed, and shows of each what the placements tell. -/
theorem coreMap_spec :
    (∀ i, i ∈ coreMap ps ↔ i ∈ ps.map (·.core)) ∧
      ∀ i, (coreMap ps)[i]?.getD (false, []) =
        ((coreOfPlacements ps i).multiCpu, (coreOfPlacements ps i).cpus) := by
  induction ps using List.reverseRecOn with
  | nil => exact ⟨fun i => by simp [coreMap], fun i => rfl⟩
  | append_singleton ps p ih =>
    obtain ⟨hmem, hentry⟩ := ih
    have hplace : coreMap (ps ++ [p]) = (coreMap ps).place p := List.foldl_concat _ _ _ _
    rw [hplace, CoreMap.place]
    refine ⟨fun i => ?_, fun i => ?_⟩
    · rw [mem_alter_some, hmem, List.map_append, List.mem_append, List.map_singleton, List.mem_singleton]
    · by_cases hi : i = p.core
      · subst hi
        rw [getElem?_alter_some_self, Option.getD_some, Placement.extend, hentry, coreOfPlacements_concat_self]
        exact congrArg _ (placeCpu_eq_insertCpu _ (pairwise_inOrder _))
      · rw [getElem?_alter_some_of_ne _ hi, hentry, coreOfPlacements_concat_of_ne p ps hi]

theorem layout_coreMap : (coreMap ps).layout = coresOfPlacements ps := by
  obtain ⟨hmem, hentry⟩ := coreMap_spec ps
  refine toList_map_eq hmem fun i b hb => ?_
  have hpair := hentry i
  rw [hb, Option.getD_some] at hpair
  rw [hpair]
  rfl

/-- The map of the clusters holds those that were placed, and shows of each the map of its own cores. -/
theorem clusterMap_spec :
    (∀ i, i ∈ clusterMap ps ↔ i ∈ ps.map (·.cluster)) ∧
      ∀ i, (clusterMap ps)[i]?.getD ∅ = coreMap (ps.filter (·.cluster == i)) := by
  induction ps using List.reverseRecOn with
  | nil => exact ⟨fun i => by simp [clusterMap], fun i => rfl⟩
  | append_singleton ps p ih =>
    obtain ⟨hmem, hentry⟩ := ih
    have hplace : clusterMap (ps ++ [p]) = (clusterMap ps).place p := List.foldl_concat _ _ _ _
    rw [hplace, ClusterMap.place]
    refine ⟨fun i => ?_, fun i => ?_⟩
    · rw [mem_alter_some, hmem, List.map_append, List.mem_append, List.map_singleton, List.mem_singleton]
    · by_cases hi : i = p.cluster
      · subst hi
        rw [getElem?_alter_some_self, Option.getD_some, hentry, filter_key_concat_self]
        exact (List.foldl_concat _ _ _ _).symm
      · rw [getElem?_alter_some_of_ne _ hi, hentry, filter_key_concat_of_ne ps hi]

/-- **The layout gathered in ordered maps is the one made of lists.** -/
theorem Layout.throughMaps_eq : throughMaps ps = ofPlacements ps := by
  obtain ⟨hmem, hentry⟩ := clusterMap_spec ps
  rw [ofPlacements_eq_gathered, gathered, throughMaps, ClusterMap.layout, Layout.mk.injEq]
  refine toList_map_eq hmem fun i b hb => ?_
  have hcores := hentry i
  rw [hb, Option.getD_some] at hcores
  rw [hcores, clusterOfPlacements, ← layout_coreMap]

end Places

namespace Layout

/-- **A layout gathers its placements.**  Clusters, the cores of each and the CPUs of each core come in
strictly ascending order; there is no group without members; the CPUs are those that were placed, where
they were placed; a core is declared to hold several CPUs exactly where a placement of that core in that
cluster declares it.  The layout depends on nothing but which placements there are: another order leads
to the same one, and so does repeating some of them.  Whatever states are described with it, a machine is
built of it exactly when no CPU was placed in different cores.  Ordered maps that are filled placement by
placement lead to the same layout. -/
theorem ofPlacements_gathers {τ : Type} [TimeValue τ] (ps : List Placement) :
    ClusterLayout.Ascending (ofPlacements ps).clusters ∧
      (∀ c ∈ (ofPlacements ps).clusters, c.cores ≠ [] ∧ ∀ k ∈ c.cores, k.cpus ≠ []) ∧
      (∀ cluster core cpu, (cluster, core, cpu) ∈ (ofPlacements ps).triples ↔
        ∃ p ∈ ps, p.cluster = cluster ∧ p.core = core ∧ p.cpu = cpu) ∧
      (∀ c ∈ (ofPlacements ps).clusters, ∀ k ∈ c.cores, k.multiCpu = true ↔
        ∃ p ∈ ps, p.cluster = c.id ∧ p.core = k.id ∧ p.multiCpu = true) ∧
      (∀ qs, ps.Perm qs → ofPlacements qs = ofPlacements ps) ∧
      (∀ qs, (∀ p, p ∈ qs ↔ p ∈ ps) → ofPlacements qs = ofPlacements ps) ∧
      (∀ states : List StateDescriptor,
        (∃ t : Topology τ, Topology.build (.ofPlacements ps states) = .ok t) ↔
          ∀ p ∈ ps, ∀ q ∈ ps, p.cpu = q.cpu → p.cluster = q.cluster ∧ p.core = q.core) ∧
      throughMaps ps = ofPlacements ps := by
  refine ⟨ascending_ofPlacements ps, fun c hc => ?_, fun _ _ _ => mem_triples_ofPlacements,
    fun c hc k => multiCpu_ofPlacements hc, fun qs h => ?_, fun qs => ofPlacements_congr, fun states => ?_,
    throughMaps_eq ps⟩
  · exact ⟨cores_ne_nil_ofPlacements hc, fun k => cpus_ne_nil_ofPlacements hc⟩
  · exact ofPlacements_congr fun p => h.mem_iff.symm
  · rw [← fault?_ofPlacements_eq_none_iff]
    simp only [Topology.build_eq_ok_iff, Description.ofPlacements, exists_and_left, exists_eq, and_true]

end Layout

end PowerTrace
