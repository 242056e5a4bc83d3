import PowerTrace.Layout

/-!
# Layouts from placements

Putting CPUs into a layout one after the other keeps every level in ascending order, so no cluster
has the number of another one, and no core that of another one in its cluster.

* `pairwise_insertCpu`: a number put into an ascending list;
* `insertCpu_of_mem`, `insertCpu_eq_insertIdx`: where a search for the number would put it;
* `map_id_insertCore`, `map_id_insertCluster`: what a placement does to the numbers of a level is that;
* `Layout.Ascending`, `Layout.ascending_ofPlacements`: the order that all placements together keep.
-/

namespace PowerTrace

/-! ### One number more -/

theorem mem_insertCpu {i j : CpuId} {l : List CpuId} : j ∈ insertCpu i l ↔ j = i ∨ j ∈ l := by
  induction l with
  | nil => simp [insertCpu]
  | cons c rest ih =>
    unfold insertCpu
    split
    · exact List.mem_cons
    · split
      · next h =>
        rw [h]
        exact ⟨.inr, fun hj => hj.elim (fun he => he ▸ List.mem_cons_self) id⟩
      · rw [List.mem_cons, ih, List.mem_cons]
        exact or_left_comm

/-- **A number put into an ascending list keeps it ascending.** -/
theorem pairwise_insertCpu (i : CpuId) {l : List CpuId} (h : l.Pairwise (· < ·)) :
    (insertCpu i l).Pairwise (· < ·) := by
  induction l with
  | nil => exact List.pairwise_singleton _ _
  | cons c rest ih =>
    obtain ⟨hc, hrest⟩ := List.pairwise_cons.mp h
    unfold insertCpu
    split
    · next hlt =>
      refine List.pairwise_cons.mpr ⟨fun j hj => ?_, h⟩
      rcases List.mem_cons.mp hj with rfl | hj
      · exact hlt
      · exact UInt32.lt_trans hlt (hc j hj)
    · next hnot =>
      split
      · exact h
      · next hne =>
        refine List.pairwise_cons.mpr ⟨fun j hj => ?_, ih hrest⟩
        rcases mem_insertCpu.mp hj with rfl | hj
        · exact UInt32.lt_of_le_of_ne (UInt32.not_lt.mp hnot) (Ne.symm hne)
        · exact hc j hj

/-- Where a search finds the number nothing is put in. -/
theorem insertCpu_of_mem {i : CpuId} {l : List CpuId} (h : l.Pairwise (· < ·)) (hi : i ∈ l) :
    insertCpu i l = l := by
  induction l with
  | nil => exact absurd hi List.not_mem_nil
  | cons c rest ih =>
    obtain ⟨hc, hrest⟩ := List.pairwise_cons.mp h
    rcases List.mem_cons.mp hi with rfl | hi
    · rw [insertCpu, if_neg (UInt32.lt_irrefl i), if_pos rfl]
    · have hlt := hc i hi
      rw [insertCpu, if_neg (UInt32.lt_asymm hlt), if_neg (UInt32.ne_of_lt hlt).symm, ih hrest hi]

/-- Where a search finds no more than the place that the number belongs to, it is put there. -/
theorem insertCpu_eq_insertIdx {i : CpuId} {l : List CpuId} {n : Nat} (hn : n ≤ l.length)
    (h : ∀ (k : Nat) (j : CpuId), l[k]? = some j → (k < n → j < i) ∧ (n ≤ k → i < j)) :
    insertCpu i l = l.insertIdx n i := by
  induction l generalizing n with
  | nil =>
    obtain rfl : n = 0 := Nat.le_zero.mp hn
    rfl
  | cons c rest ih =>
    have hc := h 0 c rfl
    cases n with
    | zero => rw [insertCpu, if_pos (hc.2 (Nat.le_refl 0)), List.insertIdx_zero]
    | succ n =>
      have hlt : c < i := hc.1 n.succ_pos
      have hrest : ∀ (k : Nat) (j : CpuId), rest[k]? = some j → (k < n → j < i) ∧ (n ≤ k → i < j) := by
        intro k j hk
        obtain ⟨hbefore, hafter⟩ := h (k + 1) j hk
        exact ⟨fun hkn => hbefore (Nat.succ_lt_succ hkn), fun hnk => hafter (Nat.succ_le_succ hnk)⟩
      rw [insertCpu, if_neg (UInt32.lt_asymm hlt), if_neg (UInt32.ne_of_lt hlt).symm,
        List.insertIdx_succ_cons, ih (Nat.le_of_succ_le_succ hn) hrest]

/-! ### One placement more -/

/-- The cores of a cluster come in ascending order, and so do the CPUs of each. -/
structure CoreLayout.Ascending (ks : List CoreLayout) : Prop where
  cores : (ks.map (·.id)).Pairwise (· < ·)
  cpus : ∀ k ∈ ks, k.cpus.Pairwise (· < ·)

/-- The clusters come in ascending order, and so does what each of them holds. -/
structure ClusterLayout.Ascending (cs : List ClusterLayout) : Prop where
  clusters : (cs.map (·.id)).Pairwise (· < ·)
  cores : ∀ c ∈ cs, CoreLayout.Ascending c.cores

variable (p : Placement)

theorem map_id_insertCore (ks : List CoreLayout) :
    (insertCore p ks).map (·.id) = insertCpu p.core (ks.map (·.id)) := by
  induction ks with
  | nil => rfl
  | cons k rest ih =>
    rw [List.map_cons]
    unfold insertCore insertCpu
    split
    · rfl
    · split
      · rfl
      · rw [List.map_cons, ih]

theorem map_id_insertCluster (cs : List ClusterLayout) :
    (insertCluster p cs).map (·.id) = insertCpu p.cluster (cs.map (·.id)) := by
  induction cs with
  | nil => rfl
  | cons c rest ih =>
    rw [List.map_cons]
    unfold insertCluster insertCpu
    split
    · rfl
    · split
      · rfl
      · rw [List.map_cons, ih]

theorem CoreLayout.Ascending.insertCore {ks : List CoreLayout} (h : Ascending ks) :
    Ascending (insertCore p ks) := by
  refine ⟨by rw [map_id_insertCore]; exact pairwise_insertCpu _ h.cores, ?_⟩
  have hcpus := h.cpus
  clear h
  induction ks with
  | nil =>
    intro k hk
    rw [List.mem_singleton.mp hk]
    exact List.pairwise_singleton _ _
  | cons k rest ih =>
    obtain ⟨hk, hrest⟩ := List.forall_mem_cons.mp hcpus
    unfold PowerTrace.insertCore
    split
    · exact List.forall_mem_cons.mpr ⟨List.pairwise_singleton _ _, hcpus⟩
    · split
      · exact List.forall_mem_cons.mpr ⟨pairwise_insertCpu _ hk, hrest⟩
      · exact List.forall_mem_cons.mpr ⟨hk, ih hrest⟩

theorem ClusterLayout.Ascending.insertCluster {cs : List ClusterLayout} (h : Ascending cs) :
    Ascending (insertCluster p cs) := by
  have hnone : CoreLayout.Ascending [] := ⟨.nil, fun _ hk => absurd hk List.not_mem_nil⟩
  refine ⟨by rw [map_id_insertCluster]; exact pairwise_insertCpu _ h.clusters, ?_⟩
  have hcores := h.cores
  clear h
  induction cs with
  | nil =>
    intro c hc
    rw [List.mem_singleton.mp hc]
    exact hnone.insertCore p
  | cons c rest ih =>
    obtain ⟨hc, hrest⟩ := List.forall_mem_cons.mp hcores
    unfold PowerTrace.insertCluster
    split
    · exact List.forall_mem_cons.mpr ⟨hnone.insertCore p, hcores⟩
    · split
      · exact List.forall_mem_cons.mpr ⟨hc.insertCore p, hrest⟩
      · exact List.forall_mem_cons.mpr ⟨hc, ih hrest⟩

/-! ### All placements -/

/-- **Every level of a layout from placements is in ascending order.** -/
theorem Layout.ascending_ofPlacements (ps : List Placement) :
    ClusterLayout.Ascending (ofPlacements ps).clusters := by
  have hfold : ∀ cs, ClusterLayout.Ascending cs →
      ClusterLayout.Ascending (ps.foldl (fun clusters p => insertCluster p clusters) cs) := by
    induction ps with
    | nil => exact fun cs h => h
    | cons p ps ih => exact fun cs h => ih _ (h.insertCluster p)
  exact hfold [] ⟨.nil, fun _ hc => absurd hc List.not_mem_nil⟩

/-- In an ascending list no number occurs twice. -/
theorem nodup_of_ascending {l : List CpuId} (h : l.Pairwise (· < ·)) : l.Nodup :=
  h.imp fun hlt => UInt32.ne_of_lt hlt

end PowerTrace
