import PowerTrace.Analysis
import PowerTrace.Proofs.ExactTime
import PowerTrace.Proofs.Pairing
import PowerTrace.Proofs.Run

/-!
# Lining up two machines

Lining up a machine with its baseline opens slots and does nothing else.  It lines up every pair of
tables that a report puts side by side, and doing it again changes nothing, exactly when twins are
covered: of clusters with one number, and of cores with one number in them, only the first may bring
frequencies that the counterpart lacks.  What a later twin brings reaches the counterpart, and not
the first twin.

* `Topology.Extends`: a machine whose tables have more slots than those of another;
* `cores_fst_lineUp`, `cores_absorb`: lining up clusters lines up their cores, twins in one list;
* `Topology.Paired`: a relation between all tables that are matched;
* `Topology.TwinsCovered`: what it takes to line up all tables;
* `alignTopologies_spec`: what lining up two machines does;
* `twin_not_lined_up`: a pair of machines that it fails to line up.
-/

namespace PowerTrace

variable {τ : Type}

/-! ### Machines with more slots -/

section Extends

variable [TimeValue τ]

/-- A CPU whose table has more slots. -/
structure Cpu.Extends (old new : Cpu τ) : Prop where
  id : new.id = old.id
  cstates : new.cstates = old.cstates
  wakeups : new.wakeups = old.wakeups
  pstates : old.pstates.Extends new.pstates

/-- A core whose table, and those of its CPUs, have more slots. -/
structure Core.Extends (old new : Core τ) : Prop where
  id : new.id = old.id
  multiCpu : new.multiCpu = old.multiCpu
  cstates : new.cstates = old.cstates
  pstates : old.pstates.Extends new.pstates
  cpus : List.Forall₂ Cpu.Extends old.cpus new.cpus

/-- A cluster whose table, and those of its cores, have more slots. -/
structure Cluster.Extends (old new : Cluster τ) : Prop where
  id : new.id = old.id
  cstates : new.cstates = old.cstates
  pstates : old.pstates.Extends new.pstates
  cores : List.Forall₂ Core.Extends old.cores new.cores

/-- A machine whose tables have more slots than those of another, and that is the same otherwise. -/
def Topology.Extends (old new : Topology τ) : Prop :=
  List.Forall₂ Cluster.Extends old.clusters new.clusters

theorem Cpu.Extends.refl (c : Cpu τ) : c.Extends c := ⟨rfl, rfl, rfl, .refl _⟩

theorem Cpu.Extends.trans {a b c : Cpu τ} (h : a.Extends b) (h' : b.Extends c) : a.Extends c :=
  ⟨h'.id.trans h.id, h'.cstates.trans h.cstates, h'.wakeups.trans h.wakeups,
    h.pstates.trans h'.pstates⟩

theorem Core.Extends.refl (k : Core τ) : k.Extends k :=
  ⟨rfl, rfl, rfl, .refl _, List.forall₂_same.mpr fun c _ => .refl c⟩

theorem Core.Extends.trans {a b c : Core τ} (h : a.Extends b) (h' : b.Extends c) : a.Extends c :=
  ⟨h'.id.trans h.id, h'.multiCpu.trans h.multiCpu, h'.cstates.trans h.cstates,
    h.pstates.trans h'.pstates, forall₂_trans (fun _ _ _ => .trans) h.cpus h'.cpus⟩

theorem Cluster.Extends.refl (c : Cluster τ) : c.Extends c :=
  ⟨rfl, rfl, .refl _, List.forall₂_same.mpr fun k _ => .refl k⟩

theorem Cluster.Extends.trans {a b c : Cluster τ} (h : a.Extends b) (h' : b.Extends c) :
    a.Extends c :=
  ⟨h'.id.trans h.id, h'.cstates.trans h.cstates, h.pstates.trans h'.pstates,
    forall₂_trans (fun _ _ _ => .trans) h.cores h'.cores⟩

/-- Lining up two clusters extends both. -/
theorem Cluster.extends_align (a b : Cluster τ) :
    a.Extends (alignClusters a b).1 ∧ b.Extends (alignClusters a b).2 := by
  have hcore : ∀ k q : Core τ, k.Extends (alignCores k q).1 ∧ q.Extends (alignCores k q).2 := by
    intro k q
    exact ⟨⟨rfl, rfl, rfl, k.pstates.extends_cover _, (Core.Extends.refl k).cpus⟩,
      ⟨rfl, rfl, rfl, q.pstates.extends_cover _, (Core.Extends.refl q).cpus⟩⟩
  obtain ⟨hl, hr⟩ := forall₂_lineUp Core.id (R := Core.Extends) Core.Extends.refl
    (fun _ _ _ => .trans) hcore a.cores b.cores
  exact ⟨⟨rfl, rfl, a.pstates.extends_cover _, hl⟩, ⟨rfl, rfl, b.pstates.extends_cover _, hr⟩⟩

/-! ### The CPUs -/

/-- A core whose CPUs are lined up with those of another machine. -/
def Core.alignCpus (other : Topology τ) (k : Core τ) : Core τ :=
  { k with cpus := k.cpus.map (·.alignWith other) }

/-- A cluster whose CPUs are lined up with those of another machine. -/
def Cluster.alignCpus (other : Topology τ) (c : Cluster τ) : Cluster τ :=
  { c with cores := c.cores.map (·.alignCpus other) }

theorem Topology.clusters_alignCpus (other t : Topology τ) :
    (Topology.alignCpus other t).clusters = t.clusters.map (·.alignCpus other) := rfl

@[simp] theorem Cpu.id_alignWith (other : Topology τ) (c : Cpu τ) :
    (c.alignWith other).id = c.id := by
  unfold Cpu.alignWith
  split <;> rfl

theorem Cpu.extends_alignWith (other : Topology τ) (c : Cpu τ) : c.Extends (c.alignWith other) := by
  unfold Cpu.alignWith
  split
  · exact ⟨rfl, rfl, rfl, c.pstates.extends_cover _⟩
  · exact .refl c

theorem Topology.extends_alignCpus (other t : Topology τ) :
    t.Extends (Topology.alignCpus other t) := by
  have hcore : ∀ k : Core τ, k.Extends (k.alignCpus other) := by
    intro k
    refine ⟨rfl, rfl, rfl, .refl _, ?_⟩
    exact List.forall₂_map_right_iff.mpr
      (List.forall₂_same.mpr fun c _ => c.extends_alignWith other)
  have hcluster : ∀ c : Cluster τ, c.Extends (c.alignCpus other) := by
    intro c
    refine ⟨rfl, rfl, .refl _, ?_⟩
    exact List.forall₂_map_right_iff.mpr (List.forall₂_same.mpr fun k _ => hcore k)
  exact List.forall₂_map_right_iff.mpr (List.forall₂_same.mpr fun c _ => hcluster c)

theorem Topology.cpus_alignCpus (other t : Topology τ) :
    (Topology.alignCpus other t).cpus = t.cpus.map (·.alignWith other) := by
  have hcluster : ∀ c : Cluster τ, (c.alignCpus other).cpus = c.cpus.map (·.alignWith other) := by
    intro c
    rw [Cluster.cpus, Cluster.alignCpus, List.flatMap_map, Cluster.cpus, List.map_flatMap]
    rfl
  rw [Topology.cpus, Topology.clusters_alignCpus, List.flatMap_map, Topology.cpus, List.map_flatMap]
  simp only [hcluster]

/-- Lining up clusters and cores leaves the CPUs. -/
theorem cpus_lineUp (a b : Topology τ) :
    (⟨(lineUp Cluster.id alignClusters a.clusters b.clusters).1⟩ : Topology τ).cpus = a.cpus ∧
      (⟨(lineUp Cluster.id alignClusters a.clusters b.clusters).2⟩ : Topology τ).cpus = b.cpus := by
  have hcore : ∀ ks qs : List (Core τ),
      List.Forall₂ (fun k k' => k.cpus = k'.cpus) ks (lineUp Core.id alignCores ks qs).1 ∧
        List.Forall₂ (fun q q' => q.cpus = q'.cpus) qs (lineUp Core.id alignCores ks qs).2 :=
    forall₂_lineUp Core.id (fun _ => rfl) (fun _ _ _ => Eq.trans) fun _ _ => ⟨rfl, rfl⟩
  have hcluster : ∀ c p : Cluster τ, c.cpus = (alignClusters c p).1.cpus ∧
      p.cpus = (alignClusters c p).2.cpus := by
    intro c p
    obtain ⟨hl, hr⟩ := hcore c.cores p.cores
    exact ⟨flatMap_eq_of_forall₂ hl, flatMap_eq_of_forall₂ hr⟩
  obtain ⟨hl, hr⟩ := forall₂_lineUp Cluster.id (R := fun c c' : Cluster τ => c.cpus = c'.cpus)
    (fun _ => rfl) (fun _ _ _ => Eq.trans) hcluster a.clusters b.clusters
  exact ⟨(flatMap_eq_of_forall₂ hl).symm, (flatMap_eq_of_forall₂ hr).symm⟩

end Extends

/-! ### Clusters and their cores -/

section Clusters

variable [TimeValue τ]

theorem alignsTables_cores :
    AlignsTables Core.id Core.pstates (alignCores : Core τ → Core τ → Core τ × Core τ) where
  left _ _ := rfl
  right _ _ := rfl
  fst _ _ := rfl
  snd _ _ := rfl

theorem alignsTables_clusters :
    AlignsTables Cluster.id Cluster.pstates
      (alignClusters : Cluster τ → Cluster τ → Cluster τ × Cluster τ) where
  left _ _ := rfl
  right _ _ := rfl
  fst _ _ := rfl
  snd _ _ := rfl

/-- The cores of a counterpart are lined up with the cores of all its clusters. -/
theorem cores_absorb (p : Cluster τ) (cs : List (Cluster τ)) :
    (absorb alignClusters p cs).cores =
      (lineUp Core.id alignCores (cs.flatMap (·.cores)) p.cores).2 := by
  induction cs generalizing p with
  | nil => rfl
  | cons c cs ih =>
    rw [absorb_cons, ih, List.flatMap_cons, lineUp_append]
    rfl

/-- **Twins share their cores**: the cores of all clusters with one number are lined up with the
cores of their counterpart as if they stood in one list. -/
theorem cores_fst_lineUp {cs ps : List (Cluster τ)} {i : CpuId} {p : Cluster τ}
    (hp : ps.find? (·.id == i) = some p) :
    ((lineUp Cluster.id alignClusters cs ps).1.filter (·.id == i)).flatMap (·.cores) =
      (lineUp Core.id alignCores ((cs.filter (·.id == i)).flatMap (·.cores)) p.cores).1 := by
  induction cs generalizing ps p with
  | nil => rfl
  | cons c cs ih =>
    rw [lineUp_cons]
    have hnext := find?_snd_alignFirst (alignsTables_clusters (τ := τ)).toKeepsKeys c ps i
    rw [hp, Option.map_some] at hnext
    have hid : (alignFirst (fun x y => x.id == y.id) alignClusters c ps).1.id = c.id := by
      rw [fst_alignFirst Cluster.id]
      cases ps.find? (Cluster.id · == Cluster.id c) <;> rfl
    by_cases hi : c.id = i
    · rw [if_pos hi] at hnext
      rw [filter_key_of_eq Cluster.id (hid.trans hi), filter_key_of_eq Cluster.id hi,
        List.flatMap_cons, List.flatMap_cons, lineUp_append, ih hnext,
        fst_alignFirst Cluster.id, hi, hp]
      rfl
    · rw [if_neg hi] at hnext
      rw [filter_key_of_ne Cluster.id (by rwa [hid]), filter_key_of_ne Cluster.id hi]
      exact ih hnext

/-! ### Tables that are matched -/

/-- A relation between the tables of two clusters, and those of every core of the one and its
counterpart in the other. -/
structure Cluster.Paired (R : PStateTrack τ → PStateTrack τ → Prop) (c p : Cluster τ) : Prop where
  pstates : R c.pstates p.pstates
  cores : Matched Core.id (fun k q => R k.pstates q.pstates) c.cores p.cores

/-- A relation between the tables of two machines wherever they are matched. -/
structure Topology.Paired (R : PStateTrack τ → PStateTrack τ → Prop) (a b : Topology τ) :
    Prop where
  clusters : Matched Cluster.id (Cluster.Paired R) a.clusters b.clusters
  cpus : Matched Cpu.id (fun c p => R c.pstates p.pstates) a.cpus b.cpus

/-- Of the clusters with one number, and of the cores with one number in them, only the first brings
frequencies that their counterpart lacks. -/
structure Topology.TwinsCovered (a b : Topology τ) : Prop where
  clusters : PowerTrace.TwinsCovered Cluster.id Cluster.pstates a.clusters b.clusters
  cores : ∀ i p, b.cluster? i = some p →
    PowerTrace.TwinsCovered Core.id Core.pstates
      ((a.clusters.filter (·.id == i)).flatMap (·.cores)) p.cores

/-- Where twins are covered, all clusters and cores come out level with their counterparts. -/
theorem Topology.TwinsCovered.sameFreqs {a b : Topology τ} (h : a.TwinsCovered b) :
    Matched Cluster.id (Cluster.Paired PStateTrack.SameFreqs)
      (lineUp Cluster.id alignClusters a.clusters b.clusters).1
      (lineUp Cluster.id alignClusters a.clusters b.clusters).2 := by
  intro c' hc' p' hp'
  refine ⟨sameFreqs_lineUp alignsTables_clusters h.clusters c' hc' p' hp', ?_⟩
  rw [find?_snd_lineUp alignsTables_clusters.toKeepsKeys] at hp'
  obtain ⟨p, hp, rfl⟩ := Option.map_eq_some_iff.mp hp'
  intro k' hk' q' hq'
  rw [cores_absorb] at hq'
  have hmem : k' ∈ (lineUp Core.id alignCores
      ((a.clusters.filter (·.id == c'.id)).flatMap (·.cores)) p.cores).1 := by
    rw [← cores_fst_lineUp hp]
    exact List.mem_flatMap.mpr ⟨c', List.mem_filter.mpr ⟨hc', beq_self_eq_true _⟩, hk'⟩
  exact sameFreqs_lineUp alignsTables_cores (h.cores c'.id p hp) k' hmem q' hq'

/-- Where all clusters and cores come out with the frequencies of their counterparts, twins were
covered. -/
theorem Topology.twinsCovered_of_covers {a b : Topology τ}
    (h : Matched Cluster.id (Cluster.Paired PStateTrack.Covers)
      (lineUp Cluster.id alignClusters a.clusters b.clusters).1
      (lineUp Cluster.id alignClusters a.clusters b.clusters).2) : a.TwinsCovered b := by
  refine ⟨PowerTrace.twinsCovered_of_covers alignsTables_clusters (h.imp fun _ _ hR => hR.pstates),
    ?_⟩
  intro i p hp
  refine PowerTrace.twinsCovered_of_covers alignsTables_cores ?_
  intro k' hk' q' hq'
  rw [← cores_fst_lineUp hp] at hk'
  obtain ⟨c', hc', hk'⟩ := List.mem_flatMap.mp hk'
  obtain ⟨hc', hi⟩ := List.mem_filter.mp hc'
  have hp' : (lineUp Cluster.id alignClusters a.clusters b.clusters).2.find? (·.id == c'.id) =
      some (absorb alignClusters p (a.clusters.filter (·.id == i))) := by
    have hfind : b.clusters.find? (·.id == i) = some p := hp
    rw [beq_iff_eq.mp hi, find?_snd_lineUp alignsTables_clusters.toKeepsKeys,
      hfind, Option.map_some]
  refine (h c' hc' _ hp').cores k' hk' q' ?_
  rw [cores_absorb]
  exact hq'

/-- Two clusters that are level come out as they went in. -/
theorem alignClusters_eq_self {c p : Cluster τ} (h : c.Paired PStateTrack.SameFreqs p) :
    alignClusters c p = (c, p) := by
  have hcores : lineUp Core.id alignCores c.cores p.cores = (c.cores, p.cores) := by
    refine lineUp_eq_self (h.cores.imp ?_)
    intro k q hkq
    show (({ k with pstates := _ } : Core τ), ({ q with pstates := _ } : Core τ)) = (k, q)
    rw [alignTracks, PStateTrack.cover_of_subset fun f => (hkq f).mpr,
      PStateTrack.cover_of_subset fun f => (hkq f).mp]
  show (({ c with
    pstates := _, cores := (lineUp Core.id alignCores c.cores p.cores).1 } : Cluster τ),
    ({ p with
      pstates := _, cores := (lineUp Core.id alignCores c.cores p.cores).2 } : Cluster τ)) = (c, p)
  rw [hcores, alignTracks, PStateTrack.cover_of_subset fun f => (h.pstates f).mpr,
    PStateTrack.cover_of_subset fun f => (h.pstates f).mp]

/-- What a cluster gets from its counterpart: all frequencies, and all frequencies for each of its
cores. -/
def Cluster.Gets (c c' p : Cluster τ) : Prop :=
  c'.pstates.Covers p.pstates ∧
    List.Forall₂ (fun k k' : Core τ => ∀ q, p.cores.find? (·.id == k.id) = some q →
      k'.pstates.Covers q.pstates) c.cores c'.cores

/-- Lining up others with a counterpart first lessens nothing that it gives. -/
theorem Cluster.gets_of_gets_align {c c' p z : Cluster τ}
    (h : c.Gets c' (alignClusters z p).2) : c.Gets c' p := by
  refine ⟨fun f hf => h.1 f ((p.pstates.extends_cover _).covers f hf), h.2.imp ?_⟩
  intro k k' hk q hq f hf
  refine hk (absorb alignCores q (z.cores.filter (·.id == k.id))) ?_ f ?_
  · show (lineUp Core.id alignCores z.cores p.cores).2.find? (·.id == k.id) = _
    rw [find?_snd_lineUp alignsTables_cores.toKeepsKeys, hq, Option.map_some]
  · exact alignsTables_cores.mem_freqs_absorb.mpr (.inl hf)

/-- Clusters that come out as they went in, up to their CPUs, had the frequencies of their
counterparts. -/
theorem covers_of_lineUp_eq {cs ps : List (Cluster τ)} {other : Topology τ}
    (h : (lineUp Cluster.id alignClusters cs ps).1.map (·.alignCpus other) = cs) :
    Matched Cluster.id (Cluster.Paired PStateTrack.Covers) cs ps := by
  have hcores := forall₂_fst_lineUp (F := fun _ k' q : Core τ => k'.pstates.Covers q.pstates)
    alignsTables_cores.toKeepsKeys
    (fun k q f hf => alignsTables_cores.mem_freqs_fst.mpr (.inr hf))
    (fun _ k' q z hk f hf => hk f ((q.pstates.extends_cover _).covers f hf))
  have hself : ∀ c p : Cluster τ, c.Gets (alignClusters c p).1 p := by
    intro c p
    exact ⟨fun f hf => alignsTables_clusters.mem_freqs_fst.mpr (.inr hf), hcores c.cores p.cores⟩
  have hout := forall₂_fst_lineUp (F := Cluster.Gets) alignsTables_clusters.toKeepsKeys hself
    (fun _ _ _ _ => Cluster.gets_of_gets_align) cs ps
  have hsame : List.Forall₂ (fun c c' => ∀ p, ps.find? (Cluster.id · == c.id) = some p →
      c.Gets c' p) cs ((lineUp Cluster.id alignClusters cs ps).1.map (·.alignCpus other)) := by
    refine List.forall₂_map_right_iff.mpr (hout.imp ?_)
    intro c c' hc p hp
    exact ⟨(hc p hp).1, List.forall₂_map_right_iff.mpr (hc p hp).2⟩
  rw [h, List.forall₂_same] at hsame
  intro c hc p hp
  obtain ⟨htable, hin⟩ := hsame c hc p hp
  exact ⟨htable, fun k hk q hq => List.forall₂_same.mp hin k hk q hq⟩

end Clusters

/-! ### Two machines -/

section Machines

variable [TimeValue τ]

/-- A machine after it was lined up with a baseline. -/
def alignedCurrent (a b : Topology τ) : Topology τ :=
  Topology.alignCpus b ⟨(lineUp Cluster.id alignClusters a.clusters b.clusters).1⟩

/-- A baseline after a machine was lined up with it. -/
def alignedBaseline (a b : Topology τ) : Topology τ :=
  Topology.alignCpus a ⟨(lineUp Cluster.id alignClusters a.clusters b.clusters).2⟩

theorem alignTopologies_eq {a b : Topology τ} (h : a.cpuCount = b.cpuCount) :
    alignTopologies a b = .ok (alignedCurrent a b, alignedBaseline a b) := if_pos h

theorem alignTopologies_eq_error {a b : Topology τ} (h : a.cpuCount ≠ b.cpuCount) :
    alignTopologies a b = .error (.inconsistentBaseline ("baseline has " ++ toString b.cpuCount ++
      " cpus, current run has " ++ toString a.cpuCount)) := if_neg h

/-- **Lining up two machines opens slots and does nothing else.** -/
theorem extends_aligned (a b : Topology τ) :
    a.Extends (alignedCurrent a b) ∧ b.Extends (alignedBaseline a b) := by
  obtain ⟨hl, hr⟩ := forall₂_lineUp Cluster.id (R := Cluster.Extends) Cluster.Extends.refl
    (fun _ _ _ => .trans) Cluster.extends_align a.clusters b.clusters
  exact ⟨forall₂_trans (fun _ _ _ => .trans) hl (Topology.extends_alignCpus b ⟨_⟩),
    forall₂_trans (fun _ _ _ => .trans) hr (Topology.extends_alignCpus a ⟨_⟩)⟩

/-- Lining up the CPUs changes nothing about which clusters and cores are level. -/
theorem matched_alignCpus_iff {R : PStateTrack τ → PStateTrack τ → Prop} {a b : Topology τ}
    {cs ps : List (Cluster τ)} :
    Matched Cluster.id (Cluster.Paired R) (cs.map (·.alignCpus b)) (ps.map (·.alignCpus a)) ↔
      Matched Cluster.id (Cluster.Paired R) cs ps := by
  have hcores : ∀ c p : Cluster τ, (c.alignCpus b).Paired R (p.alignCpus a) ↔ c.Paired R p := by
    intro c p
    have hmap : Matched Core.id (fun k q => R k.pstates q.pstates) (c.alignCpus b).cores
        (p.alignCpus a).cores ↔ Matched Core.id (fun k q => R k.pstates q.pstates) c.cores p.cores :=
      matched_map_iff Core.id (g := Core.alignCpus b) (h := Core.alignCpus a) (fun _ => rfl)
        (fun _ => rfl)
    exact ⟨fun h => ⟨h.pstates, hmap.mp h.cores⟩, fun h => ⟨h.pstates, hmap.mpr h.cores⟩⟩
  rw [matched_map_iff Cluster.id (g := Cluster.alignCpus b) (h := Cluster.alignCpus a)
    (fun _ => rfl) (fun _ => rfl)]
  exact ⟨fun h => h.imp fun c p => (hcores c p).mp, fun h => h.imp fun c p => (hcores c p).mpr⟩

/-- CPUs come out level with their counterparts, whatever the rest of the machines. -/
theorem sameFreqs_alignCpus {a b : Topology τ} (ha : a.cpuIds.Nodup) :
    Matched Cpu.id (fun c p => c.pstates.SameFreqs p.pstates) (a.cpus.map (·.alignWith b))
      (b.cpus.map (·.alignWith a)) := by
  rw [matched_map_iff Cpu.id (fun c => c.id_alignWith b) (fun p => p.id_alignWith a)]
  intro c hc p hp f
  have hpartner : b.cpu? c.id = some p := hp
  have hback : a.cpu? p.id = some c := by
    rw [key_of_find? Cpu.id hp]
    exact find?_eq_some_of_nodup ha hc
  rw [Cpu.alignWith, hpartner, Cpu.alignWith, hback]
  show f ∈ (c.pstates.cover _).freqs ↔ f ∈ (p.pstates.cover _).freqs
  rw [PStateTrack.mem_freqs_cover, PStateTrack.mem_freqs_cover, or_comm]

/-- **Machines that are level come out as they went in.** -/
theorem alignTopologies_eq_self {a b : Topology τ} (hn : a.cpuCount = b.cpuCount)
    (hb : b.cpuIds.Nodup) (h : a.Paired PStateTrack.SameFreqs b) :
    alignTopologies a b = .ok (a, b) := by
  have hclusters : lineUp Cluster.id alignClusters a.clusters b.clusters =
      (a.clusters, b.clusters) := lineUp_eq_self (h.clusters.imp fun _ _ => alignClusters_eq_self)
  have hleft : ∀ c ∈ a.cpus, c.alignWith b = c := by
    intro c hc
    unfold Cpu.alignWith
    split
    · next p hp => rw [PStateTrack.cover_of_subset fun f => (h.cpus c hc p hp f).mpr]
    · rfl
  have hright : ∀ p ∈ b.cpus, p.alignWith a = p := by
    intro p hp
    unfold Cpu.alignWith
    split
    · next c hc =>
      have hpartner : b.cpus.find? (·.id == c.id) = some p := by
        rw [key_of_find? Cpu.id hc]
        exact find?_eq_some_of_nodup hb hp
      rw [PStateTrack.cover_of_subset fun f =>
        (h.cpus c (List.mem_of_find?_eq_some hc) p hpartner f).mp]
    · rfl
  have hsame : ∀ (t other : Topology τ), (∀ c ∈ t.cpus, c.alignWith other = c) →
      Topology.alignCpus other ⟨t.clusters⟩ = t := by
    intro t other hcpu
    have hcluster : ∀ c ∈ t.clusters, c.alignCpus other = c := by
      intro c hc
      have hcore : ∀ k ∈ c.cores, k.alignCpus other = k := by
        intro k hk
        have hcpus : ∀ m ∈ k.cpus, m.alignWith other = m := fun m hm =>
          hcpu m (List.mem_flatMap.mpr ⟨c, hc, List.mem_flatMap.mpr ⟨k, hk, hm⟩⟩)
        rw [Core.alignCpus, List.map_congr_left hcpus, List.map_id']
      rw [Cluster.alignCpus, List.map_congr_left hcore, List.map_id']
    show (⟨t.clusters.map (·.alignCpus other)⟩ : Topology τ) = t
    rw [List.map_congr_left hcluster, List.map_id']
  rw [alignTopologies_eq hn, alignedCurrent, alignedBaseline, hclusters, hsame a b hleft,
    hsame b a hright]

theorem cpus_alignedCurrent (a b : Topology τ) :
    (alignedCurrent a b).cpus = a.cpus.map (·.alignWith b) := by
  rw [alignedCurrent, Topology.cpus_alignCpus, (cpus_lineUp a b).1]

theorem cpus_alignedBaseline (a b : Topology τ) :
    (alignedBaseline a b).cpus = b.cpus.map (·.alignWith a) := by
  rw [alignedBaseline, Topology.cpus_alignCpus, (cpus_lineUp a b).2]

theorem cpuCount_aligned {a b : Topology τ} (h : a.cpuCount = b.cpuCount) :
    (alignedCurrent a b).cpuCount = (alignedBaseline a b).cpuCount := by
  rw [Topology.cpuCount, cpus_alignedCurrent, Topology.cpuCount, cpus_alignedBaseline,
    List.length_map, List.length_map]
  exact h

theorem cpuIds_alignedBaseline (a b : Topology τ) : (alignedBaseline a b).cpuIds = b.cpuIds := by
  rw [Topology.cpuIds, cpus_alignedBaseline, List.map_map]
  exact List.map_congr_left fun p _ => p.id_alignWith a

/-- **All tables come out level** where twins are covered. -/
theorem Topology.TwinsCovered.paired {a b : Topology τ} (ha : a.cpuIds.Nodup)
    (h : a.TwinsCovered b) :
    (alignedCurrent a b).Paired PStateTrack.SameFreqs (alignedBaseline a b) := by
  refine ⟨matched_alignCpus_iff.mpr h.sameFreqs, ?_⟩
  rw [cpus_alignedCurrent, cpus_alignedBaseline]
  exact sameFreqs_alignCpus ha

/-- **Twins are covered** where lining up once more changes nothing. -/
theorem twinsCovered_of_alignTopologies_eq {a b : Topology τ} (hn : a.cpuCount = b.cpuCount)
    (h : alignTopologies (alignedCurrent a b) (alignedBaseline a b) =
      .ok (alignedCurrent a b, alignedBaseline a b)) : a.TwinsCovered b := by
  rw [alignTopologies_eq (cpuCount_aligned hn)] at h
  have hfirst := congrArg (fun t => t.1.clusters) (Except.ok.inj h)
  exact Topology.twinsCovered_of_covers (matched_alignCpus_iff.mp (covers_of_lineUp_eq hfirst))

/-! ### What a report puts side by side -/

/-- Every table of a machine is in order. -/
structure Topology.Ordered (t : Topology τ) : Prop where
  clusters : ∀ c ∈ t.clusters, c.pstates.WellFormed
  cores : ∀ c ∈ t.clusters, ∀ k ∈ c.cores, k.pstates.WellFormed
  cpus : ∀ m ∈ t.cpus, m.pstates.WellFormed

omit [TimeValue τ] in
theorem Topology.ordered_of_entities {t : Topology τ}
    (h : ∀ m ∈ t.entities, m.tracks.pstates.WellFormed) : t.Ordered where
  clusters _ hc := h _ (mem_entities_cluster hc)
  cores _ hc _ hk := h _ (mem_entities_core hc hk)
  cpus _ hm := h _ (mem_entities_cpu hm)

theorem Topology.Ordered.of_extends {t t' : Topology τ} (h : t.Ordered) (hx : t.Extends t') :
    t'.Ordered := by
  have hcore : ∀ c' ∈ t'.clusters, ∀ k' ∈ c'.cores,
      ∃ c ∈ t.clusters, ∃ k ∈ c.cores, k.Extends k' := by
    intro c' hc' k' hk'
    obtain ⟨c, hc, hcx⟩ := exists_of_forall₂_of_mem hx hc'
    obtain ⟨k, hk, hkx⟩ := exists_of_forall₂_of_mem hcx.cores hk'
    exact ⟨c, hc, k, hk, hkx⟩
  refine ⟨?_, ?_, ?_⟩
  · intro c' hc'
    obtain ⟨c, hc, hcx⟩ := exists_of_forall₂_of_mem hx hc'
    exact hcx.pstates.ordered (h.clusters c hc)
  · intro c' hc' k' hk'
    obtain ⟨c, hc, k, hk, hkx⟩ := hcore c' hc' k' hk'
    exact hkx.pstates.ordered (h.cores c hc k hk)
  · intro m' hm'
    obtain ⟨c', hc', hm'⟩ := List.mem_flatMap.mp hm'
    obtain ⟨k', hk', hm'⟩ := List.mem_flatMap.mp hm'
    obtain ⟨c, hc, k, hk, hkx⟩ := hcore c' hc' k' hk'
    obtain ⟨m, hm, hmx⟩ := exists_of_forall₂_of_mem hkx.cpus hm'
    have hmem : m ∈ t.cpus :=
      List.mem_flatMap.mpr ⟨c, hc, List.mem_flatMap.mpr ⟨k, hk, hm⟩⟩
    exact hmx.pstates.ordered (h.cpus m hmem)

/-- Every two tables that a report puts side by side list the same frequencies. -/
def Topology.Aligned (a b : Topology τ) : Prop :=
  ∀ g ∈ a.groups (some b), ∀ s, g.baseline = some s → g.tracks.pstates.freqs = s.pstates.freqs

omit [TimeValue τ] in
/-- A report puts side by side what is matched. -/
theorem Topology.Paired.aligned {a b : Topology τ} (h : a.Paired PStateTrack.SameFreqs b)
    (ha : a.Ordered) (hb : b.Ordered) : a.Aligned b := by
  intro g hg s hs
  obtain ⟨c, hc, hg⟩ := List.mem_flatMap.mp hg
  rcases List.mem_cons.mp hg with rfl | hg
  · obtain ⟨p, hp, rfl⟩ := Option.map_eq_some_iff.mp hs
    exact (ha.clusters c hc).freqs_eq (hb.clusters p (List.mem_of_find?_eq_some hp))
      (h.clusters c hc p hp).pstates
  · obtain ⟨k, hk, hg⟩ := List.mem_flatMap.mp hg
    rcases List.mem_append.mp hg with hg | hg
    · split at hg
      · rw [List.mem_singleton] at hg
        subst hg
        obtain ⟨q, hq, rfl⟩ := Option.map_eq_some_iff.mp hs
        obtain ⟨p, hp, hq⟩ := Option.bind_eq_some_iff.mp hq
        exact (ha.cores c hc k hk).freqs_eq
          (hb.cores p (List.mem_of_find?_eq_some hp) q (List.mem_of_find?_eq_some hq))
          ((h.clusters c hc p hp).cores k hk q hq)
      · exact absurd hg List.not_mem_nil
    · obtain ⟨m, hm, rfl⟩ := List.mem_map.mp hg
      obtain ⟨p, hp, rfl⟩ := Option.map_eq_some_iff.mp hs
      have hmem : m ∈ a.cpus := List.mem_flatMap.mpr ⟨c, hc, List.mem_flatMap.mpr ⟨k, hk, hm⟩⟩
      exact (ha.cpus m hmem).freqs_eq (hb.cpus p (List.mem_of_find?_eq_some hp))
        (h.cpus m hmem p hp)

/-! ### Machines that runs leave behind -/

/-- A machine as some run leaves it, before or after it was ended. -/
inductive Topology.Populated : Topology τ → Prop
  /-- After some of its events. -/
  | running (d : Description) (o : ReplayOptions) (es : List (Event τ)) {r₀ r : Replay τ}
    (hstart : Replay.start d o = .ok r₀) (hrun : r₀.processAll es = .ok r) : Populated r.topology
  /-- At its end. -/
  | ended (d : Description) (o : ReplayOptions) (es : List (Event τ)) {r₀ r : Replay τ}
    (hstart : Replay.start d o = .ok r₀) (hrun : r₀.processAll es = .ok r) :
    Populated r.finish.topology

/-- Ending a run leaves the tables in order. -/
theorem Topology.ordered_abandon {t : Topology τ} (h : t.Ordered) : t.abandon.Ordered := by
  refine ⟨?_, ?_, ?_⟩
  · intro c' hc'
    obtain ⟨c, hc, rfl⟩ := List.mem_map.mp hc'
    exact h.clusters c hc
  · intro c' hc' k' hk'
    obtain ⟨c, hc, rfl⟩ := List.mem_map.mp hc'
    obtain ⟨k, hk, rfl⟩ := List.mem_map.mp hk'
    exact h.cores c hc k hk
  · intro m' hm'
    rw [cpus_abandon] at hm'
    obtain ⟨m, hm, rfl⟩ := List.mem_map.mp hm'
    exact h.cpus m hm

/-- A machine that a run leaves behind has its tables in order and no CPU number twice. -/
theorem Topology.Populated.ordered {t : Topology τ} (h : t.Populated) :
    t.Ordered ∧ t.cpuIds.Nodup := by
  have hrun : ∀ {d : Description} {o : ReplayOptions} {es : List (Event τ)} {r₀ r : Replay τ},
      Replay.start d o = .ok r₀ → r₀.processAll es = .ok r →
        r.topology.Ordered ∧ r.topology.cpuIds.Nodup := by
    intro d o es r₀ r hstart hrun
    obtain ⟨hbuild, hs⟩ := Replay.build_of_start hstart
    obtain ⟨r', hr', -, -, htop⟩ := hs.processAll es
    obtain rfl : r = r' := Except.ok.inj (hrun.symm.trans hr')
    rw [htop, cpuIds_run]
    refine ⟨ordered_of_entities ?_, (wellShaped_of_build hbuild).nodup⟩
    exact forall_entities_run (fun _ id time a hm => Entity.ordered_apply hm _ id time a)
      (ordered_of_build hbuild) es
  cases h with
  | running d o es hstart h => exact hrun hstart h
  | ended d o es hstart h =>
    obtain ⟨ho, hnd⟩ := hrun hstart h
    exact ⟨ordered_abandon ho, (congrArg List.Nodup (cpuIds_abandon _)).mpr hnd⟩

/-- **What lining up two machines does.**  Machines with different numbers of CPUs are refused.  Any
others are lined up: every slot there was stays as it is, every new one is unused, every table keeps
its selection, and nothing else changes.  All tables that a report puts side by side then list the
same frequencies, and lining up once more changes nothing, exactly when twins are covered. -/
theorem alignTopologies_spec {a b : Topology τ} (ha : a.Populated) (hb : b.Populated) :
    (a.cpuCount ≠ b.cpuCount → alignTopologies a b = .error (.inconsistentBaseline
      ("baseline has " ++ toString b.cpuCount ++ " cpus, current run has " ++
        toString a.cpuCount))) ∧
    (a.cpuCount = b.cpuCount → ∃ a' b', alignTopologies a b = .ok (a', b') ∧
      a.Extends a' ∧ b.Extends b' ∧
      ((a'.Aligned b' ∧ alignTopologies a' b' = .ok (a', b')) ↔ a.TwinsCovered b)) := by
  refine ⟨alignTopologies_eq_error, ?_⟩
  intro hn
  obtain ⟨hao, hand⟩ := ha.ordered
  obtain ⟨hbo, hbnd⟩ := hb.ordered
  obtain ⟨hax, hbx⟩ := extends_aligned a b
  refine ⟨alignedCurrent a b, alignedBaseline a b, alignTopologies_eq hn, hax, hbx, ?_⟩
  constructor
  · rintro ⟨-, hfix⟩
    exact twinsCovered_of_alignTopologies_eq hn hfix
  · intro hcov
    have hpaired := hcov.paired hand
    refine ⟨hpaired.aligned (hao.of_extends hax) (hbo.of_extends hbx), ?_⟩
    refine alignTopologies_eq_self (cpuCount_aligned hn) ?_ hpaired
    rw [cpuIds_alignedBaseline]
    exact hbnd

omit [TimeValue τ] in
/-- Where no cluster number occurs twice, and no core number twice in a cluster, there are no twins
to cover. -/
theorem Topology.twinsCovered_of_nodup {a : Topology τ} (hc : (a.clusters.map (·.id)).Nodup)
    (hk : ∀ c ∈ a.clusters, (c.cores.map (·.id)).Nodup) (b : Topology τ) : a.TwinsCovered b := by
  refine ⟨PowerTrace.twinsCovered_of_nodup _ _ hc, ?_⟩
  intro i p _
  refine PowerTrace.twinsCovered_of_nodup _ _ ?_
  cases hf : a.clusters.filter (·.id == i) with
  | nil => exact List.nodup_nil
  | cons c cs =>
    have hmem : c ∈ a.clusters.filter (·.id == i) := by rw [hf]; exact List.mem_cons_self
    obtain ⟨hca, hci⟩ := List.mem_filter.mp hmem
    have hone := filter_key_of_nodup hc hca
    rw [beq_iff_eq.mp hci, hf] at hone
    rw [hone, List.flatMap_cons, List.flatMap_nil, List.append_nil]
    exact hk c hca

end Machines

/-! ### Machines to look at -/

/-- A core of two CPUs, and a core of one that carries the number of its CPU: the same. -/
def Description.twinCores : Description :=
  ⟨⟨[⟨0, [⟨2, true, [0, 1]⟩, ⟨2, false, [2]⟩]⟩]⟩, []⟩

/-- Without twins all tables are lined up, here those of two runs at different frequencies. -/
theorem alignTopologies_spec_sharedCore :
    ∃ a b a' b' : Topology ℚ, a.Populated ∧ b.Populated ∧ a.cpuCount = b.cpuCount ∧
      alignTopologies a b = .ok (a', b') ∧ a.Extends a' ∧ b.Extends b' ∧ a'.Aligned b' ∧
        alignTopologies a' b' = .ok (a', b') := by
  have ha := Topology.Populated.ended .sharedCore {} [(⟨1, 0, .freqChange 800⟩ : Event ℚ)] rfl rfl
  have hb := Topology.Populated.ended .sharedCore {} [(⟨1, 1, .freqChange 600⟩ : Event ℚ)] rfl rfl
  obtain ⟨a', b', hok, hax, hbx, hiff⟩ := (alignTopologies_spec ha hb).2 (by decide)
  obtain ⟨haligned, hfix⟩ :=
    hiff.mpr (Topology.twinsCovered_of_nodup (by decide) (by decide) _)
  exact ⟨_, _, a', b', ha, hb, by decide, hok, hax, hbx, haligned, hfix⟩

/-- **A twin that is not lined up.**  The frequency that the second core brings reaches the
counterpart of both, and the first core only when the machines are lined up once more. -/
theorem twin_not_lined_up :
    ∃ a b a' b' : Topology ℚ, a.Populated ∧ b.Populated ∧ a.cpuCount = b.cpuCount ∧
      alignTopologies a b = .ok (a', b') ∧ ¬ a'.Aligned b' ∧
        alignTopologies a' b' ≠ .ok (a', b') := by
  refine ⟨_, _, _, _,
    .ended .twinCores {} [(⟨1, 2, .freqChange 800⟩ : Event ℚ)] rfl rfl,
    .ended .twinCores {} ([] : List (Event ℚ)) rfl rfl, rfl, rfl, ?_, ?_⟩
  · intro h
    have hcore := h _ (List.mem_cons_of_mem _ List.mem_cons_self) _ rfl
    exact absurd hcore (by decide)
  · intro h
    have hcores := congrArg (fun r : Except Error (Topology ℚ × Topology ℚ) =>
      r.toOption.map fun p => p.1.cores.map (·.pstates.freqs)) h
    exact absurd hcores (by decide +kernel)

end PowerTrace
