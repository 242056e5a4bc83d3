import Mathlib.MeasureTheory.Measure.Lebesgue.Basic
import PowerTrace.Proofs.Overlap

/-!
# The time spent idle together

On exact time the answer of an overlap query is a measure: that of the instants at which all CPUs
of a list are idle at a depth.

* `IntervalSet.instants`, `IntervalSet.instants_foldl_intersect`: the instants of a set, and of an
  intersection of several sets;
* `IntervalSet.volume_instants`: the total of an ordered set is their measure;
* `idleTogether`: the instants at which all CPUs of a list are inside an idle period at a depth;
* `overlap_eq_volume`: a query answers with the measure of these instants, and also where time is
  rounded the answer depends on nothing but which CPUs are asked for.
-/

namespace PowerTrace

open MeasureTheory TimeValue

/-! ### The instants of a set -/

namespace IntervalSet

/-- The instants inside the intervals of a set. -/
def instants (s : IntervalSet ℚ) : Set ℝ :=
  { x | ∃ i ∈ s, (i.start : ℝ) ≤ x ∧ x < (i.stop : ℝ) }

variable {s t : IntervalSet ℚ} {i : Interval ℚ}

theorem instants_nil : instants [] = ∅ := by
  ext x
  simp [instants]

theorem instants_cons (i : Interval ℚ) (s : IntervalSet ℚ) :
    instants (i :: s) = Set.Ico (i.start : ℝ) i.stop ∪ instants s := by
  ext x
  simp [instants]

theorem instants_intersect (hs : Ordered s) (ht : Ordered t) :
    (intersect s t).instants = s.instants ∩ t.instants := by
  ext x
  constructor
  · rintro ⟨i, hi, hstart, hstop⟩
    obtain ⟨-, j, hj, k, hk, rfl⟩ := exists_of_mem_intersect hi
    rw [show (j.meet k).start = max j.start k.start from rfl, Rat.cast_max, max_le_iff] at hstart
    rw [show (j.meet k).stop = min j.stop k.stop from rfl, Rat.cast_min, lt_min_iff] at hstop
    exact ⟨⟨j, hj, hstart.1, hstop.1⟩, ⟨k, hk, hstart.2, hstop.2⟩⟩
  · rintro ⟨⟨j, hj, hjs, hje⟩, ⟨k, hk, hks, hke⟩⟩
    have hstart : ((j.meet k).start : ℝ) ≤ x := by
      rw [show (j.meet k).start = max j.start k.start from rfl, Rat.cast_max]
      exact max_le hjs hks
    have hstop : x < ((j.meet k).stop : ℝ) := by
      rw [show (j.meet k).stop = min j.stop k.stop from rfl, Rat.cast_min]
      exact lt_min hje hke
    have hp : (j.meet k).isProper = true :=
      TimeValue.lt_iff.mpr (Rat.cast_lt.mp (hstart.trans_lt hstop))
    exact ⟨_, (mem_intersect hs ht).mpr ⟨hp, j, hj, k, hk, rfl⟩, hstart, hstop⟩

/-- The instants of an intersection of several sets are those inside all of them. -/
theorem instants_foldl_intersect (hs : Ordered s) {ts : List (IntervalSet ℚ)}
    (hts : ∀ t ∈ ts, Ordered t) :
    (ts.foldl intersect s).instants = { x | ∀ t ∈ s :: ts, x ∈ t.instants } := by
  induction ts generalizing s with
  | nil =>
    ext x
    rw [List.foldl_nil, Set.mem_ofPred_eq, List.forall_mem_singleton]
  | cons t ts ih =>
    obtain ⟨ht, hts⟩ := List.forall_mem_cons.mp hts
    ext x
    rw [List.foldl_cons, ih (hs.intersect ht) hts, Set.mem_ofPred_eq, Set.mem_ofPred_eq,
      List.forall_mem_cons, List.forall_mem_cons, List.forall_mem_cons, instants_intersect hs ht,
      Set.mem_inter_iff, and_assoc]

theorem total_eq_sum (s : IntervalSet ℚ) : s.total = (s.map Interval.duration).sum := by
  rw [List.sum_eq_foldl, List.foldl_map, ← zero_eq]
  rfl

theorem measurableSet_instants (s : IntervalSet ℚ) : MeasurableSet s.instants := by
  induction s with
  | nil => rw [instants_nil]; exact MeasurableSet.empty
  | cons i s ih => rw [instants_cons]; exact measurableSet_Ico.union ih

theorem total_nonneg (hs : Ordered s) : 0 ≤ s.total := by
  rw [total_eq_sum]
  refine List.sum_nonneg (List.forall_mem_map.mpr fun i hi => ?_)
  exact span_nonneg (TimeValue.lt_iff.mp (hs.proper i hi)).le

/-- **The total of an ordered set is the measure of its instants**, in microseconds. -/
theorem volume_instants (hs : Ordered s) :
    volume s.instants = ENNReal.ofReal ((s.total / 1000000 : ℚ) : ℝ) := by
  induction s with
  | nil =>
    rw [instants_nil, measure_empty, total_eq_sum]
    simp
  | cons i s ih =>
    have hlt : i.start < i.stop := TimeValue.lt_iff.mp hs.head
    have hdisjoint : Disjoint (Set.Ico (i.start : ℝ) i.stop) (instants s) := by
      rw [Set.disjoint_left]
      rintro x ⟨-, hx⟩ ⟨j, hj, hjx, -⟩
      have hle : (i.stop : ℝ) ≤ j.start := Rat.cast_le.mpr (hs.stop_le_start hj)
      exact absurd (hle.trans hjx) (not_le.mpr hx)
    have htotal : total (i :: s) / 1000000 = (i.stop - i.start) + total s / 1000000 := by
      rw [total_eq_sum, total_eq_sum, List.map_cons, List.sum_cons, Interval.duration, span_eq]
      ring
    rw [instants_cons, measure_union hdisjoint (measurableSet_instants s), Real.volume_Ico,
      ih hs.tail, htotal, ← Rat.cast_sub, ← ENNReal.ofReal_add, ← Rat.cast_add]
    · exact Rat.cast_nonneg.mpr (sub_nonneg.mpr hlt.le)
    · exact Rat.cast_nonneg.mpr (div_nonneg (total_nonneg hs.tail) (by norm_num))

end IntervalSet

/-! ### The instants that CPUs spend idle together -/

/-- The instants that lie, for every CPU of a list, inside an idle period of the CPU at a depth,
among those that the events end. -/
def idleTogether (ids cpus : List CpuId) (depth : Nat) (es : List (Event ℚ)) : Set ℝ :=
  { x | ∀ cpu ∈ cpus, ∃ p ∈ closedPeriods ids cpu none es,
    p.depth.val = depth ∧ (p.start : ℝ) ≤ x ∧ x ≤ (p.stop : ℝ) }

variable {ids cpus : List CpuId} {es : List (Event ℚ)} {depth : Nat}

/-- The instants inside what is kept of a CPU are those inside its idle periods, but for the
instants at which these stop. -/
theorem mem_instants_keptSet {cpu : CpuId} (h : InOrder cpu es) {x : ℝ} :
    x ∈ (keptSet ids es depth cpu).instants ↔
      ∃ p ∈ closedPeriods ids cpu none es,
        p.depth.val = depth ∧ (p.start : ℝ) ≤ x ∧ x < (p.stop : ℝ) := by
  rw [keptSet_eq h]
  constructor
  · rintro ⟨i, hi, hstart, hstop⟩
    obtain ⟨p, hp, rfl⟩ := List.mem_map.mp hi
    obtain ⟨hp, hk⟩ := List.mem_filter.mp hp
    rw [IdlePeriod.isKept, Bool.and_eq_true, Bool.and_eq_true, beq_iff_eq] at hk
    exact ⟨p, hp, hk.1.1, hstart, hstop⟩
  · rintro ⟨p, hp, hdepth, hstart, hstop⟩
    have hlt : p.start < p.stop := Rat.cast_lt.mp (hstart.trans_lt hstop)
    have hcounts : p.counts = true := by
      have hpos : 0 < p.duration := by
        rw [Interval.duration, span_eq]
        exact mul_pos (sub_pos.mpr hlt) (by norm_num)
      rw [IdlePeriod.counts, Bool.not_eq_true', Bool.eq_false_iff, Ne, TimeValue.le_iff, zero_eq]
      exact not_le.mpr hpos
    have hk : p.isKept depth = true := by
      rw [IdlePeriod.isKept, hcounts, beq_iff_eq.mpr hdepth]
      exact TimeValue.lt_iff.mpr hlt
    exact ⟨_, List.mem_map_of_mem (List.mem_filter.mpr ⟨hp, hk⟩), hstart, hstop⟩

/-- Leaving out the instants at which periods stop does not change the measure. -/
theorem volume_idleTogether (h : ∀ cpu ∈ cpus, InOrder cpu es) :
    volume (idleTogether ids cpus depth es) =
      volume { x | ∀ cpu ∈ cpus, x ∈ (keptSet ids es depth cpu).instants } := by
  symm
  refine measure_eq_measure_of_null_sdiff ?_ ?_
  · intro x hx cpu hcpu
    obtain ⟨p, hp, hdepth, hstart, hstop⟩ := (mem_instants_keptSet (h cpu hcpu)).mp (hx cpu hcpu)
    exact ⟨p, hp, hdepth, hstart, hstop.le⟩
  · let stops := cpus.flatMap fun cpu => (closedPeriods ids cpu none es).map fun p => (p.stop : ℝ)
    refine measure_mono_null (t := { x | x ∈ stops }) ?_ ((List.finite_toSet stops).measure_zero _)
    rintro x ⟨hx, hnot⟩
    -- at some CPU the instant is inside a closed period, but not before it stops
    rw [Set.mem_ofPred_eq, not_forall] at hnot
    obtain ⟨cpu, hnot⟩ := hnot
    obtain ⟨hcpu, hnot⟩ := Classical.not_imp.mp hnot
    obtain ⟨p, hp, hdepth, hstart, hstop⟩ := hx cpu hcpu
    have heq : x = p.stop := by
      refine le_antisymm hstop (not_lt.mp fun hlt => hnot ?_)
      exact (mem_instants_keptSet (h cpu hcpu)).mpr ⟨p, hp, hdepth, hstart, hlt⟩
    rw [heq]
    exact List.mem_flatMap.mpr ⟨cpu, hcpu, List.mem_map_of_mem hp⟩

/-- **The answer of a query is the measure of the instants that the CPUs spend idle together.** -/
theorem togetherTotal_eq_volume (hne : cpus ≠ []) (h : ∀ cpu ∈ cpus, InOrder cpu es) :
    0 ≤ togetherTotal ids es depth cpus ∧
      volume (idleTogether ids cpus depth es) =
        ENNReal.ofReal ((togetherTotal ids es depth cpus / 1000000 : ℚ) : ℝ) := by
  cases cpus with
  | nil => exact absurd rfl hne
  | cons cpu cpus =>
    obtain ⟨hfirst, hrest⟩ := List.forall_mem_cons.mp (ordered_keptSets h depth)
    have hinter := hfirst.foldl_intersect hrest
    refine ⟨IntervalSet.total_nonneg hinter, ?_⟩
    rw [volume_idleTogether h, togetherTotal, ← IntervalSet.volume_instants hinter,
      IntervalSet.instants_foldl_intersect hfirst hrest, ← List.map_cons (f := keptSet ids es depth)]
    congr 1
    ext x
    rw [Set.mem_ofPred_eq, Set.mem_ofPred_eq, List.forall_mem_map]

/-- **An overlap query answers how long the CPUs were idle together.**  Whatever the machine, the
CPUs and the depth, if idle intervals are kept and the events on each of the CPUs are in the order
of time, then on exact time the answer is the measure, in microseconds, of the instants that lie
inside an idle period of every CPU at the depth.  On exact time and on doubles alike, asking for the
same CPUs in another order, or for some of them twice, gives the same answer to the last digit.  A
query leaves the analysis as it was. -/
theorem overlap_eq_volume {d : Description} (hd : d.layout.fault? = none) {o : ReplayOptions}
    (ho : o.retainIntervals = true) {cpus : List CpuId} (hne : cpus ≠ []) (depth : Nat) :
    (∀ es : List (Event ℚ), (∀ cpu ∈ cpus, InOrder cpu es) →
      ∃ (a : Analysis ℚ) (answer : ℚ), analyze d es o = .ok a ∧
        a.overlap cpus depth = .ok (answer, a) ∧ 0 ≤ answer ∧
        volume (idleTogether d.layout.cpuIds cpus depth es) =
          ENNReal.ofReal ((answer / 1000000 : ℚ) : ℝ) ∧
        ∀ cpus', (∀ cpu, cpu ∈ cpus' ↔ cpu ∈ cpus) → a.overlap cpus' depth = .ok (answer, a)) ∧
    (∀ es : List (Event Float), (∀ cpu ∈ cpus, InOrder cpu es) →
      ∃ (a : Analysis Float) (answer : Float), analyze d es o = .ok a ∧
        a.overlap cpus depth = .ok (answer, a) ∧
        ∀ cpus', (∀ cpu, cpu ∈ cpus' ↔ cpu ∈ cpus) → a.overlap cpus' depth = .ok (answer, a)) := by
  constructor
  · intro es h
    obtain ⟨a, ha, hoverlap⟩ :=
      Analysis.exists_overlap (Topology.build_eq_ok_iff.mpr ⟨hd, rfl⟩) ho es
    obtain ⟨hnonneg, hvolume⟩ := togetherTotal_eq_volume hne h
    refine ⟨a, _, ha, hoverlap cpus depth, hnonneg, hvolume, ?_⟩
    intro cpus' hmem
    rw [hoverlap, togetherTotal_congr h hmem]
  · intro es h
    obtain ⟨a, ha, hoverlap⟩ :=
      Analysis.exists_overlap (Topology.build_eq_ok_iff.mpr ⟨hd, rfl⟩) ho es
    refine ⟨a, _, ha, hoverlap cpus depth, ?_⟩
    intro cpus' hmem
    rw [hoverlap, togetherTotal_congr h hmem]

/-- Two CPUs are idle at depth 1, the first one during the seconds 0 to 2, the other one during the
seconds 1 to 3. -/
def Event.idleShifted (τ : Type) [TimeValue τ] : List (Event τ) :=
  [⟨ofNat 0, 0, .idleEnter 1⟩, ⟨ofNat 1, 1, .idleEnter 1⟩, ⟨ofNat 2, 0, .idleExit⟩,
    ⟨ofNat 3, 1, .idleExit⟩]

/-- They are idle together for one second, whichever comes first, and also if one is asked for
twice. -/
theorem overlap_eq_volume_idleShifted :
    (∃ a : Analysis ℚ, analyze .sharedCore (Event.idleShifted ℚ) { retainIntervals := true } = .ok a ∧
      a.overlap [0, 1] 1 = .ok (1000000, a) ∧ a.overlap [1, 0, 1] 1 = .ok (1000000, a) ∧
      volume (idleTogether [0, 1] [0, 1] 1 (Event.idleShifted ℚ)) = 1) ∧
    ∃ (a : Analysis Float) (answer : Float),
      analyze .sharedCore (Event.idleShifted Float) { retainIntervals := true } = .ok a ∧
      a.overlap [0, 1] 1 = .ok (answer, a) ∧ a.overlap [1, 0, 1] 1 = .ok (answer, a) := by
  have hmem : ∀ cpu : CpuId, cpu ∈ [1, 0, 1] ↔ cpu ∈ [0, 1] := by
    intro cpu
    simp only [List.mem_cons, List.not_mem_nil, or_false]
    exact ⟨fun h => h.elim .inr id, .inr⟩
  have hboth : ∀ {P : CpuId → Prop}, P 0 → P 1 → ∀ cpu ∈ [0, 1], P cpu := fun h₀ h₁ =>
    List.forall_mem_cons.mpr ⟨h₀, List.forall_mem_singleton.mpr h₁⟩
  obtain ⟨hexact, hdouble⟩ := overlap_eq_volume (d := .sharedCore) rfl
    (o := { retainIntervals := true }) rfl (List.cons_ne_nil 0 [1]) 1
  constructor
  · obtain ⟨a, answer, ha, hanswer, -, hvolume, hsame⟩ :=
      hexact (Event.idleShifted ℚ) (hboth (by decide +kernel) (by decide +kernel))
    obtain ⟨a', ha', hoverlap⟩ := Analysis.exists_overlap (d := .sharedCore) rfl
      (o := { retainIntervals := true }) rfl (Event.idleShifted ℚ)
    obtain rfl : a = a' := Except.ok.inj (ha.symm.trans ha')
    obtain rfl : answer = 1000000 := by
      obtain ⟨hsecond, -⟩ := Prod.mk.inj (Except.ok.inj (hanswer.symm.trans (hoverlap [0, 1] 1)))
      rw [hsecond]
      decide +kernel
    refine ⟨a, ha, hanswer, hsame _ hmem, hvolume.trans ?_⟩
    norm_num
  · obtain ⟨a, answer, ha, hanswer, hsame⟩ :=
      hdouble (Event.idleShifted Float) (hboth (by decide +kernel) (by decide +kernel))
    exact ⟨a, answer, ha, hanswer, hsame _ hmem⟩

end PowerTrace
