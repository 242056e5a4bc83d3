import Mathlib.Algebra.Order.BigOperators.Group.List
import Mathlib.Tactic.FieldSimp
import PowerTrace.Proofs.Stays

/-!
# What a slot says of its durations

A slot is told one duration after the other and keeps five numbers of them.  On exact time these are
numbers of the list as a whole: how many there are, the least and the greatest of them, their mean and
their sum.  A slot of a node is told the positive durations of its stays, so its numbers keep the order
that such numbers have.

* `DurationStats.recordAll_perm`: the order in which durations are told plays no part;
* `DurationStats.avg_mul_count_recordAll`: the running mean is the mean;
* `DurationStats.Summarizes`, `DurationStats.summarizes_recordAll`: the numbers of a list of durations;
* `Tracks.Summarize`, `Tracks.summarize_of_holds`: a node whose slots hold these numbers of its stays;
* `Replay.slots_summarize`: every slot of every node, at every point of a replay and at its end.
-/

namespace PowerTrace

open TimeValue

namespace DurationStats

/-! ### The order of durations -/

/-- Two durations can be told in either order.  With the mean moved twice this is
`(n * avg + u + v) / (n + 2)`. -/
theorem record_right_comm (s : DurationStats ℚ) (u v : ℚ) :
    (s.record u).record v = (s.record v).record u := by
  have hmin : (if s.count = 0 then u else s.min ⊓ u) ⊓ v =
      (if s.count = 0 then v else s.min ⊓ v) ⊓ u := by
    split
    · exact inf_comm u v
    · exact inf_right_comm s.min u v
  have hmax : (if s.count = 0 then u else s.max ⊔ u) ⊔ v =
      (if s.count = 0 then v else s.max ⊔ v) ⊔ u := by
    split
    · exact sup_comm u v
    · exact sup_right_comm s.max u v
  have havg : s.avg + (u - s.avg) / ((s.count + 1 : ℕ) : ℚ) +
        (v - (s.avg + (u - s.avg) / ((s.count + 1 : ℕ) : ℚ))) / ((s.count + 1 + 1 : ℕ) : ℚ) =
      s.avg + (v - s.avg) / ((s.count + 1 : ℕ) : ℚ) +
        (u - (s.avg + (v - s.avg) / ((s.count + 1 : ℕ) : ℚ))) / ((s.count + 1 + 1 : ℕ) : ℚ) := by
    have hfirst : ((s.count + 1 : ℕ) : ℚ) ≠ 0 := Nat.cast_ne_zero.mpr (Nat.succ_ne_zero _)
    have hsecond : ((s.count + 1 + 1 : ℕ) : ℚ) ≠ 0 := Nat.cast_ne_zero.mpr (Nat.succ_ne_zero _)
    field_simp
    push_cast
    ring
  rw [DurationStats.mk.injEq]
  exact ⟨rfl, hmin, hmax, havg, add_right_comm s.total u v⟩

/-- **The order in which durations are told plays no part.** -/
theorem recordAll_perm (s : DurationStats ℚ) {ds ds' : List ℚ} (h : ds.Perm ds') :
    s.recordAll ds = s.recordAll ds' :=
  h.foldl_eq' (fun u _ v _ s => s.record_right_comm u v) s

/-! ### Sum, mean and extremes -/

theorem total_recordAll_empty (ds : List ℚ) : (empty.recordAll ds).total = ds.sum := by
  rw [total_recordAll, List.sum_eq_foldl]
  rfl

theorem count_recordAll_empty (ds : List ℚ) : (empty.recordAll ds).count = ds.length := by
  rw [count_recordAll, count_empty, Nat.zero_add]

/-- The correction of the mean keeps it the mean: `n * avg` moves by the duration that is told. -/
theorem avg_mul_count_record {s : DurationStats ℚ} (h : s.avg * s.count = s.total) (u : ℚ) :
    (s.record u).avg * (s.record u).count = (s.record u).total := by
  have hcount : ((s.count + 1 : ℕ) : ℚ) ≠ 0 := Nat.cast_ne_zero.mpr (Nat.succ_ne_zero _)
  show (s.avg + (u - s.avg) / ((s.count + 1 : ℕ) : ℚ)) * ((s.count + 1 : ℕ) : ℚ) = s.total + u
  rw [add_mul, div_mul_cancel₀ _ hcount, ← h, Nat.cast_succ]
  ring

/-- **The running mean is the mean.** -/
theorem avg_mul_count_recordAll {s : DurationStats ℚ} (h : s.avg * s.count = s.total) (ds : List ℚ) :
    (s.recordAll ds).avg * (s.recordAll ds).count = (s.recordAll ds).total := by
  induction ds generalizing s with
  | nil => exact h
  | cons u ds ih => exact ih (avg_mul_count_record h u)

theorem avg_mul_count_recordAll_empty (ds : List ℚ) :
    (empty.recordAll ds).avg * (empty.recordAll ds).count = (empty.recordAll ds).total :=
  avg_mul_count_recordAll (by rw [count_empty, Nat.cast_zero, mul_zero]; rfl) ds

/-- After the first duration the extremes are moved by each of the others. -/
theorem extremes_recordAll {s : DurationStats ℚ} (h : s.count ≠ 0) (ds : List ℚ) :
    (s.recordAll ds).min = ds.foldl (· ⊓ ·) s.min ∧
      (s.recordAll ds).max = ds.foldl (· ⊔ ·) s.max := by
  induction ds generalizing s with
  | nil => exact ⟨rfl, rfl⟩
  | cons u ds ih =>
    have hmin : (s.record u).min = s.min ⊓ u := if_neg h
    have hmax : (s.record u).max = s.max ⊔ u := if_neg h
    rw [recordAll_cons, List.foldl_cons, List.foldl_cons, ← hmin, ← hmax]
    exact ih (Nat.succ_ne_zero _)

/-- **The extremes are those of the list**, and zero where nothing was told. -/
theorem extremes_recordAll_empty (ds : List ℚ) :
    (empty.recordAll ds).min = ds.min?.getD 0 ∧ (empty.recordAll ds).max = ds.max?.getD 0 := by
  cases ds with
  | nil => exact ⟨zero_eq, zero_eq⟩
  | cons u ds =>
    rw [List.min?_cons', List.max?_cons']
    exact extremes_recordAll (Nat.succ_ne_zero _) ds

/-! ### The numbers of a list of durations -/

/-- The order that the numbers of positive durations have. -/
structure Ordered (s : DurationStats ℚ) : Prop where
  min_pos : 0 < s.min
  min_le_avg : s.min ≤ s.avg
  avg_le_max : s.avg ≤ s.max
  max_le_total : s.max ≤ s.total
  total_le : s.total ≤ s.count * s.max

/-- Statistics hold the numbers of a list of durations.  Where the list is empty its extremes are
zero. -/
structure Summarizes (s : DurationStats ℚ) (ds : List ℚ) : Prop where
  count_eq : s.count = ds.length
  total_eq : s.total = ds.sum
  min_eq : s.min = ds.min?.getD 0
  max_eq : s.max = ds.max?.getD 0
  avg_mul_count : s.avg * s.count = s.total
  ordered : ds ≠ [] → s.Ordered

theorem ordered_recordAll {ds : List ℚ} (hds : ∀ u ∈ ds, 0 < u) (hne : ds ≠ []) :
    (empty.recordAll ds).Ordered := by
  obtain ⟨hmin, hmax⟩ := extremes_recordAll_empty ds
  have hcount : ((empty.recordAll ds).count : ℚ) = ds.length := by rw [count_recordAll_empty]
  have havg := avg_mul_count_recordAll_empty ds
  rw [total_recordAll_empty, hcount] at havg
  have hlength : (0 : ℚ) < ds.length := Nat.cast_pos.mpr (List.length_pos_iff.mpr hne)
  obtain ⟨least, hleast⟩ := Option.isSome_iff_exists.mp (List.isSome_min?_of_ne_nil hne)
  obtain ⟨greatest, hgreatest⟩ := Option.isSome_iff_exists.mp (List.isSome_max?_of_ne_nil hne)
  rw [hleast, Option.getD_some] at hmin
  rw [hgreatest, Option.getD_some] at hmax
  obtain ⟨hleast_mem, hleast_le⟩ := List.min?_eq_some_iff.mp hleast
  obtain ⟨hgreatest_mem, hle_greatest⟩ := List.max?_eq_some_iff.mp hgreatest
  -- the sum lies between that of as many least and that of as many greatest durations
  have hlow : ds.length * least ≤ ds.sum := by
    rw [← nsmul_eq_mul]
    exact List.card_nsmul_le_sum ds least hleast_le
  have hhigh : ds.sum ≤ ds.length * greatest := by
    rw [← nsmul_eq_mul]
    exact List.sum_le_card_nsmul ds greatest hle_greatest
  constructor
  · rw [hmin]
    exact hds least hleast_mem
  · rw [hmin]
    refine le_of_mul_le_mul_right ?_ hlength
    rw [havg, mul_comm]
    exact hlow
  · rw [hmax]
    refine le_of_mul_le_mul_right ?_ hlength
    rw [havg, mul_comm]
    exact hhigh
  · rw [hmax, total_recordAll_empty]
    exact List.single_le_sum (fun u hu => (hds u hu).le) greatest hgreatest_mem
  · rw [hmax, total_recordAll_empty, hcount]
    exact hhigh

/-- **Statistics hold the numbers of the durations they were told.** -/
theorem summarizes_recordAll {ds : List ℚ} (hds : ∀ u ∈ ds, 0 < u) :
    (empty.recordAll ds).Summarizes ds where
  count_eq := count_recordAll_empty ds
  total_eq := total_recordAll_empty ds
  min_eq := (extremes_recordAll_empty ds).1
  max_eq := (extremes_recordAll_empty ds).2
  avg_mul_count := avg_mul_count_recordAll_empty ds
  ordered := ordered_recordAll hds

/-- What a slot holds of the durations that count, where the positive ones do. -/
theorem summarizes_counted (ds : List ℚ) :
    (counted (fun u => decide (0 < u)) ds).Summarizes (ds.filter fun u => decide (0 < u)) :=
  summarizes_recordAll fun _ hu => of_decide_eq_true (List.mem_filter.mp hu).2

end DurationStats

/-! ### The slots of a node -/

/-- The slots of a node hold the numbers of the positive durations of its stays, at every depth and at
every frequency. -/
structure Tracks.Summarize (s : Tracks ℚ) (idle : List (Stay Depth ℚ)) (dwells : List (Stay ℕ ℚ)) :
    Prop where
  cstates : ∀ d, (s.cstates.slot d).stats.Summarizes
    ((durationsAt idle d).filter fun u => decide (0 < u))
  pstates : ∀ p ∈ s.pstates.slots, p.stats.Summarizes
    ((durationsAt dwells p.freq).filter fun u => decide (0 < u))

/-- On exact time an idle interval counts just if it is positive. -/
theorem CStateTrack.counts_eq : (CStateTrack.counts : ℚ → Bool) = fun u => decide (0 < u) := by
  funext u
  rw [CStateTrack.counts, zero_eq, Bool.eq_iff_iff, Bool.not_eq_true', ← Bool.not_eq_true, le_iff, not_le,
    decide_eq_true_iff]

theorem PStateTrack.counts_eq : (PStateTrack.counts : ℚ → Bool) = fun u => decide (0 < u) := by
  funext u
  rw [PStateTrack.counts, zero_eq]
  rfl

/-- Slots that hold the stays that count hold their numbers. -/
theorem Tracks.summarize_of_holds {s : Tracks ℚ} {idle : List (Stay Depth ℚ)}
    {dwells : List (Stay ℕ ℚ)} (hidle : s.cstates.Holds CStateTrack.counts idle)
    (hdwells : s.pstates.Holds PStateTrack.counts dwells) : s.Summarize idle dwells := by
  rw [CStateTrack.counts_eq] at hidle
  rw [PStateTrack.counts_eq] at hdwells
  constructor
  · intro d
    rw [hidle d]
    exact DurationStats.summarizes_counted _
  · intro p hp
    rw [hdwells.stats p hp]
    exact DurationStats.summarizes_counted _

/-- **A slot says what its durations say as a whole.**  On exact time the statistics of a list of positive
durations hold its length, its sum, its least and its greatest duration and its mean, and where the list is
not empty these are in order; the durations can come in any other order.  Of every machine, with whatever
options and events, every slot of every node holds these numbers of the positive durations of the stays of
that node at that depth or frequency, at every point of the replay and at its end. -/
theorem Replay.slots_summarize :
    (∀ ds : List ℚ, (∀ u ∈ ds, 0 < u) →
      (DurationStats.empty.recordAll ds).Summarizes ds ∧
      ∀ ds', ds.Perm ds' → DurationStats.empty.recordAll ds' = DurationStats.empty.recordAll ds) ∧
    ∀ (d : Description) (t : Topology ℚ), Topology.build d = .ok t →
      ∀ (o : ReplayOptions) (es : List (Event ℚ)),
        ∃ r₀ r : Replay ℚ, Replay.start d o = .ok r₀ ∧ r₀.processAll es = .ok r ∧
          ∀ (n : ℕ) (m : Entity ℚ), r.topology.entities[n]? = some m →
            ∃ m₀ idle dwells, r₀.topology.entities[n]? = some m₀ ∧
              r.finish.topology.entities[n]? = some m.abandon ∧
              idle = m₀.idling o.compositeFrequency r₀.topology.cpuIds es ∧
              dwells = m₀.dwelling o.compositeFrequency r₀.topology.cpuIds es ∧
              m.tracks.Summarize idle.ended dwells.ended ∧
              m.abandon.tracks.Summarize idle.abandon.ended dwells.ended := by
  refine ⟨fun ds hds => ⟨DurationStats.summarizes_recordAll hds, fun ds' h => ?_⟩, ?_⟩
  · exact (DurationStats.empty.recordAll_perm h).symm
  · intro d t h o es
    obtain ⟨r₀, r, h₀, hr, ht₀, htop⟩ := Replay.exists_run h o es
    refine ⟨r₀, r, h₀, hr, ?_⟩
    intro n m hm
    have hmap := hm
    rw [htop, Topology.entities_run, List.getElem?_map] at hmap
    obtain ⟨m₀, hm₀, rfl⟩ := Option.map_eq_some_iff.mp hmap
    have hmem := List.mem_of_getElem? hm₀
    obtain ⟨hidle, hdwells⟩ := Entity.recounts_run (t.settled_of_build h o.compositeFrequency m₀ hmem)
      (t.fresh_of_build h m₀ hmem) t.cpuIds es
    rw [ht₀]
    refine ⟨m₀, _, _, hm₀, (Replay.entities_of_run htop hm₀).2, rfl, rfl, ?_, ?_⟩
    · exact Tracks.summarize_of_holds hidle.holds hdwells.holds
    · refine Tracks.summarize_of_holds ?_ ?_
      · rw [Entity.cstates_abandon]
        exact hidle.abandon
      · rw [Entity.pstates_abandon]
        exact hdwells.holds

/-- Three durations, and the core of two CPUs that are idle together for two seconds. -/
theorem Replay.slots_summarize_idleInTurn :
    (DurationStats.empty.recordAll [3, 1, 2] : DurationStats ℚ).Summarizes [3, 1, 2] ∧
    ∃ r₀ r : Replay ℚ, ∃ m : Entity ℚ,
      Replay.start .sharedCore {} = .ok r₀ ∧ r₀.processAll Event.idleInTurn = .ok r ∧
      r.topology.entities[1]? = some m ∧ r.finish.topology.entities[1]? = some m.abandon ∧
      (m.tracks.cstates.slot 1).stats.Summarizes [2000000] := by
  obtain ⟨hlist, hall⟩ := Replay.slots_summarize
  refine ⟨(hlist [3, 1, 2] (by decide +kernel)).1, ?_⟩
  obtain ⟨r₀, r, h₀, hr, hnodes⟩ := hall .sharedCore _ rfl {} Event.idleInTurn
  cases h₀
  cases hr
  obtain ⟨m₀, idle, dwells, hm₀, hend, hidle, -, hnow, -⟩ := hnodes 1 _ rfl
  cases hm₀
  have hdurations : ((durationsAt idle.ended 1).filter fun u => decide (0 < u)) = [2000000] := by
    rw [hidle]
    decide +kernel
  exact ⟨_, _, _, rfl, rfl, rfl, hend, hdurations ▸ hnow.cstates 1⟩

end PowerTrace
