import PowerTrace.Proofs.NotANumber
import PowerTrace.Proofs.Stays

/-!
# Only positive durations count

A duration is to count if it is positive, and both machines of a node leave out the others.  They ask
differently: a dwell counts if it is longer than zero, an idle interval unless it is at most zero.  On
numbers that is the same.  A duration that is NaN is left out as a dwell and counted as an idle
interval, also where an open interval is closed at the end of a trace.

* `Stay.IsMeasured`: the stays that have a duration;
* `CStateTrack.holds_isPositive_iff`: an idle track counts just the positive durations if all its
  stays have one;
* `Replay.positive_durations_count`: what the slots of every node hold, of every trace;
* `Replay.nan_duration_counted`: an idle interval that is counted although no time is known to pass.
-/

namespace PowerTrace

open TimeValue

/-- Whether a duration is longer than zero. -/
def isPositive (u : Float) : Bool := lt zero u

/-- Something is known of how long a stay lasted: its ends are numbers, and not one infinity. -/
structure Stay.IsMeasured {κ : Type} (s : Stay κ Float) : Prop where
  start : s.start.isNaN = false
  stop : s.stop.isNaN = false
  differ : ¬ (s.start.isInf = true ∧ (s.start == s.stop) = true)

theorem Stay.isMeasured_iff {κ : Type} (s : Stay κ Float) :
    s.IsMeasured ↔ s.duration.isNaN = false := by
  have hspan := FloatOrder.isNaN_span s.start s.stop
  rw [← Bool.not_eq_true, Stay.duration, hspan]
  simp only [not_or, Bool.not_eq_true]
  exact ⟨fun h => ⟨h.start, h.stop, h.differ⟩, fun h => ⟨h.1, h.2.1, h.2.2⟩⟩

theorem Stay.isMeasured_of_isFinite {κ : Type} {s : Stay κ Float} (hstart : s.start.isFinite = true)
    (hstop : s.stop.isFinite = true) : s.IsMeasured := by
  have hfinite : ∀ a : Float, a.isFinite = true → a.isNaN = false ∧ a.isInf = false := by
    intro a ha
    have ha : (FloatOrder.unpack a).isFinite = true := ha
    show (FloatOrder.unpack a).isNaN = false ∧ (FloatOrder.unpack a).isInf = false
    cases hu : FloatOrder.unpack a with
    | zero s => exact ⟨rfl, rfl⟩
    | finite s m e hm => exact ⟨rfl, rfl⟩
    | infinity s =>
      rw [hu] at ha
      cases ha
    | notANumber =>
      rw [hu] at ha
      cases ha
  obtain ⟨hnan, hinf⟩ := hfinite _ hstart
  exact ⟨hnan, (hfinite _ hstop).1, fun h => Bool.false_ne_true (hinf.symm.trans h.1)⟩

/-! ### The two guards -/

/-- **On numbers the two guards agree.** -/
theorem counts_eq_isPositive {u : Float} (h : u.isNaN = false) :
    CStateTrack.counts u = isPositive u := by
  have hiff := FloatOrder.not_le_zero_iff u
  rw [h, or_iff_left Bool.false_ne_true] at hiff
  rw [Bool.eq_iff_iff, CStateTrack.counts, Bool.not_eq_true', hiff]
  rfl

theorem counts_of_isPositive {u : Float} (h : isPositive u = true) :
    CStateTrack.counts u = true := by
  rw [CStateTrack.counts, Bool.not_eq_true']
  exact (FloatOrder.not_le_zero_iff u).mpr (.inl h)

theorem DurationStats.count_counted (counts : Float → Bool) (ds : List Float) :
    (counted counts ds).count = (ds.filter counts).length := by
  rw [counted, count_recordAll, count_empty, Nat.zero_add]

/-- **An idle track counts just the positive durations** if all its stays have a duration, and
otherwise one more for each that has none. -/
theorem CStateTrack.holds_isPositive_iff {t : CStateTrack Float} {stays : List (Stay Depth Float)}
    (h : t.Holds CStateTrack.counts stays) :
    t.Holds isPositive stays ↔ ∀ s ∈ stays, s.IsMeasured := by
  have hmem : ∀ {s : Stay Depth Float}, s ∈ stays → s.duration ∈ durationsAt stays s.place :=
    fun hs => List.mem_map_of_mem (List.mem_filter.mpr ⟨hs, decide_eq_true rfl⟩)
  constructor
  · intro hpos s hs
    rw [Stay.isMeasured_iff]
    by_contra hnan
    rw [Bool.not_eq_false] at hnan
    -- the positive durations are among those that were counted, and as many
    have hlength : ((durationsAt stays s.place).filter isPositive).length =
        ((durationsAt stays s.place).filter CStateTrack.counts).length := by
      rw [← DurationStats.count_counted, ← DurationStats.count_counted, ← h, ← hpos]
    have hsub : ((durationsAt stays s.place).filter isPositive).Sublist
        ((durationsAt stays s.place).filter CStateTrack.counts) :=
      List.monotone_filter_right _ fun u hu => counts_of_isPositive hu
    have hcounted : s.duration ∈ (durationsAt stays s.place).filter CStateTrack.counts := by
      refine List.mem_filter.mpr ⟨hmem hs, ?_⟩
      rw [CStateTrack.counts, Bool.not_eq_true']
      exact (FloatOrder.not_le_zero_iff _).mpr (.inr hnan)
    rw [← hsub.eq_of_length hlength] at hcounted
    have hlt : lt zero s.duration = true := (List.mem_filter.mp hcounted).2
    exact Bool.false_ne_true ((FloatOrder.isNaN_eq_false_of_lt hlt).symm.trans hnan)
  · intro hall d
    have hsame : (durationsAt stays d).filter CStateTrack.counts =
        (durationsAt stays d).filter isPositive := by
      refine List.filter_congr fun u hu => ?_
      obtain ⟨s, hs, rfl⟩ := List.mem_map.mp hu
      exact counts_eq_isPositive (s.isMeasured_iff.mp (hall s (List.mem_filter.mp hs).1))
    rw [h d, DurationStats.counted, hsame]
    rfl

/-! ### Every trace -/

/-- Where all instants are finite, every stay has a duration. -/
theorem Itinerary.Moved.isMeasured {κ : Type} {it : Itinerary κ Float}
    (h : it.Moved fun a => a.isFinite = true) : ∀ s ∈ it.ended, s.IsMeasured :=
  fun s hs => Stay.isMeasured_of_isFinite (h.ended s hs).1 (h.ended s hs).2

/-- **Of every trace only positive durations count**, where there are durations.  Whatever the machine,
the options and the instants of the events, the frequencies of every node hold the durations of its
dwells that are positive, and no others, during the replay and at its end.  Its depths hold those of
its idle intervals that are positive, and no others, exactly when each of these intervals has a
duration: none of them begins or ends at NaN, and none begins and ends at the same infinity.  Where
all instants are finite, all of them do. -/
theorem Replay.positive_durations_count {d : Description} {t : Topology Float}
    (h : Topology.build d = .ok t) (o : ReplayOptions) (es : List (Event Float)) :
    ∃ r₀ r : Replay Float, Replay.start d o = .ok r₀ ∧ r₀.processAll es = .ok r ∧
      ∀ (n : ℕ) (m₀ : Entity Float), r₀.topology.entities[n]? = some m₀ →
        ∃ m idle dwells, r.topology.entities[n]? = some m ∧
          r.finish.topology.entities[n]? = some m.abandon ∧
          idle = m₀.idling o.compositeFrequency r₀.topology.cpuIds es ∧
          dwells = m₀.dwelling o.compositeFrequency r₀.topology.cpuIds es ∧
          m.tracks.pstates.Holds isPositive dwells.ended ∧
          m.abandon.tracks.pstates.Holds isPositive dwells.ended ∧
          (m.tracks.cstates.Holds isPositive idle.ended ↔ ∀ s ∈ idle.ended, s.IsMeasured) ∧
          (m.abandon.tracks.cstates.Holds isPositive idle.abandon.ended ↔
            ∀ s ∈ idle.abandon.ended, s.IsMeasured) ∧
          ((∀ e ∈ es, e.time.isFinite = true) →
            m.tracks.cstates.Holds isPositive idle.ended ∧
            m.abandon.tracks.cstates.Holds isPositive idle.abandon.ended) := by
  obtain ⟨r₀, r, h₀, hr, ht₀, htop⟩ := Replay.exists_run h o es
  refine ⟨r₀, r, h₀, hr, ?_⟩
  intro n m₀ hm₀
  rw [ht₀] at hm₀ ⊢
  have hmem := List.mem_of_getElem? hm₀
  obtain ⟨hidle, hdwells⟩ := Entity.recounts_run (t.settled_of_build h o.compositeFrequency m₀ hmem)
    (t.fresh_of_build h m₀ hmem) t.cpuIds es
  obtain ⟨hnode, hend⟩ := Replay.entities_of_run htop hm₀
  refine ⟨_, _, _, hnode, hend, rfl, rfl, hdwells.holds, ?_, ?_, ?_, ?_⟩
  · rw [Entity.pstates_abandon]
    exact hdwells.holds
  · exact CStateTrack.holds_isPositive_iff hidle.holds
  · rw [Entity.cstates_abandon]
    exact CStateTrack.holds_isPositive_iff hidle.abandon
  · intro hfinite
    have hmoved := m₀.moved_itinerary Entity.depth o.compositeFrequency t.cpuIds
      (Itinerary.moved_nowhere fun a : Float => a.isFinite = true) hfinite
    rw [Entity.cstates_abandon]
    exact ⟨(CStateTrack.holds_isPositive_iff hidle.holds).mpr hmoved.isMeasured,
      (CStateTrack.holds_isPositive_iff hidle.abandon).mpr (hmoved.leave hmoved.since).isMeasured⟩

/-- A CPU that is idle for a second, and again until the end. -/
def Event.idleTwice : List (Event Float) :=
  [⟨1, 0, .idleEnter 1⟩, ⟨2, 0, .idleExit⟩, ⟨3, 0, .idleEnter 0⟩]

theorem Replay.positive_durations_count_idleTwice :
    ∃ (r₀ r : Replay Float) (m₀ m : Entity Float) (idle : Itinerary Depth Float),
      Replay.start .sharedCore {} = .ok r₀ ∧ r₀.processAll Event.idleTwice = .ok r ∧
      r₀.topology.entities[2]? = some m₀ ∧ r.finish.topology.entities[2]? = some m.abandon ∧
      idle = m₀.idling .min r₀.topology.cpuIds Event.idleTwice ∧
      m.abandon.tracks.cstates.Holds isPositive idle.abandon.ended := by
  obtain ⟨r₀, r, h₀, hr, hall⟩ :=
    Replay.positive_durations_count (d := .sharedCore) rfl {} Event.idleTwice
  cases h₀
  obtain ⟨m, idle, dwells, -, hm, hidle, -, -, -, -, -, hfinite⟩ := hall 2 _ rfl
  refine ⟨_, r, _, m, idle, rfl, hr, rfl, hm, hidle, (hfinite ?_).2⟩
  decide +kernel

/-- A CPU that goes idle and is woken at an instant that is NaN. -/
def Event.wokenAtNaN : List (Event Float) := [⟨1, 0, .idleEnter 1⟩, ⟨0 / 0, 0, .idleExit⟩]

/-- **An idle interval that counts although no time is known to pass.** -/
theorem Replay.nan_duration_counted :
    ∃ (r₀ r : Replay Float) (m₀ m : Entity Float),
      Replay.start .sharedCore {} = .ok r₀ ∧ r₀.processAll Event.wokenAtNaN = .ok r ∧
      r₀.topology.entities[2]? = some m₀ ∧ r.topology.entities[2]? = some m ∧
      (m.tracks.cstates.slot 1).stats.count = 1 ∧
      ¬ m.tracks.cstates.Holds isPositive
        (m₀.idling .min r₀.topology.cpuIds Event.wokenAtNaN).ended := by
  refine ⟨_, _, _, _, rfl, rfl, rfl, rfl, by decide +kernel, ?_⟩
  intro h
  have hcount := congrArg DurationStats.count (h 1)
  exact absurd hcount (by decide +kernel)

end PowerTrace
