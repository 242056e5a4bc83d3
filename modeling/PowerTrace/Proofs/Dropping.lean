import PowerTrace.Analysis
import PowerTrace.Proofs.Run

/-!
# Events that are dropped

An event whose CPU is not there, or that goes idle at a depth that does not exist, is dropped: it is
counted as such and leaves no other trace.  No event of any kind stops a replay.

* `Event.IsInvalid`: which events those are;
* `Replay.forgetDrops`: a replay that does not say how many events it dropped;
* `Replay.Sound.processAll_forgetDrops`: what it does is what it does with the other events alone;
* `Replay.InRange`: whatever a replay looks up by position is there, at every point;
* `analyze_without_invalid`: hence an analysis exists, and the invalid events are invisible in it.
-/

namespace PowerTrace

variable {τ : Type}

/-! ### Which events are dropped -/

/-- An event for a CPU that is not among those given, or for a depth that does not exist. -/
def Event.IsInvalid (ids : List CpuId) (e : Event τ) : Prop :=
  e.cpu ∉ ids ∨ ∃ depth, e.kind = .idleEnter depth ∧ depthCount ≤ depth

theorem Depth.ofNat?_eq_none_iff {n : Nat} : Depth.ofNat? n = none ↔ depthCount ≤ n := by
  unfold Depth.ofNat?
  split
  · next h => simp [h]
  · next h => simp [Nat.le_of_not_lt h]

/-- Of all kinds of event only an entry to idle can name a depth that does not exist. -/
theorem EventKind.action_toOption_eq_none_iff (cpu : CpuId) (k : EventKind) :
    (k.action cpu).toOption = none ↔ ∃ depth, k = .idleEnter depth ∧ depthCount ≤ depth := by
  cases k with
  | idleEnter n =>
    simp only [EventKind.idleEnter.injEq, exists_eq_left', ← Depth.ofNat?_eq_none_iff,
      EventKind.action]
    cases Depth.ofNat? n <;> simp [Except.toOption]
  | idleExit => simp [EventKind.action, Except.toOption]
  | freqChange f => simp [EventKind.action, Except.toOption]
  | wakeup id name => simp [EventKind.action, Except.toOption]

theorem Event.action?_eq_none_iff {ids : List CpuId} {e : Event τ} :
    e.action? ids = none ↔ e.IsInvalid ids := by
  unfold Event.action? Event.IsInvalid
  split
  · next h => simp [h, EventKind.action_toOption_eq_none_iff]
  · next h => simp [h]

instance (ids : List CpuId) : DecidablePred (Event.IsInvalid ids : Event τ → Prop) := fun e =>
  decidable_of_iff ((e.action? ids).isNone = true)
    (by rw [Option.isNone_iff_eq_none, Event.action?_eq_none_iff])

theorem Event.exists_action?_of_not_isInvalid {ids : List CpuId} {e : Event τ}
    (h : ¬ e.IsInvalid ids) : ∃ a, e.action? ids = some a := by
  rw [← Event.action?_eq_none_iff] at h
  exact Option.ne_none_iff_exists'.mp h

/-! ### One event -/

section Step

variable [TimeValue τ]

namespace Replay

/-- The same replay, as if it had dropped nothing. -/
def forgetDrops (r : Replay τ) : Replay τ := { r with summary := { r.summary with dropped := 0 } }

/-- A dropped event changes nothing but the number of dropped events. -/
theorem process_of_isInvalid {r : Replay τ} {e : Event τ} (h : e.IsInvalid r.topology.cpuIds) :
    r.process e = .ok { r with summary := r.summary.drop } :=
  process_of_dropped (Event.action?_eq_none_iff.mpr h)

/-- An event that is not dropped is applied and counted. -/
theorem Sound.process_of_not_isInvalid {r : Replay τ} (hs : r.Sound) {e : Event τ}
    (h : ¬ e.IsInvalid r.topology.cpuIds) :
    ∃ r', r.process e = .ok r' ∧ r'.summary = r.summary.count e ∧
      r.forgetDrops.process e = .ok r'.forgetDrops := by
  obtain ⟨a, ha⟩ := Event.exists_action?_of_not_isInvalid h
  obtain ⟨kept, hk, -⟩ := hs.retain e.cpu e.time a
  exact ⟨_, process_of_accepted ha hk, rfl, process_of_accepted (r := r.forgetDrops) ha hk⟩

/-! ### Many events -/

/-- How many events were counted, and how many of them as dropped. -/
theorem Sound.count_processAll {r : Replay τ} (hs : r.Sound) (es : List (Event τ)) :
    ∃ r', r.processAll es = .ok r' ∧
      r'.summary.events + r'.summary.dropped =
        r.summary.events + r.summary.dropped + es.length ∧
      r'.summary.dropped =
        r.summary.dropped + es.countP fun e => decide (e.IsInvalid r.topology.cpuIds) := by
  induction es generalizing r with
  | nil => exact ⟨r, rfl, rfl, rfl⟩
  | cons e es ih =>
    obtain ⟨r₁, h₁, hs₁, -, ht₁⟩ := hs.process e
    obtain ⟨r₂, h₂, hsum, hdrop⟩ := ih hs₁
    rw [ht₁, Topology.cpuIds_step] at hdrop
    refine ⟨r₂, by rw [processAll_cons, h₁]; exact h₂, ?_, ?_⟩
    · by_cases hi : e.IsInvalid r.topology.cpuIds
      · obtain rfl := Except.ok.inj (h₁.symm.trans (process_of_isInvalid hi))
        rw [hsum, List.length_cons]
        show r.summary.events + (r.summary.dropped + 1) + es.length = _
        omega
      · obtain ⟨r', h', hcount, -⟩ := hs.process_of_not_isInvalid hi
        obtain rfl := Except.ok.inj (h₁.symm.trans h')
        rw [hsum, hcount, List.length_cons]
        show r.summary.events + 1 + r.summary.dropped + es.length = _
        omega
    · by_cases hi : e.IsInvalid r.topology.cpuIds
      · obtain rfl := Except.ok.inj (h₁.symm.trans (process_of_isInvalid hi))
        rw [hdrop, List.countP_cons, if_pos (decide_eq_true hi)]
        show r.summary.dropped + 1 + _ = _
        omega
      · obtain ⟨r', h', hcount, -⟩ := hs.process_of_not_isInvalid hi
        obtain rfl := Except.ok.inj (h₁.symm.trans h')
        rw [hdrop, hcount, List.countP_cons, if_neg (by simpa using hi)]
        rfl

/-- **Dropped events are invisible**: apart from their number, a replay of all events is a replay of
those that are not dropped. -/
theorem Sound.processAll_forgetDrops {r r' : Replay τ} (hs : r.Sound) {es : List (Event τ)}
    (h : r.processAll es = .ok r') :
    r.forgetDrops.processAll (es.filter fun e => !decide (e.IsInvalid r.topology.cpuIds)) =
      .ok r'.forgetDrops := by
  induction es generalizing r with
  | nil =>
    obtain rfl := Except.ok.inj h
    rfl
  | cons e es ih =>
    obtain ⟨r₁, h₁, hs₁, -, ht₁⟩ := hs.process e
    rw [processAll_cons, h₁] at h
    have ih := ih hs₁ h
    rw [ht₁, Topology.cpuIds_step] at ih
    by_cases hi : e.IsInvalid r.topology.cpuIds
    · obtain rfl := Except.ok.inj (h₁.symm.trans (process_of_isInvalid hi))
      rw [List.filter_cons_of_neg (by simpa using hi)]
      exact ih
    · obtain ⟨r'', h'', -, hforget⟩ := hs.process_of_not_isInvalid hi
      obtain rfl := Except.ok.inj (h₁.symm.trans h'')
      rw [List.filter_cons_of_pos (by simpa using hi), processAll_cons, hforget]
      exact ih

/-! ### Places, slots and handles -/

/-- Whatever a replay looks up by position is there. -/
structure InRange (r : Replay τ) : Prop where
  /-- The place of every CPU of the machine holds that CPU. -/
  places : ∀ id ∈ r.topology.cpuIds,
    ∃ p c, r.topology.locate id = .ok p ∧ r.topology.cpuAt? p = some c ∧ c.id = id
  /-- The selected slot of every frequency table is one of its slots. -/
  slots : ∀ n ∈ r.topology.entities, ∀ i, n.tracks.pstates.current = some i →
    i < n.tracks.pstates.slots.length
  /-- Every handle of a kept set leads to a set. -/
  handles : ∀ kept, r.retained = some kept → ∀ s ∈ kept.index, s.set.index < kept.store.size

/-- **At every point of a replay whatever it looks up is there.** -/
theorem exists_inRange {d : Description} {t : Topology τ} (h : Topology.build d = .ok t)
    (o : ReplayOptions) (es : List (Event τ)) :
    ∃ r : Replay τ, (start d o >>= (·.processAll es)) = .ok r ∧ r.Sound ∧
      r.topology.cpuIds = d.layout.cpuIds ∧ r.InRange := by
  obtain ⟨r₀, h₀, hs₀, -, ht₀⟩ := start_of_build h o
  obtain ⟨r, hr, hs, -, ht⟩ := hs₀.processAll es
  rw [ht₀] at ht
  refine ⟨r, by rw [h₀]; exact hr, hs, ?_, ?_, ?_, hs⟩
  · rw [ht, Topology.cpuIds_run, Topology.cpuIds_of_build h]
  · intro id hid
    obtain ⟨p, c, hp, hc, hcid⟩ := Topology.exists_path?_of_mem hid
    exact ⟨p, c, by rw [Topology.locate, hp], hc, hcid⟩
  · intro n hn
    rw [ht] at hn
    have hordered : n.tracks.pstates.WellFormed :=
      Topology.forall_entities_run (fun m id time a hm => Entity.ordered_apply hm _ id time a)
        (Topology.ordered_of_build h) es n hn
    exact hordered.selected

end Replay

/-! ### The whole trace -/

/-- **A replay never aborts and invalid events are invisible in it.**  Whatever the machine, the
options and the events, there is an analysis.  It counts every event once, as applied or as dropped,
and drops those whose CPU is not part of the machine or whose depth does not exist.  Without them
the analysis is the same, apart from their number.  At every point on the way whatever is looked up
is there, and the next event is either dropped, which changes nothing but the number of dropped
events, or applied and counted. -/
theorem analyze_without_invalid {d : Description} {t : Topology τ} (h : Topology.build d = .ok t)
    (o : ReplayOptions) (es : List (Event τ)) :
    ∃ a : Analysis τ, analyze d es o = .ok a ∧
      a.summary.events + a.summary.dropped = es.length ∧
      a.summary.dropped = es.countP (fun e => decide (e.IsInvalid d.layout.cpuIds)) ∧
      analyze d (es.filter fun e => !decide (e.IsInvalid d.layout.cpuIds)) o =
        .ok { a with summary := { a.summary with dropped := 0 } } ∧
      ∀ before after : List (Event τ), es = before ++ after →
        ∃ r : Replay τ, (Replay.start d o >>= (·.processAll before)) = .ok r ∧ r.InRange ∧
          ∀ e ∈ after.head?,
            (e.IsInvalid d.layout.cpuIds →
              r.process e = .ok { r with summary := r.summary.drop }) ∧
            (¬ e.IsInvalid d.layout.cpuIds →
              ∃ r', r.process e = .ok r' ∧ r'.summary = r.summary.count e) := by
  obtain ⟨r₀, h₀, hs₀, -, ht₀⟩ := Replay.start_of_build h o
  have hids : r₀.topology.cpuIds = d.layout.cpuIds := by rw [ht₀, Topology.cpuIds_of_build h]
  have hempty : r₀.summary = .empty := by
    rw [Replay.start, h] at h₀
    obtain rfl := Except.ok.inj h₀
    rfl
  obtain ⟨r, hr, hsum, hdrop⟩ := hs₀.count_processAll es
  rw [hempty] at hsum hdrop
  rw [hids] at hdrop
  refine ⟨r.finish, analyze_of_run h₀ hr, ?_, ?_, ?_, ?_⟩
  · rw [show r.finish.summary = r.summary from rfl, hsum]
    exact Nat.zero_add _
  · rw [show r.finish.summary = r.summary from rfl, hdrop]
    exact Nat.zero_add _
  · have hforget := hs₀.processAll_forgetDrops hr
    have hsame : r₀.forgetDrops = r₀ := by
      rw [Replay.forgetDrops, hempty]
      show { r₀ with summary := Summary.empty } = r₀
      rw [← hempty]
    rw [hsame, hids] at hforget
    exact analyze_of_run h₀ hforget
  · intro before after hes
    obtain ⟨r', hr', hs', hids', hrange⟩ := Replay.exists_inRange h o before
    refine ⟨r', hr', hrange, ?_⟩
    intro e _
    rw [← hids']
    refine ⟨Replay.process_of_isInvalid, fun hv => ?_⟩
    obtain ⟨r'', h'', hcount, -⟩ := hs'.process_of_not_isInvalid hv
    exact ⟨r'', h'', hcount⟩

/-- A CPU goes idle and resumes; in between come events for a CPU and for a depth that do not
exist. -/
theorem analyze_without_invalid_sharedCore :
    ∃ (t : Topology Float) (a : Analysis Float), Topology.build .sharedCore = .ok t ∧
      analyze .sharedCore [⟨0.5, 0, .idleEnter 2⟩, ⟨0.6, 7, .idleExit⟩, ⟨0.7, 0, .idleEnter 16⟩,
        ⟨0.8, 0, .idleExit⟩] { retainIntervals := true } = .ok a ∧
      a.summary.events + a.summary.dropped = 4 ∧ a.summary.dropped = 2 ∧
      analyze .sharedCore [⟨0.5, 0, .idleEnter 2⟩, ⟨0.8, 0, .idleExit⟩] { retainIntervals := true } =
        .ok { a with summary := { a.summary with dropped := 0 } } := by
  obtain ⟨a, ha, hsum, hdrop, hrest, -⟩ := analyze_without_invalid (d := .sharedCore) rfl
    { retainIntervals := true } [⟨0.5, 0, .idleEnter 2⟩, ⟨0.6, 7, .idleExit⟩,
      ⟨0.7, 0, .idleEnter 16⟩, (⟨0.8, 0, .idleExit⟩ : Event Float)]
  exact ⟨_, a, rfl, ha, hsum, hdrop, hrest⟩

end Step

end PowerTrace
