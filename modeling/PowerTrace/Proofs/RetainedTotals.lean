import PowerTrace.Proofs.Overlap
import PowerTrace.Proofs.PositiveDurations

/-!
# What is kept adds up to what is counted

Two accounts are kept of the idle periods of a CPU.  Its track folds the duration of each into the
statistics of a depth, unless that is at most zero; the replay files its ends, unless it does not stop
after it starts, by start, and adds the durations up when asked.  Where all instants are finite and
the events of a CPU come in the order of time, both leave out the same periods and go through the
others in the same order, so they agree to the last bit.

* `Cpu.ended_itinerary`: the stays that a CPU ends are the idle periods of its events;
* `FloatOrder.le_span_zero`: between finite instants of one rank no time passes;
* `Stay.lt_of_counts`: so a period that counts stops after it starts;
* `Cpu.stats_eq_keptSet`: the statistics of a depth are those of the set that is kept;
* `Analysis.kept_agrees`: counts, sets and overlap queries of a whole analysis.
-/

namespace PowerTrace

open TimeValue

/-! ### Stays and periods -/

section Periods

variable {τ : Type}

/-- An idle period as a stay at its depth. -/
def IdlePeriod.stay (p : IdlePeriod τ) : Stay Depth τ := ⟨p.depth, p.start, p.stop⟩

/-- The depth an entity is idle at and the instant since when it is. -/
def Itinerary.since? (it : Itinerary Depth τ) : Option (Depth × τ) := it.here.map fun d => (d, it.since)

/-- Where an event leads an entity that was somewhere. -/
def Event.place (ids : List CpuId) (cpu : CpuId) (e : Event τ) (here : Option Depth) : Option Depth :=
  (e.goesTo? ids cpu).getD here

theorem Itinerary.map_fst_since? (it : Itinerary Depth τ) : it.since?.map (·.1) = it.here := by
  rw [since?, Option.map_map]
  exact Option.map_id'

/-- Moving to where an event leads ends the period that the event closes. -/
theorem Itinerary.move_place (it : Itinerary Depth τ) (ids : List CpuId) (cpu : CpuId) (e : Event τ) :
    (it.move (e.place ids cpu it.here) e.time).ended =
        it.ended ++ (e.closes? ids cpu it.since?).toList.map (·.stay) ∧
      (it.move (e.place ids cpu it.here) e.time).since? = e.reopen ids cpu it.since? := by
  unfold Event.place Event.closes? Event.reopen
  cases e.goesTo? ids cpu with
  | none =>
    rw [Option.getD_none, move_here rfl]
    exact ⟨(List.append_nil _).symm, rfl⟩
  | some new =>
    rw [Option.getD_some, map_fst_since?]
    dsimp only
    by_cases hn : new = it.here
    · rw [move_here hn, if_pos hn, if_pos hn]
      exact ⟨(List.append_nil _).symm, rfl⟩
    · rw [move_of_ne hn, if_neg hn, if_neg hn]
      refine ⟨?_, rfl⟩
      show it.ended ++ _ = it.ended ++ _
      rw [since?]
      cases it.here <;> rfl

variable [TimeValue τ]

theorem Cpu.current_apply (c : Cpu τ) (time : τ) (a : Action) :
    (c.apply time a).cstates.current = a.goesTo?.getD c.cstates.current := by
  have h := congrArg (Option.map (·.1)) (c.since?_apply time a)
  rw [map_fst_since?] at h
  rw [h]
  cases a.goesTo? with
  | none => exact c.map_fst_since?
  | some new =>
    dsimp only
    rw [Option.getD_some, map_fst_since?]
    split
    · next hn => rw [map_fst_since?, hn]
    · rw [Option.map_map]
      exact Option.map_id'

/-- A CPU after an event is where the event leads it. -/
theorem Cpu.current_step (c : Cpu τ) (ids : List CpuId) (e : Event τ) :
    (c.step ids e).cstates.current = e.place ids c.id c.cstates.current := by
  unfold Cpu.step Event.place Event.goesTo?
  cases e.action? ids with
  | none =>
    rw [Option.bind_none, ite_self]
    rfl
  | some a =>
    by_cases hid : c.id = e.cpu
    · rw [if_pos hid.symm]
      show (if c.id = e.cpu then c.apply e.time a else c).cstates.current = _
      rw [if_pos hid]
      exact c.current_apply e.time a
    · rw [if_neg (Ne.symm hid)]
      show (if c.id = e.cpu then c.apply e.time a else c).cstates.current = _
      rw [if_neg hid]
      rfl

/-- **The stays that a CPU ends are the idle periods of its events.** -/
theorem Cpu.ended_itinerary (c : Cpu τ) (x : Extremum) (ids : List CpuId) {it : Itinerary Depth τ}
    (h : it.here = c.cstates.current) (es : List (Event τ)) :
    ((Entity.cpu c).itinerary Entity.depth x ids it es).ended =
      it.ended ++ (closedPeriods ids c.id it.since? es).map (·.stay) := by
  induction es generalizing c it with
  | nil => exact (List.append_nil _).symm
  | cons e es ih =>
    have hdepth : (Entity.cpu (c.step ids e)).depth = e.place ids c.id it.here := by
      rw [h, ← c.current_step]
      rfl
    have hhere : (it.move (e.place ids c.id it.here) e.time).here = (c.step ids e).cstates.current := by
      rw [c.current_step, ← h, Itinerary.move]
      split
      · next hn => exact hn.symm
      · rfl
    obtain ⟨hended, hsince⟩ := it.move_place ids c.id e
    rw [Entity.itinerary, Entity.step_cpu, hdepth, ih _ hhere, hended, c.id_step, hsince, closedPeriods,
      List.map_append, List.append_assoc]

theorem durationsAt_map_stay (ps : List (IdlePeriod τ)) (depth : Depth) :
    durationsAt (ps.map (·.stay)) depth =
      (ps.filter fun p => decide (p.depth = depth)).map (·.duration) := by
  rw [durationsAt, List.filter_map, List.map_map]
  rfl

theorem IntervalSet.total_eq_foldl (s : IntervalSet τ) :
    s.total = (s.map (·.duration)).foldl (· + ·) zero := List.foldl_map.symm

/-- Something is kept of periods, given that nothing was kept so far, if one of them counts. -/
theorem foldl_keepPeriod_eq_none_iff (depth : ℕ) (ps : List (IdlePeriod τ)) :
    ps.foldl (keepPeriod depth) none = none ↔ ∀ p ∈ ps, ¬ (p.depth.val = depth ∧ p.counts = true) := by
  have hsome : ∀ (ps : List (IdlePeriod τ)) (s : IntervalSet τ),
      (ps.foldl (keepPeriod depth) (some s)).isSome = true := by
    intro ps
    induction ps with
    | nil => exact fun _ => rfl
    | cons p ps ih =>
      intro s
      rw [List.foldl_cons, keepPeriod]
      split <;> exact ih _
  induction ps with
  | nil => exact iff_of_true rfl fun _ hp => absurd hp List.not_mem_nil
  | cons p ps ih =>
    rw [List.foldl_cons, List.forall_mem_cons, keepPeriod]
    split
    · next hp =>
      refine iff_of_false (fun hnone => ?_) fun hall => hall.1 hp
      have hs := congrArg Option.isSome hnone
      rw [hsome] at hs
      cases hs
    · next hp => exact ih.trans (and_iff_right hp).symm

end Periods

/-! ### Periods of finite ends -/

section Finite

open Float.Model (UnpackedFloat)

namespace FloatOrder

/-- What is finite is a number. -/
theorem isNumber_of_isFinite {a : Float} (h : a.isFinite = true) : unpack a ≠ .notANumber := by
  intro hu
  have h : (unpack a).isFinite = true := h
  rw [hu] at h
  cases h

/-- The difference of two finite doubles of one rank is a zero. -/
theorem exists_unpacked_sub_eq_zero {x y : UnpackedFloat} (hx : x.isFinite = true)
    (hy : y.isFinite = true) (h : unpackedRank x = unpackedRank y) :
    ∃ s, y.sub .binary64 x = .zero s := by
  have hnum : ∀ {u : UnpackedFloat}, u.isFinite = true → u ≠ .notANumber := by
    rintro u hu rfl
    cases hu
  obtain rfl | ⟨s, s', rfl, rfl⟩ := eq_or_zero_of_rank_eq (hnum hx) (hnum hy) h
  · cases x with
    | notANumber => cases hx
    | infinity s => cases hx
    | zero s => cases s <;> exact ⟨_, rfl⟩
    | finite s m e hm =>
      refine ⟨.positive, ?_⟩
      have hsub : ∀ k : ℤ, UnpackedFloat.normalize .binary64 (k - k) (min e e) .positive =
          .zero .positive := by
        intro k
        rw [Int.sub_self]
        rfl
      exact hsub (s.apply (UnpackedFloat.decreaseExponent m e (min e e)).1)
  · cases s <;> cases s' <;> exact ⟨_, rfl⟩

/-- **Between finite instants of one rank no time passes.** -/
theorem le_span_zero {a b : Float} (ha : a.isFinite = true) (hb : b.isFinite = true)
    (h : unpackedRank (unpack a) = unpackedRank (unpack b)) : le (span a b) zero = true := by
  obtain ⟨s, hs⟩ := exists_unpacked_sub_eq_zero (x := unpack a) (y := unpack b) ha hb h
  have hsub : b - a = Float.ofModel (Float.Model.pack (.zero s)) :=
    congrArg (fun u => Float.ofModel (Float.Model.pack u)) hs
  rw [span, hsub]
  cases s <;> decide +kernel

end FloatOrder

/-- A stay that counts stops after it starts, if it does not stop before. -/
theorem Stay.lt_of_counts {κ : Type} {s : Stay κ Float} (hstart : s.start.isFinite = true)
    (hstop : s.stop.isFinite = true) (hle : lt s.stop s.start = false)
    (h : CStateTrack.counts s.duration = true) : lt s.start s.stop = true := by
  have ha := FloatOrder.isNumber_of_isFinite hstart
  have hb := FloatOrder.isNumber_of_isFinite hstop
  rw [← Bool.not_eq_true, FloatOrder.lt_iff_rank hb ha, not_lt] at hle
  rw [FloatOrder.lt_iff_rank ha hb]
  refine lt_of_le_of_ne hle fun hrank => ?_
  rw [CStateTrack.counts, duration, FloatOrder.le_span_zero hstart hstop hrank] at h
  cases h

/-- Abandoning a stay that began at a finite instant counts nothing. -/
theorem not_counts_span_self {a : Float} (h : a.isFinite = true) :
    CStateTrack.counts (span a a) = false := by
  rw [CStateTrack.counts, FloatOrder.le_span_zero h h rfl]
  rfl

end Finite

/-! ### The two accounts -/

/-- No period stops before it starts if no event lies before an earlier one. -/
theorem lt_stop_start_closedPeriods {ids : List CpuId} {cpu : CpuId} {es : List (Event Float)}
    (h : es.Pairwise fun e e' => lt e'.time e.time = false) {since? : Option (Depth × Float)}
    (hsince : ∀ d s, since? = some (d, s) → ∀ e ∈ es, lt e.time s = false) :
    ∀ p ∈ closedPeriods ids cpu since? es, lt p.stop p.start = false := by
  induction es generalizing since? with
  | nil => exact fun _ hp => absurd hp List.not_mem_nil
  | cons e es ih =>
    obtain ⟨he, hes⟩ := List.pairwise_cons.mp h
    intro p hp
    rw [closedPeriods, List.mem_append, Option.mem_toList] at hp
    rcases hp with hp | hp
    · rw [(Event.stop_of_closes? hp).1]
      obtain ⟨d, hd⟩ := Event.start_of_closes? hp
      exact hsince d p.start hd e List.mem_cons_self
    · refine ih hes ?_ p hp
      intro d s hs e' he'
      rcases Event.since_of_reopen hs with hold | rfl
      · exact hsince d s hold e' (List.mem_cons_of_mem e he')
      · exact he e' he'

/-- Abandoning an interval that was opened at a finite instant counts nothing. -/
theorem CStateTrack.Recounts.holds_abandon {t : CStateTrack Float} {it : Itinerary Depth Float}
    (h : t.Recounts it) (hfinite : it.Moved fun a => a.isFinite = true) :
    t.abandon.1.Holds CStateTrack.counts it.ended := by
  have habandon := h.abandon
  unfold Itinerary.abandon at habandon
  cases hh : it.here with
  | none => rwa [Itinerary.leave_of_none hh] at habandon
  | some d =>
    have hself := not_counts_span_self (hfinite.since (by rw [hh]; rfl))
    rw [Itinerary.ended_leave_of_some hh] at habandon
    intro d'
    rw [habandon d']
    by_cases hd : d = d'
    · rw [hd, durationsAt_concat, DurationStats.counted_concat, hself]
      rfl
    · rw [durationsAt_concat_of_ne _ hd]

section Account

variable {ids : List CpuId} {cpu : CpuId} {es : List (Event Float)}
  (hfinite : ∀ p ∈ closedPeriods ids cpu none es, p.start.isFinite = true ∧ p.stop.isFinite = true)
  (horder : InOrder cpu es)

include hfinite horder

/-- The two accounts leave out the same periods. -/
theorem isKept_eq (depth : Depth) :
    ∀ p ∈ closedPeriods ids cpu none es,
      p.isKept depth.val = (CStateTrack.counts p.duration && decide (p.depth = depth)) := by
  intro p hp
  have hle : lt p.stop p.start = false := by
    rw [← closedPeriods_filter] at hp
    refine lt_stop_start_closedPeriods horder ?_ p hp
    rintro d s ⟨⟩
  obtain ⟨hstart, hstop⟩ := hfinite p hp
  have hproper : CStateTrack.counts p.duration = true → p.isProper = true :=
    p.stay.lt_of_counts hstart hstop hle
  have hdepth : (p.depth.val == depth.val) = decide (p.depth = depth) := by
    rw [Bool.eq_iff_iff, beq_iff_eq, decide_eq_true_iff, Fin.ext_iff]
  rw [IdlePeriod.isKept, hdepth, show p.counts = CStateTrack.counts p.duration from rfl]
  cases hc : CStateTrack.counts p.duration with
  | false => rw [Bool.and_false, Bool.false_and, Bool.false_and]
  | true => rw [hproper hc, Bool.and_true, Bool.and_true, Bool.true_and]

/-- The durations that count at a depth are those of the set that is kept. -/
theorem filter_durationsAt_eq (depth : Depth) :
    (durationsAt ((closedPeriods ids cpu none es).map (·.stay)) depth).filter CStateTrack.counts =
      (keptSet ids es depth.val cpu).map (·.duration) := by
  rw [durationsAt_map_stay, List.filter_map, List.filter_filter, keptSet_eq horder, List.map_map,
    List.filter_congr (isKept_eq hfinite horder depth)]
  rfl

/-- Where nothing is kept there is no set. -/
theorem foldl_keepPeriod_of_keptSet_eq_nil {depth : Depth}
    (h : keptSet ids es depth.val cpu = []) :
    (closedPeriods ids cpu none es).foldl (keepPeriod depth.val) none = none := by
  rw [foldl_keepPeriod_eq_none_iff]
  rw [keptSet_eq horder, List.map_eq_nil_iff, List.filter_eq_nil_iff] at h
  rintro p hp ⟨hdepth, hcounts⟩
  refine h p hp ?_
  rw [isKept_eq hfinite horder depth p hp, decide_eq_true (Fin.ext hdepth), Bool.and_true]
  exact hcounts

end Account

/-- **The statistics of a depth are those of the set that is kept**, where all instants are finite and
the events of the CPU come in the order of time. -/
theorem Cpu.stats_eq_keptSet {ids : List CpuId} {es : List (Event Float)} {c : Cpu Float}
    {x : Extremum} (hfresh : c.tracks.Fresh) (hsettled : (Entity.cpu c).Settled x)
    (hfinite : ∀ e ∈ es, e.time.isFinite = true) (horder : InOrder c.id es) (depth : Depth) :
    ((c.run ids es).abandon.cstates.slot depth).stats =
        DurationStats.empty.recordAll ((keptSet ids es depth.val c.id).map (·.duration)) ∧
      (keptSet ids es depth.val c.id = [] →
        (closedPeriods ids c.id none es).foldl (keepPeriod depth.val) none = none) := by
  have hcurrent : c.cstates.current = none := by
    obtain ⟨infos, hinfos⟩ := hfresh.cstates
    exact congrArg CStateTrack.current hinfos
  have hended : ((Entity.cpu c).idling x ids es).ended =
      (closedPeriods ids c.id none es).map (·.stay) := by
    have hhere : (Itinerary.nowhere : Itinerary Depth Float).here = c.cstates.current :=
      hcurrent.symm
    exact c.ended_itinerary x ids hhere es
  have hmoved := (Entity.cpu c).moved_itinerary Entity.depth x ids
    (Itinerary.moved_nowhere fun a : Float => a.isFinite = true) hfinite
  have hperiods : ∀ p ∈ closedPeriods ids c.id none es,
      p.start.isFinite = true ∧ p.stop.isFinite = true := by
    intro p hp
    refine hmoved.ended p.stay ?_
    show p.stay ∈ ((Entity.cpu c).idling x ids es).ended
    rw [hended]
    exact List.mem_map_of_mem hp
  have hrecounts := (Entity.recounts_run hsettled hfresh ids es).1
  rw [Entity.run_cpu] at hrecounts
  refine ⟨?_, foldl_keepPeriod_of_keptSet_eq_nil hperiods horder⟩
  rw [← filter_durationsAt_eq hperiods horder, ← hended]
  exact hrecounts.holds_abandon hmoved depth

/-! ### Every trace -/

/-- So the statistics of every CPU of a whole trace are those of the sets that are kept. -/
theorem Topology.stats_eq_keptSet {d : Description} {t : Topology Float}
    (h : Topology.build d = .ok t) {x : Extremum} {es : List (Event Float)}
    (hfinite : ∀ e ∈ es, e.time.isFinite = true) (horder : ∀ c ∈ d.layout.cpuIds, InOrder c es)
    {c : Cpu Float} (hc : c ∈ (t.run x es).abandon.cpus) (depth : Depth) :
    (c.cstates.slot depth).stats = DurationStats.empty.recordAll
        ((keptSet d.layout.cpuIds es depth.val c.id).map (·.duration)) ∧
      (keptSet d.layout.cpuIds es depth.val c.id = [] →
        (closedPeriods d.layout.cpuIds c.id none es).foldl (keepPeriod depth.val) none = none) := by
  rw [cpus_abandon, cpus_run, List.map_map] at hc
  obtain ⟨c₀, hc₀, rfl⟩ := List.mem_map.mp hc
  have hnode := mem_entities_cpu hc₀
  have hid : (c₀.run t.cpuIds es).abandon.id = c₀.id := c₀.id_run t.cpuIds es
  rw [Function.comp_apply, hid, ← cpuIds_of_build h]
  refine Cpu.stats_eq_keptSet (t.fresh_of_build h _ hnode) (settled_of_build h x _ hnode) hfinite
    (horder c₀.id ?_) depth
  rw [← cpuIds_of_build h]
  exact List.mem_map_of_mem hc₀

/-- **What is kept and what is counted agree.**  Whatever the machine, where idle intervals are kept,
all instants are finite and the events on each CPU come in the order of time, every CPU of the analysis
has at every depth as many intervals kept as its statistics count, no set at all where they count
none, and a query for the CPU alone answers with the sum of the statistics, to the last bit. -/
theorem Analysis.kept_agrees {d : Description} {t : Topology Float} (h : Topology.build d = .ok t)
    {o : ReplayOptions} (ho : o.retainIntervals = true) {es : List (Event Float)}
    (hfinite : ∀ e ∈ es, e.time.isFinite = true) (horder : ∀ c ∈ d.layout.cpuIds, InOrder c es) :
    ∃ (a : Analysis Float) (kept : RetainedIntervals Float),
      analyze d es o = .ok a ∧ a.retained = some kept ∧ a.topology.cpuIds = d.layout.cpuIds ∧
      ∀ c ∈ a.topology.cpus, ∀ depth : Depth,
        ((c.cstates.slot depth).stats.count = 0 → kept.setOf? c.id depth.val = none) ∧
        ((c.cstates.slot depth).stats.count ≠ 0 → ∃ set, kept.intervals? c.id depth.val = some set ∧
          set.length = (c.cstates.slot depth).stats.count) ∧
        a.overlap [c.id] depth.val = .ok ((c.cstates.slot depth).stats.total, a) := by
  obtain ⟨r₀, r, h₀, hr, ht₀, htop⟩ := Replay.exists_run h o es
  obtain ⟨r₀', r', h₀', hr', htidy, hsome, hview⟩ := Replay.intervals?_of_run h o es
  obtain rfl : r₀ = r₀' := Except.ok.inj (h₀.symm.trans h₀')
  obtain rfl : r = r' := Except.ok.inj (hr.symm.trans hr')
  obtain ⟨kept, hkept⟩ := Option.isSome_iff_exists.mp (hsome.trans ho)
  obtain ⟨a, ha, hoverlap⟩ := Analysis.exists_overlap h ho es
  obtain rfl : r.finish = a := Except.ok.inj ((analyze_of_run h₀ hr).symm.trans ha)
  refine ⟨r.finish, kept, ha, hkept, ?_, ?_⟩
  · show r.topology.abandon.cpuIds = _
    rw [Topology.cpuIds_abandon, htop, Topology.cpuIds_run, Topology.cpuIds_of_build h]
  intro c hc depth
  have hc : c ∈ (t.run o.compositeFrequency es).abandon.cpus := by
    rw [← htop]
    exact hc
  obtain ⟨hstats, hnone⟩ := Topology.stats_eq_keptSet h hfinite horder hc depth
  have hset : kept.intervals? c.id depth.val =
      (closedPeriods d.layout.cpuIds c.id none es).foldl (keepPeriod depth.val) none := by
    have hset := hview c.id depth.val
    rwa [Replay.intervals?, hkept, Option.bind_some, if_pos ho] at hset
  have hcount : (c.cstates.slot depth).stats.count =
      (keptSet d.layout.cpuIds es depth.val c.id).length := by
    rw [hstats, DurationStats.count_recordAll, DurationStats.count_empty, Nat.zero_add,
      List.length_map]
  refine ⟨?_, ?_, ?_⟩
  · intro hzero
    rw [hcount, List.length_eq_zero_iff] at hzero
    exact (htidy kept hkept).sound.setOf?_eq_none (hset.trans (hnone hzero))
  · intro hpos
    rw [hset, hcount, keptSet]
    cases hfold : (closedPeriods d.layout.cpuIds c.id none es).foldl (keepPeriod depth.val) none with
    | none =>
      rw [hcount, keptSet, hfold] at hpos
      exact absurd rfl hpos
    | some set => exact ⟨set, rfl, rfl⟩
  · rw [hoverlap, hstats, DurationStats.total_recordAll]
    exact congrArg (fun u => Except.ok (u, r.finish)) (IntervalSet.total_eq_foldl _)

/-- A CPU that is idle for a second, and again until the end. -/
theorem Analysis.kept_agrees_idleTwice :
    ∃ t : Topology Float, Topology.build .sharedCore = .ok t ∧
      ∃ (a : Analysis Float) (kept : RetainedIntervals Float),
        analyze .sharedCore Event.idleTwice { retainIntervals := true } = .ok a ∧
        a.retained = some kept ∧ a.topology.cpuIds = [0, 1] ∧
        ∀ c ∈ a.topology.cpus, ∀ depth : Depth,
          ((c.cstates.slot depth).stats.count = 0 → kept.setOf? c.id depth.val = none) ∧
          ((c.cstates.slot depth).stats.count ≠ 0 → ∃ set,
            kept.intervals? c.id depth.val = some set ∧
            set.length = (c.cstates.slot depth).stats.count) ∧
          a.overlap [c.id] depth.val = .ok ((c.cstates.slot depth).stats.total, a) := by
  have horder : ∀ c ∈ ([0, 1] : List CpuId), InOrder c Event.idleTwice :=
    List.forall_mem_cons.mpr ⟨by decide +kernel, List.forall_mem_singleton.mpr (by decide +kernel)⟩
  exact ⟨_, rfl, Analysis.kept_agrees rfl rfl (by decide +kernel) horder⟩

end PowerTrace
