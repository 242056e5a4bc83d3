import PowerTrace.Proofs.Alignment
import PowerTrace.Proofs.Placements
import PowerTrace.Proofs.RetainedTotals
import PowerTrace.Report.Formats

/-!
# A run compared with itself

A baseline that is the run itself shows no difference.  Lining up changes nothing, every group of a
report is paired with itself, and so is every row; what is subtracted in a row are two equal numbers,
and their difference is blank also where they are infinite or not numbers.

* `Report.durationDelta_self`: the difference of a duration to itself is blank;
* `Topology.Distinct`: no number occurs twice on any level, as in all machines from placements;
* `Topology.Distinct.alignTopologies_self`, `Topology.Distinct.baseline_of_mem_groups`: such a machine
  is lined up with itself already, and its groups are paired with themselves;
* `Report.unchanged`: a comparison in which all differences are blank;
* `Analysis.compared_with_itself`: the report of a run that is its own baseline.
-/

namespace PowerTrace

variable {τ : Type}

/-! ### Differences of a number to itself -/

namespace FloatOrder

open Float.Model (UnpackedFloat)

/-- Subtracting a double from itself leaves zero, or no number where the double is not finite. -/
theorem sub_self_cases (a : Float) : (a - a).isNaN = true ∨ (a - a == 0) = true := by
  have hfinite : a.isFinite = true → (a - a == 0) = true := by
    intro ha
    obtain ⟨s, hs⟩ := exists_unpacked_sub_eq_zero (x := unpack a) (y := unpack a) ha ha rfl
    have hsub : a - a = Float.ofModel (Float.Model.pack (.zero s)) :=
      congrArg (fun u => Float.ofModel (Float.Model.pack u)) hs
    rw [hsub]
    cases s <;> decide +kernel
  cases hu : unpack a with
  | notANumber => exact .inl ((isNaN_sub a a).mpr (.inl ((isNaN_iff a).mpr hu)))
  | infinity s =>
    exact .inl ((isNaN_sub a a).mpr (.inr (.inr ((isInf_and_beq_iff a a).mpr ⟨s, hu, hu⟩))))
  | zero s => exact .inr (hfinite (by show (unpack a).isFinite = true; rw [hu]; rfl))
  | finite s m e hm => exact .inr (hfinite (by show (unpack a).isFinite = true; rw [hu]; rfl))

theorem isNaN_abs (a : Float) : a.abs.isNaN = a.isNaN := by
  rw [Bool.eq_iff_iff]
  show (Float.ofModel (Float.Model.pack (unpack a).abs)).isNaN = true ↔ (unpack a).isNaN = true
  rw [isNaN_pack]
  cases unpack a <;> exact Iff.rfl

end FloatOrder

namespace Report

/-- **The difference of a duration to itself is blank**, whatever the duration. -/
theorem durationDelta_self (a : Float) : durationDelta (a - a) = "" := by
  unfold durationDelta
  rcases FloatOrder.sub_self_cases a with hnan | hzero
  · have hno : ∀ b : Float, ¬ (a - a).abs < b := by
      intro b hlt
      have h : TimeValue.lt (a - a).abs b = true := decide_eq_true hlt
      have hnum := FloatOrder.isNaN_eq_false (FloatOrder.isNumber_of_lt h).1
      rw [FloatOrder.isNaN_abs, hnan] at hnum
      cases hnum
    -- no number is below any bound, so it falls through to the case of too long a difference
    simp only [hno, if_false]
    split <;> rfl
  · simp only [hzero, if_true]

theorem countDelta_self (n : ℕ) : countDelta n n = "" := if_pos rfl

/-- The line below a row in which nothing differs: the cells of the four durations and those of some
counts, all blank. -/
def blankLine (counts : ℕ) : String :=
  cells (Text.spaces 8 :: List.replicate 4 (Text.spaces 8) ++ List.replicate counts (Text.spaces 5))

/-- **Every difference of an aggregate to itself is blank.** -/
theorem deltaLine_self (s : DurationStats Float) (counts : List ℕ) :
    deltaLine s s (counts.map fun n => (n, n)) = blankLine counts.length := by
  have hpad : ∀ w, Text.padLeft w "" = Text.spaces w := fun w =>
    String.append_empty
  have hcounts : (counts.map fun n => (n, n)).map (fun p => Text.padLeft 5 (countDelta p.1 p.2)) =
      List.replicate counts.length (Text.spaces 5) := by
    rw [List.map_map, ← List.map_const']
    exact List.map_congr_left fun n _ => by
      rw [Function.comp_apply, countDelta_self, hpad]
  have hdurations : ∀ a : Float, Text.padLeft 8 (durationDelta (a - a)) = Text.spaces 8 := by
    intro a
    rw [durationDelta_self, hpad]
  unfold deltaLine blankLine
  simp only [List.map_cons, List.map_nil, hdurations]
  exact congrArg (fun l => cells (Text.spaces 8 :: List.replicate 4 (Text.spaces 8) ++ l)) hcounts

end Report

/-! ### Machines in which no number occurs twice -/

namespace Topology

/-- No cluster has the number of another, no core that of another in its cluster, and no CPU that of
another anywhere. -/
structure Distinct (t : Topology τ) : Prop where
  clusters : (t.clusters.map (·.id)).Nodup
  cores : ∀ c ∈ t.clusters, (c.cores.map (·.id)).Nodup
  cpus : t.cpuIds.Nodup

/-- What changes no number of a cluster keeps numbers distinct. -/
theorem Distinct.map {t : Topology τ} (h : t.Distinct) {f : Cluster τ → Cluster τ}
    (hid : ∀ c, (f c).id = c.id) (hcores : ∀ c, (f c).cores.map (·.id) = c.cores.map (·.id))
    (hcpus : ∀ c, (f c).cpus.map (·.id) = c.cpus.map (·.id)) :
    (⟨t.clusters.map f⟩ : Topology τ).Distinct := by
  have hids : (⟨t.clusters.map f⟩ : Topology τ).cpuIds = t.cpuIds := by
    rw [cpuIds, Topology.cpus, List.flatMap_map, List.map_flatMap, cpuIds, Topology.cpus,
      List.map_flatMap]
    simp only [hcpus]
  have hclusters : t.clusters.map ((·.id) ∘ f) = t.clusters.map (·.id) :=
    List.map_congr_left fun c _ => hid c
  refine ⟨?_, ?_, hids ▸ h.cpus⟩
  · rw [List.map_map, hclusters]
    exact h.clusters
  · intro c' hc'
    obtain ⟨c, hc, rfl⟩ := List.mem_map.mp hc'
    rw [hcores]
    exact h.cores c hc

variable [TimeValue τ]

/-- **In a machine from placements no number occurs twice.** -/
theorem distinct_of_build {ps : List Placement} {states : List StateDescriptor} {t : Topology τ}
    (h : Topology.build (.ofPlacements ps states) = .ok t) : t.Distinct := by
  have hnodup := (wellShaped_of_build h).nodup
  have hasc := Layout.ascending_ofPlacements ps
  obtain ⟨-, rfl⟩ := build_eq_ok_iff.mp h
  refine ⟨?_, ?_, hnodup⟩
  · rw [List.map_map]
    exact nodup_of_ascending hasc.clusters
  · intro c' hc'
    obtain ⟨c, hc, rfl⟩ := List.mem_map.mp hc'
    rw [Description.cluster, List.map_map]
    exact nodup_of_ascending (hasc.cores c hc).cores

theorem Distinct.step {t : Topology τ} (h : t.Distinct) (x : Extremum) (e : Event τ) :
    (t.step x e).Distinct := by
  unfold Topology.step
  split
  · next a ha =>
    refine h.map (fun c => Cluster.id_apply ..) (fun c => ?_) fun c => ?_
    · rw [Cluster.cores_apply, List.map_map]
      exact List.map_congr_left fun k _ => Core.id_apply ..
    · rw [Cluster.cpus_apply, map_id_applyToCpu]
  · exact h

theorem Distinct.run {t : Topology τ} (h : t.Distinct) (x : Extremum) (es : List (Event τ)) :
    (t.run x es).Distinct := by
  induction es generalizing t with
  | nil => exact h
  | cons e es ih => exact ih (h.step x e)

theorem Distinct.abandon {t : Topology τ} (h : t.Distinct) : t.abandon.Distinct := by
  refine h.map (fun _ => rfl) (fun c => ?_) fun c => ?_
  · rw [Cluster.abandon, List.map_map]
    rfl
  · rw [Cluster.cpus, Cluster.abandon, List.flatMap_map, List.map_flatMap, Cluster.cpus,
      List.map_flatMap]
    exact List.flatMap_congr fun k _ => by
      rw [Core.abandon, List.map_map]
      rfl

/-! ### A machine side by side with itself -/

/-- **A machine is lined up with itself already.** -/
theorem Distinct.alignTopologies_self {t : Topology τ} (h : t.Distinct) :
    alignTopologies t t = .ok (t, t) := by
  refine alignTopologies_eq_self rfl h.cpus ⟨fun c hc p hp => ?_, fun c hc p hp => ?_⟩
  · obtain rfl : c = p := Option.some.inj ((find?_eq_some_of_nodup h.clusters hc).symm.trans hp)
    refine ⟨fun _ => Iff.rfl, fun k hk q hq => ?_⟩
    obtain rfl : k = q :=
      Option.some.inj ((find?_eq_some_of_nodup (h.cores c hc) hk).symm.trans hq)
    exact fun _ => Iff.rfl
  · obtain rfl : c = p := Option.some.inj ((find?_eq_some_of_nodup h.cpus hc).symm.trans hp)
    exact fun _ => Iff.rfl

omit [TimeValue τ] in
/-- **Every group of a machine is paired with itself.** -/
theorem Distinct.baseline_of_mem_groups {t : Topology τ} (h : t.Distinct) {g : Group τ}
    (hg : g ∈ t.groups (some t)) : g.baseline = some g.tracks := by
  obtain ⟨c, hc, hg⟩ := List.mem_flatMap.mp hg
  have hcluster : t.cluster? c.id = some c := find?_eq_some_of_nodup h.clusters hc
  rw [Cluster.groups, Option.bind_some, hcluster] at hg
  rcases List.mem_cons.mp hg with rfl | hg
  · rfl
  · obtain ⟨k, hk, hg⟩ := List.mem_flatMap.mp hg
    rcases List.mem_append.mp hg with hg | hg
    · split at hg
      · obtain rfl := List.mem_singleton.mp hg
        have hcore : c.core? k.id = some k := find?_eq_some_of_nodup (h.cores c hc) hk
        rw [Core.group, Option.bind_some, hcore]
        rfl
      · exact absurd hg List.not_mem_nil
    · obtain ⟨m, hm, rfl⟩ := List.mem_map.mp hg
      have hmem : m ∈ t.cpus := List.mem_flatMap.mpr ⟨c, hc, List.mem_flatMap.mpr ⟨k, hk, hm⟩⟩
      have hcpu : t.cpu? m.id = some m := find?_eq_some_of_nodup h.cpus hmem
      rw [Cpu.group, Option.bind_some, hcpu]
      rfl

end Topology

/-! ### Rows side by side with themselves -/

/-- The row of an item paired with itself. -/
theorem exists_of_or_self {α ρ : Type} {o : Option α} {mk : α → ρ} {r : ρ}
    (h : (o.or o).map mk = some r) : ∃ s, o = some s ∧ r = mk s := by
  rw [Option.or_self] at h
  obtain ⟨s, hs, hr⟩ := Option.map_eq_some_iff.mp h
  exact ⟨s, hs, hr.symm⟩

theorem cstateRow_self {t : CStateTrack τ} {r : CStateRow τ} (h : r ∈ cstateRows t (some t)) :
    ∃ s, r.current = some s ∧ r.baseline = some s := by
  obtain ⟨d, -, hd⟩ := List.mem_filterMap.mp h
  obtain ⟨s, hs, rfl⟩ := exists_of_or_self hd
  exact ⟨s, hs, hs⟩

theorem pstateRow_self {t : PStateTrack τ} {r : PStateRow τ} (h : r ∈ pstateRows t (some t)) :
    ∃ s, r.current = some s ∧ r.baseline = some s := by
  obtain ⟨f, -, hf⟩ := List.mem_filterMap.mp h
  obtain ⟨s, hs, rfl⟩ := exists_of_or_self hf
  exact ⟨s, hs, hs⟩

section Sections

variable {ρ : Type}

/-- What is in a section of a table is a row of one of the groups. -/
theorem exists_of_mem_sectionsOf {rows : Group τ → List ρ} {groups : List (Group τ)}
    {s : Section ρ} (hs : s ∈ sectionsOf rows groups) {r : ρ} (hr : r ∈ s.rows) :
    ∃ g ∈ groups, r ∈ rows g := by
  obtain ⟨g, hg, rfl⟩ := List.mem_map.mp (List.mem_of_mem_filter hs)
  exact ⟨g, hg, hr⟩

/-- Two ways of writing rows give one table if they agree on the rows that it has. -/
theorem TableFormat.lines_congr (f : TableFormat ρ) {row : ρ → List String}
    {sections : List (Section ρ)} (h : ∀ s ∈ sections, ∀ r ∈ s.rows, f.row r = row r) :
    f.lines sections = { f with row := row }.lines sections := by
  have hsections : sections.flatMap f.sectionLines =
      sections.flatMap { f with row := row }.sectionLines :=
    List.flatMap_congr fun s hs =>
      congrArg (f.label s.level s.label ++ ·) (List.flatMap_congr (h s hs))
  rw [lines, lines, hsections]

end Sections

variable {t : Topology τ}

/-- **Every row of a machine beside itself shows the same state twice.** -/
theorem Topology.Distinct.cstateSections_self (h : t.Distinct) {s : Section (CStateRow τ)}
    (hs : s ∈ cstateSections t (some t)) {r : CStateRow τ} (hr : r ∈ s.rows) :
    ∃ c, r.current = some c ∧ r.baseline = some c := by
  obtain ⟨g, hg, hr⟩ := exists_of_mem_sectionsOf hs hr
  rw [Group.cstateRows, h.baseline_of_mem_groups hg] at hr
  exact cstateRow_self hr

theorem Topology.Distinct.pstateSections_self (h : t.Distinct) {s : Section (PStateRow τ)}
    (hs : s ∈ pstateSections t (some t)) {r : PStateRow τ} (hr : r ∈ s.rows) :
    ∃ p, r.current = some p ∧ r.baseline = some p := by
  obtain ⟨g, hg, hr⟩ := exists_of_mem_sectionsOf hs hr
  rw [Group.pstateRows, h.baseline_of_mem_groups hg] at hr
  exact pstateRow_self hr

/-! ### The report -/

namespace Report

/-- A row of an idle state that did not change: the statistics of the run, then a blank line. -/
def unchangedCState (r : CStateRow Float) : List String :=
  [cstateLine r.name (r.current.getD .unsupported), blankLine 3]

/-- A row of a frequency that did not change. -/
def unchangedPState (r : PStateRow Float) : List String :=
  [pstateLine r.freq ((r.current.map (·.stats)).getD .empty), blankLine 1]

theorem cstateComparison_self {r : CStateRow Float} {s : CState Float} (hc : r.current = some s)
    (hb : r.baseline = some s) : cstateComparison r = unchangedCState r := by
  unfold cstateComparison unchangedCState
  rw [hc, hb]
  exact congrArg (fun l => [cstateLine r.name s, l])
    (deltaLine_self s.stats [s.stats.count, s.early, s.late])

theorem pstateComparison_self {r : PStateRow Float} {s : PState Float} (hc : r.current = some s)
    (hb : r.baseline = some s) : pstateComparison r = unchangedPState r := by
  unfold pstateComparison unchangedPState
  rw [hc, hb]
  exact congrArg (fun l => [pstateLine r.freq s.stats, l]) (deltaLine_self s.stats [s.stats.count])

/-- Boxed tables with a blank line after every idle state and after every frequency. -/
def unchanged : Format :=
  { comparison with
    cstates := boxedCStates unchangedCState
    pstates := boxedPStates unchangedPState }

/-- The comparison of a machine with itself has a blank line after every row. -/
theorem lines_comparison_self {t : Topology Float} (h : t.Distinct) (o : ReportOptions) :
    comparison.lines o t (some t) = unchanged.lines o t (some t) := by
  have hcstates : comparison.cstates.lines (cstateSections t (some t)) =
      unchanged.cstates.lines (cstateSections t (some t)) := by
    refine TableFormat.lines_congr _ fun s hs r hr => ?_
    obtain ⟨c, hcur, hbase⟩ := h.cstateSections_self hs hr
    exact cstateComparison_self hcur hbase
  have hpstates : comparison.pstates.lines (pstateSections t (some t)) =
      unchanged.pstates.lines (pstateSections t (some t)) := by
    refine TableFormat.lines_congr _ fun s hs r hr => ?_
    obtain ⟨p, hcur, hbase⟩ := h.pstateSections_self hs hr
    exact pstateComparison_self hcur hbase
  rw [Format.lines, Format.lines, hcstates, hpstates]
  rfl

end Report

/-- **A run compared with itself shows no difference.**  Where a machine from placements can be built
its trace can be analysed, the analysis can be given itself as a baseline, and the comparison is
written: each row stands for a state that both runs used, and is followed by a line in which every
difference is blank, also where a statistic is infinite or not a number. -/
theorem Analysis.compared_with_itself {ps : List Placement} {states : List StateDescriptor}
    {t : Topology Float} (h : Topology.build (.ofPlacements ps states) = .ok t)
    (es : List (Event Float)) (o : ReplayOptions) (tables : ReportOptions) :
    ∃ a c : Analysis Float, analyze (.ofPlacements ps states) es o = .ok a ∧
      a.attachBaseline a = .ok c ∧ c.topology = a.topology ∧ c.baseline = some a.topology ∧
      (∀ s ∈ cstateSections c.topology c.baseline, ∀ r ∈ s.rows,
        ∃ state, r.current = some state ∧ r.baseline = some state ∧
          Report.comparison.cstates.row r =
            [Report.cstateLine r.name state, Report.blankLine 3]) ∧
      (∀ s ∈ pstateSections c.topology c.baseline, ∀ r ∈ s.rows,
        ∃ state, r.current = some state ∧ r.baseline = some state ∧
          Report.comparison.pstates.row r =
            [Report.pstateLine r.freq state.stats, Report.blankLine 1]) ∧
      Report.comparison.render tables c =
        .ok (joinLines (Report.unchanged.lines tables c.topology c.baseline)) := by
  obtain ⟨r₀, r, hstart, hrun, -, htop⟩ := Replay.exists_run h o es
  have hanalyze : analyze (.ofPlacements ps states) es o = .ok r.finish := by
    rw [analyze, hstart]
    show (r₀.processAll es >>= fun r => Except.ok r.finish) = _
    rw [hrun]
    rfl
  have hdistinct : r.finish.topology.Distinct := by
    show r.topology.abandon.Distinct
    rw [htop]
    exact ((Topology.distinct_of_build h).run _ es).abandon
  have hattach : r.finish.attachBaseline r.finish =
      .ok { r.finish with baseline := some r.finish.topology } := by
    rw [Analysis.attachBaseline, hdistinct.alignTopologies_self]
    rfl
  refine ⟨r.finish, _, hanalyze, hattach, rfl, rfl, fun s hs row hrow => ?_,
    fun s hs row hrow => ?_, ?_⟩
  · obtain ⟨state, hcur, hbase⟩ := hdistinct.cstateSections_self hs hrow
    refine ⟨state, hcur, hbase, (Report.cstateComparison_self hcur hbase).trans ?_⟩
    rw [Report.unchangedCState, hcur]
    rfl
  · obtain ⟨state, hcur, hbase⟩ := hdistinct.pstateSections_self hs hrow
    refine ⟨state, hcur, hbase, (Report.pstateComparison_self hcur hbase).trans ?_⟩
    rw [Report.unchangedPState, hcur]
    rfl
  · exact congrArg (fun ls => Except.ok (joinLines ls))
      (Report.lines_comparison_self hdistinct tables)

/-- A CPU goes idle twice for ever, so that the mean of its stays is not a number; another one changes
its frequency. -/
def Event.endless : List (Event Float) :=
  [⟨0, 0, .idleEnter 0⟩, ⟨1 / 0, 0, .idleExit⟩, ⟨0, 0, .idleEnter 0⟩, ⟨1 / 0, 0, .idleExit⟩,
    ⟨0, 1, .freqChange 800⟩, ⟨1, 1, .freqChange 600⟩]

/-- In the comparison of such a run with itself there is a row without a mean, and its difference is
blank. -/
theorem Analysis.compared_with_itself_endless :
    ∃ t : Topology Float, Topology.build .sharedCore = .ok t ∧
      ∃ a c : Analysis Float, analyze .sharedCore Event.endless {} = .ok a ∧
        a.attachBaseline a = .ok c ∧
        (∃ s ∈ cstateSections c.topology c.baseline, ∃ r ∈ s.rows, ∃ state,
          r.current = some state ∧ state.stats.avg.isNaN = true ∧
          Report.comparison.cstates.row r =
            [Report.cstateLine r.name state, Report.blankLine 3]) ∧
        (pstateSections c.topology c.baseline).length = 3 ∧
        Report.comparison.render { frequency := true } c =
          .ok (joinLines (Report.unchanged.lines { frequency := true } c.topology c.baseline)) := by
  obtain ⟨a, c, ha, hc, htop, hbase, hrows, -, hrender⟩ :=
    @Analysis.compared_with_itself [⟨0, 0, 0, false⟩, ⟨0, 0, 1, false⟩]
      [⟨1, 0, "WFI", some 1000⟩] _ rfl Event.endless {} { frequency := true }
  have hshown : (analyze .sharedCore Event.endless {}).toOption.map (fun a =>
      ((cstateSections a.topology (some a.topology)).any fun s => s.rows.any fun r =>
        r.current.any fun state => state.stats.avg.isNaN,
        (pstateSections a.topology (some a.topology)).length)) = some (true, 3) := by
    decide +kernel
  rw [show analyze .sharedCore Event.endless {} = .ok a from ha, Except.toOption, Option.map_some,
    ← hbase, ← htop] at hshown
  obtain ⟨hany, hlength⟩ := Prod.mk.inj (Option.some.inj hshown)
  obtain ⟨s, hs, hany⟩ := List.any_eq_true.mp hany
  obtain ⟨r, hr, hany⟩ := List.any_eq_true.mp hany
  obtain ⟨state, hstate, hnan⟩ := (Option.any_eq_true _ _).mp hany
  obtain ⟨state', hstate', -, hrow⟩ := hrows s hs r hr
  obtain rfl : state = state' := Option.some.inj (hstate.symm.trans hstate')
  exact ⟨_, rfl, a, c, ha, hc, ⟨s, hs, r, hr, state, hstate, hnan, hrow⟩, hlength, hrender⟩

end PowerTrace
