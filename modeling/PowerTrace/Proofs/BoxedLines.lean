import PowerTrace.Proofs.CellWidths

/-!
# The lines of the boxed tables

A row of a boxed table is a row of cells, each filled up to the width of its column.  A text that does not
fit its column is not cut, except for the names of wake-up sources, and pushes the rest of its row out of
line.  So a row is as wide as its table exactly if every text fits.

* `Report.length_cells_eq_iff`: which rows of cells have the width of their table;
* `Report.FitsTables`: an analysis of the size that the tables are made for;
* `Report.cstates_aligned_iff`, `Report.pstates_aligned_iff`, `Report.wakeups_aligned`: which tables are
  aligned;
* `Report.boxed_lines_up`: the report as a whole.
-/

namespace PowerTrace

open Text (padLeft padRight cut)

namespace Report

/-! ### Cells -/

theorem length_cells (cs : List String) : (cells cs).length = 1 + (cs.map (·.length + 3)).sum := by
  have hbar : " ".length + " |".length = 3 := by decide
  have hjoin : (String.join (cs.map fun c => " " ++ c ++ " |")).length = (cs.map (·.length + 3)).sum := by
    induction cs with
    | nil => rfl
    | cons c cs ih =>
      rw [List.map_cons, String.join_cons, String.length_append, ih, List.map_cons, List.sum_cons,
        String.length_append, String.length_append]
      omega
  rw [cells, String.length_append, hjoin]
  rfl

theorem cells_ne_empty (cs : List String) : cells cs ≠ "" := by
  intro h
  have hlen := congrArg String.length h
  rw [length_cells, String.length_empty] at hlen
  omega

/-- Columns are as wide as they should be exactly if all texts fit. -/
theorem sum_columns_eq_iff (columns : List (ℕ × String)) :
    (columns.map (·.1 + 3)).sum ≤ (columns.map fun c => max c.1 c.2.length + 3).sum ∧
      ((columns.map fun c => max c.1 c.2.length + 3).sum = (columns.map (·.1 + 3)).sum ↔
        ∀ c ∈ columns, c.2.length ≤ c.1) := by
  induction columns with
  | nil => simp
  | cons c columns ih =>
    simp only [List.map_cons, List.sum_cons, List.forall_mem_cons]
    rw [← ih.2]
    have hle := ih.1
    omega

/-- **A row is as wide as its table** exactly if every text fits its column. -/
theorem length_cells_eq_iff {cs : List String} (columns : List (ℕ × String))
    (h : cs.map String.length = columns.map fun c => max c.1 c.2.length) {width : ℕ}
    (hwidth : 1 + (columns.map (·.1 + 3)).sum = width) :
    (cells cs).length = width ↔ ∀ c ∈ columns, c.2.length ≤ c.1 := by
  have hsum : (cs.map (·.length + 3)).sum = (columns.map fun c => max c.1 c.2.length + 3).sum := by
    have hmap := congrArg (fun ls => (ls.map (· + 3)).sum) h
    simpa [List.map_map, Function.comp_def] using hmap
  rw [length_cells, hsum, ← (sum_columns_eq_iff columns).2]
  omega

/-! ### Rows -/

/-- The durations that a row shows. -/
def shownDurations (s : DurationStats Float) : List Float := [s.min, s.max, s.avg, s.total]

/-- The row of an idle state is as wide as its table exactly if all it shows fits. -/
theorem length_cstateLine_eq_iff (name : String) (s : CState Float) :
    (cstateLine name s).length = cstateWidth ↔ name.length ≤ 8 ∧
      (∀ us ∈ shownDurations s.stats, (duration us).length ≤ 8) ∧
      ∀ n ∈ [s.stats.count, s.early, s.late], (toString n).length ≤ 5 := by
  refine (length_cells_eq_iff ((8, name) :: (shownDurations s.stats).map (fun us => (8, duration us)) ++
    [s.stats.count, s.early, s.late].map fun n => (5, toString n)) ?_ rfl).trans ?_
  · simp [durationCells, shownDurations, Text.length_padLeft]
  · simp only [List.cons_append, List.forall_mem_cons, List.forall_mem_append, List.forall_mem_map]

/-- The row of a frequency likewise. -/
theorem length_pstateLine_eq_iff (freq : ℕ) (s : DurationStats Float) :
    (pstateLine freq s).length = pstateWidth ↔ (frequency freq).length ≤ 8 ∧
      (∀ us ∈ shownDurations s, (duration us).length ≤ 8) ∧ (toString s.count).length ≤ 5 := by
  refine (length_cells_eq_iff ((8, frequency freq) ::
    (shownDurations s).map (fun us => (8, duration us)) ++ [(5, toString s.count)]) ?_ rfl).trans ?_
  · simp [durationCells, shownDurations, Text.length_padLeft]
  · simp only [List.cons_append, List.forall_mem_cons, List.forall_mem_append, List.forall_mem_map,
      List.not_mem_nil, false_imp_iff, implies_true, and_true]

/-- The name of a wake-up source is cut, so only its number and its counts may fail to fit. -/
theorem length_wakeupLine_eq_iff (s : WakeupSource) :
    (wakeupLine s).length = wakeupWidth ↔ (sourceNumber s).length ≤ 3 ∧
      ∀ n ∈ [s.count, s.early, s.late], (toString n).length ≤ 7 := by
  refine (length_cells_eq_iff ((3, sourceNumber s) :: (15, cut 15 s.name) ::
    [s.count, s.early, s.late].map fun n => (7, toString n)) ?_ rfl).trans ?_
  · simp [Text.length_padLeft, Text.length_padRight]
  · simp only [List.forall_mem_cons, List.forall_mem_map, Text.length_cut_le, true_and]

theorem length_boxedLabel {width : ℕ} {level : GroupLevel} {label : String} (hwidth : 33 ≤ width)
    (hlabel : IsShortLabel label) : ∀ l ∈ boxedLabel width level label, l.length = width := by
  have hlen := hlabel.length_le
  have hindent : indent level ≤ 12 := by cases level <;> decide
  simp [boxedLabel, rule, length_cells, Text.length_padRight]
  omega

/-! ### Line feeds -/

@[simp] theorem lineFeed_mem_padLeft {width : ℕ} {s : String} :
    '\n' ∈ (padLeft width s).toList ↔ '\n' ∈ s.toList := by
  simp [padLeft, Text.spaces]

@[simp] theorem lineFeed_mem_padRight {width : ℕ} {s : String} :
    '\n' ∈ (padRight width s).toList ↔ '\n' ∈ s.toList := by
  simp [padRight, Text.spaces]

@[simp] theorem lineFeed_mem_cells {cs : List String} :
    '\n' ∈ (cells cs).toList ↔ ∃ c ∈ cs, '\n' ∈ c.toList := by
  simp [cells]

theorem lineFeed_not_mem_of_isNumeral {s : String} (h : ∀ c ∈ s.toList, Text.IsNumeral c) :
    '\n' ∉ s.toList := fun hmem => absurd (h _ hmem) (by decide)

@[simp] theorem lineFeed_not_mem_fixed (places : ℕ) (x : Float) : '\n' ∉ (Text.fixed places x).toList :=
  lineFeed_not_mem_of_isNumeral fun _ => Text.isNumeral_of_mem_fixed

@[simp] theorem lineFeed_not_mem_toDigits (n : ℕ) : '\n' ∉ Nat.toDigits 10 n :=
  fun hmem => absurd (Text.isNumeral_of_mem_toDigits hmem) (by decide)

@[simp] theorem lineFeed_not_mem_duration (us : Float) : '\n' ∉ (duration us).toList := by
  unfold duration
  split_ifs <;> simp

@[simp] theorem lineFeed_not_mem_frequency (hz : ℕ) : '\n' ∉ (frequency hz).toList := by
  unfold frequency
  dsimp only
  split_ifs <;> simp

@[simp] theorem lineFeed_not_mem_sourceNumber (s : WakeupSource) : '\n' ∉ (sourceNumber s).toList := by
  unfold sourceNumber
  split
  · exact lineFeed_not_mem_of_isNumeral fun _ => Text.isNumeral_of_mem_int
  · decide

theorem lineFeed_not_mem_cstateLine {name : String} (h : '\n' ∉ name.toList) (s : CState Float) :
    '\n' ∉ (cstateLine name s).toList := by
  simp [cstateLine, durationCells, h]

theorem lineFeed_not_mem_pstateLine (freq : ℕ) (s : DurationStats Float) :
    '\n' ∉ (pstateLine freq s).toList := by
  simp [pstateLine, durationCells]

theorem lineFeed_not_mem_wakeupLine {s : WakeupSource} (h : '\n' ∉ s.name.toList) :
    '\n' ∉ (wakeupLine s).toList := by
  have hcut : '\n' ∉ (cut 15 s.name).toList := by
    rw [cut, String.toList_ofList]
    exact fun hmem => h (List.mem_of_mem_take hmem)
  simp [wakeupLine, hcut]

theorem lineFeed_not_mem_boxedLabel {width : ℕ} {level : GroupLevel} {label : String}
    (h : IsShortLabel label) : ∀ l ∈ boxedLabel width level label, '\n' ∉ l.toList := by
  simp [boxedLabel, rule, Text.spaces, h.lineFeed_not_mem]

/-! ### Tables -/

/-- Whether lines are empty or as wide as their table. -/
def IsAligned (width : ℕ) (ls : List String) : Prop := ∀ l ∈ ls, l = "" ∨ l.length = width

instance (width : ℕ) (ls : List String) : Decidable (IsAligned width ls) :=
  inferInstanceAs (Decidable (∀ l ∈ ls, _ ∨ _))

/-- Statistics of a size that the tables are made for: a count of five digits and durations below 9999
seconds. -/
def IsModerate (s : DurationStats Float) : Prop :=
  s.count ≤ 99999 ∧ ∀ us ∈ shownDurations s, 0 < us ∧ us < 9999000000

instance (s : DurationStats Float) : Decidable (IsModerate s) := inferInstanceAs (Decidable (_ ∧ _))

/-- An analysis of a size that the tables are made for: names of eight characters, counts of five digits,
frequencies below 10 GHz and durations below 9999 seconds, and interrupts with numbers of three digits and
counts of seven. -/
structure FitsTables (t : Topology Float) (baseline : Option (Topology Float)) : Prop where
  names : ∀ g ∈ t.groups baseline, ∀ d, ∀ name ∈ (g.tracks.cstates.slot d).name,
    name.length ≤ 8 ∧ '\n' ∉ name.toList
  cstates : ∀ g ∈ t.groups baseline, ∀ r ∈ g.cstateRows, ∀ s ∈ r.current,
    IsModerate s.stats ∧ s.early ≤ 99999 ∧ s.late ≤ 99999
  pstates : ∀ g ∈ t.groups baseline, ∀ r ∈ g.pstateRows, ∀ p ∈ r.current,
    r.freq < 10000000000 ∧ IsModerate p.stats
  sources : ∀ c ∈ t.cpus, ∀ s ∈ c.wakeups.sources, '\n' ∉ s.name.toList ∧
    (∀ id ∈ s.id, 0 ≤ id ∧ id ≤ 999) ∧ ∀ n ∈ [s.count, s.early, s.late], n ≤ 9999999

theorem length_shownName_le {s : CState Float} (h : ∀ name ∈ s.name, name.length ≤ 8) (d : Depth) :
    (s.shownName d).length ≤ 8 := by
  unfold CState.shownName
  cases hname : s.name with
  | some name => exact h name hname
  | none =>
    have hdigits := (Text.length_toString_le_iff (by decide : 0 < 7) d.val).mpr
      (d.isLt.trans (by decide))
    rw [Option.getD_none, String.length_append]
    exact Nat.add_comm _ _ ▸ Nat.add_le_add_right hdigits 1

theorem length_sourceNumber_le {s : WakeupSource} (h : ∀ id ∈ s.id, 0 ≤ id ∧ id ≤ 999) :
    (sourceNumber s).length ≤ 3 := by
  unfold sourceNumber
  cases hid : s.id with
  | none => decide
  | some id =>
    obtain ⟨hpos, hle⟩ := h id hid
    obtain ⟨n, rfl⟩ := Int.eq_ofNat_of_zero_le hpos
    exact (Text.length_toString_le_iff (by decide : 0 < 3) n).mpr (by omega)

theorem forall_duration_iff {s : DurationStats Float} (h : IsModerate s) :
    (∀ us ∈ shownDurations s, (duration us).length ≤ 8) ↔ ∀ us ∈ shownDurations s, ¬ IsAlmostSecond us :=
  forall₂_congr fun us hus => length_duration_le_iff (h.2 us hus).1 (h.2 us hus).2

/-- The line of a row that the run has, if any. -/
theorem isAligned_row_iff {α : Type} {current : Option α} {line : α → String} {width : ℕ}
    (h : ∀ s, line s ≠ "") :
    IsAligned width (current.map line).toList ↔ ∀ s ∈ current, (line s).length = width := by
  cases current with
  | none => simp [IsAligned]
  | some s => simp [IsAligned, h]

section Tables

variable {t : Topology Float} {baseline : Option (Topology Float)}

theorem aligned_iff {ρ : Type} {f : TableFormat ρ} {width : ℕ} {rows : Group Float → List ρ}
    (hhead : IsAligned width f.head) (hfoot : IsAligned width f.foot) (hwidth : 33 ≤ width)
    (hlabel : f.label = boxedLabel width) :
    IsAligned width (f.lines (sectionsOf rows (t.groups baseline))) ↔
      ∀ g ∈ t.groups baseline, ∀ r ∈ rows g, IsAligned width (f.row r) := by
  constructor
  · intro h g hg r hr l hl
    obtain ⟨s, hs, hr⟩ := exists_section_of_row hg hr
    exact h l (TableFormat.mem_lines_of_row hs hr hl)
  · intro h
    refine TableFormat.forall_lines hhead (fun s hs l hl => ?_) (fun s hs r hr l hl => ?_) hfoot
    · obtain ⟨g, hg, -, hlab, -⟩ := exists_group_of_mem_sectionsOf hs
      rw [hlabel, hlab] at hl
      exact .inr (length_boxedLabel hwidth (Topology.isShortLabel_of_mem_groups hg) l hl)
    · obtain ⟨g, hg, -, -, hrows⟩ := exists_group_of_mem_sectionsOf hs
      exact h g hg r (hrows ▸ hr) l hl

/-- **The table of idle states** is aligned exactly if it shows no duration just below a second. -/
theorem cstates_aligned_iff (h : FitsTables t baseline) :
    IsAligned cstateWidth (boxed.cstates.lines (cstateSections t baseline)) ↔
      ∀ g ∈ t.groups baseline, ∀ r ∈ g.cstateRows, ∀ s ∈ r.current, ∀ us ∈ shownDurations s.stats,
        ¬ IsAlmostSecond us := by
  refine (aligned_iff (by decide) (by decide) (by decide) rfl).trans ?_
  refine forall₄_congr fun g hg r hr => (isAligned_row_iff fun s => cells_ne_empty _).trans ?_
  refine forall₂_congr fun s hs => ?_
  obtain ⟨hmoderate, hcounts⟩ := h.cstates g hg r hr s hs
  have hname : r.name.length ≤ 8 := by
    rw [(cstateRow_of_current hr hs).2]
    exact length_shownName_le (fun name hname => (h.names g hg r.depth name hname).1) _
  have hcounts : ∀ n ∈ [s.stats.count, s.early, s.late], (toString n).length ≤ 5 := by
    simp only [Text.length_toString_le_iff (by decide : 0 < 5), List.forall_mem_cons]
    have hcount := hmoderate.1
    refine ⟨by omega, by omega, by omega, by simp⟩
  refine (length_cstateLine_eq_iff r.name s).trans ?_
  rw [forall_duration_iff hmoderate]
  exact ⟨fun h => h.2.1, fun h => ⟨hname, h, hcounts⟩⟩

/-- **The table of frequencies** is aligned exactly if it shows no duration just below a second, and no
frequency of three digits. -/
theorem pstates_aligned_iff (h : FitsTables t baseline) :
    IsAligned pstateWidth (boxed.pstates.lines (pstateSections t baseline)) ↔
      ∀ g ∈ t.groups baseline, ∀ r ∈ g.pstateRows, ∀ p ∈ r.current,
        ¬ HasThreeDigits r.freq ∧ ∀ us ∈ shownDurations p.stats, ¬ IsAlmostSecond us := by
  refine (aligned_iff (by decide) (by decide) (by decide) rfl).trans ?_
  refine forall₄_congr fun g hg r hr => (isAligned_row_iff fun p => cells_ne_empty _).trans ?_
  refine forall₂_congr fun p hp => ?_
  obtain ⟨hfreq, hmoderate⟩ := h.pstates g hg r hr p hp
  have hcount := (Text.length_toString_le_iff (by decide : 0 < 5) p.stats.count).mpr
    (Nat.lt_succ_of_le hmoderate.1)
  refine (length_pstateLine_eq_iff r.freq p.stats).trans ?_
  rw [forall_duration_iff hmoderate, length_frequency_le_iff hfreq]
  exact ⟨fun h => ⟨h.1, h.2.1⟩, fun h => ⟨h.1, h.2, hcount⟩⟩

/-- **The table of wake-up sources** is always aligned. -/
theorem wakeups_aligned (h : FitsTables t baseline) :
    IsAligned wakeupWidth (boxed.wakeups.lines (wakeupSections t)) := by
  refine TableFormat.forall_lines (by decide) (fun s hs l hl => ?_) (fun s hs r hr l hl => ?_) (by decide)
  · obtain ⟨c, -, hlabel, -⟩ := exists_cpu_of_mem_wakeupSections hs
    rw [hlabel] at hl
    exact .inr (length_boxedLabel (by decide) c.isShortLabel_label l hl)
  · obtain ⟨c, hc, -, hrows⟩ := exists_cpu_of_mem_wakeupSections hs
    obtain ⟨-, hid, hcounts⟩ := h.sources c hc r (hrows ▸ hr)
    obtain rfl : l = wakeupLine r := by simpa [boxed, boxedWakeups] using hl
    refine .inr ((length_wakeupLine_eq_iff r).mpr ⟨length_sourceNumber_le hid, fun n hn => ?_⟩)
    exact (Text.length_toString_le_iff (by decide) n).mpr (Nat.lt_succ_of_le (hcounts n hn))

/-- No line of a report holds a line feed. -/
theorem lineFeed_not_mem_boxed (h : FitsTables t baseline) (o : ReportOptions) :
    ∀ l ∈ boxed.lines o t baseline, '\n' ∉ l.toList := by
  have hgroup : ∀ {ρ : Type} {rows : Group Float → List ρ} {width : ℕ},
      ∀ s ∈ sectionsOf rows (t.groups baseline), ∀ l ∈ boxedLabel width s.level s.label,
        '\n' ∉ l.toList := by
    intro ρ rows width s hs
    obtain ⟨g, hg, -, hlabel, -⟩ := exists_group_of_mem_sectionsOf hs
    rw [hlabel]
    exact lineFeed_not_mem_boxedLabel (Topology.isShortLabel_of_mem_groups hg)
  refine Format.forall_lines ?_ ?_ ?_
  · refine TableFormat.forall_lines (by decide) hgroup (fun s hs r hr l hl => ?_) (by decide)
    obtain ⟨g, hg, -, -, hrows⟩ := exists_group_of_mem_sectionsOf hs
    rw [hrows] at hr
    obtain ⟨c, hc, rfl⟩ : ∃ c, r.current = some c ∧ cstateLine r.name c = l := by
      simpa [boxed, boxedCStates] using hl
    refine lineFeed_not_mem_cstateLine ?_ c
    rw [(cstateRow_of_current hr hc).2]
    exact lineFeed_not_mem_shownName (fun name hname => (h.names g hg r.depth name hname).2) _
  · refine TableFormat.forall_lines (by decide) hgroup (fun s hs r hr l hl => ?_) (by decide)
    obtain ⟨p, -, rfl⟩ : ∃ p, r.current = some p ∧ pstateLine r.freq p.stats = l := by
      simpa [boxed, boxedPStates] using hl
    exact lineFeed_not_mem_pstateLine r.freq p.stats
  · refine TableFormat.forall_lines (by decide) (fun s hs => ?_) (fun s hs r hr l hl => ?_) (by decide)
    · obtain ⟨c, -, hlabel, -⟩ := exists_cpu_of_mem_wakeupSections hs
      rw [hlabel]
      exact lineFeed_not_mem_boxedLabel c.isShortLabel_label
    · obtain ⟨c, hc, -, hrows⟩ := exists_cpu_of_mem_wakeupSections hs
      obtain rfl : l = wakeupLine r := by simpa [boxed, boxedWakeups] using hl
      exact lineFeed_not_mem_wakeupLine (h.sources c hc r (hrows ▸ hr)).1

end Tables

/-- **Which tables keep their alignment.**  The report of an analysis of a size that the tables are made for
comes apart at its line feeds into its lines.  The lines of the table of idle states are empty or as wide as
the table exactly if it shows no duration in the last five microseconds before a second, which takes the
four digits of a thousand milliseconds; those of the table of frequencies if it shows no such duration
either, and no frequency that has three digits before the point; and those of the table of wake-up sources
always. -/
theorem boxed_lines_up (o : ReportOptions) (a : Analysis Float) (h : FitsTables a.topology a.baseline) :
    ∃ text, boxed.render o a = .ok text ∧
      text.toList.splitOn '\n' = (boxed.lines o a.topology a.baseline).map String.toList ++ [[]] ∧
      (IsAligned cstateWidth (boxed.cstates.lines (cstateSections a.topology a.baseline)) ↔
        ∀ g ∈ a.topology.groups a.baseline, ∀ r ∈ g.cstateRows, ∀ s ∈ r.current,
          ∀ us ∈ shownDurations s.stats, ¬ IsAlmostSecond us) ∧
      (IsAligned pstateWidth (boxed.pstates.lines (pstateSections a.topology a.baseline)) ↔
        ∀ g ∈ a.topology.groups a.baseline, ∀ r ∈ g.pstateRows, ∀ p ∈ r.current,
          ¬ HasThreeDigits r.freq ∧ ∀ us ∈ shownDurations p.stats, ¬ IsAlmostSecond us) ∧
      IsAligned wakeupWidth (boxed.wakeups.lines (wakeupSections a.topology)) :=
  ⟨_, rfl, splitOn_joinLines (lineFeed_not_mem_boxed h o), cstates_aligned_iff h, pstates_aligned_iff h,
    wakeups_aligned h⟩

end Report

/-- A machine with one CPU and one state. -/
def Description.oneState : Description := ⟨.flat 1, [⟨0, 0, "C1", some 1⟩]⟩

/-- A CPU that runs at 800 MHz for a second, and then is idle for a microsecond less than another. -/
def Event.nearSecond : List (Event Float) :=
  [⟨0, 0, .freqChange 800000000⟩, ⟨1, 0, .idleEnter 0⟩, ⟨1.999999, 0, .idleExit⟩,
    ⟨1.999999, 0, .wakeup (some 17) "timer"⟩]

namespace Report

/-- The run at 800 MHz is of a size that the tables are made for, and shows a duration and a frequency that do
not fit. -/
theorem exists_nearSecond :
    ∃ a : Analysis Float, analyze .oneState Event.nearSecond {} = .ok a ∧ a.baseline = none ∧
      FitsTables a.topology a.baseline ∧
      (∃ g ∈ a.topology.groups a.baseline, ∃ r ∈ g.cstateRows, ∃ s ∈ r.current,
        ∃ us ∈ shownDurations s.stats, IsAlmostSecond us) ∧
      ∃ g ∈ a.topology.groups a.baseline, ∃ r ∈ g.pstateRows, ∃ p ∈ r.current, HasThreeDigits r.freq :=
  ⟨_, rfl, rfl, ⟨by decide +kernel, by decide +kernel, by decide +kernel, by decide +kernel⟩,
    by decide +kernel, by decide +kernel⟩

theorem boxed_lines_up_nearSecond :
    ∃ a : Analysis Float, analyze .oneState Event.nearSecond {} = .ok a ∧
      FitsTables a.topology a.baseline ∧
      ∃ text, boxed.render {} a = .ok text ∧
        text.toList.splitOn '\n' = (boxed.lines {} a.topology a.baseline).map String.toList ++ [[]] := by
  obtain ⟨a, ha, -, hfits, -⟩ := exists_nearSecond
  exact ⟨a, ha, hfits, (boxed_lines_up {} a hfits).imp fun _ h => ⟨h.1, h.2.1⟩⟩

/-- **Two tables lose their alignment** to 1000.00 milliseconds and to 800.00 MHz, which take nine characters
each. -/
theorem near_second_out_of_line :
    ∃ a : Analysis Float, analyze .oneState Event.nearSecond {} = .ok a ∧ a.baseline = none ∧
      FitsTables a.topology a.baseline ∧
      ¬ IsAligned cstateWidth (boxed.cstates.lines (cstateSections a.topology a.baseline)) ∧
      ¬ IsAligned pstateWidth (boxed.pstates.lines (pstateSections a.topology a.baseline)) := by
  obtain ⟨a, ha, hbase, hfits, ⟨g, hg, r, hr, s, hs, us, hus, hwide⟩, g', hg', r', hr', p, hp, hwide'⟩ :=
    exists_nearSecond
  refine ⟨a, ha, hbase, hfits, fun h => ?_, fun h => ?_⟩
  · exact (cstates_aligned_iff hfits).mp h g hg r hr s hs us hus hwide
  · exact ((pstates_aligned_iff hfits).mp h g' hg' r' hr' p hp).1 hwide'

end Report

end PowerTrace
