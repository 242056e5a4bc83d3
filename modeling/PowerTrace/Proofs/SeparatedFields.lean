import Mathlib.Algebra.Order.BigOperators.Group.List
import Mathlib.Algebra.Order.Ring.Nat
import PowerTrace.Proofs.ReportText

/-!
# Fields and columns

The rows of a separated table are read under the line that names the columns.  A row lines up with it if
it comes apart at its commas into as many fields as there are columns.  All fields but the name of a state
or of a wake-up source are numbers; the name is written as it came, so it stays one field exactly if it
holds no comma itself.

* `length_splitOn`: a line has one field more than it has commas;
* `Report.lines_up_iff`: fields of which all but one are known to hold no comma;
* `Report.LinesUp`: a row that lines up with its columns, with a given text under one of them;
* `Report.separated_lines_up`: which rows of a report do.
-/

namespace PowerTrace

/-! ### Fields -/

/-- **A line has one field more than it has separators.** -/
theorem length_splitOn {α : Type} [BEq α] [LawfulBEq α] (a : α) (xs : List α) :
    (xs.splitOn a).length = xs.count a + 1 := by
  induction xs with
  | nil => simp
  | cons x xs ih =>
    rw [List.splitOn_cons_eq_if_modifyHead, List.count_cons]
    split
    · rw [List.length_cons, ih]
    · rw [List.length_modifyHead, ih, Nat.add_zero]

/-- Pieces put together have the separators in between, and those that they hold themselves. -/
theorem count_intercalate {α : Type} [BEq α] [LawfulBEq α] (a : α) {ls : List (List α)} (h : ls ≠ []) :
    ([a].intercalate ls).count a + 1 = ls.length + (ls.map (·.count a)).sum := by
  induction ls with
  | nil => exact absurd rfl h
  | cons l ls ih =>
    cases ls with
    | nil => simp [Nat.add_comm]
    | cons l' ls =>
      have ih := ih (by simp)
      simp at ih ⊢
      omega

theorem eq_or_mem_of_mem_intercalate {α : Type} {a b : α} {ls : List (List α)}
    (h : b ∈ [a].intercalate ls) : b = a ∨ ∃ l ∈ ls, b ∈ l := by
  induction ls with
  | nil => simp at h
  | cons l ls ih =>
    cases ls with
    | nil => exact .inr ⟨l, by simp, by simpa using h⟩
    | cons l' ls =>
      simp only [List.intercalate_cons_cons, List.append_assoc, List.mem_append, List.mem_singleton] at h
      rcases h with h | h | h
      · exact .inr ⟨l, by simp, h⟩
      · exact .inl h
      · obtain h | ⟨l'', hl, h⟩ := ih h
        · exact .inl h
        · exact .inr ⟨l'', List.mem_cons_of_mem _ hl, h⟩

namespace Report

/-- The fields of a line. -/
def fieldsOf (line : String) : List (List Char) := line.toList.splitOn ','

theorem fieldsOf_fields {fs : List String} (hne : fs ≠ []) (h : ∀ f ∈ fs, ',' ∉ f.toList) :
    fieldsOf (fields fs) = fs.map String.toList := by
  rw [fieldsOf, fields, String.toList_intercalate]
  exact List.splitOn_intercalate ',' (by simpa using h) (by simpa using hne)

/-- **Fields of which only one may hold commas.**  A line has as many fields as were written, with that
one in its place, exactly if it holds none. -/
theorem fieldsOf_fields_iff {fs : List String} {f : String} {k : ℕ} (hk : fs[k]? = some f)
    (h : ∀ g ∈ fs, g = f ∨ ',' ∉ g.toList) :
    ((fieldsOf (fields fs)).length = fs.length ∧ (fieldsOf (fields fs))[k]? = some f.toList) ↔
      ',' ∉ f.toList := by
  have hmem : f ∈ fs := List.mem_of_getElem? hk
  have hne : fs ≠ [] := List.ne_nil_of_mem hmem
  constructor
  · rintro ⟨hlen, -⟩ hcomma
    have hpos : 0 < f.toList.count ',' := List.count_pos_iff.mpr hcomma
    have hle : f.toList.count ',' ≤ ((fs.map String.toList).map (·.count ',')).sum :=
      List.le_sum_of_mem (List.mem_map_of_mem (List.mem_map_of_mem hmem))
    have hne' : fs.map String.toList ≠ [] := by simpa using hne
    have hcount := count_intercalate ',' hne'
    rw [fieldsOf, length_splitOn, fields, String.toList_intercalate] at hlen
    rw [List.length_map] at hcount
    have hsep : ",".toList = [','] := by simp
    rw [hsep] at hlen
    omega
  · intro hf
    rw [fieldsOf_fields hne fun g hg => (h g hg).elim (fun he => he ▸ hf) id]
    simp [hk]

/-! ### Columns -/

/-- The line that names the columns of a table, the last before its sections. -/
def columns {ρ : Type} (f : TableFormat ρ) : String := f.head.getLast?.getD ""

/-- A line that has as many fields as a table has columns, with a given text under one of them. -/
structure LinesUp {ρ : Type} (f : TableFormat ρ) (column : String) (text line : String) : Prop where
  count : (fieldsOf line).length = (fieldsOf (columns f)).length
  under : (fieldsOf line)[(fieldsOf (columns f)).idxOf column.toList]? = some text.toList

theorem linesUp_iff {ρ : Type} {f : TableFormat ρ} {column text : String} {fs : List String} {n k : ℕ}
    (hn : (fieldsOf (columns f)).length = n) (hlen : fs.length = n)
    (hk : (fieldsOf (columns f)).idxOf column.toList = k) (htext : fs[k]? = some text)
    (h : ∀ g ∈ fs, g = text ∨ ',' ∉ g.toList) :
    LinesUp f column text (fields fs) ↔ ',' ∉ text.toList := by
  rw [← fieldsOf_fields_iff htext h, hlen, ← hn, ← hk]
  exact ⟨fun h => ⟨h.count, h.under⟩, fun h => ⟨h.1, h.2⟩⟩

/-! ### The fields of the three tables -/

/-- A field that neither a reader of lines nor one of fields takes apart. -/
structure IsPlain (f : String) : Prop where
  comma : ',' ∉ f.toList
  lineFeed : '\n' ∉ f.toList

instance (f : String) : Decidable (IsPlain f) :=
  decidable_of_iff (',' ∉ f.toList ∧ '\n' ∉ f.toList) ⟨fun h => ⟨h.1, h.2⟩, fun h => ⟨h.1, h.2⟩⟩

/-- Numbers are plain. -/
theorem isPlain_of_isNumeral {f : String} (h : ∀ c ∈ f.toList, Text.IsNumeral c) : IsPlain f :=
  ⟨fun hmem => absurd (h _ hmem) (by decide), fun hmem => absurd (h _ hmem) (by decide)⟩

theorem isPlain_count (n : ℕ) : IsPlain (toString n) :=
  isPlain_of_isNumeral fun _ => Text.isNumeral_of_mem_nat

theorem isPlain_of_mem_durationFields {s : DurationStats Float} {f : String}
    (h : f ∈ durationFields s) : IsPlain f := by
  obtain ⟨x, -, rfl⟩ := List.mem_map.mp h
  exact isPlain_of_isNumeral fun _ => Text.isNumeral_of_mem_fixed

theorem isPlain_of_mem_counts {ns : List ℕ} {f : String} (h : f ∈ ns.map toString) : IsPlain f := by
  obtain ⟨n, -, rfl⟩ := List.mem_map.mp h
  exact isPlain_count n

theorem isPlain_sourceNumber (s : WakeupSource) : IsPlain (sourceNumber s) := by
  unfold sourceNumber
  split
  · exact isPlain_of_isNumeral fun _ => Text.isNumeral_of_mem_int
  · decide

/-- All fields of the row of an idle state but its name are plain. -/
theorem cstateFields_cases {name : String} {s : CState Float} {f : String}
    (h : f ∈ cstateFields name s) : f = name ∨ IsPlain f := by
  simp only [cstateFields, List.mem_append, List.mem_cons, List.not_mem_nil, or_false] at h
  rcases h with ((rfl | rfl | rfl | rfl) | h) | h
  · exact .inr (by decide)
  · exact .inr (by decide)
  · exact .inr (by decide)
  · exact .inl rfl
  · exact .inr (isPlain_of_mem_durationFields h)
  · exact .inr (isPlain_of_mem_counts h)

/-- All fields of the row of a frequency are plain. -/
theorem isPlain_of_mem_pstateFields {freq : ℕ} {s : DurationStats Float} {f : String}
    (h : f ∈ pstateFields freq s) : IsPlain f := by
  simp only [pstateFields, List.mem_append, List.mem_cons, List.not_mem_nil, or_false] at h
  rcases h with ((rfl | rfl | rfl | rfl) | h) | rfl
  · decide
  · decide
  · decide
  · exact isPlain_count _
  · exact isPlain_of_mem_durationFields h
  · exact isPlain_count _

/-- All fields of the row of a wake-up source but its name are plain. -/
theorem wakeupFields_cases {s : WakeupSource} {f : String} (h : f ∈ wakeupFields s) :
    f = s.name ∨ IsPlain f := by
  simp only [wakeupFields, List.mem_append, List.mem_cons, List.not_mem_nil, or_false] at h
  rcases h with (rfl | rfl | rfl | rfl | rfl) | h
  · exact .inr (by decide)
  · exact .inr (by decide)
  · exact .inr (by decide)
  · exact .inr (isPlain_sourceNumber s)
  · exact .inl rfl
  · exact .inr (isPlain_of_mem_counts h)

/-- **The row of an idle state** lines up exactly if the name of the state holds no comma. -/
theorem cstateFields_linesUp_iff (name : String) (s : CState Float) :
    LinesUp separated.cstates "C-state" name (fields (cstateFields name s)) ↔ ',' ∉ name.toList :=
  linesUp_iff (n := 11) (k := 3) (by decide) rfl (by decide) rfl fun _ hg =>
    (cstateFields_cases hg).imp_right (·.comma)

/-- **The row of a frequency** always lines up. -/
theorem pstateFields_linesUp (freq : ℕ) (s : DurationStats Float) :
    LinesUp separated.pstates "P-state (kHz)" (toString (freq / 1000)) (fields (pstateFields freq s)) :=
  (linesUp_iff (n := 9) (k := 3) (by decide) rfl (by decide) rfl fun _ hg =>
    .inr (isPlain_of_mem_pstateFields hg).comma).mpr (isPlain_count _).comma

/-- **The row of a wake-up source** lines up exactly if its name holds no comma. -/
theorem wakeupFields_linesUp_iff (s : WakeupSource) :
    LinesUp separated.wakeups "Name" s.name (fields (wakeupFields s)) ↔ ',' ∉ s.name.toList :=
  linesUp_iff (n := 8) (k := 4) (by decide) rfl (by decide) rfl fun _ hg =>
    (wakeupFields_cases hg).imp_right (·.comma)

/-! ### The lines of a report -/

theorem lineFeed_not_mem_fields {fs : List String} (h : ∀ f ∈ fs, '\n' ∉ f.toList) :
    '\n' ∉ (fields fs).toList := by
  intro hmem
  rw [fields, String.toList_intercalate] at hmem
  rcases eq_or_mem_of_mem_intercalate (by simpa using hmem) with he | ⟨l, hl, hmem⟩
  · exact absurd he (by decide)
  · obtain ⟨f, hf, rfl⟩ := List.mem_map.mp hl
    exact h f hf hmem

theorem lineFeed_not_mem_separatedLabel {label : String} (h : '\n' ∉ label.toList) (level : GroupLevel) :
    ∀ l ∈ separatedLabel level label, '\n' ∉ l.toList := by
  have hempty : '\n' ∉ "".toList := by decide
  cases level with
  | cluster => simpa [separatedLabel] using h
  | core =>
    simp only [separatedLabel, List.mem_singleton, forall_eq]
    exact lineFeed_not_mem_fields (by simp [h])
  | cpu =>
    simp only [separatedLabel, List.mem_singleton, forall_eq]
    exact lineFeed_not_mem_fields (by simp [h])

theorem lineFeed_not_mem_groupLabel {ρ : Type} {t : Topology Float} {baseline : Option (Topology Float)}
    {rows : Group Float → List ρ} {s : Section ρ} (hs : s ∈ sectionsOf rows (t.groups baseline)) :
    ∀ l ∈ separatedLabel s.level s.label, '\n' ∉ l.toList := by
  obtain ⟨g, hg, -, hlabel, -⟩ := exists_group_of_mem_sectionsOf hs
  rw [hlabel]
  exact lineFeed_not_mem_separatedLabel (Topology.isShortLabel_of_mem_groups hg).lineFeed_not_mem _

/-- No line of a report holds a line feed unless a name does. -/
theorem lineFeed_not_mem_separated {o : ReportOptions} {t : Topology Float}
    {baseline : Option (Topology Float)}
    (hstates : ∀ g ∈ t.groups baseline, ∀ d, ∀ name ∈ (g.tracks.cstates.slot d).name,
      '\n' ∉ name.toList)
    (hsources : ∀ c ∈ t.cpus, ∀ s ∈ c.wakeups.sources, '\n' ∉ s.name.toList) :
    ∀ l ∈ separated.lines o t baseline, '\n' ∉ l.toList := by
  have hcstates : ∀ l ∈ separated.cstates.lines (cstateSections t baseline), '\n' ∉ l.toList := by
    refine TableFormat.forall_lines (by decide) (fun s hs => lineFeed_not_mem_groupLabel hs)
      (fun s hs r hr l hl => ?_) (by decide)
    obtain ⟨g, hg, -, -, hrows⟩ := exists_group_of_mem_sectionsOf hs
    rw [hrows] at hr
    obtain ⟨c, hc, rfl⟩ : ∃ c, r.current = some c ∧ fields (cstateFields r.name c) = l := by
      simpa [separated] using hl
    refine lineFeed_not_mem_fields fun f hf => ?_
    rcases cstateFields_cases hf with rfl | hplain
    · rw [(cstateRow_of_current hr hc).2]
      exact lineFeed_not_mem_shownName (hstates g hg r.depth) _
    · exact hplain.lineFeed
  have hpstates : ∀ l ∈ separated.pstates.lines (pstateSections t baseline), '\n' ∉ l.toList := by
    refine TableFormat.forall_lines (by decide) (fun s hs => lineFeed_not_mem_groupLabel hs)
      (fun s hs r hr l hl => ?_) (by decide)
    obtain ⟨p, hp, rfl⟩ : ∃ p, r.current = some p ∧ fields (pstateFields r.freq p.stats) = l := by
      simpa [separated] using hl
    exact lineFeed_not_mem_fields fun f hf => (isPlain_of_mem_pstateFields hf).lineFeed
  have hwakeups : ∀ l ∈ separated.wakeups.lines (wakeupSections t), '\n' ∉ l.toList := by
    refine TableFormat.forall_lines (by decide) (fun s hs => ?_) (fun s hs r hr l hl => ?_) (by decide)
    · obtain ⟨c, -, hlabel, -⟩ := exists_cpu_of_mem_wakeupSections hs
      rw [hlabel]
      exact lineFeed_not_mem_separatedLabel c.isShortLabel_label.lineFeed_not_mem _
    · obtain ⟨c, hc, -, hrows⟩ := exists_cpu_of_mem_wakeupSections hs
      rw [hrows] at hr
      obtain rfl : l = fields (wakeupFields r) := by simpa [separated] using hl
      refine lineFeed_not_mem_fields fun f hf => ?_
      rcases wakeupFields_cases hf with rfl | hplain
      · exact hsources c hc r hr
      · exact hplain.lineFeed
  exact Format.forall_lines hcstates hpstates hwakeups

/-- **Which rows line up with their columns.**  Whatever the run and its baseline, as long as no name of a
state or of a wake-up source holds a line feed, the separated report comes apart at its line feeds into
its lines.  The row of an idle state is written under the name of that state, and lines up with the columns
of its table, with the name under the column of names, exactly if the name holds no comma; the row of a
wake-up source likewise; and the row of a frequency always does. -/
theorem separated_lines_up (o : ReportOptions) (a : Analysis Float)
    (hstates : ∀ g ∈ a.topology.groups a.baseline, ∀ d, ∀ name ∈ (g.tracks.cstates.slot d).name,
      '\n' ∉ name.toList)
    (hsources : ∀ c ∈ a.topology.cpus, ∀ s ∈ c.wakeups.sources, '\n' ∉ s.name.toList) :
    ∃ text, separated.render o a = .ok text ∧
      text.toList.splitOn '\n' =
        (separated.lines o a.topology a.baseline).map String.toList ++ [[]] ∧
      (∀ g ∈ a.topology.groups a.baseline, ∀ r ∈ g.cstateRows, ∀ line ∈ separated.cstates.row r,
        r.name = (g.tracks.cstates.slot r.depth).shownName r.depth ∧
        (LinesUp separated.cstates "C-state" r.name line ↔ ',' ∉ r.name.toList)) ∧
      (∀ g ∈ a.topology.groups a.baseline, ∀ r ∈ g.pstateRows, ∀ line ∈ separated.pstates.row r,
        LinesUp separated.pstates "P-state (kHz)" (toString (r.freq / 1000)) line) ∧
      ∀ c ∈ a.topology.cpus, ∀ s ∈ c.wakeups.sources, ∀ line ∈ separated.wakeups.row s,
        (LinesUp separated.wakeups "Name" s.name line ↔ ',' ∉ s.name.toList) := by
  refine ⟨_, rfl, splitOn_joinLines (lineFeed_not_mem_separated hstates hsources), ?_, ?_, ?_⟩
  · intro g hg r hr line hline
    obtain ⟨s, hs, rfl⟩ : ∃ s, r.current = some s ∧ fields (cstateFields r.name s) = line := by
      simpa [separated] using hline
    exact ⟨(cstateRow_of_current hr hs).2, cstateFields_linesUp_iff r.name s⟩
  · intro g hg r hr line hline
    obtain ⟨p, hp, rfl⟩ : ∃ p, r.current = some p ∧ fields (pstateFields r.freq p.stats) = line := by
      simpa [separated] using hline
    exact pstateFields_linesUp r.freq p.stats
  · intro c hc s hs line hline
    obtain rfl : line = fields (wakeupFields s) := by simpa [separated] using hline
    exact wakeupFields_linesUp_iff s

end Report

/-- A machine with one CPU, whose only state has a comma in its name. -/
def Description.commaNamed : Description :=
  .ofPlacements [⟨0, 0, 0, false⟩] [⟨0, 0, "C1,deep", some 1⟩]

/-- A CPU that is idle for a second, and is woken by a source with a comma in its name. -/
def Event.wokenByList : List (Event Float) :=
  [⟨1, 0, .idleEnter 0⟩, ⟨2, 0, .idleExit⟩, ⟨2, 0, .wakeup none "call,func"⟩]

namespace Report

theorem separated_lines_up_commaNamed :
    ∃ a : Analysis Float, analyze .commaNamed Event.wokenByList {} = .ok a ∧
      ∃ text, separated.render {} a = .ok text ∧
        text.toList.splitOn '\n' =
          (separated.lines {} a.topology a.baseline).map String.toList ++ [[]] := by
  refine ⟨_, rfl, ?_⟩
  exact (separated_lines_up {} _ (by decide +kernel) (by decide +kernel)).imp fun _ h => ⟨h.1, h.2.1⟩

/-- **A comma in a name puts its row out of line**, in the table of idle states and in that of wake-up
sources. -/
theorem comma_out_of_line :
    ∃ a : Analysis Float, analyze .commaNamed Event.wokenByList {} = .ok a ∧
      (∃ g ∈ a.topology.groups a.baseline, ∃ r ∈ g.cstateRows, ∃ line ∈ separated.cstates.row r,
        '\n' ∉ r.name.toList ∧ ¬ LinesUp separated.cstates "C-state" r.name line) ∧
      ∃ c ∈ a.topology.cpus, ∃ s ∈ c.wakeups.sources, ∃ line ∈ separated.wakeups.row s,
        '\n' ∉ s.name.toList ∧ ¬ LinesUp separated.wakeups "Name" s.name line := by
  obtain ⟨a, ha, ⟨g, hg, r, hr, hrun, hname⟩, c, hc, s, hs, hsource⟩ :
      ∃ a : Analysis Float, analyze .commaNamed Event.wokenByList {} = .ok a ∧
        (∃ g ∈ a.topology.groups a.baseline, ∃ r ∈ g.cstateRows, r.current.isSome = true ∧
          r.name = "C1,deep") ∧
        ∃ c ∈ a.topology.cpus, ∃ s ∈ c.wakeups.sources, s.name = "call,func" :=
    ⟨_, rfl, by decide +kernel, by decide +kernel⟩
  obtain ⟨s', hs'⟩ := Option.isSome_iff_exists.mp hrun
  refine ⟨a, ha, ⟨g, hg, r, hr, fields (cstateFields r.name s'), by simp [separated, hs'], ?_, ?_⟩,
    c, hc, s, hs, fields (wakeupFields s), by simp [separated], ?_, ?_⟩
  · rw [hname]
    decide
  · rw [cstateFields_linesUp_iff, hname]
    decide
  · rw [hsource]
    decide
  · rw [wakeupFields_linesUp_iff, hsource]
    decide

end Report

end PowerTrace
