import Mathlib.Data.Nat.Notation
import Mathlib.Tactic.ByContra
import Mathlib.Tactic.Tauto
import PowerTrace.Proofs.Run
import PowerTrace.Report.Formats

/-!
# Labels and rows

The name of a group is written once it is known that there is something to show of the group, and
before it is known what the format makes of it.  What only the baseline used is shown by the format
that compares and passed over by those that show the run alone, so a name may be left with nothing
below it.

* `TableFormat.groupLines`, `TableFormat.lines_sectionsOf`: a table is what it says of each group;
* `TableFormat.Labelled`: a group is named exactly if rows follow;
* `Group.cstateRows_in_use`, `Group.pstateRows_in_use`: which groups have rows, and which have rows of
  the run;
* `Format.labels_and_rows`: in every report a group is named in vain exactly if only the baseline used
  it;
* `Report.label_without_rows`: a report in which that happens.
-/

namespace PowerTrace

variable {τ ρ : Type}

/-! ### A table group by group -/

namespace TableFormat

/-- What a table says of a group: its name and its rows, or nothing without rows to show. -/
def groupLines (f : TableFormat ρ) (rows : Group τ → List ρ) (g : Group τ) : List String :=
  if (rows g).isEmpty then [] else f.label g.level g.label ++ (rows g).flatMap f.row

theorem lines_sectionsOf (f : TableFormat ρ) (rows : Group τ → List ρ) (groups : List (Group τ)) :
    f.lines (sectionsOf rows groups) = f.head ++ groups.flatMap (f.groupLines rows) ++ f.foot := by
  have hsections : (sectionsOf rows groups).flatMap f.sectionLines =
      groups.flatMap (f.groupLines rows) := by
    induction groups with
    | nil => rfl
    | cons g groups ih =>
      rw [sectionsOf, List.map_cons, List.filter_cons, List.flatMap_cons, ← ih, groupLines]
      cases (rows g).isEmpty <;> rfl
  rw [lines, hsections]

/-- A group is named exactly if rows follow, and they follow at once. -/
structure Labelled (f : TableFormat ρ) (rows : Group τ → List ρ) (g : Group τ) : Prop where
  skipped : (rows g).flatMap f.row = [] → f.groupLines rows g = []
  headed : (rows g).flatMap f.row ≠ [] →
    f.groupLines rows g = f.label g.level g.label ++ (rows g).flatMap f.row

/-- Wherever a group has rows, it is named in vain if the format passes over all of them. -/
theorem labelled_iff {f : TableFormat ρ} {rows : Group τ → List ρ} {g : Group τ}
    (hlabel : f.label g.level g.label ≠ []) :
    f.Labelled rows g ↔ rows g = [] ∨ ∃ r ∈ rows g, f.row r ≠ [] := by
  have hshown : (rows g).flatMap f.row = [] ↔ ∀ r ∈ rows g, f.row r = [] := List.flatMap_eq_nil_iff
  cases hrows : rows g with
  | nil =>
    have hlines : f.groupLines rows g = [] := by rw [groupLines, hrows]; rfl
    refine iff_of_true ⟨fun _ => hlines, fun hne => ?_⟩ (.inl rfl)
    rw [hrows] at hne
    exact absurd rfl hne
  | cons r rest =>
    have hlines : f.groupLines rows g = f.label g.level g.label ++ (rows g).flatMap f.row := by
      rw [groupLines, hrows]
      rfl
    rw [hrows] at hshown
    refine ⟨fun h => .inr ?_, ?_⟩
    · by_contra hnone
      push Not at hnone
      have hempty := h.skipped (by rw [hrows]; exact hshown.mpr hnone)
      rw [hlines] at hempty
      exact hlabel (List.append_eq_nil_iff.mp hempty).1
    · rintro (hnil | ⟨r', hr', hne⟩)
      · cases hnil
      · refine ⟨fun hnone => ?_, fun _ => hlines⟩
        rw [hrows] at hnone
        exact absurd (hshown.mp hnone r' hr') hne

/-- Where the rows that a format shows are those of the run, or all, a group is named in vain exactly
if its rows are all of the baseline. -/
theorem labelled_iff_in_use {f : TableFormat ρ} {rows : Group τ → List ρ} {g : Group τ} {all : Bool}
    {ofRun : ρ → Bool} {used unused : Prop} (hlabel : f.label g.level g.label ≠ [])
    (hrow : ∀ r, f.row r = [] ↔ all = false ∧ ofRun r = false)
    (hnil : rows g = [] ↔ ¬ used ∧ unused) (hrun : (∃ r ∈ rows g, ofRun r = true) ↔ used) :
    f.Labelled rows g ↔ all = true ∨ used ∨ unused := by
  have hrow' : ∀ r, f.row r ≠ [] ↔ all = true ∨ ofRun r = true := by
    intro r
    rw [Ne, hrow, not_and_or, Bool.not_eq_false, Bool.not_eq_false]
  simp only [labelled_iff hlabel, hrow']
  cases all with
  | true =>
    refine iff_of_true ?_ (.inl rfl)
    cases hrows : rows g with
    | nil => exact .inl rfl
    | cons r rest => exact .inr ⟨r, List.mem_cons_self, .inl rfl⟩
  | false =>
    simp only [Bool.false_eq_true, false_or, hnil, hrun]
    tauto

end TableFormat

/-! ### Which rows there are -/

/-- Some interval was counted at some depth. -/
def CStateTrack.IsUsed (t : CStateTrack τ) : Prop := ∃ d, (t.used? d).isSome = true

/-- Some dwell was counted at some frequency. -/
def PStateTrack.IsUsed (t : PStateTrack τ) : Prop := ∃ f, (t.used? f).isSome = true

/-- The rows of a table that has one for every key in use, by the run or by its baseline. -/
theorem rows_in_use {κ α : Type} {keys : List κ} {cur base : κ → Option α} {mk : κ → α → ρ}
    {current : ρ → Option α} (hmk : ∀ k s, current (mk k s) = cur k)
    (hkeys : ∀ k, ((cur k).or (base k)).isSome = true → k ∈ keys) :
    ((keys.filterMap fun k => ((cur k).or (base k)).map (mk k)) = [] ↔
      (¬ ∃ k, (cur k).isSome = true) ∧ ¬ ∃ k, (base k).isSome = true) ∧
    ((∃ r ∈ keys.filterMap fun k => ((cur k).or (base k)).map (mk k),
      (current r).isSome = true) ↔ ∃ k, (cur k).isSome = true) := by
  constructor
  · simp only [List.filterMap_eq_nil_iff, Option.map_eq_none_iff, not_exists, Bool.not_eq_true,
      Option.isSome_eq_false_iff, Option.isNone_iff_eq_none, ← forall_and, ← Option.or_eq_none_iff]
    refine ⟨fun h k => ?_, fun h k _ => h k⟩
    by_contra hne
    exact hne (h k (hkeys k (Option.isSome_iff_ne_none.mpr hne)))
  · constructor
    · rintro ⟨r, hr, hcur⟩
      obtain ⟨k, -, hk⟩ := List.mem_filterMap.mp hr
      obtain ⟨s, -, rfl⟩ := Option.map_eq_some_iff.mp hk
      exact ⟨k, hmk k s ▸ hcur⟩
    · rintro ⟨k, hk⟩
      obtain ⟨s, hs⟩ := Option.isSome_iff_exists.mp hk
      have hor : (cur k).or (base k) = some s := by rw [hs, Option.some_or]
      refine ⟨mk k s, List.mem_filterMap.mpr ⟨k, hkeys k ?_, ?_⟩, ?_⟩
      · rw [hor]
        rfl
      · rw [hor, Option.map_some]
      · rw [hmk]
        exact hk

theorem mem_ascendingUnion {xs ys : List ℕ} {f : ℕ} :
    f ∈ ascendingUnion xs ys ↔ f ∈ xs ∨ f ∈ ys := by
  fun_induction ascendingUnion xs ys with
  | case1 ys => simp
  | case2 x xs => simp
  | case3 x xs y ys hlt ih => simp only [List.mem_cons, ih, or_assoc]
  | case4 x xs y ys hlt hgt ih =>
    simp only [List.mem_cons, ih]
    tauto
  | case5 x xs y ys hlt hgt ih =>
    obtain rfl : x = y := by omega
    simp only [List.mem_cons, ih]
    tauto

/-- Only a frequency that has a slot can have been used. -/
theorem PStateTrack.mem_freqs_of_used {t : PStateTrack τ} {f : ℕ} (h : (t.used? f).isSome = true) :
    f ∈ t.freqs := by
  obtain ⟨p, hp⟩ := Option.isSome_iff_exists.mp h
  obtain ⟨hfind, -⟩ := Option.filter_eq_some_iff.mp hp
  have hfreq := List.find?_some hfind
  rw [beq_iff_eq] at hfreq
  exact hfreq ▸ List.mem_map_of_mem (List.mem_of_find?_eq_some hfind)

namespace Group

/-- Which groups have rows in the table of idle states, and which have rows of the run. -/
theorem cstateRows_in_use (g : Group τ) :
    (g.cstateRows = [] ↔
      ¬ g.tracks.cstates.IsUsed ∧ ∀ s, g.baseline = some s → ¬ s.cstates.IsUsed) ∧
    ((∃ r ∈ g.cstateRows, r.current.isSome = true) ↔ g.tracks.cstates.IsUsed) := by
  have hbase : (¬ ∃ d, ((g.baseline.map (·.cstates)).bind (·.used? d)).isSome = true) ↔
      ∀ s, g.baseline = some s → ¬ s.cstates.IsUsed := by
    cases g.baseline with
    | none => simp
    | some s => simp [CStateTrack.IsUsed]
  rw [← hbase]
  exact rows_in_use (fun _ _ => rfl) fun d _ => List.mem_finRange d

/-- Which groups have rows in the table of frequencies, and which have rows of the run. -/
theorem pstateRows_in_use (g : Group τ) :
    (g.pstateRows = [] ↔
      ¬ g.tracks.pstates.IsUsed ∧ ∀ s, g.baseline = some s → ¬ s.pstates.IsUsed) ∧
    ((∃ r ∈ g.pstateRows, r.current.isSome = true) ↔ g.tracks.pstates.IsUsed) := by
  have hbase : (¬ ∃ f, ((g.baseline.map (·.pstates)).bind (·.used? f)).isSome = true) ↔
      ∀ s, g.baseline = some s → ¬ s.pstates.IsUsed := by
    cases g.baseline with
    | none => simp
    | some s => simp [PStateTrack.IsUsed]
  rw [← hbase]
  refine rows_in_use (fun _ _ => rfl) fun f hf => mem_ascendingUnion.mpr ?_
  rw [Option.isSome_or, Bool.or_eq_true] at hf
  refine hf.imp PStateTrack.mem_freqs_of_used fun hf => ?_
  cases hb : g.baseline with
  | none => simp [hb] at hf
  | some s =>
    rw [hb] at hf
    exact PStateTrack.mem_freqs_of_used hf

end Group

/-! ### The three formats -/

namespace Report

variable {f : Format}

theorem label_ne_nil (hf : f ∈ formats) (level : GroupLevel) (label : String) :
    f.cstates.label level label ≠ [] ∧ f.pstates.label level label ≠ [] := by
  rcases List.mem_cons.mp hf with rfl | hf
  · exact ⟨List.cons_ne_nil _ _, List.cons_ne_nil _ _⟩
  · rcases List.mem_cons.mp hf with rfl | hf
    · cases level <;> exact ⟨List.cons_ne_nil _ _, List.cons_ne_nil _ _⟩
    · rw [List.mem_singleton.mp hf]
      exact ⟨List.cons_ne_nil _ _, List.cons_ne_nil _ _⟩

/-- The format that compares writes a line for every row, the others for the rows of the run. -/
theorem row_eq_nil_iff (hf : f ∈ formats) :
    (∀ r, f.cstates.row r = [] ↔ f.needsBaseline = false ∧ r.current.isSome = false) ∧
      ∀ r, f.pstates.row r = [] ↔ f.needsBaseline = false ∧ r.current.isSome = false := by
  rcases List.mem_cons.mp hf with rfl | hf
  · exact ⟨fun r => iff_of_false (List.cons_ne_nil _ _) (fun h => nomatch h.1),
      fun r => iff_of_false (List.cons_ne_nil _ _) (fun h => nomatch h.1)⟩
  · rcases List.mem_cons.mp hf with rfl | hf
    · exact ⟨fun r => by cases hr : r.current <;> simp [separated, hr],
        fun r => by cases hr : r.current <;> simp [separated, hr]⟩
    · rw [List.mem_singleton.mp hf]
      exact ⟨fun r => by cases hr : r.current <;> simp [boxed, boxedCStates, hr],
        fun r => by cases hr : r.current <;> simp [boxed, boxedPStates, hr]⟩

/-- **Which groups are named in vain**: those that only the baseline used, where the format does not
compare. -/
theorem labelled_iff (hf : f ∈ formats) (g : Group Float) :
    (f.cstates.Labelled Group.cstateRows g ↔ f.needsBaseline = true ∨ g.tracks.cstates.IsUsed ∨
      ∀ s, g.baseline = some s → ¬ s.cstates.IsUsed) ∧
    (f.pstates.Labelled Group.pstateRows g ↔ f.needsBaseline = true ∨ g.tracks.pstates.IsUsed ∨
      ∀ s, g.baseline = some s → ¬ s.pstates.IsUsed) := by
  obtain ⟨hc, hp⟩ := label_ne_nil hf g.level g.label
  obtain ⟨hcrow, hprow⟩ := row_eq_nil_iff hf
  obtain ⟨hcnil, hcrun⟩ := g.cstateRows_in_use
  obtain ⟨hpnil, hprun⟩ := g.pstateRows_in_use
  exact ⟨TableFormat.labelled_iff_in_use hc hcrow hcnil hcrun,
    TableFormat.labelled_iff_in_use hp hprow hpnil hprun⟩

/-- A group that only the baseline used is named, and that is all. -/
theorem groupLines_of_unused (hf : f ∈ formats) (halone : f.needsBaseline = false)
    {g : Group Float} (hrun : ¬ g.tracks.cstates.IsUsed) {s : Tracks Float}
    (hs : g.baseline = some s) (hbase : s.cstates.IsUsed) :
    g.cstateRows.flatMap f.cstates.row = [] ∧
      f.cstates.groupLines Group.cstateRows g = f.cstates.label g.level g.label := by
  obtain ⟨hnil, hcur⟩ := g.cstateRows_in_use
  have hrows : g.cstateRows.flatMap f.cstates.row = [] := by
    refine List.flatMap_eq_nil_iff.mpr fun r hr => ((row_eq_nil_iff hf).1 r).mpr ⟨halone, ?_⟩
    exact Bool.eq_false_iff.mpr fun h => hrun (hcur.mp ⟨r, hr, h⟩)
  have hne : g.cstateRows.isEmpty = false := by
    rw [Bool.eq_false_iff, Ne, List.isEmpty_iff, hnil]
    exact fun h => h.2 s hs hbase
  refine ⟨hrows, ?_⟩
  rw [TableFormat.groupLines, if_neg (Bool.eq_false_iff.mp hne), hrows, List.append_nil]

end Report

theorem Topology.baseline_of_mem_groups {t : Topology τ} {g : Group τ} (h : g ∈ t.groups none) :
    g.baseline = none := by
  obtain ⟨c, -, hg⟩ := List.mem_flatMap.mp h
  rcases List.mem_cons.mp hg with rfl | hg
  · rfl
  · obtain ⟨k, -, hg⟩ := List.mem_flatMap.mp hg
    rcases List.mem_append.mp hg with hg | hg
    · split at hg
      · rw [List.mem_singleton.mp hg]
        rfl
      · exact absurd hg List.not_mem_nil
    · obtain ⟨m, -, rfl⟩ := List.mem_map.mp hg
      rfl

/-- **Labels and rows.**  Every report that is not refused is made of what its tables say of each
group, one after the other.  In the table of idle states, and likewise in that of frequencies, a group
is named directly before its rows, and not at all without any, exactly if the format compares, or the
run used some state of the group, or the baseline used none.  Without a baseline all groups are. -/
theorem Format.labels_and_rows {f : Format} (hf : f ∈ Report.formats) (o : ReportOptions)
    (a : Analysis Float) (hbase : f.needsBaseline = true → a.baseline.isSome = true) :
    f.render o a = .ok (joinLines (
      (if o.idle then f.cstates.head ++ (a.topology.groups a.baseline).flatMap
        (f.cstates.groupLines Group.cstateRows) ++ f.cstates.foot else []) ++
      (if o.frequency then f.pstates.head ++ (a.topology.groups a.baseline).flatMap
        (f.pstates.groupLines Group.pstateRows) ++ f.pstates.foot else []) ++
      if o.wakeup then f.wakeups.lines (wakeupSections a.topology) else [])) ∧
    (∀ g ∈ a.topology.groups a.baseline,
      (f.cstates.Labelled Group.cstateRows g ↔ f.needsBaseline = true ∨ g.tracks.cstates.IsUsed ∨
        ∀ s, g.baseline = some s → ¬ s.cstates.IsUsed) ∧
      (f.pstates.Labelled Group.pstateRows g ↔ f.needsBaseline = true ∨ g.tracks.pstates.IsUsed ∨
        ∀ s, g.baseline = some s → ¬ s.pstates.IsUsed)) ∧
    (a.baseline = none → ∀ g ∈ a.topology.groups a.baseline,
      f.cstates.Labelled Group.cstateRows g ∧ f.pstates.Labelled Group.pstateRows g) := by
  have hlabels := Report.labelled_iff hf
  refine ⟨?_, fun g _ => hlabels g, ?_⟩
  · have hshown : (f.needsBaseline && a.baseline.isNone) = false := by
      rw [Bool.and_eq_false_imp]
      intro h
      rw [Option.isNone_eq_false_iff, hbase h]
    rw [render, if_neg (Bool.eq_false_iff.mp hshown), Format.lines, cstateSections, pstateSections,
      TableFormat.lines_sectionsOf, TableFormat.lines_sectionsOf]
  · intro hnone g hg
    rw [hnone] at hg
    have hbaseline := Topology.baseline_of_mem_groups hg
    have hvacuous : ∀ s, g.baseline ≠ some s := fun s hs => nomatch hbaseline.symm.trans hs
    exact ⟨(hlabels g).1.mpr (.inr (.inr fun s hs => absurd hs (hvacuous s))),
      (hlabels g).2.mpr (.inr (.inr fun s hs => absurd hs (hvacuous s)))⟩

/-- A CPU that is idle for a second. -/
def Event.idleOnce : List (Event Float) := [⟨1, 0, .idleEnter 0⟩, ⟨2, 0, .idleExit⟩]

theorem Format.labels_and_rows_idleOnce :
    ∃ a : Analysis Float, analyze .sharedCore Event.idleOnce {} = .ok a ∧
      Report.separated ∈ Report.formats ∧ ∀ g ∈ a.topology.groups a.baseline,
        Report.separated.cstates.Labelled Group.cstateRows g ∧
        Report.separated.pstates.Labelled Group.pstateRows g := by
  have hf : Report.separated ∈ Report.formats := List.mem_cons_of_mem _ List.mem_cons_self
  refine ⟨_, rfl, hf, ?_⟩
  exact (Format.labels_and_rows hf {} _ fun h => nomatch h).2.2 rfl

/-- **A label without rows.**  Nothing happens in the run, and a CPU is idle in the baseline: in the
reports of the run alone the CPU is named, and nothing follows. -/
theorem Report.label_without_rows :
    ∃ (a b c : Analysis Float) (g : Group Float),
      analyze .sharedCore [] {} = .ok a ∧ analyze .sharedCore Event.idleOnce {} = .ok b ∧
      a.attachBaseline b = .ok c ∧ g ∈ c.topology.groups c.baseline ∧
      ∀ f ∈ [separated, boxed], g.cstateRows.flatMap f.cstates.row = [] ∧
        f.cstates.groupLines Group.cstateRows g = f.cstates.label g.level g.label ∧
        ¬ f.cstates.Labelled Group.cstateRows g := by
  obtain ⟨a, b, c, g, s, ha, hb, hc, hg, hrun, hs, hbase⟩ :
      ∃ (a b c : Analysis Float) (g : Group Float) (s : Tracks Float),
        analyze .sharedCore [] {} = .ok a ∧ analyze .sharedCore Event.idleOnce {} = .ok b ∧
        a.attachBaseline b = .ok c ∧ (c.topology.groups c.baseline)[2]? = some g ∧
        (∀ d, (g.tracks.cstates.used? d).isSome = false) ∧ g.baseline = some s ∧
        (s.cstates.used? 0).isSome = true :=
    ⟨_, _, _, _, _, rfl, rfl, rfl, rfl, by decide +kernel, rfl, by decide +kernel⟩
  have hunused : ¬ g.tracks.cstates.IsUsed := by
    rintro ⟨d, hd⟩
    exact Bool.false_ne_true ((hrun d).symm.trans hd)
  refine ⟨a, b, c, g, ha, hb, hc, List.mem_of_getElem? hg, ?_⟩
  intro f hf
  have hmem : f ∈ formats := List.mem_cons_of_mem _ hf
  have halone : f.needsBaseline = false := by
    rcases List.mem_cons.mp hf with rfl | hf
    · rfl
    · rw [List.mem_singleton.mp hf]
      rfl
  obtain ⟨hrows, hlines⟩ := groupLines_of_unused hmem halone hunused hs ⟨0, hbase⟩
  refine ⟨hrows, hlines, ?_⟩
  rw [(labelled_iff hmem g).1, halone]
  rintro (h | h | h)
  · cases h
  · exact hunused h
  · exact h s hs ⟨0, hbase⟩

end PowerTrace
