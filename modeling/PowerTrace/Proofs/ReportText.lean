import PowerTrace.Proofs.FileLines
import PowerTrace.Report.Formats

/-!
# The characters of a report

A report is written line by line, and a line part by part.  What a reader takes apart again, at the line
feeds or at the commas, comes apart where it was put together as long as no part holds such a character
itself.  Numbers never do, and neither do the labels of groups; names may.

* `splitOn_joinLines`: a report comes apart at its line feeds;
* `TableFormat.forall_lines`: what holds of every part of a table;
* `Text.IsNumeral`: the characters of numbers;
* `Topology.isShortLabel_of_mem_groups`: the labels of groups are short, and hold letters and digits
  only.
-/

namespace PowerTrace

/-! ### Lines -/

/-- **A report comes apart at its line feeds** into its lines, and nothing after the last. -/
theorem splitOn_joinLines {ls : List String} (h : ∀ l ∈ ls, '\n' ∉ l.toList) :
    (joinLines ls).toList.splitOn '\n' = ls.map String.toList ++ [[]] := by
  have hlines : (joinLines ls).toList = (ls.map String.toList).flatMap (· ++ ['\n']) ++ [] := by
    simp [joinLines, List.flatMap_map]
  rw [hlines, Text.splitOn_lines (by simpa using h) List.not_mem_nil]

/-- What holds of the head and the foot of a table, of the label of every section and of the lines of
every row holds of every line. -/
theorem TableFormat.forall_lines {ρ : Type} {f : TableFormat ρ} {sections : List (Section ρ)}
    {P : String → Prop} (hhead : ∀ l ∈ f.head, P l)
    (hlabel : ∀ s ∈ sections, ∀ l ∈ f.label s.level s.label, P l)
    (hrow : ∀ s ∈ sections, ∀ r ∈ s.rows, ∀ l ∈ f.row r, P l) (hfoot : ∀ l ∈ f.foot, P l) :
    ∀ l ∈ f.lines sections, P l := by
  intro l hl
  rcases List.mem_append.mp hl with hl | hl
  · rcases List.mem_append.mp hl with hl | hl
    · exact hhead l hl
    · obtain ⟨s, hs, hl⟩ := List.mem_flatMap.mp hl
      rcases List.mem_append.mp hl with hl | hl
      · exact hlabel s hs l hl
      · obtain ⟨r, hr, hl⟩ := List.mem_flatMap.mp hl
        exact hrow s hs r hr l hl
  · exact hfoot l hl

theorem TableFormat.mem_lines_of_row {ρ : Type} {f : TableFormat ρ} {sections : List (Section ρ)}
    {s : Section ρ} (hs : s ∈ sections) {r : ρ} (hr : r ∈ s.rows) {l : String} (hl : l ∈ f.row r) :
    l ∈ f.lines sections := by
  have hsection : l ∈ f.sectionLines s := List.mem_append_right _ (List.mem_flatMap.mpr ⟨r, hr, hl⟩)
  exact List.mem_append_left _ (List.mem_append_right _ (List.mem_flatMap.mpr ⟨s, hs, hsection⟩))

/-- What holds of every line of the tables that a report has holds of every line of it. -/
theorem Format.forall_lines {f : Format} {o : ReportOptions} {t : Topology Float}
    {baseline : Option (Topology Float)} {P : String → Prop}
    (hcstates : ∀ l ∈ f.cstates.lines (cstateSections t baseline), P l)
    (hpstates : ∀ l ∈ f.pstates.lines (pstateSections t baseline), P l)
    (hwakeups : ∀ l ∈ f.wakeups.lines (wakeupSections t), P l) : ∀ l ∈ f.lines o t baseline, P l := by
  have hasked : ∀ {asked : Bool} {ls : List String}, (∀ l ∈ ls, P l) →
      ∀ l ∈ if asked then ls else [], P l := by
    intro asked ls h
    cases asked with
    | false => exact fun _ hl => nomatch hl
    | true => exact h
  intro l hl
  rcases List.mem_append.mp hl with hl | hl
  · rcases List.mem_append.mp hl with hl | hl
    · exact hasked hcstates l hl
    · exact hasked hpstates l hl
  · exact hasked hwakeups l hl

section Sections

variable {τ ρ : Type}

/-- A section of a table is about one of the groups. -/
theorem exists_group_of_mem_sectionsOf {rows : Group τ → List ρ} {groups : List (Group τ)}
    {s : Section ρ} (h : s ∈ sectionsOf rows groups) :
    ∃ g ∈ groups, s.level = g.level ∧ s.label = g.label ∧ s.rows = rows g := by
  obtain ⟨g, hg, rfl⟩ := List.mem_map.mp (List.mem_filter.mp h).1
  exact ⟨g, hg, rfl, rfl, rfl⟩

/-- A group that has a row has a section. -/
theorem exists_section_of_row {rows : Group τ → List ρ} {groups : List (Group τ)} {g : Group τ}
    (hg : g ∈ groups) {r : ρ} (hr : r ∈ rows g) : ∃ s ∈ sectionsOf rows groups, r ∈ s.rows := by
  have hrows : (rows g).isEmpty = false := List.isEmpty_eq_false_iff.mpr (List.ne_nil_of_mem hr)
  exact ⟨_, List.mem_filter.mpr ⟨List.mem_map_of_mem hg, by rw [hrows]; rfl⟩, hr⟩

/-- A section of the table of wake-up sources is about one of the CPUs. -/
theorem exists_cpu_of_mem_wakeupSections {t : Topology τ} {s : Section WakeupSource}
    (h : s ∈ wakeupSections t) : ∃ c ∈ t.cpus, s.label = c.label ∧ s.rows = c.wakeups.sources := by
  obtain ⟨c, hc, rfl⟩ := List.mem_map.mp (List.mem_filter.mp h).1
  exact ⟨c, hc, rfl, rfl⟩

/-- A row of the run shows the state of its depth, under its name. -/
theorem cstateRow_of_current {g : Group τ} {r : CStateRow τ} (hr : r ∈ g.cstateRows) {s : CState τ}
    (hs : r.current = some s) :
    s = g.tracks.cstates.slot r.depth ∧ r.name = (g.tracks.cstates.slot r.depth).shownName r.depth := by
  obtain ⟨d, -, hd⟩ := List.mem_filterMap.mp hr
  obtain ⟨s', hs', rfl⟩ := Option.map_eq_some_iff.mp hd
  obtain ⟨hused, rfl⟩ : (g.tracks.cstates.slot d).stats.isEmpty = false ∧ g.tracks.cstates.slot d = s := by
    simpa [CStateTrack.used?] using hs
  obtain rfl : g.tracks.cstates.slot d = s' := by
    simpa [CStateTrack.used?, hused] using hs'
  exact ⟨rfl, rfl⟩

end Sections

/-! ### Numbers -/

namespace Text

/-- A character that occurs in numbers: a digit, a sign, a point, or a letter of the words for those that
have no digits. -/
def IsNumeral (c : Char) : Prop := c.isDigit = true ∨ c ∈ "+-.NaNinf".toList

instance (c : Char) : Decidable (IsNumeral c) := inferInstanceAs (Decidable (_ ∨ _))

theorem isNumeral_of_mem_toDigits {n : Nat} {c : Char} (h : c ∈ Nat.toDigits 10 n) : IsNumeral c :=
  .inl (Nat.isDigit_of_mem_toDigits (by decide) (by decide) h)

theorem isNumeral_of_mem_nat {n : Nat} {c : Char} (h : c ∈ (toString n).toList) : IsNumeral c := by
  refine isNumeral_of_mem_toDigits (n := n) ?_
  simpa [toString, Nat.repr] using h

theorem isNumeral_of_mem_int {i : Int} {c : Char} (h : c ∈ (toString i).toList) : IsNumeral c := by
  cases i with
  | ofNat n => exact isNumeral_of_mem_nat h
  | negSucc n =>
    have hsign : (toString (Int.negSucc n)).toList = '-' :: (toString (n + 1)).toList := by
      simp [toString, Int.repr]
    rw [hsign, List.mem_cons] at h
    rcases h with rfl | h
    · decide
    · exact isNumeral_of_mem_nat h

theorem isNumeral_of_mem_placed {places n : Nat} {c : Char} (h : c ∈ placed places n) :
    IsNumeral c := by
  unfold placed zeroFill at h
  split at h
  · exact isNumeral_of_mem_toDigits h
  · simp only [List.mem_append, List.mem_cons, List.mem_replicate] at h
    rcases h with h | rfl | ⟨-, rfl⟩ | h
    · exact isNumeral_of_mem_toDigits h
    · decide
    · decide
    · exact isNumeral_of_mem_toDigits h

theorem isNumeral_of_mem_fixed {places : Nat} {x : Float} {c : Char}
    (h : c ∈ (fixed places x).toList) : IsNumeral c := by
  have hsign : ∀ {negative : Bool}, c ∈ signText [] negative → IsNumeral c := by
    intro negative hc
    cases negative with
    | false => cases hc
    | true => exact List.mem_singleton.mp hc ▸ (by decide)
  have hword : ∀ w ∈ ["NaN", "inf"], w.toList.all fun c => decide (IsNumeral c) := by decide
  have hword : ∀ w ∈ ["NaN", "inf"], ∀ c ∈ w.toList, IsNumeral c := fun w hw c hc =>
    of_decide_eq_true (List.all_eq_true.mp (hword w hw) c hc)
  rw [fixed, fixedWith, String.toList_ofList] at h
  split at h
  · exact hword _ (by simp) c h
  · rcases List.mem_append.mp h with h | h
    · exact hsign h
    · exact hword _ (by simp) c h
  · rcases List.mem_append.mp h with h | h
    · exact hsign h
    · exact isNumeral_of_mem_placed h

end Text

/-! ### Labels -/

section Labels

variable {τ : Type}

/-- A label that holds no more than seventeen letters and digits. -/
structure IsShortLabel (s : String) : Prop where
  length_le : s.length ≤ 17
  alphanum : s.toList.all Char.isAlphanum = true

theorem IsShortLabel.lineFeed_not_mem {s : String} (h : IsShortLabel s) : '\n' ∉ s.toList :=
  fun hmem => absurd (List.all_eq_true.mp h.alphanum _ hmem) (by decide)

instance (s : String) : Decidable (IsShortLabel s) :=
  decidable_of_iff (s.length ≤ 17 ∧ s.toList.all Char.isAlphanum = true)
    ⟨fun h => ⟨h.1, h.2⟩, fun h => ⟨h.1, h.2⟩⟩

theorem length_toString_id_le (id : CpuId) : (toString id.toNat).length ≤ 10 := by
  have hlen : (toString id.toNat).length = (Nat.toDigits 10 id.toNat).length := by
    simp [toString, Nat.repr]
  rw [hlen, Nat.length_toDigits_le_iff (by decide) (by decide)]
  exact Nat.lt_of_lt_of_le id.toNat_lt_size (by decide)

/-- A number after a word of seven letters or fewer. -/
theorem isShortLabel_append {word : String} (hlen : word.length ≤ 7)
    (hword : word.toList.all Char.isAlphanum = true) (id : CpuId) :
    IsShortLabel (word ++ toString id.toNat) where
  length_le := by
    have hid := length_toString_id_le id
    rw [String.length_append]
    omega
  alphanum := by
    rw [String.toList_append, List.all_append, hword, Bool.true_and, List.all_eq_true]
    intro c hc
    have hdigit : c.isDigit = true := by
      refine Nat.isDigit_of_mem_toDigits (b := 10) (n := id.toNat) (by decide) (by decide) ?_
      simpa [toString, Nat.repr] using hc
    simp [Char.isAlphanum, hdigit]

theorem Cpu.isShortLabel_label (c : Cpu τ) : IsShortLabel c.label :=
  isShortLabel_append (by decide) (by decide) c.id

theorem Core.isShortLabel_label (k : Core τ) : IsShortLabel k.label :=
  isShortLabel_append (by decide) (by decide) k.id

theorem Cluster.isShortLabel_label (c : Cluster τ) : IsShortLabel c.label := by
  have hletters : ∀ n < 26, IsShortLabel ("cluster" ++ String.singleton (Char.ofNat ('A'.toNat + n))) := by
    decide
  unfold Cluster.label clusterLetter?
  by_cases hlt : c.id < 26
  · rw [if_pos hlt]
    exact hletters c.id.toNat (UInt32.lt_iff_toNat_lt.mp hlt)
  · rw [if_neg hlt]
    exact isShortLabel_append (by decide) (by decide) c.id

/-- **The labels of groups** are short, and hold letters and digits only. -/
theorem Topology.isShortLabel_of_mem_groups {t : Topology τ} {baseline : Option (Topology τ)}
    {g : Group τ} (h : g ∈ t.groups baseline) : IsShortLabel g.label := by
  obtain ⟨c, -, hg⟩ := List.mem_flatMap.mp h
  rcases List.mem_cons.mp hg with rfl | hg
  · exact c.isShortLabel_label
  · obtain ⟨k, -, hg⟩ := List.mem_flatMap.mp hg
    rcases List.mem_append.mp hg with hg | hg
    · split at hg
      · rw [List.mem_singleton.mp hg]
        exact k.isShortLabel_label
      · exact absurd hg List.not_mem_nil
    · obtain ⟨m, -, rfl⟩ := List.mem_map.mp hg
      exact m.isShortLabel_label

/-- The name under which a state is shown holds a line feed only if its own name does. -/
theorem lineFeed_not_mem_shownName {s : CState τ} (h : ∀ name, s.name = some name → '\n' ∉ name.toList)
    (d : Depth) : '\n' ∉ (s.shownName d).toList := by
  unfold CState.shownName
  cases hname : s.name with
  | some name => exact h name hname
  | none =>
    simp only [Option.getD_none, String.toList_append, List.mem_append, not_or]
    exact ⟨by decide, fun hmem => absurd (Text.isNumeral_of_mem_nat hmem) (by decide)⟩

end Labels

end PowerTrace
