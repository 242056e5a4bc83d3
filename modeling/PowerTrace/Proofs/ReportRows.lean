import Mathlib.Data.List.Destutter
import PowerTrace.Proofs.Labels
import PowerTrace.Proofs.RankWalk

/-!
# Rows of two tables

The rows of a table of frequencies are those of either of two tracks at which something was counted.
They are found without lining the tables up first, and lining them up only adds slots with nothing
counted, so the rows are the same before and after.

* `PStateTrack.WellFormed.used?_eq_some_iff`: what a table in order shows of a frequency;
* `PStateTrack.Extends.used?_eq`: slots that are added show nothing;
* `PStateTrack.pstateRows_eq_map`: the rows are those of the frequencies used, each with what either
  table shows of it;
* `PStateTrack.WellFormed.pstateRows_congr`: tables that show the same have the same rows;
* `PStateTrack.halve?`, `gatheredRows`: the rows by sorting and halving, which need tables in order;
* `PStateTrack.WellFormed.gatheredRows_eq`: on those they are the same rows;
* `PStateTrack.rows_whether_lined_up`: what the rows of every two tracks are, and that lining the tracks
  up leaves them alone.
-/

namespace PowerTrace

/-! ### Ascending lists -/

theorem ascendingUnion_nil (l : List ℕ) : ascendingUnion l [] = l := by
  cases l <;> simp [ascendingUnion]

theorem pairwise_ascendingUnion {xs ys : List ℕ} (hx : xs.Pairwise (· < ·)) (hy : ys.Pairwise (· < ·)) :
    (ascendingUnion xs ys).Pairwise (· < ·) := by
  fun_induction ascendingUnion xs ys with
  | case1 ys => exact hy
  | case2 x xs => exact hx
  | case3 x xs y ys hlt ih =>
    obtain ⟨hxs, hx'⟩ := List.pairwise_cons.mp hx
    obtain ⟨hys, -⟩ := List.pairwise_cons.mp hy
    refine List.pairwise_cons.mpr ⟨fun f hf => ?_, ih hx' hy⟩
    rcases mem_ascendingUnion.mp hf with hf | hf
    · exact hxs f hf
    · rcases List.mem_cons.mp hf with rfl | hf
      · exact hlt
      · exact hlt.trans (hys f hf)
  | case4 x xs y ys hle hlt ih =>
    obtain ⟨hxs, -⟩ := List.pairwise_cons.mp hx
    obtain ⟨hys, hy'⟩ := List.pairwise_cons.mp hy
    refine List.pairwise_cons.mpr ⟨fun f hf => ?_, ih hx hy'⟩
    rcases mem_ascendingUnion.mp hf with hf | hf
    · rcases List.mem_cons.mp hf with rfl | hf
      · exact hlt
      · exact hlt.trans (hxs f hf)
    · exact hys f hf
  | case5 x xs y ys hle hge ih =>
    obtain rfl : x = y := by omega
    obtain ⟨hxs, hx'⟩ := List.pairwise_cons.mp hx
    obtain ⟨hys, hy'⟩ := List.pairwise_cons.mp hy
    exact List.pairwise_cons.mpr
      ⟨fun f hf => (mem_ascendingUnion.mp hf).elim (hxs f) (hys f), ih hx' hy'⟩

/-- Dropping what repeats the entry before makes an ascending list strictly ascending, and drops no entry
for good. -/
theorem destutter'_ascending {a : ℕ} {l : List ℕ} (h : (a :: l).Pairwise (· ≤ ·)) :
    (l.destutter' (· ≠ ·) a).Pairwise (· < ·) ∧ ∀ f, f ∈ l.destutter' (· ≠ ·) a ↔ f ∈ a :: l := by
  induction l generalizing a with
  | nil => simp
  | cons b l ih =>
    obtain ⟨ha, hbl⟩ := List.pairwise_cons.mp h
    by_cases hab : a = b
    · subst hab
      obtain ⟨hsorted, hmem⟩ := ih hbl
      rw [List.destutter'_cons_neg _ (by simp)]
      exact ⟨hsorted, fun f => by rw [hmem f]; simp⟩
    · obtain ⟨hsorted, hmem⟩ := ih hbl
      rw [List.destutter'_cons_pos _ hab]
      refine ⟨List.pairwise_cons.mpr ⟨fun f hf => ?_, hsorted⟩, fun f => ?_⟩
      · have hb : a ≤ b := ha b List.mem_cons_self
        rcases List.mem_cons.mp ((hmem f).mp hf) with rfl | hf
        · omega
        · have hbf : b ≤ f := (List.pairwise_cons.mp hbl).1 f hf
          omega
      · rw [List.mem_cons, hmem f, ← List.mem_cons]

/-- Sorting two strictly ascending lists together and dropping what repeats is merging them. -/
theorem destutter_mergeSort_append {xs ys : List ℕ} (hx : xs.Pairwise (· < ·)) (hy : ys.Pairwise (· < ·)) :
    ((xs ++ ys).mergeSort).destutter (· ≠ ·) = ascendingUnion xs ys := by
  have hmem : ∀ f, f ∈ (xs ++ ys).mergeSort ↔ f ∈ ascendingUnion xs ys := by
    intro f
    rw [List.mem_mergeSort, List.mem_append, mem_ascendingUnion]
  have hle : ((xs ++ ys).mergeSort).Pairwise (· ≤ ·) := List.pairwise_mergeSort' (· ≤ ·) (xs ++ ys)
  refine List.Pairwise.eq_of_mem_iff (r := (· < ·)) ?_ (pairwise_ascendingUnion hx hy) ?_
  · cases hl : (xs ++ ys).mergeSort with
    | nil => simp
    | cons a l => exact (destutter'_ascending (hl ▸ hle)).1
  · intro f
    rw [← hmem f]
    cases hl : (xs ++ ys).mergeSort with
    | nil => simp
    | cons a l => exact (destutter'_ascending (hl ▸ hle)).2 f

namespace PStateTrack

/-! ### What a table shows of a frequency -/

section Shown

variable {τ : Type} {t u : PStateTrack τ} {f : ℕ} {p : PState τ}

/-- Something was counted at a frequency. -/
def Counted (t : PStateTrack τ) (f : ℕ) : Prop := ∃ p ∈ t.slots, p.freq = f ∧ 0 < p.stats.count

/-- **A table in order shows of a frequency the slot with that frequency**, if something was counted. -/
theorem WellFormed.used?_eq_some_iff (hw : t.WellFormed) :
    t.used? f = some p ↔ p ∈ t.slots ∧ p.freq = f ∧ 0 < p.stats.count := by
  have hfreq : ∀ {q}, t.slots.find? (·.freq == f) = some q → q.freq = f :=
    fun h => by simpa using List.find?_some h
  have hfind : t.slots.find? (·.freq == f) = some p ↔ p ∈ t.slots ∧ p.freq = f := by
    refine ⟨fun h => ⟨List.mem_of_find?_eq_some h, hfreq h⟩, ?_⟩
    rintro ⟨hp, hf⟩
    obtain ⟨q, hq⟩ := Option.isSome_iff_exists.mp
      ((List.find?_isSome (p := fun q => q.freq == f)).mpr ⟨p, hp, by simpa using hf⟩)
    -- no two slots of a table in order have one frequency
    have hnodup : (t.slots.map (·.freq)).Nodup := hw.sorted.imp Nat.ne_of_lt
    obtain rfl : q = p := List.inj_on_of_nodup_map hnodup (List.mem_of_find?_eq_some hq) hp
      ((hfreq hq).trans hf.symm)
    exact hq
  rw [used?, Option.filter_eq_some_iff, hfind, and_assoc, DurationStats.isEmpty, Bool.not_eq_true',
    beq_eq_false_iff_ne, Nat.pos_iff_ne_zero]

theorem WellFormed.isSome_used?_iff (hw : t.WellFormed) : (t.used? f).isSome = true ↔ t.Counted f := by
  simp only [Option.isSome_iff_exists, hw.used?_eq_some_iff]
  rfl

/-- **Slots that are added show nothing.** -/
theorem Extends.used?_eq [TimeValue τ] (h : t.Extends u) (hw : t.WellFormed) (f : ℕ) :
    u.used? f = t.used? f := by
  refine Option.ext fun p => ?_
  rw [(h.ordered hw).used?_eq_some_iff, hw.used?_eq_some_iff]
  refine and_congr_left fun hp => ⟨fun hmem => ?_, h.kept p⟩
  rcases h.unused p hmem with hold | ⟨-, hnew⟩
  · exact hold
  · rw [hnew] at hp
    exact absurd hp.2 (Nat.lt_irrefl 0)

end Shown

/-! ### The rows -/

section Rows

variable {τ : Type} {a b a' b' : PStateTrack τ}

/-- The frequencies that either of two tables shows something of, ascending. -/
def usedFreqs (a : PStateTrack τ) (baseline : Option (PStateTrack τ)) : List ℕ :=
  (ascendingUnion a.freqs ((baseline.map (·.freqs)).getD [])).filter fun f =>
    ((a.used? f).or (baseline.bind (·.used? f))).isSome

/-- **The rows are those of the frequencies used**, each with what either table shows of it. -/
theorem pstateRows_eq_map (a : PStateTrack τ) (baseline : Option (PStateTrack τ)) :
    pstateRows a baseline =
      (usedFreqs a baseline).map fun f => ⟨f, a.used? f, baseline.bind (·.used? f)⟩ := by
  have hrow : ∀ f, pstateRow? a baseline f =
      if ((a.used? f).or (baseline.bind (·.used? f))).isSome = true then
        some ⟨f, a.used? f, baseline.bind (·.used? f)⟩
      else none := by
    intro f
    rw [pstateRow?]
    cases (a.used? f).or (baseline.bind (·.used? f)) <;> rfl
  rw [pstateRows, usedFreqs, ← List.filterMap_eq_map, List.filterMap_filter]
  exact congrArg (List.filterMap · _) (funext hrow)

theorem map_freq_pstateRows (a : PStateTrack τ) (baseline : Option (PStateTrack τ)) :
    (pstateRows a baseline).map (·.freq) = usedFreqs a baseline := by
  rw [pstateRows_eq_map, List.map_map]
  exact List.map_id _

/-- The frequencies of two tables in order are listed without repetition. -/
theorem WellFormed.pairwise_usedFreqs (ha : a.WellFormed) {baseline : Option (PStateTrack τ)}
    (hb : ∀ b ∈ baseline, b.WellFormed) : (usedFreqs a baseline).Pairwise (· < ·) := by
  refine (pairwise_ascendingUnion ha.sorted ?_).filter _
  cases baseline with
  | none => exact List.Pairwise.nil
  | some b => exact (hb b rfl).sorted

/-- They are those at which either table shows something. -/
theorem mem_usedFreqs_iff {baseline : Option (PStateTrack τ)} {f : ℕ} :
    f ∈ usedFreqs a baseline ↔ ((a.used? f).or (baseline.bind (·.used? f))).isSome = true := by
  rw [usedFreqs, List.mem_filter, and_iff_right_iff_imp]
  intro h
  rw [Option.isSome_or, Bool.or_eq_true] at h
  refine mem_ascendingUnion.mpr (h.imp mem_freqs_of_used fun h => ?_)
  cases baseline with
  | none => cases h
  | some b => exact mem_freqs_of_used h

/-- **Tables that show the same have the same rows**, whatever other frequencies they know. -/
theorem WellFormed.pstateRows_congr (ha : a.WellFormed) (ha' : a'.WellFormed)
    {baseline baseline' : Option (PStateTrack τ)} (hb : ∀ b ∈ baseline, b.WellFormed)
    (hb' : ∀ b ∈ baseline', b.WellFormed) (hcur : ∀ f, a.used? f = a'.used? f)
    (hbase : ∀ f, baseline.bind (·.used? f) = baseline'.bind (·.used? f)) :
    pstateRows a baseline = pstateRows a' baseline' := by
  have hfreqs : usedFreqs a baseline = usedFreqs a' baseline' :=
    (ha.pairwise_usedFreqs hb).eq_of_mem_iff (ha'.pairwise_usedFreqs hb') fun f => by
      rw [mem_usedFreqs_iff, mem_usedFreqs_iff, hcur, hbase]
  simp only [pstateRows_eq_map, hfreqs, hcur, hbase]

end Rows

/-! ### Rows by sorting and halving -/

section Gather

variable {τ : Type}

/-- The slot of a frequency among slots in ascending order, found by halving. -/
def halve? (slots : List (PState τ)) (f : ℕ) : Option (PState τ) :=
  match h : slots[slots.length / 2]? with
  | none => none
  | some p =>
    if f = p.freq then some p
    else if f < p.freq then halve? (slots.take (slots.length / 2)) f
    else halve? (slots.drop (slots.length / 2 + 1)) f
termination_by slots.length
decreasing_by
  all_goals
    have hlt := (List.getElem?_eq_some_iff.mp h).1
    simp only [List.length_take, List.length_drop]
    omega

/-- The slot of a frequency found by halving, if it was used. -/
def halvedUsed? (t : PStateTrack τ) (f : ℕ) : Option (PState τ) :=
  (halve? t.slots f).filter (!·.stats.isEmpty)

/-- The frequencies of two tables: those of both, sorted, without repetition.  Those of one table are
taken as they are. -/
def gatheredFreqs (current : PStateTrack τ) : Option (PStateTrack τ) → List ℕ
  | none => current.freqs
  | some b => ((current.freqs ++ b.freqs).mergeSort).destutter (· ≠ ·)

/-- The rows of the frequencies of two tables, each looked up by halving. -/
def gatheredRows (current : PStateTrack τ) (baseline : Option (PStateTrack τ)) : List (PStateRow τ) :=
  (gatheredFreqs current baseline).filterMap fun f =>
    ((current.halvedUsed? f).or (baseline.bind (·.halvedUsed? f))).map fun _ =>
      ⟨f, current.halvedUsed? f, baseline.bind (·.halvedUsed? f)⟩

/-- A slot among slots in ascending order has the lower ones before it and the higher ones behind it. -/
theorem cases_of_getElem? {slots : List (PState τ)} (h : (slots.map (·.freq)).Pairwise (· < ·)) {i : ℕ}
    {q : PState τ} (hi : slots[i]? = some q) {p : PState τ} (hp : p ∈ slots) :
    p ∈ slots.take i ∧ p.freq < q.freq ∨ p = q ∨ p ∈ slots.drop (i + 1) ∧ q.freq < p.freq := by
  obtain ⟨hlt, rfl⟩ := List.getElem?_eq_some_iff.mp hi
  have hsplit : slots.take i ++ slots[i] :: slots.drop (i + 1) = slots := by
    rw [← List.drop_eq_getElem_cons hlt, List.take_append_drop]
  have hsorted : (slots.take i ++ slots[i] :: slots.drop (i + 1)).Pairwise (·.freq < ·.freq) := by
    rw [hsplit]
    exact List.pairwise_map.mp h
  obtain ⟨-, hbehind, hbefore⟩ := List.pairwise_append.mp hsorted
  rw [← hsplit] at hp
  rcases List.mem_append.mp hp with hp | hp
  · exact .inl ⟨hp, hbefore p hp _ List.mem_cons_self⟩
  · rcases List.mem_cons.mp hp with rfl | hp
    · exact .inr (.inl rfl)
    · exact .inr (.inr ⟨hp, (List.pairwise_cons.mp hbehind).1 p hp⟩)

/-- **Halving finds the slot of a frequency**, if the slots are in order. -/
theorem halve?_eq_some_iff {slots : List (PState τ)} (h : (slots.map (·.freq)).Pairwise (· < ·)) {f : ℕ}
    {p : PState τ} : halve? slots f = some p ↔ p ∈ slots ∧ p.freq = f := by
  fun_induction halve? slots f with
  | case1 slots hnone =>
    -- only an empty list has no middle
    have hlen : slots.length = 0 := by
      have hle := List.getElem?_eq_none_iff.mp hnone
      omega
    obtain rfl := List.length_eq_zero_iff.mp hlen
    simp
  | case2 slots q hmiddle hfreq =>
    constructor
    · intro heq
      obtain rfl := Option.some.inj heq
      exact ⟨List.mem_of_getElem? hmiddle, hfreq.symm⟩
    · rintro ⟨hp, hf⟩
      rcases cases_of_getElem? h hmiddle hp with ⟨-, hlt⟩ | rfl | ⟨-, hlt⟩
      · omega
      · rfl
      · omega
  | case3 slots q hmiddle hne hlt ih =>
    rw [ih (h.sublist ((List.take_sublist _ slots).map _))]
    refine and_congr_left fun hf => ⟨List.mem_of_mem_take, fun hp => ?_⟩
    rcases cases_of_getElem? h hmiddle hp with ⟨hp, -⟩ | rfl | ⟨-, hlt'⟩
    · exact hp
    · omega
    · omega
  | case4 slots q hmiddle hne hle ih =>
    rw [ih (h.sublist ((List.drop_sublist _ slots).map _))]
    refine and_congr_left fun hf => ⟨List.mem_of_mem_drop, fun hp => ?_⟩
    rcases cases_of_getElem? h hmiddle hp with ⟨-, hlt'⟩ | rfl | ⟨hp, -⟩
    · omega
    · omega
    · exact hp

theorem WellFormed.halvedUsed?_eq {t : PStateTrack τ} (hw : t.WellFormed) (f : ℕ) :
    t.halvedUsed? f = t.used? f := by
  refine Option.ext fun p => ?_
  rw [hw.used?_eq_some_iff, halvedUsed?, Option.filter_eq_some_iff, halve?_eq_some_iff hw.sorted,
    and_assoc, DurationStats.isEmpty, Bool.not_eq_true', beq_eq_false_iff_ne, Nat.pos_iff_ne_zero]

/-- **On tables in order they are the rows.** -/
theorem WellFormed.gatheredRows_eq {a : PStateTrack τ} (ha : a.WellFormed)
    {baseline : Option (PStateTrack τ)} (hb : ∀ b ∈ baseline, b.WellFormed) :
    gatheredRows a baseline = pstateRows a baseline := by
  have hbase : ∀ f, baseline.bind (·.halvedUsed? f) = baseline.bind (·.used? f) := by
    intro f
    cases baseline with
    | none => rfl
    | some b => exact (hb b rfl).halvedUsed?_eq f
  have hfreqs : gatheredFreqs a baseline =
      ascendingUnion a.freqs ((baseline.map (·.freqs)).getD []) := by
    cases baseline with
    | none => exact (ascendingUnion_nil _).symm
    | some b => exact destutter_mergeSort_append ha.sorted (hb b rfl).sorted
  simp only [gatheredRows, hfreqs, ha.halvedUsed?_eq, hbase]
  rfl

end Gather

/-- **The rows of two tracks do not depend on whether they were lined up.**  For all that can have happened
to either of two tracks, the rows list the frequencies at which something was counted on either of them,
strictly ascending, and a row has for each track the slot with that frequency exactly if something was
counted there.  The rows of both, and those of each alone, are the same after the walk that lines the
tracks up.  Sorting the frequencies and looking them up by halving gives these rows, before and after. -/
theorem rows_whether_lined_up {τ : Type} [TimeValue τ] (opsA opsB : List (FrequencyOp τ)) :
    let a := (empty : PStateTrack τ).performAll opsA
    let b := (empty : PStateTrack τ).performAll opsB
    let m := alignFrom 0 a b
    let rows := pstateRows a (some b)
    (rows.map (·.freq)).Pairwise (· < ·) ∧
    (∀ f, f ∈ rows.map (·.freq) ↔ a.Counted f ∨ b.Counted f) ∧
    (∀ r ∈ rows, ∀ p,
      (r.current = some p ↔ p ∈ a.slots ∧ p.freq = r.freq ∧ 0 < p.stats.count) ∧
      (r.baseline = some p ↔ p ∈ b.slots ∧ p.freq = r.freq ∧ 0 < p.stats.count)) ∧
    (pstateRows m.1 (some m.2) = rows ∧ pstateRows m.1 none = pstateRows a none ∧
      pstateRows m.2 none = pstateRows b none) ∧
    gatheredRows a (some b) = rows ∧ gatheredRows m.1 (some m.2) = rows ∧
    ∀ t ∈ [a, b, m.1, m.2], gatheredRows t none = pstateRows t none := by
  intro a b m rows
  have ha : a.WellFormed := (represents_empty.performAll opsA).ordered
  have hb : b.WellFormed := (represents_empty.performAll opsB).ordered
  have hlined : LinedUp a b m := ha.alignFrom_spec hb (by simp)
  have hm₁ : m.1.WellFormed := hlined.fst.ordered ha
  have hm₂ : m.2.WellFormed := hlined.snd.ordered hb
  have hnone : ∀ t ∈ (none : Option (PStateTrack τ)), t.WellFormed := fun _ h => nomatch h
  have hsome : ∀ {u : PStateTrack τ}, u.WellFormed → ∀ t ∈ some u, t.WellFormed :=
    fun hu _ h => Option.some.inj h ▸ hu
  have hrows : pstateRows m.1 (some m.2) = rows :=
    hm₁.pstateRows_congr ha (hsome hm₂) (hsome hb) (hlined.fst.used?_eq ha) (hlined.snd.used?_eq hb)
  refine ⟨?_, fun f => ?_, fun r hr p => ?_, ⟨hrows, ?_, ?_⟩, ha.gatheredRows_eq (hsome hb), ?_, ?_⟩
  · rw [map_freq_pstateRows]
    exact ha.pairwise_usedFreqs (hsome hb)
  · rw [map_freq_pstateRows, mem_usedFreqs_iff, Option.isSome_or, Bool.or_eq_true,
      ha.isSome_used?_iff, Option.bind_some, hb.isSome_used?_iff]
  · rw [show rows = _ from pstateRows_eq_map a (some b), List.mem_map] at hr
    obtain ⟨f, -, rfl⟩ := hr
    exact ⟨ha.used?_eq_some_iff, hb.used?_eq_some_iff⟩
  · exact hm₁.pstateRows_congr ha hnone hnone (hlined.fst.used?_eq ha) fun _ => rfl
  · exact hm₂.pstateRows_congr hb hnone hnone (hlined.snd.used?_eq hb) fun _ => rfl
  · rw [hm₁.gatheredRows_eq (hsome hm₂), hrows]
  · simp only [List.forall_mem_cons, List.not_mem_nil, false_implies, implies_true, and_true]
    exact ⟨ha.gatheredRows_eq hnone, hb.gatheredRows_eq hnone, hm₁.gatheredRows_eq hnone,
      hm₂.gatheredRows_eq hnone⟩

end PStateTrack

end PowerTrace
