import Mathlib.Data.List.Sort
import PowerTrace.PState

/-!
# The frequency table of one entity

The slots of a track are a table sorted by frequency, and the selection is a position in it.  Slots
are opened in the middle, so what has to be shown of every operation is that the table stays
sorted and that the selection stays on its slot.

* `PStateTrack.slots_openSlot`: where a slot is opened;
* `PStateTrack.WellFormed`: the table is sorted and the selection lies in it;
* `PStateTrack.currentSlot_openSlot`: opening a slot leaves the selected one alone;
* `PStateTrack.currentFreq_changeFreq`, `currentFreq_groupFreq`: what is selected afterwards;
* `PStateTrack.WellFormed.changeFreq` and its companions: every operation keeps the table in order;
* `PStateTrack.Extends`: a table with slots opened for the frequencies of others.
-/

namespace PowerTrace

namespace PStateTrack

variable {τ : Type}

/-! ### Looking up a slot -/

theorem find?_eq_none_iff {t : PStateTrack τ} {f : Nat} : t.find? f = none ↔ f ∉ t.freqs := by
  rw [find?, List.findIdx?_eq_none_iff, freqs, List.mem_map]
  constructor
  · rintro h ⟨p, hp, rfl⟩
    have hne := h p hp
    rw [beq_self_eq_true] at hne
    exact Bool.false_ne_true hne.symm
  · intro h p hp
    rw [beq_eq_false_iff_ne]
    exact fun he => h ⟨p, hp, he⟩

/-- A position that is found holds a slot of the frequency asked for. -/
theorem getElem?_of_find? {t : PStateTrack τ} {f i : Nat} (h : t.find? f = some i) :
    ∃ p, t.slots[i]? = some p ∧ p.freq = f := by
  have hp := List.of_findIdx?_eq_some h
  split at hp
  · next p hget => exact ⟨p, hget, beq_iff_eq.mp hp⟩
  · exact absurd hp Bool.false_ne_true

/-! ### Opening a slot -/

section Open

variable [TimeValue τ]

theorem insertIdx_takeWhile {α : Type} (p : α → Bool) (a : α) (l : List α) :
    l.insertIdx (l.takeWhile p).length a = l.takeWhile p ++ a :: l.dropWhile p := by
  induction l with
  | nil => rfl
  | cons b l ih =>
    rw [List.takeWhile_cons, List.dropWhile_cons]
    split
    · rw [List.length_cons, List.insertIdx_succ_cons, ih, List.cons_append]
    · rfl

/-- A slot is opened after those of all lower frequencies. -/
theorem slots_openSlot (t : PStateTrack τ) (f : Nat) :
    (t.openSlot f).slots =
      t.slots.takeWhile (·.freq < f) ++ .unused f :: t.slots.dropWhile (·.freq < f) :=
  insertIdx_takeWhile _ _ _

omit [TimeValue τ] in
theorem rank_le_length (t : PStateTrack τ) (f : Nat) : t.rank f ≤ t.slots.length := by
  have h := congrArg List.length (t.slots.takeWhile_append_dropWhile (p := (·.freq < f)))
  rw [List.length_append] at h
  unfold rank
  omega

theorem mem_slots_openSlot {t : PStateTrack τ} {f : Nat} {p : PState τ} :
    p ∈ (t.openSlot f).slots ↔ p = .unused f ∨ p ∈ t.slots :=
  List.mem_insertIdx (t.rank_le_length f)

theorem mem_freqs_openSlot {t : PStateTrack τ} {f g : Nat} :
    g ∈ (t.openSlot f).freqs ↔ g = f ∨ g ∈ t.freqs := by
  simp only [freqs, List.mem_map, mem_slots_openSlot]
  constructor
  · rintro ⟨p, rfl | hp, rfl⟩
    · exact .inl rfl
    · exact .inr ⟨p, hp, rfl⟩
  · rintro (rfl | ⟨p, hp, rfl⟩)
    · exact ⟨.unused g, .inl rfl, rfl⟩
    · exact ⟨p, .inr hp, rfl⟩

/-- The slot that was opened stands at the rank of its frequency. -/
theorem getElem?_openSlot_rank (t : PStateTrack τ) (f : Nat) :
    (t.openSlot f).slots[t.rank f]? = some (.unused f) := by
  show (t.slots.insertIdx (t.rank f) (.unused f))[t.rank f]? = some (.unused f)
  rw [List.getElem?_insertIdx_self, if_pos (t.rank_le_length f)]

/-- **The selection follows the shift**: opening a slot leaves the selected one alone. -/
theorem currentSlot_openSlot (t : PStateTrack τ) (f : Nat) :
    (t.openSlot f).currentSlot = t.currentSlot := by
  unfold currentSlot openSlot
  cases t.current with
  | none => rfl
  | some i =>
    simp only [Option.map_some, Option.bind_some]
    split
    · next h => rw [List.getElem?_insertIdx_of_gt (by omega), Nat.add_sub_cancel]
    · next h => rw [List.getElem?_insertIdx_of_lt (by omega)]

theorem currentSlot_slotFor (t : PStateTrack τ) (f : Nat) :
    (t.slotFor f).1.currentSlot = t.currentSlot := by
  unfold slotFor
  split
  · rfl
  · exact t.currentSlot_openSlot f

@[simp] theorem currentFreq_slotFor (t : PStateTrack τ) (f : Nat) :
    (t.slotFor f).1.currentFreq = t.currentFreq := by
  rw [currentFreq, currentSlot_slotFor, currentFreq]

@[simp] theorem isSome_current_slotFor (t : PStateTrack τ) (f : Nat) :
    (t.slotFor f).1.current.isSome = t.current.isSome := by
  unfold slotFor
  split
  · rfl
  · exact Option.isSome_map

@[simp] theorem dwellStart_slotFor (t : PStateTrack τ) (f : Nat) :
    (t.slotFor f).1.dwellStart = t.dwellStart := by
  unfold slotFor; split <;> rfl

/-- The position given back holds the slot asked for. -/
theorem getElem?_slotFor (t : PStateTrack τ) (f : Nat) :
    ∃ p, (t.slotFor f).1.slots[(t.slotFor f).2]? = some p ∧ p.freq = f := by
  unfold slotFor
  split
  · next i h => exact getElem?_of_find? h
  · exact ⟨.unused f, t.getElem?_openSlot_rank f, rfl⟩

theorem mem_freqs_slotFor {t : PStateTrack τ} {f g : Nat} :
    g ∈ (t.slotFor f).1.freqs ↔ g = f ∨ g ∈ t.freqs := by
  unfold slotFor
  split
  · next i h =>
    obtain ⟨p, hp, hpf⟩ := getElem?_of_find? h
    have hf : f ∈ t.freqs := List.mem_map.mpr ⟨p, List.mem_of_getElem? hp, hpf⟩
    exact ⟨.inr, fun hg => hg.elim (fun he => he ▸ hf) id⟩
  · exact mem_freqs_openSlot

/-- A frequency that has a slot needs no new one. -/
theorem slotFor_of_mem {t : PStateTrack τ} {f : Nat} (h : f ∈ t.freqs) : (t.slotFor f).1 = t := by
  unfold slotFor
  split
  · rfl
  · next hn => exact absurd h (find?_eq_none_iff.mp hn)

end Open

/-! ### Tables in order -/

/-- The table is sorted by frequency, each frequency once, and the selection lies in it. -/
structure WellFormed (t : PStateTrack τ) : Prop where
  sorted : t.freqs.Pairwise (· < ·)
  selected : ∀ i, t.current = some i → i < t.slots.length

/-- What is selected in a table in order has a slot. -/
theorem WellFormed.slot_of_current {t : PStateTrack τ} (h : t.WellFormed) {i : Nat}
    (hi : t.current = some i) : ∃ p, t.slots[i]? = some p ∧ t.currentFreq = some p.freq := by
  have hget := List.getElem?_eq_getElem (h.selected i hi)
  exact ⟨_, hget, by rw [currentFreq, currentSlot, hi, Option.bind_some, hget, Option.map_some]⟩

/-- In a table in order a frequency has one position. -/
theorem WellFormed.position_unique {t : PStateTrack τ} (h : t.WellFormed) {i j : Nat} {p q : PState τ}
    (hp : t.slots[i]? = some p) (hq : t.slots[j]? = some q) (hpq : p.freq = q.freq) : i = j := by
  have hnd : t.freqs.Nodup := h.sorted.imp Nat.ne_of_lt
  have hpos : ∀ {k : Nat} {r : PState τ}, t.slots[k]? = some r → t.freqs[k]? = some r.freq := by
    intro k r hr
    rw [freqs, List.getElem?_map, hr, Option.map_some]
  refine (List.getElem?_inj ?_ hnd).mp ?_
  · rw [freqs, List.length_map]
    exact (List.getElem?_eq_some_iff.mp hp).1
  · rw [hpos hp, hpos hq, hpq]

/-- In a table in order a slot is selected exactly if its frequency is. -/
theorem WellFormed.current_eq_iff {t : PStateTrack τ} (h : t.WellFormed) {i : Nat} {p : PState τ}
    (hp : t.slots[i]? = some p) : t.current = some i ↔ t.currentFreq = some p.freq := by
  constructor
  · intro hc
    rw [currentFreq, currentSlot, hc, Option.bind_some, hp, Option.map_some]
  · intro hf
    obtain ⟨q, hq, hqp⟩ := Option.map_eq_some_iff.mp hf
    obtain ⟨j, hj, hq⟩ := Option.bind_eq_some_iff.mp hq
    rw [hj, h.position_unique hq hp hqp]

section Keep

variable [TimeValue τ]

theorem wellFormed_empty : (empty : PStateTrack τ).WellFormed :=
  ⟨List.Pairwise.nil, fun _ h => nomatch h⟩

/-- Putting a new frequency after all lower ones keeps a table sorted. -/
theorem pairwise_takeWhile_append {l : List (PState τ)} {f : Nat}
    (h : (l.map (·.freq)).Pairwise (· < ·)) (hf : f ∉ l.map (·.freq)) :
    ((l.takeWhile (·.freq < f) ++ .unused f :: l.dropWhile (·.freq < f)).map (·.freq)).Pairwise
      (· < ·) := by
  induction l with
  | nil => exact List.pairwise_singleton _ _
  | cons p l ih =>
    rw [List.map_cons, List.pairwise_cons] at h
    rw [List.map_cons, List.mem_cons, not_or] at hf
    rw [List.takeWhile_cons, List.dropWhile_cons]
    by_cases hp : p.freq < f
    · rw [if_pos (decide_eq_true hp), if_pos (decide_eq_true hp), List.cons_append, List.map_cons,
        List.pairwise_cons]
      refine ⟨?_, ih h.2 hf.2⟩
      intro g hg
      rw [List.map_append, List.mem_append, List.map_cons, List.mem_cons] at hg
      rcases hg with hg | rfl | hg
      · exact h.1 g (((List.takeWhile_sublist _).map _).subset hg)
      · exact hp
      · exact h.1 g (((List.dropWhile_sublist _).map _).subset hg)
    · have hlt : f < p.freq := by
        have := hf.1
        omega
      have hno : ¬ decide (p.freq < f) = true := by rwa [decide_eq_true_eq]
      rw [if_neg hno, if_neg hno, List.nil_append, List.map_cons, List.map_cons, List.pairwise_cons]
      refine ⟨?_, List.pairwise_cons.mpr h⟩
      intro g hg
      rcases List.mem_cons.mp hg with rfl | hg
      · exact hlt
      · exact Nat.lt_trans hlt (h.1 g hg)

theorem WellFormed.openSlot {t : PStateTrack τ} (h : t.WellFormed) {f : Nat} (hf : f ∉ t.freqs) :
    (t.openSlot f).WellFormed := by
  refine ⟨?_, ?_⟩
  · rw [freqs, slots_openSlot]
    exact pairwise_takeWhile_append h.sorted hf
  · intro j hj
    have hlen : (t.openSlot f).slots.length = t.slots.length + 1 := by
      show (t.slots.insertIdx (t.rank f) (.unused f)).length = t.slots.length + 1
      rw [List.length_insertIdx_of_le_length (t.rank_le_length f)]
    obtain ⟨i, hi, rfl⟩ := Option.map_eq_some_iff.mp hj
    have hi := h.selected i hi
    rw [hlen]
    split <;> omega

theorem WellFormed.slotFor {t : PStateTrack τ} (h : t.WellFormed) (f : Nat) :
    (t.slotFor f).1.WellFormed := by
  unfold PStateTrack.slotFor
  split
  · exact h
  · next hn => exact h.openSlot (find?_eq_none_iff.mp hn)

omit [TimeValue τ] in
/-- Selecting a slot that is there keeps a table in order. -/
theorem WellFormed.select {t : PStateTrack τ} (h : t.WellFormed) {i : Nat} {p : PState τ}
    (hi : t.slots[i]? = some p) (idle : Bool) (start : τ) :
    ({ t with current := some i, idle := idle, dwellStart := start } : PStateTrack τ).WellFormed := by
  refine ⟨h.sorted, ?_⟩
  rintro j ⟨rfl⟩
  exact (List.getElem?_eq_some_iff.mp hi).1

/-- A closed dwell changes one slot, and not its frequency. -/
theorem map_freq_modify (l : List (PState τ)) (i : Nat) (d : τ) :
    (l.modify i (·.record d)).map (·.freq) = l.map (·.freq) := by
  induction l generalizing i with
  | nil => simp
  | cons p l ih =>
    cases i with
    | zero => rfl
    | succ i => rw [List.modify_succ_cons, List.map_cons, ih, List.map_cons]

theorem closeDwell_of_none {t : PStateTrack τ} (h : t.current = none) (time : τ) :
    t.closeDwell time = t := by
  rw [closeDwell, h]

theorem closeDwell_of_some {t : PStateTrack τ} {i : Nat} (h : t.current = some i) (time : τ) :
    t.closeDwell time =
      if TimeValue.lt TimeValue.zero (TimeValue.span t.dwellStart time) then
        { t with slots := t.slots.modify i (·.record (TimeValue.span t.dwellStart time)) }
      else t := by
  rw [closeDwell, h]

@[simp] theorem freqs_closeDwell (t : PStateTrack τ) (time : τ) :
    (t.closeDwell time).freqs = t.freqs := by
  unfold closeDwell
  split
  · rfl
  · dsimp only
    split
    · exact map_freq_modify _ _ _
    · rfl

@[simp] theorem length_slots_closeDwell (t : PStateTrack τ) (time : τ) :
    (t.closeDwell time).slots.length = t.slots.length := by
  have h := congrArg List.length (t.freqs_closeDwell time)
  rwa [freqs, freqs, List.length_map, List.length_map] at h

@[simp] theorem dwellStart_closeDwell (t : PStateTrack τ) (time : τ) :
    (t.closeDwell time).dwellStart = t.dwellStart := by
  unfold closeDwell
  split
  · rfl
  · dsimp only; split <;> rfl

/-- The frequency at a position, which closing a dwell never changes. -/
theorem map_freq_getElem?_closeDwell (t : PStateTrack τ) (time : τ) (i : Nat) :
    ((t.closeDwell time).slots[i]?).map (·.freq) = (t.slots[i]?).map (·.freq) := by
  rw [← List.getElem?_map, ← List.getElem?_map]
  exact congrArg (·[i]?) (t.freqs_closeDwell time)

@[simp] theorem currentFreq_closeDwell (t : PStateTrack τ) (time : τ) :
    (t.closeDwell time).currentFreq = t.currentFreq := by
  rw [currentFreq, currentSlot, current_closeDwell, currentFreq, currentSlot]
  cases t.current with
  | none => rfl
  | some i => exact t.map_freq_getElem?_closeDwell time i

theorem WellFormed.closeDwell {t : PStateTrack τ} (h : t.WellFormed) (time : τ) :
    (t.closeDwell time).WellFormed := by
  refine ⟨?_, ?_⟩
  · rw [freqs_closeDwell]
    exact h.sorted
  · intro i hi
    rw [current_closeDwell] at hi
    rw [length_slots_closeDwell]
    exact h.selected i hi

/-- A position that holds a slot still holds one after a dwell was closed. -/
theorem exists_getElem?_closeDwell {t : PStateTrack τ} {i : Nat} {p : PState τ}
    (h : t.slots[i]? = some p) (time : τ) :
    ∃ q, (t.closeDwell time).slots[i]? = some q ∧ q.freq = p.freq := by
  have hf := t.map_freq_getElem?_closeDwell time i
  rw [h, Option.map_some, Option.map_eq_some_iff] at hf
  exact hf

theorem WellFormed.switchTo {t : PStateTrack τ} (h : t.WellFormed) {i : Nat} {p : PState τ}
    (hi : t.slots[i]? = some p) (time : τ) : (t.switchTo time i).WellFormed := by
  unfold PStateTrack.switchTo
  split
  · exact h
  · obtain ⟨q, hq, -⟩ := exists_getElem?_closeDwell hi time
    exact (h.closeDwell time).select hq _ time

theorem currentFreq_switchTo {t : PStateTrack τ} {i : Nat} {p : PState τ}
    (hi : t.slots[i]? = some p) (time : τ) : (t.switchTo time i).currentFreq = some p.freq := by
  unfold PStateTrack.switchTo
  split
  · next h => rw [currentFreq, currentSlot, h, Option.bind_some, hi, Option.map_some]
  · obtain ⟨q, hq, hf⟩ := exists_getElem?_closeDwell hi time
    show (((t.closeDwell time).slots[i]?).map (·.freq)) = some p.freq
    rw [hq, Option.map_some, hf]

/-- **A frequency change selects that frequency**, whether or not the CPU is idle. -/
theorem currentFreq_changeFreq (t : PStateTrack τ) (time : τ) (f : Nat) :
    (t.changeFreq time f).currentFreq = some f := by
  obtain ⟨p, hp, rfl⟩ := t.getElem?_slotFor f
  unfold changeFreq
  dsimp only
  split
  · show (((t.slotFor p.freq).1.slots[(t.slotFor p.freq).2]?).map (·.freq)) = some p.freq
    rw [hp, Option.map_some]
  · exact currentFreq_switchTo hp time

/-- **A group selects the frequency it is fed**, unless that is zero. -/
theorem currentFreq_groupFreq (t : PStateTrack τ) (time : τ) {f : Nat} (hf : f ≠ 0) :
    (t.groupFreq time f).currentFreq = some f := by
  obtain ⟨p, hp, rfl⟩ := t.getElem?_slotFor f
  rw [groupFreq, if_neg hf]
  exact currentFreq_switchTo hp time

theorem current_groupFreq_zero (t : PStateTrack τ) (time : τ) :
    (t.groupFreq time 0).current = none := rfl

theorem WellFormed.changeFreq {t : PStateTrack τ} (h : t.WellFormed) (time : τ) (f : Nat) :
    (t.changeFreq time f).WellFormed := by
  obtain ⟨p, hp, -⟩ := t.getElem?_slotFor f
  unfold PStateTrack.changeFreq
  dsimp only
  split
  · exact (h.slotFor f).select hp _ _
  · exact (h.slotFor f).switchTo hp time

theorem WellFormed.groupFreq {t : PStateTrack τ} (h : t.WellFormed) (time : τ) (f : Nat) :
    (t.groupFreq time f).WellFormed := by
  unfold PStateTrack.groupFreq
  split
  · exact ⟨(h.closeDwell time).sorted, fun _ hi => nomatch hi⟩
  · obtain ⟨p, hp, -⟩ := t.getElem?_slotFor f
    exact (h.slotFor f).switchTo hp time

theorem WellFormed.enterIdle {t : PStateTrack τ} (h : t.WellFormed) (time : τ) :
    (t.enterIdle time).WellFormed := by
  have hc : (if t.idle then t else t.closeDwell time).WellFormed := by
    split
    · exact h
    · exact h.closeDwell time
  exact ⟨hc.sorted, hc.selected⟩

omit [TimeValue τ] in
theorem WellFormed.exitIdle {t : PStateTrack τ} (h : t.WellFormed) (time : τ) :
    (t.exitIdle time).WellFormed := by
  unfold PStateTrack.exitIdle
  split
  · exact ⟨h.sorted, h.selected⟩
  · exact h

/-! ### Covering other tables -/

theorem mem_freqs_cover {t : PStateTrack τ} {fs : List Nat} {g : Nat} :
    g ∈ (t.cover fs).freqs ↔ g ∈ t.freqs ∨ g ∈ fs := by
  induction fs generalizing t with
  | nil => simp
  | cons f fs ih =>
    rw [cover_cons, ih, mem_freqs_slotFor, List.mem_cons, or_left_comm, or_assoc]

/-- A table that has all frequencies asked for stays as it is. -/
theorem cover_of_subset {t : PStateTrack τ} {fs : List Nat} (h : ∀ f ∈ fs, f ∈ t.freqs) :
    t.cover fs = t := by
  induction fs with
  | nil => rfl
  | cons f fs ih =>
    rw [cover_cons, slotFor_of_mem (h f List.mem_cons_self)]
    exact ih fun g hg => h g (List.mem_cons_of_mem f hg)

omit [TimeValue τ] in
/-- A table has all the frequencies of another. -/
def Covers (t u : PStateTrack τ) : Prop := ∀ f ∈ u.freqs, f ∈ t.freqs

omit [TimeValue τ] in
/-- Two tables have the same frequencies. -/
def SameFreqs (t u : PStateTrack τ) : Prop := ∀ f, f ∈ t.freqs ↔ f ∈ u.freqs

omit [TimeValue τ] in
/-- Two tables in order that have the same frequencies list them alike. -/
theorem WellFormed.freqs_eq {t u : PStateTrack τ} (ht : t.WellFormed) (hu : u.WellFormed)
    (h : t.SameFreqs u) : t.freqs = u.freqs :=
  ht.sorted.eq_of_mem_iff hu.sorted h

/-- A table with more slots than another: the old ones as they were, the new ones unused, and the
same one selected. -/
structure Extends (old new : PStateTrack τ) : Prop where
  kept : ∀ p ∈ old.slots, p ∈ new.slots
  unused : ∀ p ∈ new.slots, p ∈ old.slots ∨ p.freq ∉ old.freqs ∧ p = .unused p.freq
  currentSlot : new.currentSlot = old.currentSlot
  idle : new.idle = old.idle
  dwellStart : new.dwellStart = old.dwellStart
  ordered : old.WellFormed → new.WellFormed

theorem Extends.refl (t : PStateTrack τ) : t.Extends t :=
  ⟨fun _ => id, fun _ => .inl, rfl, rfl, rfl, id⟩

theorem Extends.covers {t u : PStateTrack τ} (h : t.Extends u) : u.Covers t := by
  intro f hf
  obtain ⟨p, hp, rfl⟩ := List.mem_map.mp hf
  exact List.mem_map_of_mem (h.kept p hp)

theorem Extends.trans {t u v : PStateTrack τ} (h : t.Extends u) (h' : u.Extends v) :
    t.Extends v where
  kept p hp := h'.kept p (h.kept p hp)
  unused p hp := by
    rcases h'.unused p hp with hp | ⟨hnew, he⟩
    · exact h.unused p hp
    · exact .inr ⟨fun hold => hnew (h.covers _ hold), he⟩
  currentSlot := h'.currentSlot.trans h.currentSlot
  idle := h'.idle.trans h.idle
  dwellStart := h'.dwellStart.trans h.dwellStart
  ordered hw := h'.ordered (h.ordered hw)

theorem extends_slotFor (t : PStateTrack τ) (f : Nat) : t.Extends (t.slotFor f).1 := by
  cases hf : t.find? f with
  | some i =>
    have hsame : (t.slotFor f).1 = t := by rw [slotFor, hf]
    rw [hsame]
    exact Extends.refl t
  | none =>
    have hopen : (t.slotFor f).1 = t.openSlot f := by rw [slotFor, hf]
    refine ⟨?_, ?_, t.currentSlot_slotFor f, t.idle_slotFor f, t.dwellStart_slotFor f,
      fun hw => hw.slotFor f⟩
    · intro p hp
      rw [hopen]
      exact mem_slots_openSlot.mpr (.inr hp)
    · intro p hp
      rw [hopen] at hp
      rcases mem_slots_openSlot.mp hp with rfl | hp
      · exact .inr ⟨find?_eq_none_iff.mp hf, rfl⟩
      · exact .inl hp

/-- **Covering other frequencies changes nothing that was there.** -/
theorem extends_cover (t : PStateTrack τ) (fs : List Nat) : t.Extends (t.cover fs) := by
  induction fs generalizing t with
  | nil => exact Extends.refl t
  | cons f fs ih => exact (t.extends_slotFor f).trans (ih (t.slotFor f).1)

end Keep

end PStateTrack

end PowerTrace
