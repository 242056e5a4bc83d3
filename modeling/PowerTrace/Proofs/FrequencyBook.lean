import Mathlib.Data.Finmap
import PowerTrace.Proofs.Stays

/-!
# The frequency table as a map

To the outside a frequency track is a map from frequencies to their statistics with one frequency
selected.  That its slots are sorted, and the selection a position among them that moves whenever a
slot is opened below it, is never seen.

* `FrequencyOp`: what can happen to the frequencies of an entity;
* `FrequencyBook`: the same statistics in a map, the selection by frequency;
* `PStateTrack.Represents`: a track that holds what a book says;
* `PStateTrack.Represents.slotFor`, `changeFreq`, `groupFreq`, `enterIdle`, `exitIdle`: it goes on holding
  it, one by one for all that can happen;
* `PStateTrack.Represents.perform`: whatever happens;
* `PStateTrack.CreditsDwells`: a dwell that ends is credited to the frequency that was selected while it
  ran, and nothing is credited before;
* `PStateTrack.agrees_with_book`: what all this says of every track.
-/

namespace PowerTrace

open TimeValue

/-! ### What can happen -/

/-- What can happen to the frequencies of an entity. -/
inductive FrequencyOp (τ : Type) where
  /-- The slot of a frequency is asked for. -/
  | slot (freq : ℕ)
  /-- The frequency of a CPU changed. -/
  | change (time : τ) (freq : ℕ)
  /-- The frequency of a group changed. -/
  | group (time : τ) (freq : ℕ)
  /-- The entity went idle. -/
  | enterIdle (time : τ)
  /-- The entity resumed running. -/
  | exitIdle (time : τ)
  deriving Repr

/-- When it happened. -/
def FrequencyOp.time? {τ : Type} : FrequencyOp τ → Option τ
  | slot _ => none
  | change time _ | group time _ | enterIdle time | exitIdle time => some time

section Machines

variable {τ : Type} [TimeValue τ]

/-- What becomes of a track. -/
def PStateTrack.perform (t : PStateTrack τ) : FrequencyOp τ → PStateTrack τ
  | .slot f => (t.slotFor f).1
  | .change time f => t.changeFreq time f
  | .group time f => t.groupFreq time f
  | .enterIdle time => t.enterIdle time
  | .exitIdle time => t.exitIdle time

/-- What becomes of a track, first to last. -/
def PStateTrack.performAll (t : PStateTrack τ) (ops : List (FrequencyOp τ)) : PStateTrack τ :=
  ops.foldl perform t

/-- The statistics of each frequency of an entity, and which of them is selected. -/
structure FrequencyBook (τ : Type) where
  /-- The statistics of every frequency seen. -/
  entries : Finmap fun _ : ℕ => DurationStats τ
  /-- The frequency selected. -/
  selected : Option ℕ
  /-- Whether the entity is idle. -/
  idle : Bool
  /-- When the dwell opened last began. -/
  dwellStart : τ

namespace FrequencyBook

/-- No frequency seen yet. -/
def empty : FrequencyBook τ := ⟨∅, none, false, zero⟩

/-- What is known of a frequency, nothing if it was never seen. -/
def stats (b : FrequencyBook τ) (f : ℕ) : DurationStats τ := (b.entries.lookup f).getD .empty

/-- A frequency is seen. -/
def know (b : FrequencyBook τ) (f : ℕ) : FrequencyBook τ :=
  { b with entries := if f ∈ b.entries then b.entries else b.entries.insert f .empty }

/-- The time from the start of the dwell is credited to the frequency selected, if it is positive. -/
def endDwell (b : FrequencyBook τ) (time : τ) : FrequencyBook τ :=
  match b.selected with
  | none => b
  | some f =>
    if PStateTrack.counts (span b.dwellStart time) then
      { b with entries := b.entries.insert f ((b.stats f).record (span b.dwellStart time)) }
    else b

/-- Another frequency is selected: the dwell at the old one ends, and one at the new one begins. -/
def select (b : FrequencyBook τ) (time : τ) (f : ℕ) : FrequencyBook τ :=
  if b.selected = some f then b
  else { b.endDwell time with selected := some f, dwellStart := time }

/-- What becomes of a book.  A change of the frequency of a CPU is no more than a new selection while the
CPU is idle.  A group is not asked whether it is idle: a frequency that it is told ends its dwell, also
where going idle had ended that dwell before. -/
def perform (b : FrequencyBook τ) : FrequencyOp τ → FrequencyBook τ
  | .slot f => b.know f
  | .change time f =>
    if b.idle then { b.know f with selected := some f } else (b.know f).select time f
  | .group time f =>
    if f = 0 then { b.endDwell time with selected := none } else (b.know f).select time f
  | .enterIdle time => { (if b.idle then b else b.endDwell time) with idle := true }
  | .exitIdle time =>
    if b.idle then
      { b with idle := false, dwellStart := if b.selected.isSome then time else b.dwellStart }
    else b

/-- What becomes of a book, first to last. -/
def performAll (b : FrequencyBook τ) (ops : List (FrequencyOp τ)) : FrequencyBook τ :=
  ops.foldl perform b

theorem lookup_know (b : FrequencyBook τ) (f g : ℕ) :
    (b.know f).entries.lookup g =
      if g = f ∧ f ∉ b.entries then some .empty else b.entries.lookup g := by
  unfold know
  by_cases hf : f ∈ b.entries
  · rw [if_pos hf, if_neg fun h => h.2 hf]
  · rw [if_neg hf]
    by_cases hg : g = f
    · rw [hg, Finmap.lookup_insert, if_pos ⟨rfl, hf⟩]
    · rw [Finmap.lookup_insert_of_ne _ hg, if_neg fun h => hg h.1]

theorem lookup_endDwell (b : FrequencyBook τ) (time : τ) (g : ℕ) :
    (b.endDwell time).entries.lookup g =
      if b.selected = some g ∧ PStateTrack.counts (span b.dwellStart time) = true then
        some ((b.stats g).record (span b.dwellStart time))
      else b.entries.lookup g := by
  unfold endDwell
  cases hs : b.selected with
  | none => rw [if_neg fun h => nomatch h.1]
  | some f =>
    dsimp only
    by_cases hcounts : PStateTrack.counts (span b.dwellStart time) = true
    · rw [if_pos hcounts]
      by_cases hg : g = f
      · rw [hg, Finmap.lookup_insert, if_pos ⟨rfl, hcounts⟩]
      · rw [Finmap.lookup_insert_of_ne _ hg, if_neg fun h => hg (Option.some.inj h.1).symm]
    · rw [if_neg hcounts, if_neg fun h => hcounts h.2]

@[simp] theorem selected_endDwell (b : FrequencyBook τ) (time : τ) :
    (b.endDwell time).selected = b.selected := by
  unfold endDwell
  split
  · rfl
  · split <;> rfl

@[simp] theorem idle_endDwell (b : FrequencyBook τ) (time : τ) :
    (b.endDwell time).idle = b.idle := by
  unfold endDwell
  split
  · rfl
  · split <;> rfl

@[simp] theorem dwellStart_endDwell (b : FrequencyBook τ) (time : τ) :
    (b.endDwell time).dwellStart = b.dwellStart := by
  unfold endDwell
  split
  · rfl
  · split <;> rfl

end FrequencyBook

namespace PStateTrack

/-! ### A track that holds what a book says -/

/-- A table in order whose slots are the entries of a book, with the frequency of the book selected. -/
structure Represents (t : PStateTrack τ) (b : FrequencyBook τ) : Prop where
  ordered : t.WellFormed
  entries : ∀ f s, ⟨f, s⟩ ∈ t.slots ↔ b.entries.lookup f = some s
  selected : t.currentFreq = b.selected
  idle : t.idle = b.idle
  dwellStart : t.dwellStart = b.dwellStart

variable {t : PStateTrack τ} {b : FrequencyBook τ}

theorem represents_empty : (empty : PStateTrack τ).Represents .empty where
  ordered := wellFormed_empty
  entries f s := by
    rw [FrequencyBook.empty, Finmap.lookup_empty]
    exact iff_of_false List.not_mem_nil (nomatch ·)
  selected := rfl
  idle := rfl
  dwellStart := rfl

omit [TimeValue τ] in
/-- The frequencies of the slots are the keys of the map. -/
theorem Represents.mem_freqs_iff (h : t.Represents b) {f : ℕ} : f ∈ t.freqs ↔ f ∈ b.entries := by
  rw [Finmap.mem_iff, freqs, List.mem_map]
  constructor
  · rintro ⟨p, hp, rfl⟩
    exact ⟨p.stats, (h.entries p.freq p.stats).mp hp⟩
  · rintro ⟨s, hs⟩
    exact ⟨⟨f, s⟩, (h.entries f s).mpr hs, rfl⟩

/-- A slot is opened where the map has no entry yet. -/
theorem Represents.slotFor (h : t.Represents b) (f : ℕ) : (t.slotFor f).1.Represents (b.know f) where
  ordered := h.ordered.slotFor f
  entries g s := by
    rw [FrequencyBook.lookup_know]
    by_cases hf : f ∈ b.entries
    · rw [slotFor_of_mem (h.mem_freqs_iff.mpr hf), if_neg fun hnew => hnew.2 hf]
      exact h.entries g s
    · have hfind : t.find? f = none := find?_eq_none_iff.mpr (mt h.mem_freqs_iff.mp hf)
      have hopen : (t.slotFor f).1 = t.openSlot f := by rw [PStateTrack.slotFor, hfind]
      rw [hopen, mem_slots_openSlot, h.entries]
      by_cases hg : g = f
      · have hnone : b.entries.lookup g = none := by
          rw [hg]
          exact Finmap.lookup_eq_none.mpr hf
        rw [if_pos ⟨hg, hf⟩, hnone, hg, Option.some.injEq, PState.unused, PState.mk.injEq,
          or_iff_left (Option.some_ne_none s).symm, and_iff_right rfl, eq_comm]
      · rw [if_neg fun hnew => hg hnew.1]
        exact or_iff_right fun he => hg (congrArg PState.freq he)
  selected := (t.currentFreq_slotFor f).trans h.selected
  idle := (t.idle_slotFor f).trans h.idle
  dwellStart := (t.dwellStart_slotFor f).trans h.dwellStart

/-- **A closed dwell is credited by frequency**: the slot of the frequency selected holds one duration
more, if it counts, wherever in the table it stands. -/
theorem WellFormed.slots_closeDwell (hw : t.WellFormed) (time : τ) :
    (t.closeDwell time).slots = t.slots.map fun p =>
      if t.currentFreq = some p.freq ∧ counts (span t.dwellStart time) = true then
        p.record (span t.dwellStart time)
      else p := by
  cases hc : t.current with
  | none =>
    have hnone : t.currentFreq = none := by rw [currentFreq, currentSlot, hc]; rfl
    simp only [closeDwell_of_none hc, hnone, reduceCtorEq, false_and, if_false, List.map_id']
  | some i =>
    obtain ⟨p, hp, hfreq⟩ := hw.slot_of_current hc
    refine List.ext_getElem? fun j => ?_
    rw [getElem?_closeDwell hc, List.getElem?_map]
    cases hj : t.slots[j]? with
    | none => rfl
    | some q =>
      have hpos : i = j ↔ t.currentFreq = some q.freq := by
        rw [hfreq, Option.some.injEq]
        constructor
        · rintro rfl
          rw [Option.some.inj (hp.symm.trans hj)]
        · exact hw.position_unique hp hj
      simp only [Option.map_some, hpos]

/-- What is selected in a table in order has a slot. -/
theorem Represents.exists_of_selected (h : t.Represents b) {f : ℕ} (hf : b.selected = some f) :
    ∃ s, ⟨f, s⟩ ∈ t.slots ∧ b.stats f = s := by
  obtain ⟨p, hp, rfl⟩ := Option.map_eq_some_iff.mp (h.selected.trans hf)
  obtain ⟨i, -, hi⟩ := Option.bind_eq_some_iff.mp hp
  have hmem := List.mem_of_getElem? hi
  exact ⟨p.stats, hmem, by rw [FrequencyBook.stats, (h.entries p.freq p.stats).mp hmem]; rfl⟩

theorem Represents.closeDwell (h : t.Represents b) (time : τ) :
    (t.closeDwell time).Represents (b.endDwell time) where
  ordered := h.ordered.closeDwell time
  entries f s := by
    rw [h.ordered.slots_closeDwell, FrequencyBook.lookup_endDwell, List.mem_map, h.selected,
      h.dwellStart]
    constructor
    · rintro ⟨p, hp, hps⟩
      have hlookup := (h.entries p.freq p.stats).mp hp
      split at hps
      · next hcredit =>
        obtain ⟨rfl, rfl⟩ := PState.mk.inj hps
        rw [if_pos hcredit, FrequencyBook.stats, hlookup]
        rfl
      · next hcredit =>
        subst hps
        rw [if_neg hcredit]
        exact hlookup
    · intro hs
      split at hs
      · next hcredit =>
        obtain ⟨s', hmem, hstats⟩ := h.exists_of_selected hcredit.1
        refine ⟨⟨f, s'⟩, hmem, ?_⟩
        rw [if_pos hcredit, ← Option.some.inj hs, hstats]
        rfl
      · next hcredit => exact ⟨⟨f, s⟩, (h.entries f s).mpr hs, if_neg hcredit⟩
  selected := by rw [currentFreq_closeDwell, FrequencyBook.selected_endDwell, h.selected]
  idle := by rw [idle_closeDwell, FrequencyBook.idle_endDwell, h.idle]
  dwellStart := by rw [dwellStart_closeDwell, FrequencyBook.dwellStart_endDwell, h.dwellStart]

theorem Represents.switchTo (h : t.Represents b) {i : ℕ} {p : PState τ} (hp : t.slots[i]? = some p)
    (time : τ) : (t.switchTo time i).Represents (b.select time p.freq) := by
  have hcurrent : t.current = some i ↔ b.selected = some p.freq := by
    rw [h.ordered.current_eq_iff hp, h.selected]
  unfold PStateTrack.switchTo FrequencyBook.select
  by_cases hc : t.current = some i
  · rw [if_pos hc, if_pos (hcurrent.mp hc)]
    exact h
  · rw [if_neg hc, if_neg (mt hcurrent.mpr hc)]
    have hclosed := h.closeDwell time
    obtain ⟨q, hq, hqp⟩ := exists_getElem?_closeDwell hp time
    refine ⟨hclosed.ordered.select hq _ _, hclosed.entries, ?_, hclosed.idle, rfl⟩
    show ((t.closeDwell time).slots[i]?).map (·.freq) = some p.freq
    rw [hq, Option.map_some, hqp]

/-- A change of the frequency of a CPU opens its slot and selects it, which ends a dwell if one is open. -/
theorem Represents.changeFreq (h : t.Represents b) (time : τ) (f : ℕ) :
    (t.changeFreq time f).Represents (b.perform (.change time f)) := by
  have hslot := h.slotFor f
  obtain ⟨p, hp, rfl⟩ := t.getElem?_slotFor f
  cases hi : b.idle with
  | true =>
    have ht : t.changeFreq time p.freq =
        { (t.slotFor p.freq).1 with current := some (t.slotFor p.freq).2 } :=
      if_pos (hslot.idle.trans hi)
    have hb : b.perform (.change time p.freq) = { b.know p.freq with selected := some p.freq } :=
      if_pos hi
    rw [ht, hb]
    refine ⟨hslot.ordered.select hp _ _, hslot.entries, ?_, hslot.idle, hslot.dwellStart⟩
    show ((t.slotFor p.freq).1.slots[(t.slotFor p.freq).2]?).map (·.freq) = some p.freq
    rw [hp, Option.map_some]
  | false =>
    have ht : t.changeFreq time p.freq =
        (t.slotFor p.freq).1.switchTo time (t.slotFor p.freq).2 :=
      if_neg (Bool.eq_false_iff.mp (hslot.idle.trans hi))
    have hb : b.perform (.change time p.freq) = (b.know p.freq).select time p.freq :=
      if_neg (Bool.eq_false_iff.mp hi)
    rw [ht, hb]
    exact hslot.switchTo hp time

/-- A group that is told no frequency has none selected, and any other frequency is opened and selected. -/
theorem Represents.groupFreq (h : t.Represents b) (time : τ) (f : ℕ) :
    (t.groupFreq time f).Represents (b.perform (.group time f)) := by
  show (t.groupFreq time f).Represents
    (if f = 0 then { b.endDwell time with selected := none } else (b.know f).select time f)
  unfold PStateTrack.groupFreq
  split
  · have hclosed := h.closeDwell time
    exact ⟨⟨hclosed.ordered.sorted, fun _ hi => nomatch hi⟩, hclosed.entries, rfl, hclosed.idle,
      hclosed.dwellStart⟩
  · obtain ⟨p, hp, rfl⟩ := t.getElem?_slotFor f
    exact (h.slotFor p.freq).switchTo hp time

/-- Going idle ends the dwell that is open. -/
theorem Represents.enterIdle (h : t.Represents b) (time : τ) :
    (t.enterIdle time).Represents (b.perform (.enterIdle time)) := by
  have hstep : (if t.idle then t else t.closeDwell time).Represents
      (if b.idle then b else b.endDwell time) := by
    rw [h.idle]
    split
    · exact h
    · exact h.closeDwell time
  exact ⟨⟨hstep.ordered.sorted, hstep.ordered.selected⟩, hstep.entries, hstep.selected, rfl,
    hstep.dwellStart⟩

omit [TimeValue τ] in
/-- There is a selection in the table exactly if there is one in the book. -/
theorem Represents.isSome_current (h : t.Represents b) : t.current.isSome = b.selected.isSome := by
  rw [← h.selected]
  cases hc : t.current with
  | none => rw [currentFreq, currentSlot, hc]; rfl
  | some i =>
    obtain ⟨p, -, hf⟩ := h.ordered.slot_of_current hc
    rw [hf]
    rfl

/-- Resuming begins a dwell if a frequency is selected. -/
theorem Represents.exitIdle (h : t.Represents b) (time : τ) :
    (t.exitIdle time).Represents (b.perform (.exitIdle time)) := by
  show (t.exitIdle time).Represents (if b.idle then _ else b)
  unfold PStateTrack.exitIdle
  rw [h.idle]
  split
  · refine ⟨⟨h.ordered.sorted, h.ordered.selected⟩, h.entries, h.selected, rfl, ?_⟩
    show (if t.current.isSome then time else t.dwellStart) =
      if b.selected.isSome then time else b.dwellStart
    rw [h.isSome_current, h.dwellStart]
  · exact h

/-- **Whatever happens, a track goes on holding what its book says.** -/
theorem Represents.perform (h : t.Represents b) (op : FrequencyOp τ) :
    (t.perform op).Represents (b.perform op) := by
  cases op with
  | slot f => exact h.slotFor f
  | change time f => exact h.changeFreq time f
  | group time f => exact h.groupFreq time f
  | enterIdle time => exact h.enterIdle time
  | exitIdle time => exact h.exitIdle time

theorem Represents.performAll (h : t.Represents b) (ops : List (FrequencyOp τ)) :
    (t.performAll ops).Represents (b.performAll ops) := by
  induction ops generalizing t b with
  | nil => exact h
  | cons op ops ih => exact ih (h.perform op)

/-! ### Which frequency a dwell is credited to -/

omit [TimeValue τ] in
/-- The dwell that is open: its frequency, and when it began. -/
def dwell (t : PStateTrack τ) : Option (ℕ × τ) := t.runsAt.map fun f => (f, t.dwellStart)

/-- What an operation does about dwells.  One that begins does so when the operation happens.  While one
goes on nothing is credited to any frequency.  When it ends its duration, if it counts, is credited to
its frequency, and nothing to any other. -/
structure CreditsDwells (t : PStateTrack τ) (op : FrequencyOp τ) : Prop where
  begins : ∀ f since, (t.perform op).dwell = some (f, since) → (t.perform op).dwell ≠ t.dwell →
    op.time? = some since
  goesOn : ∀ f since, t.dwell = some (f, since) → (t.perform op).dwell = t.dwell →
    ∀ p ∈ t.slots, p ∈ (t.perform op).slots
  ends : ∀ f since, t.dwell = some (f, since) → (t.perform op).dwell ≠ t.dwell →
    ∃ time, op.time? = some time ∧ ∀ p ∈ t.slots,
      (if p.freq = f ∧ counts (span since time) = true then p.record (span since time) else p) ∈
        (t.perform op).slots

theorem dwell_slotFor (t : PStateTrack τ) (f : ℕ) : (t.slotFor f).1.dwell = t.dwell := by
  rw [dwell, runsAt, idle_slotFor, currentFreq_slotFor, dwellStart_slotFor]
  rfl

variable {op : FrequencyOp τ}

/-- An operation that leaves the dwell and the slots there were. -/
theorem creditsDwells_of_same (hdwell : (t.perform op).dwell = t.dwell)
    (hkept : ∀ p ∈ t.slots, p ∈ (t.perform op).slots) : t.CreditsDwells op where
  begins _ _ _ hne := absurd hdwell hne
  goesOn _ _ _ _ := hkept
  ends _ _ _ hne := absurd hdwell hne

/-- An operation that begins a dwell, or none, where none was open. -/
theorem creditsDwells_of_none (hnone : t.runsAt = none)
    (hbegin : ∀ f since, (t.perform op).dwell = some (f, since) → op.time? = some since) :
    t.CreditsDwells op where
  begins f since h _ := hbegin f since h
  goesOn f since h := by
    rw [dwell, hnone] at h
    cases h
  ends f since h := by
    rw [dwell, hnone] at h
    cases h

/-- An operation that closes the dwell, after opening slots, and begins another one or none. -/
theorem creditsDwells_of_closed {u : PStateTrack τ} (hx : t.Extends u) (hu : u.WellFormed) {time : τ}
    (htime : op.time? = some time) (hslots : (t.perform op).slots = (u.closeDwell time).slots)
    (hother : ∀ f since, (t.perform op).dwell = some (f, since) →
      since = time ∧ t.runsAt ≠ some f) : t.CreditsDwells op := by
  have hmoved : ∀ f since, t.dwell = some (f, since) → (t.perform op).dwell ≠ t.dwell := by
    intro f since h heq
    obtain ⟨f', hf', hpair⟩ := Option.map_eq_some_iff.mp h
    obtain ⟨rfl, -⟩ := Prod.mk.inj hpair
    exact (hother f' since (heq.trans h)).2 hf'
  refine ⟨fun f since h _ => ?_, fun f since h heq => absurd heq (hmoved f since h),
    fun f since h _ => ⟨time, htime, fun p hp => ?_⟩⟩
  · rw [(hother f since h).1]
    exact htime
  · obtain ⟨f', hf', hpair⟩ := Option.map_eq_some_iff.mp h
    obtain ⟨rfl, rfl⟩ := Prod.mk.inj hpair
    have hfreq : u.currentFreq = some f' := by
      have hrunning : t.idle = false := by
        cases hi : t.idle with
        | false => rfl
        | true => cases (runsAt_of_idle hi).symm.trans hf'
      rw [currentFreq, hx.currentSlot, ← currentFreq, ← runsAt_of_running hrunning, hf']
    rw [hslots, hu.slots_closeDwell, hfreq, hx.dwellStart]
    refine List.mem_map.mpr ⟨p, hx.kept p hp, ?_⟩
    simp only [Option.some.injEq, eq_comm]

/-- Selecting another slot, after opening it if need be. -/
theorem creditsDwells_of_switchTo (hw : t.WellFormed) (hi : t.idle = false) {time : τ} {f : ℕ}
    (htime : op.time? = some time)
    (hop : t.perform op = (t.slotFor f).1.switchTo time (t.slotFor f).2) : t.CreditsDwells op := by
  obtain ⟨p, hp, rfl⟩ := t.getElem?_slotFor f
  have hx := t.extends_slotFor p.freq
  have hu := hw.slotFor p.freq
  have hidle : (t.slotFor p.freq).1.idle = false := hx.idle.trans hi
  by_cases hc : (t.slotFor p.freq).1.current = some (t.slotFor p.freq).2
  · have hsame : t.perform op = (t.slotFor p.freq).1 := hop.trans (if_pos hc)
    rw [← hsame] at hx
    exact creditsDwells_of_same (by rw [hsame, dwell_slotFor]) hx.kept
  · have hclosed : t.perform op = { (t.slotFor p.freq).1.closeDwell time with
        current := some (t.slotFor p.freq).2, dwellStart := time } := hop.trans (if_neg hc)
    refine creditsDwells_of_closed hx hu htime (by rw [hclosed]) fun f since h => ?_
    obtain ⟨f', hf', hpair⟩ := Option.map_eq_some_iff.mp h
    obtain ⟨rfl, rfl⟩ := Prod.mk.inj hpair
    have hrunning : (t.perform op).idle = false := by
      rw [hclosed]
      exact (idle_closeDwell _ time).trans hidle
    -- what is selected now was not selected before, or nothing would have been closed
    have hfreq : some p.freq = some f' := by
      rw [← hf', runsAt_of_running hrunning, hop, currentFreq_switchTo hp]
    refine ⟨by rw [hclosed], fun hbefore => hc ((hu.current_eq_iff hp).mpr ?_)⟩
    rw [hfreq, currentFreq_slotFor, ← runsAt_of_running hi, hbefore]

/-- While an entity is idle no dwell is open, and none begins before it resumes. -/
theorem creditsDwells_of_idle (hi : t.idle = true) (op : FrequencyOp τ) : t.CreditsDwells op := by
  refine creditsDwells_of_none (runsAt_of_idle hi) fun f since h => ?_
  obtain ⟨f', hf, hpair⟩ := Option.map_eq_some_iff.mp h
  obtain ⟨-, rfl⟩ := Prod.mk.inj hpair
  have hstill : (t.perform op).idle ≠ true := fun hidle => nomatch (runsAt_of_idle hidle).symm.trans hf
  cases op with
  | slot f => exact absurd ((t.idle_slotFor f).trans hi) hstill
  | change time f =>
    have hslot := (t.idle_slotFor f).trans hi
    have hop : t.perform (.change time f) =
        { (t.slotFor f).1 with current := some (t.slotFor f).2 } := if_pos hslot
    rw [hop] at hstill
    exact absurd hslot hstill
  | group time f =>
    refine absurd ?_ hstill
    rw [perform, PStateTrack.groupFreq]
    split
    · exact (t.idle_closeDwell time).trans hi
    · rw [idle_switchTo, idle_slotFor, hi]
  | enterIdle time => exact absurd rfl hstill
  | exitIdle time =>
    have hexit : t.perform (.exitIdle time) =
        { t with idle := false, dwellStart := if t.current.isSome then time else t.dwellStart } :=
      if_pos hi
    rw [hexit] at hf ⊢
    cases hc : t.current with
    | none => simp [runsAt, currentFreq, currentSlot, hc] at hf
    | some i => rfl

theorem WellFormed.creditsDwells_of_running (hw : t.WellFormed) (hi : t.idle = false)
    (op : FrequencyOp τ) : t.CreditsDwells op := by
  cases op with
  | slot f => exact creditsDwells_of_same (t.dwell_slotFor f) (t.extends_slotFor f).kept
  | change time f =>
    refine creditsDwells_of_switchTo hw hi (f := f) rfl ?_
    exact if_neg (Bool.eq_false_iff.mp ((t.idle_slotFor f).trans hi))
  | group time f =>
    by_cases hf : f = 0
    · have hzero : t.perform (.group time f) = { t.closeDwell time with current := none } := if_pos hf
      refine creditsDwells_of_closed (Extends.refl t) hw rfl (by rw [hzero]) fun f' since h => ?_
      rw [hzero, dwell, runsAt] at h
      split at h <;> cases h
    · exact creditsDwells_of_switchTo hw hi (f := f) rfl (if_neg hf)
  | enterIdle time =>
    have henter : (t.perform (.enterIdle time)).slots = (t.closeDwell time).slots := by
      show (if t.idle then t else t.closeDwell time).slots = _
      rw [hi]
      rfl
    refine creditsDwells_of_closed (Extends.refl t) hw rfl henter fun f' since h => ?_
    rw [dwell, runsAt_of_idle rfl] at h
    cases h
  | exitIdle time =>
    have hsame : t.perform (.exitIdle time) = t := if_neg (Bool.eq_false_iff.mp hi)
    refine creditsDwells_of_same (by rw [hsame]) fun p hp => ?_
    rw [hsame]
    exact hp

/-- **A dwell is credited to the frequency that was selected while it ran**, whatever ends it. -/
theorem WellFormed.creditsDwells (hw : t.WellFormed) (op : FrequencyOp τ) : t.CreditsDwells op := by
  cases hi : t.idle with
  | true => exact creditsDwells_of_idle hi op
  | false => exact hw.creditsDwells_of_running hi op

/-- What happens to a track takes no slot away. -/
theorem mem_freqs_perform {f : ℕ} (h : f ∈ t.freqs) (op : FrequencyOp τ) :
    f ∈ (t.perform op).freqs := by
  have hswitch : ∀ (u : PStateTrack τ) (time : τ) (i : ℕ), (u.switchTo time i).freqs = u.freqs := by
    intro u time i
    unfold PStateTrack.switchTo
    split
    · rfl
    · exact u.freqs_closeDwell time
  cases op with
  | slot g => exact mem_freqs_slotFor.mpr (.inr h)
  | change time g =>
    have hslot : f ∈ (t.slotFor g).1.freqs := mem_freqs_slotFor.mpr (.inr h)
    rw [perform, PStateTrack.changeFreq]
    dsimp only
    split
    · exact hslot
    · rw [hswitch]
      exact hslot
  | group time g =>
    rw [perform, PStateTrack.groupFreq]
    split
    · show f ∈ (t.closeDwell time).freqs
      rw [freqs_closeDwell]
      exact h
    · rw [hswitch]
      exact mem_freqs_slotFor.mpr (.inr h)
  | enterIdle time =>
    show f ∈ (if t.idle then t else t.closeDwell time).freqs
    split
    · exact h
    · rw [freqs_closeDwell]
      exact h
  | exitIdle time =>
    show f ∈ (t.exitIdle time).freqs
    unfold PStateTrack.exitIdle
    split <;> exact h

theorem mem_freqs_performAll {f : ℕ} (h : f ∈ t.freqs) (ops : List (FrequencyOp τ)) :
    f ∈ (t.performAll ops).freqs := by
  induction ops generalizing t with
  | nil => exact h
  | cons op ops ih => exact ih (mem_freqs_perform h op)

/-- **A frequency track is a map with a selection.**  After all that can happen to a track, in any order
and at any instants, its slots are in strictly ascending order and are the entries of the map that the
same events make; the selection is the position of the slot selected there; a search finds the keys and
nothing else, at their slots; asking for a slot gives the position of the one asked for; every dwell is
credited to the frequency that was selected while it ran; and what happens later takes no slot away. -/
theorem agrees_with_book (ops : List (FrequencyOp τ)) :
    let t := (empty : PStateTrack τ).performAll ops
    let b := (FrequencyBook.empty : FrequencyBook τ).performAll ops
    t.freqs.Pairwise (· < ·) ∧
    (∀ f s, ⟨f, s⟩ ∈ t.slots ↔ b.entries.lookup f = some s) ∧
    (∀ i, t.current = some i → i < t.slots.length) ∧
    t.currentFreq = b.selected ∧ t.idle = b.idle ∧ t.dwellStart = b.dwellStart ∧
    (∀ f, (t.find? f).isSome = true ↔ f ∈ b.entries) ∧
    (∀ f i, t.find? f = some i ↔ ∃ s, t.slots[i]? = some ⟨f, s⟩) ∧
    (∀ f, ∃ s, (t.slotFor f).1.slots[(t.slotFor f).2]? = some ⟨f, s⟩) ∧
    (∀ op, t.CreditsDwells op) ∧
    ∀ more, ∀ f ∈ t.freqs, f ∈ (t.performAll more).freqs := by
  intro t b
  have h : t.Represents b := represents_empty.performAll ops
  refine ⟨h.ordered.sorted, h.entries, h.ordered.selected, h.selected, h.idle, h.dwellStart,
    fun f => ?_, fun f i => ⟨fun hf => ?_, ?_⟩, fun f => ?_, h.ordered.creditsDwells,
    fun more f hf => mem_freqs_performAll hf more⟩
  · rw [← h.mem_freqs_iff, ← not_iff_not, ← find?_eq_none_iff, Bool.not_eq_true,
      Option.isSome_eq_false_iff, Option.isNone_iff_eq_none]
  · obtain ⟨p, hp, rfl⟩ := getElem?_of_find? hf
    exact ⟨p.stats, hp⟩
  · rintro ⟨s, hs⟩
    have hmem : f ∈ t.freqs := List.mem_map.mpr ⟨_, List.mem_of_getElem? hs, rfl⟩
    obtain ⟨j, hj⟩ := Option.ne_none_iff_exists'.mp fun hnone => find?_eq_none_iff.mp hnone hmem
    obtain ⟨p, hp, hpf⟩ := getElem?_of_find? hj
    rw [hj, h.ordered.position_unique hp hs hpf]
  · obtain ⟨p, hp, rfl⟩ := t.getElem?_slotFor f
    exact ⟨p.stats, hp⟩

end PStateTrack

end Machines

end PowerTrace
