import PowerTrace.Proofs.Accounting
import PowerTrace.Proofs.Locality
import PowerTrace.Proofs.Transition

/-!
# What the slots hold

A node moves through depths and through frequencies, and an event at some instant takes it from one
place to another.  Its stays, in the order in which they ended, are all there is to count: each slot
holds the durations of the stays at its place, and each of the two machines leaves out those that it
takes for no duration at all.

* `Itinerary.move`: an entity that is somewhere else from some instant on;
* `CStateTrack.Holds`, `PStateTrack.Holds`: the slots hold the stays that count;
* `CStateTrack.Recounts.record`, `PStateTrack.Recounts.changeFreq` and its companions: transitions
  keep track of the stays;
* `Entity.itinerary`: the stays of a node during a run;
* `Entity.recounts_run`: hence its slots hold them after every run.
-/

namespace PowerTrace

open TimeValue

/-! ### Stays -/

/-- A stay at some place, from one instant to another. -/
structure Stay (κ τ : Type) where
  place : κ
  start : τ
  stop : τ

/-- Where an entity was and is. -/
structure Itinerary (κ τ : Type) where
  /-- The stays that ended, in this order. -/
  ended : List (Stay κ τ)
  /-- Where it is, `none` while it is nowhere. -/
  here : Option κ
  /-- Since when. -/
  since : τ

/-- How long a stay lasted. -/
def Stay.duration {κ τ : Type} [TimeValue τ] (s : Stay κ τ) : τ := span s.start s.stop

/-- The durations of the stays at a place, first to last. -/
def durationsAt {κ τ : Type} [DecidableEq κ] [TimeValue τ] (stays : List (Stay κ τ)) (p : κ) :
    List τ :=
  (stays.filter (·.place = p)).map (·.duration)

namespace Itinerary

variable {κ τ : Type}

/-- Nowhere yet. -/
def nowhere [TimeValue τ] : Itinerary κ τ := ⟨[], none, zero⟩

/-- Leave at an instant. -/
def leave (it : Itinerary κ τ) (time : τ) : Itinerary κ τ where
  ended := it.ended ++ (it.here.map fun p => ⟨p, it.since, time⟩).toList
  here := none
  since := it.since

/-- Leave at the instant of the last move. -/
def abandon (it : Itinerary κ τ) : Itinerary κ τ := it.leave it.since

/-- Be somewhere, or nowhere, from an instant on.  Staying is no move. -/
def move [DecidableEq κ] (it : Itinerary κ τ) (new : Option κ) (time : τ) : Itinerary κ τ :=
  if new = it.here then it else { it.leave time with here := new, since := time }

theorem leave_of_none {it : Itinerary κ τ} (h : it.here = none) (time : τ) : it.leave time = it := by
  cases it
  cases h
  simp [leave]

theorem ended_leave_of_some {it : Itinerary κ τ} {p : κ} (h : it.here = some p) (time : τ) :
    (it.leave time).ended = it.ended ++ [⟨p, it.since, time⟩] := by
  rw [leave, h]
  rfl

variable [DecidableEq κ]

theorem move_here {it : Itinerary κ τ} {new : Option κ} (h : new = it.here) (time : τ) :
    it.move new time = it := if_pos h

theorem move_of_ne {it : Itinerary κ τ} {new : Option κ} (h : new ≠ it.here) (time : τ) :
    it.move new time = { it.leave time with here := new, since := time } := if_neg h

end Itinerary

section Durations

variable {κ τ : Type} [DecidableEq κ] [TimeValue τ]

theorem durationsAt_concat (stays : List (Stay κ τ)) (p : κ) (start stop : τ) :
    durationsAt (stays ++ [⟨p, start, stop⟩]) p = durationsAt stays p ++ [span start stop] := by
  simp [durationsAt, Stay.duration]

theorem durationsAt_concat_of_ne (stays : List (Stay κ τ)) {p q : κ} (h : q ≠ p) (start stop : τ) :
    durationsAt (stays ++ [⟨q, start, stop⟩]) p = durationsAt stays p := by
  simp [durationsAt, h]

theorem durationsAt_eq_nil {stays : List (Stay κ τ)} {p : κ} (h : ∀ s ∈ stays, s.place ≠ p) :
    durationsAt stays p = [] := by
  have hnone : stays.filter (·.place = p) = [] := by simpa using h
  rw [durationsAt, hnone, List.map_nil]

/-- What a slot holds of a list of durations: those that count. -/
def DurationStats.counted (counts : τ → Bool) (ds : List τ) : DurationStats τ :=
  DurationStats.empty.recordAll (ds.filter counts)

theorem DurationStats.counted_concat (counts : τ → Bool) (ds : List τ) (u : τ) :
    counted counts (ds ++ [u]) =
      if counts u then (counted counts ds).record u else counted counts ds := by
  unfold counted recordAll
  by_cases h : counts u = true <;> simp [h]

end Durations

/-! ### The idle track -/

namespace CStateTrack

variable {τ : Type} [TimeValue τ]

/-- Each depth holds the durations of the stays there that count, and no others. -/
def Holds (counts : τ → Bool) (t : CStateTrack τ) (stays : List (Stay Depth τ)) : Prop :=
  ∀ d, (t.slot d).stats = .counted counts (durationsAt stays d)

/-- Whether the idle track counts a duration. -/
def counts (u : τ) : Bool := !le u zero

/-- An idle track keeps track of an itinerary. -/
structure Recounts (t : CStateTrack τ) (it : Itinerary Depth τ) : Prop where
  here : it.here = t.current
  since : ∀ d, t.current = some d → it.since = t.since
  holds : t.Holds counts it.ended

theorem recounts_ofInfos (infos : Depth → Option StateInfo) :
    (ofInfos infos : CStateTrack τ).Recounts .nowhere := by
  refine ⟨rfl, (fun d hd => nomatch hd), ?_⟩
  intro d
  rw [slot_ofInfos]
  cases infos d <;> rfl

theorem holds_close {t : CStateTrack τ} {stays : List (Stay Depth τ)} (h : t.Holds counts stays)
    (d : Depth) (time : τ) : (t.close d time).1.Holds counts (stays ++ [⟨d, t.since, time⟩]) := by
  intro d'
  rw [slot_close]
  by_cases hd : d' = d
  · subst hd
    rw [durationsAt_concat, DurationStats.counted_concat]
    cases hle : le (span t.since time) zero with
    | true => simp [counts, hle, h d']
    | false => simp [counts, hle, CState.record, h d']
  · rw [if_neg fun hpos => hd hpos.1, durationsAt_concat_of_ne stays fun he => hd he.symm]
    exact h d'

theorem Recounts.closeOpen {t : CStateTrack τ} {it : Itinerary Depth τ} (h : t.Recounts it)
    (time : τ) : (t.closeOpen time).1.Holds counts (it.leave time).ended := by
  cases hc : t.current with
  | none =>
    rw [closeOpen_of_none hc, Itinerary.leave_of_none (h.here.trans hc)]
    exact h.holds
  | some d =>
    rw [closeOpen_of_some hc, Itinerary.ended_leave_of_some (h.here.trans hc), h.since d hc]
    exact holds_close h.holds d time

/-- **A transition is a move.** -/
theorem Recounts.record {t : CStateTrack τ} {it : Itinerary Depth τ} (h : t.Recounts it) (time : τ)
    (new : Option Depth) : (t.record time new).1.Recounts (it.move new time) := by
  by_cases hn : new = t.current
  · rw [Itinerary.move_here (hn.trans h.here.symm), CStateTrack.record, if_pos hn]
    exact h
  · rw [Itinerary.move_of_ne fun he => hn (he.trans h.here), CStateTrack.record, if_neg hn]
    have hclosed := h.closeOpen time
    cases new with
    | none =>
      refine ⟨(t.current_closeOpen time).symm, ?_, hclosed⟩
      intro d hd
      cases hd.symm.trans (t.current_closeOpen time)
    | some d => exact ⟨rfl, fun _ _ => rfl, hclosed⟩

/-- Abandoning the open interval ends the stay where it began. -/
theorem Recounts.abandon {t : CStateTrack τ} {it : Itinerary Depth τ} (h : t.Recounts it) :
    t.abandon.1.Holds counts it.abandon.ended := by
  unfold Itinerary.abandon
  cases hc : t.current with
  | none =>
    rw [Itinerary.leave_of_none (h.here.trans hc), CStateTrack.abandon, closeOpen_of_none hc]
    exact h.holds
  | some d =>
    rw [h.since d hc]
    exact h.closeOpen t.since

end CStateTrack

/-! ### The frequency track -/

namespace PStateTrack

variable {τ : Type}

/-- The frequency that an entity dwells at, if it dwells at one. -/
def runsAt (t : PStateTrack τ) : Option ℕ := if t.idle then none else t.currentFreq

theorem runsAt_of_idle {t : PStateTrack τ} (h : t.idle = true) : t.runsAt = none := if_pos h

theorem runsAt_of_running {t : PStateTrack τ} (h : t.idle = false) : t.runsAt = t.currentFreq :=
  if_neg (Bool.eq_false_iff.mp h)

variable [TimeValue τ]

/-- Each slot holds the durations of the stays at its frequency that count, and no others, and every
frequency stayed at has a slot. -/
structure Holds (counts : τ → Bool) (t : PStateTrack τ) (stays : List (Stay ℕ τ)) : Prop where
  known : ∀ s ∈ stays, s.place ∈ t.freqs
  stats : ∀ p ∈ t.slots, p.stats = .counted counts (durationsAt stays p.freq)

/-- Whether the frequency track counts a duration. -/
def counts (u : τ) : Bool := lt zero u

/-- A frequency track keeps track of an itinerary. -/
structure Recounts (t : PStateTrack τ) (it : Itinerary ℕ τ) : Prop where
  here : it.here = t.runsAt
  since : ∀ f, t.runsAt = some f → it.since = t.dwellStart
  holds : t.Holds counts it.ended

theorem recounts_empty : (empty : PStateTrack τ).Recounts .nowhere :=
  ⟨rfl, (fun _ hf => nomatch hf), (fun _ hs => nomatch hs), (fun _ hp => nomatch hp)⟩

/-- What the slots hold depends on nothing but the slots. -/
theorem Holds.of_slots_eq {c : τ → Bool} {t u : PStateTrack τ} {stays : List (Stay ℕ τ)}
    (h : t.Holds c stays) (hslots : u.slots = t.slots) : u.Holds c stays := by
  refine ⟨?_, ?_⟩
  · rw [freqs, hslots]
    exact h.known
  · rw [hslots]
    exact h.stats

/-- Slots opened for frequencies not seen before hold nothing, and there was no stay there. -/
theorem Holds.extends {c : τ → Bool} {t u : PStateTrack τ} {stays : List (Stay ℕ τ)}
    (h : t.Holds c stays) (hx : t.Extends u) : u.Holds c stays := by
  refine ⟨fun s hs => hx.covers _ (h.known s hs), ?_⟩
  intro p hp
  rcases hx.unused p hp with hp | ⟨hnew, he⟩
  · exact h.stats p hp
  · have hnone : durationsAt stays p.freq = [] :=
      durationsAt_eq_nil fun s hs he => hnew (he ▸ h.known s hs)
    rw [hnone, he]
    rfl

theorem Recounts.slotFor {t : PStateTrack τ} {it : Itinerary ℕ τ} (h : t.Recounts it) (f : ℕ) :
    (t.slotFor f).1.Recounts it := by
  have hx := t.extends_slotFor f
  have hruns : (t.slotFor f).1.runsAt = t.runsAt := by
    rw [runsAt, idle_slotFor, currentFreq_slotFor, runsAt]
  refine ⟨h.here.trans hruns.symm, ?_, h.holds.extends hx⟩
  intro f' hf'
  rw [hx.dwellStart]
  exact h.since f' (hruns ▸ hf')

theorem getElem?_closeDwell {t : PStateTrack τ} {i : ℕ} (hc : t.current = some i) (time : τ)
    (j : ℕ) : (t.closeDwell time).slots[j]? = (t.slots[j]?).map fun p =>
      if i = j ∧ counts (span t.dwellStart time) = true then p.record (span t.dwellStart time)
      else p := by
  rw [closeDwell_of_some hc]
  split
  · next hlt =>
    have hcounts : counts (span t.dwellStart time) = true := hlt
    simp only [List.getElem?_modify, hcounts, and_true]
    rfl
  · next hlt =>
    have hcounts : ¬ counts (span t.dwellStart time) = true := hlt
    simp [hcounts]

/-- Closing a dwell adds its duration to the slot it is at, and to no other, if it counts. -/
theorem Holds.closeDwell {t : PStateTrack τ} (hw : t.WellFormed) {stays : List (Stay ℕ τ)}
    (h : t.Holds counts stays) {i : ℕ} (hc : t.current = some i) {p : PState τ}
    (hp : t.slots[i]? = some p) (time : τ) :
    (t.closeDwell time).Holds counts (stays ++ [⟨p.freq, t.dwellStart, time⟩]) := by
  refine ⟨?_, ?_⟩
  · rw [freqs_closeDwell]
    intro s hs
    rcases List.mem_append.mp hs with hs | hs
    · exact h.known s hs
    · rw [List.mem_singleton.mp hs]
      exact List.mem_map_of_mem (List.mem_of_getElem? hp)
  · intro q' hq'
    obtain ⟨j, hj⟩ := List.mem_iff_getElem?.mp hq'
    rw [getElem?_closeDwell hc] at hj
    obtain ⟨q, hq, rfl⟩ := Option.map_eq_some_iff.mp hj
    have hstats := h.stats q (List.mem_of_getElem? hq)
    by_cases hij : i = j
    · subst hij
      obtain rfl : p = q := Option.some.inj (hp.symm.trans hq)
      by_cases hcounts : counts (span t.dwellStart time) = true
      · rw [if_pos ⟨rfl, hcounts⟩]
        show (p.stats.record _) = .counted counts (durationsAt (stays ++ _) p.freq)
        rw [durationsAt_concat, DurationStats.counted_concat, if_pos hcounts, hstats]
      · rw [if_neg fun hpos => hcounts hpos.2, durationsAt_concat, DurationStats.counted_concat,
          if_neg hcounts, hstats]
    · -- another slot has another frequency
      have hne : p.freq ≠ q.freq := fun he => hij (hw.position_unique hp hq he)
      rw [if_neg fun hpos => hij hpos.1, durationsAt_concat_of_ne stays hne]
      exact hstats

/-- Closing the dwell is leaving. -/
theorem Recounts.closeDwell {t : PStateTrack τ} (hw : t.WellFormed) (hi : t.idle = false)
    {it : Itinerary ℕ τ} (h : t.Recounts it) (time : τ) :
    (t.closeDwell time).Holds counts (it.leave time).ended := by
  have hruns := runsAt_of_running hi
  cases hc : t.current with
  | none =>
    have hnone : t.currentFreq = none := by rw [currentFreq, currentSlot, hc]; rfl
    rw [closeDwell_of_none hc, Itinerary.leave_of_none (h.here.trans (hruns.trans hnone))]
    exact h.holds
  | some i =>
    obtain ⟨p, hp, hf⟩ := hw.slot_of_current hc
    have hhere := hruns.trans hf
    rw [Itinerary.ended_leave_of_some (h.here.trans hhere), h.since p.freq hhere]
    exact h.holds.closeDwell hw hc hp time

/-- An operation that leaves the slots and the dwell is no move. -/
theorem Recounts.stay {t u : PStateTrack τ} {it : Itinerary ℕ τ} (h : t.Recounts it)
    (hslots : u.slots = t.slots) (hruns : u.runsAt = t.runsAt) (hstart : u.dwellStart = t.dwellStart)
    (time : τ) : u.Recounts (it.move u.runsAt time) := by
  rw [Itinerary.move_here (hruns.trans h.here.symm)]
  refine ⟨h.here.trans hruns.symm, ?_, h.holds.of_slots_eq hslots⟩
  intro f hf
  rw [hstart]
  exact h.since f (hruns ▸ hf)

/-- An operation that begins a dwell, or none, while there was none is a move. -/
theorem Recounts.begin {t u : PStateTrack τ} {it : Itinerary ℕ τ} (h : t.Recounts it)
    (hnone : t.runsAt = none) (hslots : u.slots = t.slots) {time : τ}
    (hstart : ∀ f, u.runsAt = some f → u.dwellStart = time) : u.Recounts (it.move u.runsAt time) := by
  have hholds := h.holds.of_slots_eq hslots
  have hhere := h.here.trans hnone
  cases hu : u.runsAt with
  | none =>
    rw [Itinerary.move_here hhere.symm]
    refine ⟨hhere.trans hu.symm, ?_, hholds⟩
    intro f hf
    cases hu.symm.trans hf
  | some f =>
    rw [Itinerary.move_of_ne (by rw [hhere]; exact Option.some_ne_none f),
      Itinerary.leave_of_none hhere]
    exact ⟨hu.symm, fun f' hf' => (hstart f' hf').symm, hholds⟩

/-- An operation that closes the dwell and ends up elsewhere is a move. -/
theorem Recounts.moveOn {t u : PStateTrack τ} (hw : t.WellFormed) (hi : t.idle = false)
    {it : Itinerary ℕ τ} (h : t.Recounts it) {time : τ}
    (hslots : u.slots = (t.closeDwell time).slots) (hmoved : u.runsAt ≠ t.runsAt)
    (hstart : ∀ f, u.runsAt = some f → u.dwellStart = time) :
    u.Recounts (it.move u.runsAt time) := by
  rw [Itinerary.move_of_ne fun he => hmoved (he.trans h.here)]
  exact ⟨rfl, fun f hf => (hstart f hf).symm, (h.closeDwell hw hi time).of_slots_eq hslots⟩

/-- An operation that closes the dwell, if there is one, and begins none is a move. -/
theorem Recounts.stop {t u : PStateTrack τ} (hw : t.WellFormed) (hi : t.idle = false)
    {it : Itinerary ℕ τ} (h : t.Recounts it) {time : τ}
    (hslots : u.slots = (t.closeDwell time).slots) (hnone : u.runsAt = none) :
    u.Recounts (it.move u.runsAt time) := by
  have hstart : ∀ f, u.runsAt = some f → u.dwellStart = time :=
    fun f hf => nomatch hnone.symm.trans hf
  by_cases hruns : t.runsAt = none
  · -- then no slot is selected, and there is nothing to close
    refine h.begin hruns (hslots.trans ?_) hstart
    cases hc : t.current with
    | none => rw [closeDwell_of_none hc]
    | some i =>
      obtain ⟨p, -, hf⟩ := hw.slot_of_current hc
      cases hruns.symm.trans ((runsAt_of_running hi).trans hf)
  · exact h.moveOn hw hi hslots (by rw [hnone]; exact fun he => hruns he.symm) hstart

theorem Recounts.switchTo {t : PStateTrack τ} (hw : t.WellFormed) (hi : t.idle = false)
    {it : Itinerary ℕ τ} (h : t.Recounts it) {i : ℕ} {p : PState τ} (hp : t.slots[i]? = some p)
    (time : τ) : (t.switchTo time i).Recounts (it.move (t.switchTo time i).runsAt time) := by
  by_cases hc : t.current = some i
  · have hsame : t.switchTo time i = t := if_pos hc
    rw [hsame]
    exact h.stay rfl rfl rfl time
  · have hruns : (t.switchTo time i).runsAt = some p.freq := by
      rw [runsAt_of_running (by rw [idle_switchTo, hi]), currentFreq_switchTo hp]
    have hswitch : t.switchTo time i =
        { t.closeDwell time with current := some i, dwellStart := time } := if_neg hc
    refine h.moveOn hw hi (by rw [hswitch]) ?_ (fun _ _ => by rw [hswitch])
    -- another slot, so another frequency: otherwise this would be taken for staying
    rw [hruns, runsAt_of_running hi]
    exact fun he => hc ((hw.current_eq_iff hp).mpr he.symm)

/-- **A change of frequency is a move**, also while the CPU is idle and stays nowhere. -/
theorem Recounts.changeFreq {t : PStateTrack τ} (hw : t.WellFormed) {it : Itinerary ℕ τ}
    (h : t.Recounts it) (time : τ) (f : ℕ) :
    (t.changeFreq time f).Recounts (it.move (t.changeFreq time f).runsAt time) := by
  obtain ⟨p, hp, -⟩ := t.getElem?_slotFor f
  have hslot := h.slotFor f
  unfold PStateTrack.changeFreq
  dsimp only
  split
  · next hi =>
    refine hslot.begin (runsAt_of_idle hi) ?_ ?_
    · rfl
    · intro f' hf'
      have hnone : runsAt { (t.slotFor f).1 with current := some (t.slotFor f).2 } = none :=
        if_pos hi
      cases hnone.symm.trans hf'
  · next hi => exact hslot.switchTo (hw.slotFor f) (Bool.eq_false_iff.mpr hi) hp time

/-- **Feeding a group its frequency is a move.** -/
theorem Recounts.groupFreq {t : PStateTrack τ} (hw : t.WellFormed) (hi : t.idle = false)
    {it : Itinerary ℕ τ} (h : t.Recounts it) (time : τ) (f : ℕ) :
    (t.groupFreq time f).Recounts (it.move (t.groupFreq time f).runsAt time) := by
  unfold PStateTrack.groupFreq
  split
  · refine h.stop hw hi rfl ?_
    unfold runsAt
    split <;> rfl
  · obtain ⟨p, hp, -⟩ := t.getElem?_slotFor f
    exact (h.slotFor f).switchTo (hw.slotFor f) ((t.idle_slotFor f).trans hi) hp time

/-- **Going idle is a move.** -/
theorem Recounts.enterIdle {t : PStateTrack τ} (hw : t.WellFormed) {it : Itinerary ℕ τ}
    (h : t.Recounts it) (time : τ) :
    (t.enterIdle time).Recounts (it.move (t.enterIdle time).runsAt time) := by
  cases hi : t.idle with
  | true =>
    have hsame : t.enterIdle time = t := by
      rw [PStateTrack.enterIdle, if_pos hi, ← hi]
    rw [hsame]
    exact h.stay rfl rfl rfl time
  | false =>
    refine h.stop hw hi ?_ (runsAt_of_idle rfl)
    rw [PStateTrack.enterIdle, if_neg (Bool.eq_false_iff.mp hi)]

/-- **Resuming is a move.** -/
theorem Recounts.exitIdle {t : PStateTrack τ} {it : Itinerary ℕ τ} (h : t.Recounts it) (time : τ) :
    (t.exitIdle time).Recounts (it.move (t.exitIdle time).runsAt time) := by
  unfold PStateTrack.exitIdle
  split
  · next hi =>
    refine h.begin (runsAt_of_idle hi) ?_ ?_
    · rfl
    · intro f hf
      cases hc : t.current with
      | none => simp [runsAt, currentFreq, currentSlot, hc] at hf
      | some i => simp
  · exact h.stay rfl rfl rfl time

end PStateTrack

/-! ### A node during a run -/

namespace Entity

variable {τ : Type} [TimeValue τ] {κ : Type} [DecidableEq κ]

/-- Where a node goes during a run, as seen from its place after each event. -/
def itinerary (place : Entity τ → Option κ) (x : Extremum) (ids : List CpuId) :
    Entity τ → Itinerary κ τ → List (Event τ) → Itinerary κ τ
  | _, it, [] => it
  | m, it, e :: es =>
    itinerary place x ids (m.step x ids e) (it.move (place (m.step x ids e)) e.time) es

/-- The depth of a node. -/
def depth (m : Entity τ) : Option Depth := m.tracks.cstates.current

/-- The frequency that a node dwells at. -/
def frequency (m : Entity τ) : Option ℕ := m.tracks.pstates.runsAt

theorem recounts_cstates_apply {m : Entity τ} {it : Itinerary Depth τ}
    (h : m.tracks.cstates.Recounts it) (x : Extremum) (id : CpuId) (time : τ) (a : Action) :
    (m.apply x id time a).tracks.cstates.Recounts (it.move (m.apply x id time a).depth time) := by
  unfold depth
  obtain he | he | ⟨d, he⟩ := m.cstates_apply_cases x id time a
  · rw [he, Itinerary.move_here h.here.symm]
    exact h
  · have hsame : m.tracks.cstates.claim.current = it.here := h.here.symm
    rw [he, Itinerary.move_here hsame]
    exact ⟨h.here, h.since, h.holds⟩
  · rw [he, CStateTrack.current_record]
    exact h.record time d

theorem recounts_pstates_apply {m : Entity τ} {x : Extremum} (hs : m.Settled x)
    {it : Itinerary ℕ τ} (h : m.tracks.pstates.Recounts it) (id : CpuId) (time : τ) (a : Action) :
    (m.apply x id time a).tracks.pstates.Recounts
      (it.move (m.apply x id time a).frequency time) := by
  unfold frequency
  have hstay := h.stay rfl rfl rfl time
  obtain he | ⟨c, rfl, he⟩ | ⟨hg, -, -, htracks⟩ := m.apply_cases x id time a
  · rw [he]
    exact hstay
  · rw [he]
    cases a with
    | setDepth d =>
      cases d with
      | none => exact PStateTrack.Recounts.exitIdle h time
      | some d => exact PStateTrack.Recounts.enterIdle hs.ordered h time
    | changeFreq f => exact PStateTrack.Recounts.changeFreq hs.ordered h time f
    | wake i name => exact hstay
  · rw [htracks]
    split
    · exact h.groupFreq hs.ordered (hs.running hg) time _
    · exact hstay

theorem step_eq_or (m : Entity τ) (x : Extremum) (ids : List CpuId) (e : Event τ) :
    m.step x ids e = m ∨ ∃ a, m.step x ids e = m.apply x e.cpu e.time a := by
  unfold step
  split
  · exact .inr ⟨_, rfl⟩
  · exact .inl rfl

/-- **What every event keeps, while the node moves on, every run keeps.** -/
theorem run_itinerary {place : Entity τ → Option κ} {x : Extremum} {ids : List CpuId}
    {P : Entity τ → Itinerary κ τ → Prop}
    (hstep : ∀ m it e, P m it →
      P (m.step x ids e) (it.move (place (m.step x ids e)) e.time))
    {m : Entity τ} {it : Itinerary κ τ} (h : P m it) (es : List (Event τ)) :
    P (m.run x ids es) (m.itinerary place x ids it es) := by
  induction es generalizing m it with
  | nil => exact h
  | cons e es ih =>
    show P ((m.step x ids e).run x ids es) _
    exact ih (hstep m it e h)

/-- Where a node without a history is idle during a run. -/
def idling (x : Extremum) (ids : List CpuId) (m : Entity τ) (es : List (Event τ)) :
    Itinerary Depth τ :=
  m.itinerary depth x ids .nowhere es

/-- Where a node without a history dwells during a run. -/
def dwelling (x : Extremum) (ids : List CpuId) (m : Entity τ) (es : List (Event τ)) :
    Itinerary ℕ τ :=
  m.itinerary frequency x ids .nowhere es

/-- **The slots of a node hold its stays**, at every depth and at every frequency, after every run. -/
theorem recounts_run {m : Entity τ} {x : Extremum} (hs : m.Settled x) (hfresh : m.tracks.Fresh)
    (ids : List CpuId) (es : List (Event τ)) :
    (m.run x ids es).tracks.cstates.Recounts (m.idling x ids es) ∧
      (m.run x ids es).tracks.pstates.Recounts (m.dwelling x ids es) := by
  refine ⟨run_itinerary (P := fun m it => m.tracks.cstates.Recounts it) ?_ ?_ es,
    (run_itinerary (P := fun m it => m.Settled x ∧ m.tracks.pstates.Recounts it) ?_ ?_ es).2⟩
  · intro m it e h
    obtain he | ⟨a, he⟩ := m.step_eq_or x ids e
    · have hsame : m.depth = it.here := h.here.symm
      rw [he, Itinerary.move_here hsame]
      exact h
    · rw [he]
      exact recounts_cstates_apply h x e.cpu e.time a
  · obtain ⟨infos, hc⟩ := hfresh.cstates
    rw [hc]
    exact CStateTrack.recounts_ofInfos infos
  · rintro m it e ⟨hs, h⟩
    obtain he | ⟨a, he⟩ := m.step_eq_or x ids e
    · rw [he]
      exact ⟨hs, h.stay rfl rfl rfl e.time⟩
    · rw [he]
      exact ⟨hs.apply e.cpu e.time a, recounts_pstates_apply hs h e.cpu e.time a⟩
  · rw [hfresh.pstates]
    exact ⟨hs, PStateTrack.recounts_empty⟩

end Entity

/-! ### When stays begin and end -/

/-- What is said of an instant is true of all instants at which the itinerary moved. -/
structure Itinerary.Moved {κ τ : Type} (P : τ → Prop) (it : Itinerary κ τ) : Prop where
  ended : ∀ s ∈ it.ended, P s.start ∧ P s.stop
  since : it.here.isSome = true → P it.since

theorem Itinerary.moved_nowhere {κ τ : Type} [TimeValue τ] (P : τ → Prop) :
    (nowhere : Itinerary κ τ).Moved P :=
  ⟨fun _ hs => absurd hs List.not_mem_nil, fun hs => nomatch hs⟩

theorem Itinerary.Moved.leave {κ τ : Type} {P : τ → Prop} {it : Itinerary κ τ} (h : it.Moved P)
    {time : τ} (ht : it.here.isSome = true → P time) : (it.leave time).Moved P := by
  refine ⟨?_, fun hs => nomatch hs⟩
  cases hh : it.here with
  | none =>
    rw [Itinerary.leave_of_none hh]
    exact h.ended
  | some p =>
    have hsome : it.here.isSome = true := by rw [hh]; rfl
    rw [Itinerary.ended_leave_of_some hh]
    intro s hs
    rcases List.mem_append.mp hs with hs | hs
    · exact h.ended s hs
    · rw [List.mem_singleton.mp hs]
      exact ⟨h.since hsome, ht hsome⟩

theorem Itinerary.Moved.move {κ τ : Type} [DecidableEq κ] {P : τ → Prop} {it : Itinerary κ τ}
    (h : it.Moved P) {time : τ} (ht : P time) (new : Option κ) : (it.move new time).Moved P := by
  unfold Itinerary.move
  split
  · exact h
  · exact ⟨(h.leave fun _ => ht).ended, fun _ => ht⟩

/-- A node moves only at the instants of events. -/
theorem Entity.moved_itinerary {τ κ : Type} [TimeValue τ] [DecidableEq κ]
    (place : Entity τ → Option κ) (x : Extremum) (ids : List CpuId) {P : τ → Prop} (m : Entity τ)
    {it : Itinerary κ τ} (h : it.Moved P) {es : List (Event τ)} (hes : ∀ e ∈ es, P e.time) :
    (m.itinerary place x ids it es).Moved P := by
  induction es generalizing m it with
  | nil => exact h
  | cons e es ih =>
    exact ih _ (h.move (hes e List.mem_cons_self) _) fun e' he' => hes e' (List.mem_cons_of_mem _ he')

end PowerTrace
