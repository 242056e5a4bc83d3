import PowerTrace.Proofs.Composite
import PowerTrace.Proofs.ExactTime
import PowerTrace.Proofs.Totals

/-!
# Where the time goes

On exact instants no time is lost and none is counted twice.  What a node has accounted for by some
instant is the time in its closed intervals and dwells, together with the part of the open one that
has passed; an event at that instant moves time from one of these places to another and changes
nothing about the sum.

* `CStateTrack.accounted`, `PStateTrack.accounted`: the time a track accounts for;
* `CStateTrack.accounted_record`, `PStateTrack.Conserves`: transitions keep it;
* `Entity.Settled`, `Replay.Settled`: of the two tracks of a node at most one has something open;
* `Tracks.accounted_later`: what passes until the next event is accounted for once, or not known;
* `Replay.time_accounted`: hence everything adds up to the time between two events.
-/

namespace PowerTrace

open TimeValue

/-! ### The idle track -/

namespace CStateTrack

/-- The time in the closed intervals of all depths. -/
def closedTime (t : CStateTrack ℚ) : ℚ := (t.slots.toList.map (·.stats.total)).sum

/-- The time in the open interval by an instant, zero if none is open. -/
def openTime (t : CStateTrack ℚ) (now : ℚ) : ℚ := t.openSince.elim 0 (span · now)

/-- The time a track accounts for by an instant. -/
def accounted (t : CStateTrack ℚ) (now : ℚ) : ℚ := t.closedTime + t.openTime now

/-- The open interval, if any, began by an instant. -/
def BegunBy (t : CStateTrack ℚ) (now : ℚ) : Prop := ∀ s, t.openSince = some s → s ≤ now

theorem openSince_of_none {t : CStateTrack ℚ} (h : t.current = none) : t.openSince = none := by
  rw [openSince, h, Option.map_none]

theorem openSince_of_some {t : CStateTrack ℚ} {d : Depth} (h : t.current = some d) :
    t.openSince = some t.since := by
  rw [openSince, h, Option.map_some]

theorem closedTime_set (t : CStateTrack ℚ) (d : Depth) (c : IdleClass) (u : ℚ) :
    ((t.slots.set d.val ((t.slot d).record c u) d.isLt).toList.map (·.stats.total)).sum =
      t.closedTime + u := by
  have hset := t.sum_slots_set (·.stats.total) d ((t.slot d).record c u)
  have hrecord : ((t.slot d).record c u).stats.total = (t.slot d).stats.total + u := rfl
  rw [hrecord] at hset
  rw [closedTime]
  linarith

/-- Closing an interval accounts for its length, also where it is discarded. -/
theorem closedTime_close (t : CStateTrack ℚ) (d : Depth) {time : ℚ} (h : t.since ≤ time) :
    (t.close d time).1.closedTime = t.closedTime + span t.since time := by
  unfold close
  dsimp only
  split
  · next hle =>
    rw [le_iff, zero_eq] at hle
    rw [span_eq_zero h hle, add_zero]
    rfl
  · exact t.closedTime_set d _ _

theorem closedTime_closeOpen {t : CStateTrack ℚ} {time : ℚ} (h : t.BegunBy time) :
    (t.closeOpen time).1.closedTime = t.accounted time := by
  unfold closeOpen accounted openTime
  split
  · next hc =>
    rw [openSince_of_none hc]
    exact (add_zero _).symm
  · next d hc =>
    rw [openSince_of_some hc]
    exact t.closedTime_close d (h _ (openSince_of_some hc))

/-- **A transition neither loses nor invents time**: what was open is closed, and what is opened has
no length yet. -/
theorem accounted_record {t : CStateTrack ℚ} {time : ℚ} (h : t.BegunBy time) (new : Option Depth) :
    (t.record time new).1.accounted time = t.accounted time := by
  unfold record
  split
  · rfl
  · rw [← closedTime_closeOpen h]
    cases new with
    | none =>
      show (t.closeOpen time).1.closedTime + (t.closeOpen time).1.openTime time = _
      rw [openTime, openSince_of_none (t.current_closeOpen time)]
      exact add_zero _
    | some d =>
      show (t.closeOpen time).1.closedTime + span time time = _
      rw [span_self, add_zero]

theorem BegunBy.record {t : CStateTrack ℚ} {time : ℚ} (h : t.BegunBy time) (new : Option Depth) :
    (t.record time new).1.BegunBy time := by
  unfold CStateTrack.record
  split
  · exact h
  · cases new with
    | none =>
      intro s hs
      have hn : (t.closeOpen time).1.openSince = none := openSince_of_none (t.current_closeOpen time)
      rw [show ((t.closeOpen time).1.enter? none time).openSince = none from hn] at hs
      cases hs
    | some d =>
      rintro s ⟨rfl⟩
      exact le_refl _

end CStateTrack

/-! ### The frequency track -/

namespace PStateTrack

/-- The time in the closed dwells at all frequencies. -/
def closedTime (t : PStateTrack ℚ) : ℚ := (t.slots.map (·.stats.total)).sum

/-- The time in the open dwell by an instant, zero if none is open. -/
def openTime (t : PStateTrack ℚ) (now : ℚ) : ℚ := t.dwellSince.elim 0 (span · now)

/-- The time a track accounts for by an instant. -/
def accounted (t : PStateTrack ℚ) (now : ℚ) : ℚ := t.closedTime + t.openTime now

/-- The open dwell, if any, began by an instant. -/
def BegunBy (t : PStateTrack ℚ) (now : ℚ) : Prop := ∀ s, t.dwellSince = some s → s ≤ now

theorem dwellSince_of_idle {τ : Type} {t : PStateTrack τ} (h : t.idle = true) : t.dwellSince = none := by
  rw [dwellSince, h, Bool.not_true, Bool.and_false]
  rfl

theorem dwellSince_of_running {t : PStateTrack ℚ} (h : t.idle = false) :
    t.dwellSince = t.current.map fun _ => t.dwellStart := by
  rw [dwellSince, h, Bool.not_false, Bool.and_true]
  cases t.current <;> rfl

/-- What an operation at an instant has to keep: the time that was accounted for, and that nothing
is open that begins later. -/
structure Conserves (time : ℚ) (t t' : PStateTrack ℚ) : Prop where
  accounted : t'.accounted time = t.accounted time
  begun : t.BegunBy time → t'.BegunBy time

theorem Conserves.refl (time : ℚ) (t : PStateTrack ℚ) : Conserves time t t := ⟨rfl, id⟩

theorem Conserves.trans {time : ℚ} {t t' t'' : PStateTrack ℚ} (h : Conserves time t t')
    (h' : Conserves time t' t'') : Conserves time t t'' :=
  ⟨h'.accounted.trans h.accounted, h'.begun ∘ h.begun⟩

/-- While the entity is idle no dwell is open, whatever is selected. -/
theorem conserves_of_idle {t t' : PStateTrack ℚ} (h : t.idle = true) (h' : t'.idle = true)
    (hclosed : t'.closedTime = t.closedTime) (time : ℚ) : Conserves time t t' := by
  refine ⟨?_, ?_⟩
  · rw [accounted, accounted, openTime, openTime, dwellSince_of_idle h, dwellSince_of_idle h',
      hclosed]
  · intro _ s hs
    rw [dwellSince_of_idle h'] at hs
    cases hs

theorem closedTime_openSlot (t : PStateTrack ℚ) (f : Nat) :
    (t.openSlot f).closedTime = t.closedTime := by
  have hzero : (PState.unused f : PState ℚ).stats.total = 0 := zero_eq
  rw [closedTime, slots_openSlot, List.map_append, List.sum_append, List.map_cons, List.sum_cons,
    hzero, zero_add, ← List.sum_append, ← List.map_append, List.takeWhile_append_dropWhile]
  rfl

theorem dwellSince_slotFor (t : PStateTrack ℚ) (f : Nat) :
    (t.slotFor f).1.dwellSince = t.dwellSince := by
  rw [dwellSince, isSome_current_slotFor, idle_slotFor, dwellStart_slotFor]
  rfl

theorem conserves_slotFor (time : ℚ) (t : PStateTrack ℚ) (f : Nat) :
    Conserves time t (t.slotFor f).1 := by
  have hclosed : (t.slotFor f).1.closedTime = t.closedTime := by
    unfold slotFor
    split
    · rfl
    · exact t.closedTime_openSlot f
  refine ⟨?_, ?_⟩
  · rw [accounted, hclosed, openTime, dwellSince_slotFor]
    rfl
  · intro h s hs
    rw [dwellSince_slotFor] at hs
    exact h s hs

theorem closedTime_modify {t : PStateTrack ℚ} {i : Nat} (h : i < t.slots.length) (u : ℚ) :
    ((t.slots.modify i (·.record u)).map (·.stats.total)).sum = t.closedTime + u := by
  have hmodify := t.sum_slots_modify (·.stats.total) (·.record u) h
  have hrecord : (t.slots[i].record u).stats.total = t.slots[i].stats.total + u := rfl
  rw [hrecord] at hmodify
  rw [closedTime]
  linarith

/-- Closing a dwell accounts for its length, also where it has none. -/
theorem closedTime_closeDwell {t : PStateTrack ℚ} (hw : t.WellFormed) (hi : t.idle = false)
    {time : ℚ} (h : t.BegunBy time) : (t.closeDwell time).closedTime = t.accounted time := by
  have hopen := dwellSince_of_running hi
  unfold closeDwell accounted openTime
  split
  · next hc =>
    rw [hopen, hc]
    exact (add_zero _).symm
  · next i hc =>
    rw [hc, Option.map_some] at hopen
    rw [hopen]
    dsimp only
    split
    · exact closedTime_modify (hw.selected i hc) _
    · next hlt =>
      rw [lt_iff, zero_eq, not_lt] at hlt
      show t.closedTime = t.closedTime + span t.dwellStart time
      rw [span_eq_zero (h _ hopen) hlt, add_zero]

/-- Whatever is opened at an instant, after the dwell was closed then, has no length yet. -/
theorem conserves_of_closeDwell {t : PStateTrack ℚ} (hw : t.WellFormed) (hi : t.idle = false)
    {time : ℚ} (h : t.BegunBy time) {t' : PStateTrack ℚ}
    (hclosed : t'.closedTime = (t.closeDwell time).closedTime)
    (hopen : ∀ s, t'.dwellSince = some s → s = time) : Conserves time t t' := by
  refine ⟨?_, ?_⟩
  · have hzero : t'.openTime time = 0 := by
      unfold openTime
      cases hs : t'.dwellSince with
      | none => rfl
      | some s =>
        rw [hopen s hs]
        exact span_self time
    rw [accounted, hclosed, hzero, add_zero, closedTime_closeDwell hw hi h]
  · intro _ s hs
    exact le_of_eq (hopen s hs)

theorem conserves_switchTo {t : PStateTrack ℚ} (hw : t.WellFormed) (hi : t.idle = false) {time : ℚ}
    (h : t.BegunBy time) (i : Nat) : Conserves time t (t.switchTo time i) := by
  unfold switchTo
  split
  · exact Conserves.refl time t
  · refine conserves_of_closeDwell hw hi h rfl ?_
    have hopen : dwellSince { t.closeDwell time with current := some i, dwellStart := time } =
        some time := dwellSince_of_running ((t.idle_closeDwell time).trans hi)
    intro s hs
    exact (Option.some.inj (hopen.symm.trans hs)).symm

/-- **A change of frequency keeps the time**, and opens no dwell while the CPU is idle. -/
theorem conserves_changeFreq {t : PStateTrack ℚ} (hw : t.WellFormed) {time : ℚ} (h : t.BegunBy time)
    (f : Nat) : Conserves time t (t.changeFreq time f) := by
  have hslot := conserves_slotFor time t f
  refine hslot.trans ?_
  unfold changeFreq
  dsimp only
  split
  · next hi =>
    refine conserves_of_idle hi ?_ ?_ time
    · exact hi
    · rfl
  · next hi => exact conserves_switchTo (hw.slotFor f) (Bool.eq_false_iff.mpr hi) (hslot.begun h) _

/-- **Feeding a group its frequency keeps the time.** -/
theorem conserves_groupFreq {t : PStateTrack ℚ} (hw : t.WellFormed) (hi : t.idle = false) {time : ℚ}
    (h : t.BegunBy time) (f : Nat) : Conserves time t (t.groupFreq time f) := by
  unfold groupFreq
  split
  · refine conserves_of_closeDwell hw hi h rfl ?_
    intro s hs
    cases hs
  · have hslot := conserves_slotFor time t f
    exact hslot.trans
      (conserves_switchTo (hw.slotFor f) ((t.idle_slotFor f).trans hi) (hslot.begun h) _)

/-- **Going idle keeps the time**: the dwell it interrupts is closed. -/
theorem conserves_enterIdle {t : PStateTrack ℚ} (hw : t.WellFormed) {time : ℚ} (h : t.BegunBy time) :
    Conserves time t (t.enterIdle time) := by
  cases hi : t.idle with
  | true =>
    refine conserves_of_idle hi rfl ?_ time
    unfold enterIdle
    rw [if_pos hi]
    rfl
  | false =>
    refine conserves_of_closeDwell hw hi h ?_ ?_
    · unfold enterIdle
      rw [if_neg (Bool.eq_false_iff.mp hi)]
      rfl
    · intro s hs
      rw [dwellSince_of_idle rfl] at hs
      cases hs

/-- **Resuming keeps the time**: the dwell it opens begins there. -/
theorem conserves_exitIdle (t : PStateTrack ℚ) (time : ℚ) : Conserves time t (t.exitIdle time) := by
  unfold exitIdle
  split
  · next hi =>
    have hbegin : ∀ s, ({ t with
        idle := false
        dwellStart := if t.current.isSome then time else t.dwellStart } : PStateTrack ℚ).dwellSince =
          some s → s = time := by
      intro s hs
      rw [dwellSince_of_running rfl] at hs
      cases hc : t.current with
      | none => simp [hc] at hs
      | some i => simpa [hc] using hs.symm
    refine ⟨?_, fun _ s hs => le_of_eq (hbegin s hs)⟩
    rw [accounted, accounted, openTime, openTime, dwellSince_of_idle hi]
    congr 1
    cases hs : PStateTrack.dwellSince _ with
    | none => rfl
    | some s =>
      rw [hbegin s hs]
      exact span_self time
  · exact Conserves.refl time t

end PStateTrack

/-! ### A node -/

/-- The time a node accounts for by an instant. -/
def Tracks.accounted (s : Tracks ℚ) (now : ℚ) : ℚ :=
  s.cstates.accounted now + s.pstates.accounted now

/-- Whatever is open on a node began by an instant. -/
structure Tracks.BegunBy (s : Tracks ℚ) (now : ℚ) : Prop where
  cstates : s.cstates.BegunBy now
  pstates : s.pstates.BegunBy now

/-- Whether a node is neither idle nor at a selected frequency. -/
def Tracks.isUnknown {τ : Type} (s : Tracks τ) : Bool :=
  !s.cstates.isIdle && s.pstates.current.isNone

/-- What holds of every node of a run: it agrees with its members, a group never goes idle on its
frequency track, and the frequency track is in order. -/
structure Entity.Settled {τ : Type} (x : Extremum) (m : Entity τ) : Prop where
  coherent : m.Coherent x
  running : m.isGroup = true → m.tracks.pstates.idle = false
  ordered : m.tracks.pstates.WellFormed

@[simp] theorem PStateTrack.idle_groupFreq {τ : Type} [TimeValue τ] (t : PStateTrack τ) (time : τ)
    (f : Nat) : (t.groupFreq time f).idle = t.idle := by
  unfold PStateTrack.groupFreq
  split
  · exact t.idle_closeDwell time
  · rw [idle_switchTo, idle_slotFor]

namespace Entity.Settled

variable {τ : Type} {x : Extremum} {m : Entity τ}

/-- **An open idle interval excludes an open dwell.** -/
theorem dwellSince_of_idle (h : m.Settled x) (hi : m.tracks.cstates.isIdle = true) :
    m.tracks.pstates.dwellSince = none := by
  obtain ⟨c, rfl⟩ | hg := m.cpu_or_isGroup
  · exact PStateTrack.dwellSince_of_idle (Eq.trans h.coherent hi)
  · have hfollow := (coherent_iff_of_isGroup hg).mp h.coherent
    have hdepth : (compositeDepth m.members).isSome = true := by
      rw [← hfollow.depth]
      exact hi
    have hnone := hfollow.unknown (compositeFreq_eq_zero_of_idle x hdepth)
    rw [PStateTrack.dwellSince, hnone]
    rfl

/-- A node that runs has a dwell open whenever a frequency is selected. -/
theorem idle_eq_false (h : m.Settled x) (hi : m.tracks.cstates.isIdle = false) :
    m.tracks.pstates.idle = false := by
  obtain ⟨c, rfl⟩ | hg := m.cpu_or_isGroup
  · exact Eq.trans h.coherent hi
  · exact h.running hg

variable [TimeValue τ]

theorem apply (h : m.Settled x) (id : CpuId) (time : τ) (a : Action) :
    (m.apply x id time a).Settled x := by
  refine ⟨h.coherent.apply id time a, ?_, ordered_apply h.ordered x id time a⟩
  obtain he | ⟨c, rfl, he⟩ | ⟨hg, -, -, htracks⟩ := m.apply_cases x id time a
  · rw [he]
    exact h.running
  · rw [he]
    intro hg
    cases hg
  · intro _
    rw [htracks]
    split
    · exact (m.tracks.pstates.idle_groupFreq time _).trans (h.running hg)
    · exact h.running hg

end Entity.Settled

theorem Topology.settled_of_build {τ : Type} [TimeValue τ] {d : Description} {t : Topology τ}
    (h : Topology.build d = .ok t) (x : Extremum) : ∀ m ∈ t.entities, m.Settled x := by
  intro m hm
  have hp := (t.fresh_of_build h m hm).pstates
  refine ⟨t.coherent_of_build h x m hm, ?_, t.ordered_of_build h m hm⟩
  intro _
  rw [hp]
  rfl

section Settled

variable {τ : Type} [TimeValue τ]

/-- A replay whose store is sound and whose machine is settled. -/
structure Replay.Settled (r : Replay τ) : Prop where
  sound : r.Sound
  nodes : ∀ m ∈ r.topology.entities, m.Settled r.options.compositeFrequency

namespace Replay

theorem exists_settled_start {d : Description} {t : Topology τ} (h : Topology.build d = .ok t)
    (o : ReplayOptions) : ∃ r : Replay τ, start d o = .ok r ∧ r.Settled := by
  obtain ⟨r, hr, hs, -, ht⟩ := start_of_build h o
  refine ⟨r, hr, hs, ?_⟩
  rw [ht]
  exact Topology.settled_of_build h _

/-- No event unsettles a replay. -/
theorem Settled.process {r : Replay τ} (h : r.Settled) (e : Event τ) :
    ∃ r', r.process e = .ok r' ∧ r'.Settled := by
  obtain ⟨r', hr', hs, ho, ht⟩ := h.sound.process e
  refine ⟨r', hr', hs, ?_⟩
  rw [ho, ht]
  exact Topology.forall_entities_run (fun _ id time a hm => hm.apply id time a) h.nodes [e]

end Replay

end Settled

/-! ### What an action moves, and what passes until the next -/

/-- A node before its first event accounts for nothing. -/
theorem Tracks.Fresh.accounted_eq_zero {s : Tracks ℚ} (h : s.Fresh) (now : ℚ) : s.accounted now = 0 := by
  obtain ⟨infos, hc⟩ := h.cstates
  have hslots : (CStateTrack.ofInfos infos : CStateTrack ℚ).closedTime = 0 := by
    refine List.sum_eq_zero ?_
    intro u hu
    obtain ⟨s, hs, rfl⟩ := List.mem_map.mp hu
    obtain ⟨d, rfl⟩ := Vector.mem_ofFn.mp (Vector.mem_toList_iff.mp hs)
    show (CState.ofInfo? (infos d) : CState ℚ).stats.total = 0
    cases infos d <;> exact zero_eq
  rw [Tracks.accounted, hc, h.pstates, CStateTrack.accounted, hslots]
  show 0 + 0 + (0 + 0) = (0 : ℚ)
  norm_num

theorem Tracks.Fresh.begunBy {s : Tracks ℚ} (h : s.Fresh) (now : ℚ) : s.BegunBy now := by
  obtain ⟨infos, hc⟩ := h.cstates
  refine ⟨?_, ?_⟩
  · intro u hu
    rw [hc] at hu
    cases hu
  · intro u hu
    rw [h.pstates] at hu
    cases hu

/-- An action on a CPU moves the time it accounts for, and keeps the sum. -/
theorem Cpu.conserves_apply {c : Cpu ℚ} (hw : c.pstates.WellFormed) {time : ℚ}
    (h : c.tracks.BegunBy time) (a : Action) :
    (c.apply time a).tracks.accounted time = c.tracks.accounted time ∧
      (c.apply time a).tracks.BegunBy time := by
  have hp : c.pstates.BegunBy time := h.pstates
  have hc : c.cstates.BegunBy time := h.cstates
  cases a with
  | setDepth d =>
    have hcons : PStateTrack.Conserves time c.pstates
        (if d.isSome then c.pstates.enterIdle time else c.pstates.exitIdle time) := by
      split
      · exact PStateTrack.conserves_enterIdle hw hp
      · exact PStateTrack.conserves_exitIdle c.pstates time
    refine ⟨?_, hc.record d, hcons.begun hp⟩
    exact congrArg₂ (· + ·) (CStateTrack.accounted_record hc d) hcons.accounted
  | changeFreq f =>
    have hcons := PStateTrack.conserves_changeFreq hw hp f
    exact ⟨congrArg₂ (· + ·) rfl hcons.accounted, hc, hcons.begun hp⟩
  | wake id name =>
    rcases c.tracks_apply_wake time id name with he | he
    · rw [he]
      exact ⟨rfl, h⟩
    · rw [he]
      exact ⟨rfl, hc, hp⟩

/-- **No action loses or invents time**, on any node. -/
theorem Entity.Settled.conserves_apply {x : Extremum} {m : Entity ℚ} (h : m.Settled x) {time : ℚ}
    (hb : m.tracks.BegunBy time) (id : CpuId) (a : Action) :
    (m.apply x id time a).tracks.accounted time = m.tracks.accounted time ∧
      (m.apply x id time a).tracks.BegunBy time := by
  obtain he | ⟨c, rfl, he⟩ | ⟨hg, -, -, htracks⟩ := m.apply_cases x id time a
  · rw [he]
    exact ⟨rfl, hb⟩
  · rw [he]
    exact Cpu.conserves_apply h.ordered hb a
  · rw [htracks]
    split
    · have hcons := PStateTrack.conserves_groupFreq h.ordered (h.running hg) hb.pstates
        (compositeFreq x (applyToCpu id time a m.members))
      refine ⟨?_, hb.cstates.record _, hcons.begun hb.pstates⟩
      exact congrArg₂ (· + ·) (CStateTrack.accounted_record hb.cstates _) hcons.accounted
    · exact ⟨rfl, hb⟩

/-- **What passes is accounted for once**, and only while a node is neither idle nor at a selected
frequency not at all. -/
theorem Entity.Settled.accounted_later {x : Extremum} {m : Entity ℚ} (h : m.Settled x)
    (now later : ℚ) :
    m.tracks.accounted later + (if m.tracks.isUnknown then span now later else 0) =
      m.tracks.accounted now + span now later := by
  unfold Tracks.accounted CStateTrack.accounted PStateTrack.accounted Tracks.isUnknown
  unfold CStateTrack.openTime PStateTrack.openTime
  cases hi : m.tracks.cstates.current with
  | some d =>
    have hidle : m.tracks.cstates.isIdle = true := by rw [CStateTrack.isIdle, hi]; rfl
    rw [CStateTrack.openSince_of_some hi, h.dwellSince_of_idle hidle, hidle]
    have hspan := span_add m.tracks.cstates.since now later
    show m.tracks.cstates.closedTime + span m.tracks.cstates.since later + (_ + 0) + 0 =
      m.tracks.cstates.closedTime + span m.tracks.cstates.since now + (_ + 0) + span now later
    linarith
  | none =>
    have hidle : m.tracks.cstates.isIdle = false := by rw [CStateTrack.isIdle, hi]; rfl
    rw [CStateTrack.openSince_of_none hi, hidle,
      PStateTrack.dwellSince_of_running (h.idle_eq_false hidle)]
    cases hc : m.tracks.pstates.current with
    | none => rfl
    | some i =>
      have hspan := span_add m.tracks.pstates.dwellStart now later
      show m.tracks.cstates.closedTime + 0 + (_ + span m.tracks.pstates.dwellStart later) + 0 =
        m.tracks.cstates.closedTime + 0 + (_ + span m.tracks.pstates.dwellStart now) + span now later
      linarith

/-! ### Every run -/

/-- The time that the `n`-th node spends neither idle nor at a selected frequency, from one event
that concerns it to the next, the first of them being awaited since a given instant. -/
def Replay.unknownTime (n : Nat) : List (Event ℚ) → Replay ℚ → ℚ → ℚ
  | [], _, _ => 0
  | e :: es, r, since =>
    match r.topology.entities[n]?, r.process e with
    | some m, .ok next =>
      if e.concerns r.topology.cpuIds m then
        (if m.tracks.isUnknown then span since e.time else 0) + unknownTime n es next e.time
      else unknownTime n es next since
    | _, _ => 0

/-- **The accounts of a run.**  What a node accounts for in the end, and what it spent unknown, is
what it accounted for at first and the time since. -/
theorem Replay.Sound.accounted_processAll {r r' : Replay ℚ} (hr : r.Sound) {es : List (Event ℚ)}
    (hrun : r.processAll es = .ok r') {n : Nat} {m m' : Entity ℚ}
    (hm : r.topology.entities[n]? = some m) (hm' : r'.topology.entities[n]? = some m')
    (hs : m.Settled r.options.compositeFrequency) {now : ℚ} (hb : m.tracks.BegunBy now)
    (hsorted : (now :: (m.events r.topology.cpuIds es).map (·.time)).Pairwise (· ≤ ·)) :
    m'.tracks.accounted (((m.events r.topology.cpuIds es).map (·.time)).getLastD now) +
        r.unknownTime n es now =
      m.tracks.accounted now +
        span now (((m.events r.topology.cpuIds es).map (·.time)).getLastD now) := by
  induction es generalizing r m now with
  | nil =>
    cases hrun
    obtain rfl : m = m' := Option.some.inj (hm.symm.trans hm')
    show m.tracks.accounted now + 0 = m.tracks.accounted now + span now now
    rw [span_self]
  | cons e es ih =>
    obtain ⟨r₁, h₁, hr₁, ho₁, ht₁⟩ := hr.process e
    rw [processAll_cons, h₁] at hrun
    have hids : r₁.topology.cpuIds = r.topology.cpuIds := by rw [ht₁, Topology.cpuIds_step]
    have hm₁ : r₁.topology.entities[n]? =
        some (m.step r.options.compositeFrequency r.topology.cpuIds e) := by
      rw [ht₁, Topology.entities_step, List.getElem?_map, hm, Option.map_some]
    have ih := ih hr₁ hrun hm₁
    rw [ho₁, hids, Entity.events_step] at ih
    rw [Replay.unknownTime, hm, h₁]
    dsimp only
    cases hcon : e.concerns r.topology.cpuIds m with
    | false =>
      rw [Entity.events_cons_of_not_concerns es hcon] at hsorted ⊢
      rw [Entity.step_of_not_concerns _ hcon] at ih
      exact ih hs hb hsorted
    | true =>
      rw [Entity.events_cons_of_concerns es hcon, List.map_cons] at hsorted ⊢
      obtain ⟨hfirst, hrest⟩ := List.pairwise_cons.mp hsorted
      have hle : now ≤ e.time := hfirst _ List.mem_cons_self
      have hb' : m.tracks.BegunBy e.time :=
        ⟨fun s h => le_trans (hb.cstates s h) hle, fun s h => le_trans (hb.pstates s h) hle⟩
      obtain ⟨a, hstep⟩ := Entity.exists_of_concerns r.options.compositeFrequency hcon
      obtain ⟨hacc, hbegun⟩ := hs.conserves_apply hb' e.cpu a
      rw [hstep] at ih
      have heq := ih (hs.apply e.cpu e.time a) hbegun hrest
      rw [List.getLastD_cons, if_pos rfl]
      rw [hacc] at heq
      generalize ((m.events _ es).map _).getLastD e.time = stop at heq ⊢
      have hlater := hs.accounted_later now e.time
      have hspan := span_add now e.time stop
      linarith

/-- Events that do not run backwards, from their first to their last. -/
theorem Event.times_of_sorted {es : List (Event ℚ)} {first last : Event ℚ}
    (hfirst : es.head? = some first) (hlast : es.getLast? = some last)
    (hsorted : es.Pairwise (·.time ≤ ·.time)) :
    (first.time :: es.map (·.time)).Pairwise (· ≤ ·) ∧
      (es.map (·.time)).getLastD first.time = last.time := by
  refine ⟨?_, ?_⟩
  · obtain ⟨rest, rfl⟩ := List.head?_eq_some_iff.mp hfirst
    have hmap := List.pairwise_map.mpr hsorted
    refine List.pairwise_cons.mpr ⟨?_, hmap⟩
    rw [List.map_cons] at hmap ⊢
    intro u hu
    rcases List.mem_cons.mp hu with rfl | hu
    · exact le_refl _
    · exact (List.pairwise_cons.mp hmap).1 u hu
  · rw [List.getLastD_eq_getLast?, List.getLast?_map, hlast]
    rfl

/-- **No time is lost and none is counted twice.**  Whatever the machine, the options and the events,
a replay gets to the end of its events, where no node has both an idle interval and a dwell open;
and if the events on a node's members, from `first` to `last`, do not run backwards, then its closed
intervals, its open interval, its closed dwells, its open dwell and the time it spent neither idle
nor at a selected frequency add up to the time from `first` to `last`. -/
theorem Replay.time_accounted {d : Description} {t : Topology ℚ} (h : Topology.build d = .ok t)
    (o : ReplayOptions) (es : List (Event ℚ)) :
    ∃ r₀ r : Replay ℚ, Replay.start d o = .ok r₀ ∧ r₀.processAll es = .ok r ∧
      ∀ (n : Nat) (m₀ : Entity ℚ), r₀.topology.entities[n]? = some m₀ →
        ∃ m, r.topology.entities[n]? = some m ∧
          ¬ (m.tracks.cstates.openSince.isSome ∧ m.tracks.pstates.dwellSince.isSome) ∧
          ∀ first last : Event ℚ,
            (m₀.events r₀.topology.cpuIds es).head? = some first →
            (m₀.events r₀.topology.cpuIds es).getLast? = some last →
            (m₀.events r₀.topology.cpuIds es).Pairwise (·.time ≤ ·.time) →
              m.tracks.cstates.closedTime + m.tracks.cstates.openTime last.time +
                m.tracks.pstates.closedTime + m.tracks.pstates.openTime last.time +
                r₀.unknownTime n es first.time = span first.time last.time := by
  obtain ⟨r₀, h₀, hs₀, -, ht₀⟩ := Replay.start_of_build h o
  obtain ⟨r, hr, -, -, htop⟩ := hs₀.processAll es
  have hsettled : ∀ m ∈ r₀.topology.entities, m.Settled r₀.options.compositeFrequency := by
    rw [ht₀]
    exact t.settled_of_build h _
  refine ⟨r₀, r, h₀, hr, ?_⟩
  intro n m₀ hm₀
  obtain ⟨m, hm⟩ : ∃ m, r.topology.entities[n]? = some m := by
    refine ⟨_, List.getElem?_eq_getElem ?_⟩
    rw [htop, Topology.length_entities_run]
    exact (List.getElem?_eq_some_iff.mp hm₀).1
  refine ⟨m, hm, ?_, ?_⟩
  · -- what is open does not depend on the order of the instants
    have hm' : m.Settled r₀.options.compositeFrequency := by
      refine Topology.forall_entities_run (fun _ id time a h => h.apply id time a) hsettled es m ?_
      rw [← htop]
      exact List.mem_of_getElem? hm
    rintro ⟨hidle, hdwell⟩
    rw [CStateTrack.openSince, Option.isSome_map] at hidle
    rw [hm'.dwellSince_of_idle hidle] at hdwell
    cases hdwell
  · intro first last hfirst hlast hsorted
    have hfresh : m₀.tracks.Fresh := by
      refine t.fresh_of_build h m₀ ?_
      rw [← ht₀]
      exact List.mem_of_getElem? hm₀
    obtain ⟨hpair, hlastD⟩ := Event.times_of_sorted hfirst hlast hsorted
    have heq := hs₀.accounted_processAll hr hm₀ hm (hsettled m₀ (List.mem_of_getElem? hm₀))
      (hfresh.begunBy first.time) hpair
    rw [hlastD, hfresh.accounted_eq_zero, zero_add] at heq
    rw [← heq, Tracks.accounted, CStateTrack.accounted, PStateTrack.accounted]
    ring

/-- The second CPU of a core learns its frequency, both go idle one after the other, and the second
resumes first. -/
def Event.idleInTurn : List (Event ℚ) :=
  [⟨1, 1, .freqChange 800⟩, ⟨2, 0, .idleEnter 1⟩, ⟨3, 1, .idleEnter 2⟩, ⟨5, 1, .idleExit⟩,
    ⟨6, 0, .wakeup (some 4) "timer"⟩]

/-- The core dwells from 1 to 3 and from 5, and is idle in between. -/
theorem Replay.time_accounted_idleInTurn :
    ∃ r₀ r : Replay ℚ, ∃ m₀ m : Entity ℚ,
      Replay.start .sharedCore {} = .ok r₀ ∧ r₀.processAll Event.idleInTurn = .ok r ∧
      r₀.topology.entities[1]? = some m₀ ∧ r.topology.entities[1]? = some m ∧
      ¬ (m.tracks.cstates.openSince.isSome ∧ m.tracks.pstates.dwellSince.isSome) ∧
      m.tracks.cstates.closedTime + m.tracks.cstates.openTime 6 + m.tracks.pstates.closedTime +
        m.tracks.pstates.openTime 6 + r₀.unknownTime 1 Event.idleInTurn 1 = span 1 6 := by
  obtain ⟨r₀, r, h₀, hr, hall⟩ := Replay.time_accounted (d := .sharedCore) rfl {} Event.idleInTurn
  cases h₀
  cases hr
  obtain ⟨m, hm, hopen, hsum⟩ := hall 1 _ rfl
  exact ⟨_, _, _, m, rfl, rfl, rfl, hm, hopen,
    hsum ⟨1, 1, .freqChange 800⟩ ⟨6, 0, .wakeup (some 4) "timer"⟩ rfl rfl (by decide +kernel)⟩

end PowerTrace
