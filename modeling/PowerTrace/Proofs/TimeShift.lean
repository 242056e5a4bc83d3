import PowerTrace.Analysis
import PowerTrace.Proofs.Accounting
import PowerTrace.Proofs.ShiftedIntervals
import PowerTrace.Proofs.Transition

/-!
# Moving a whole trace in time

A trace and the same trace that much later are replayed side by side.  The two machines agree on
everything but the instants they store, and those differ by the amount of the shift.  A track that
was never idle, or never dwelled, stores an instant that means nothing and does not move; nothing
reads it, because the instant of an open interval or dwell was written when that was opened.

* `CStateTrack.ShiftedBy`, `PStateTrack.ShiftedBy`: two tracks that agree up to a shift;
* `CStateTrack.ShiftedBy.record`, `PStateTrack.ShiftedBy.changeFreq` and their companions: every
  transition keeps them so;
* `Topology.ShiftedBy.apply`: so does every action on the machine;
* `Replay.ShiftedBy.process`: so does every event, with the summary and the intervals kept;
* `Replay.shifted_run`: hence two whole replays agree up to the shift.
-/

namespace PowerTrace

open TimeValue

variable {c : ℚ}

/-- An event that much later. -/
def Event.shift (c : ℚ) (e : Event ℚ) : Event ℚ := { e with time := e.time + c }

/-! ### The idle track -/

namespace CStateTrack

/-- Two tracks that agree on everything but the instant they store; that of the open interval differs
by the shift. -/
structure ShiftedBy (c : ℚ) (t t' : CStateTrack ℚ) : Prop where
  rest : t' = { t with since := t'.since }
  openSince : t'.openSince = t.openSince.map (· + c)

variable {t t' : CStateTrack ℚ}

theorem shiftedBy_of_since {s : ℚ} (h : ∀ d, t.current = some d → s = t.since + c) :
    t.ShiftedBy c { t with since := s } := by
  refine ⟨rfl, ?_⟩
  show t.current.map (fun _ => s) = (t.current.map fun _ => t.since).map (· + c)
  cases hc : t.current with
  | none => rfl
  | some d => exact congrArg some (h d hc)

theorem shiftedBy_of_none (h : t.current = none) (s : ℚ) : t.ShiftedBy c { t with since := s } :=
  shiftedBy_of_since fun d hd => absurd (h.symm.trans hd) (Option.some_ne_none d).symm

namespace ShiftedBy

theorem exists_since (h : t.ShiftedBy c t') :
    ∃ s, t' = { t with since := s } ∧ ∀ d, t.current = some d → s = t.since + c := by
  obtain ⟨hrest, hopen⟩ := h
  refine ⟨t'.since, hrest, ?_⟩
  intro d hd
  have hd' : t'.current = some d := by rw [hrest, hd]
  rw [openSince_of_some hd, openSince_of_some hd'] at hopen
  exact Option.some.inj hopen

theorem current_eq (h : t.ShiftedBy c t') : t'.current = t.current := by rw [h.rest]

/-- The duration of an interval does not move, so it counts and compares as before. -/
theorem close (h : t.ShiftedBy c t') {d : Depth} (hd : t.current = some d) (time : ℚ) :
    (t.close d time).1.ShiftedBy c (t'.close d (time + c)).1 ∧
      (t'.close d (time + c)).2 = (t.close d time).2.shift c := by
  obtain ⟨s, rfl, hs⟩ := h.exists_since
  obtain rfl := hs d hd
  unfold CStateTrack.close
  dsimp only
  rw [span_shift]
  split
  · exact ⟨shiftedBy_of_none rfl _, rfl⟩
  · exact ⟨shiftedBy_of_none rfl _, rfl⟩

theorem closeOpen (h : t.ShiftedBy c t') (time : ℚ) :
    (t.closeOpen time).1.ShiftedBy c (t'.closeOpen (time + c)).1 ∧
      (t'.closeOpen (time + c)).2 = (t.closeOpen time).2.map (·.shift c) := by
  unfold CStateTrack.closeOpen
  rw [h.current_eq]
  cases hc : t.current with
  | none => exact ⟨h, rfl⟩
  | some d =>
    obtain ⟨htrack, hclosed⟩ := h.close hc time
    exact ⟨htrack, congrArg some hclosed⟩

theorem enter (h : t.ShiftedBy c t') (d : Depth) (time : ℚ) :
    (t.enter d time).ShiftedBy c (t'.enter d (time + c)) := by
  obtain ⟨s, rfl, -⟩ := h.exists_since
  exact shiftedBy_of_since (t := t.enter d time) fun _ _ => rfl

/-- **A transition that much later** closes the same interval that much later. -/
theorem record (h : t.ShiftedBy c t') (time : ℚ) (new : Option Depth) :
    (t.record time new).1.ShiftedBy c (t'.record (time + c) new).1 ∧
      (t'.record (time + c) new).2 = (t.record time new).2.map (·.shift c) := by
  unfold CStateTrack.record
  rw [h.current_eq]
  split
  · exact ⟨h, rfl⟩
  · obtain ⟨htrack, hclosed⟩ := h.closeOpen time
    refine ⟨?_, hclosed⟩
    cases new with
    | none => exact htrack
    | some d => exact htrack.enter d time

theorem abandon (h : t.ShiftedBy c t') : t.abandon.1.ShiftedBy c t'.abandon.1 := by
  cases hc : t.current with
  | none =>
    rw [CStateTrack.abandon, closeOpen_of_none hc, CStateTrack.abandon,
      closeOpen_of_none (h.current_eq.trans hc)]
    exact h
  | some d =>
    have hsince : t'.since = t.since + c := by
      obtain ⟨s, rfl, hs⟩ := h.exists_since
      exact hs d hc
    have hclosed := (h.closeOpen t.since).1
    rw [← hsince] at hclosed
    exact hclosed

theorem claim (h : t.ShiftedBy c t') : t.claim.ShiftedBy c t'.claim := by
  obtain ⟨s, rfl, hs⟩ := h.exists_since
  exact shiftedBy_of_since (t := t.claim) hs

end ShiftedBy

end CStateTrack

/-! ### The frequency track -/

namespace PStateTrack

/-- Two tracks that agree on everything but the instant they store; that of the open dwell differs by
the shift. -/
structure ShiftedBy (c : ℚ) (t t' : PStateTrack ℚ) : Prop where
  rest : t' = { t with dwellStart := t'.dwellStart }
  dwellSince : t'.dwellSince = t.dwellSince.map (· + c)

variable {t t' : PStateTrack ℚ}

theorem shiftedBy_of_dwellStart {s : ℚ}
    (h : t.idle = false → ∀ i, t.current = some i → s = t.dwellStart + c) :
    t.ShiftedBy c { t with dwellStart := s } := by
  refine ⟨rfl, ?_⟩
  rcases Bool.eq_false_or_eq_true t.idle with hi | hi
  · rw [dwellSince_of_idle hi, dwellSince_of_idle (t := { t with dwellStart := s }) hi]
    rfl
  · rw [dwellSince_of_running hi, dwellSince_of_running (t := { t with dwellStart := s }) hi]
    show t.current.map (fun _ => s) = _
    cases hc : t.current with
    | none => rfl
    | some i => exact congrArg some (h hi i hc)

namespace ShiftedBy

theorem exists_dwellStart (h : t.ShiftedBy c t') :
    ∃ s, t' = { t with dwellStart := s } ∧
      (t.idle = false → ∀ i, t.current = some i → s = t.dwellStart + c) := by
  obtain ⟨hrest, hopen⟩ := h
  refine ⟨t'.dwellStart, hrest, ?_⟩
  intro hi i hc
  have hi' : t'.idle = false := by rw [hrest, hi]
  have hc' : t'.current = some i := by rw [hrest, hc]
  rw [dwellSince_of_running hi, dwellSince_of_running hi', hc, hc'] at hopen
  exact Option.some.inj hopen

theorem idle_eq (h : t.ShiftedBy c t') : t'.idle = t.idle := by rw [h.rest]

theorem currentFreq_eq (h : t.ShiftedBy c t') : t'.currentFreq = t.currentFreq := by
  rw [h.rest]
  rfl

/-- Opening a slot reads no instant. -/
theorem slotFor (h : t.ShiftedBy c t') (f : ℕ) :
    (t.slotFor f).1.ShiftedBy c (t'.slotFor f).1 ∧ (t'.slotFor f).2 = (t.slotFor f).2 := by
  obtain ⟨s, rfl, hs⟩ := h.exists_dwellStart
  have hslot : ({ t with dwellStart := s } : PStateTrack ℚ).slotFor f =
      ({ (t.slotFor f).1 with dwellStart := s }, (t.slotFor f).2) := by
    unfold PStateTrack.slotFor
    rw [show ({ t with dwellStart := s } : PStateTrack ℚ).find? f = t.find? f from rfl]
    cases t.find? f <;> rfl
  rw [hslot]
  refine ⟨shiftedBy_of_dwellStart ?_, rfl⟩
  rw [idle_slotFor, dwellStart_slotFor]
  intro hi i hc
  have hsome : t.current.isSome = true := by rw [← isSome_current_slotFor t f, hc]; rfl
  obtain ⟨j, hj⟩ := Option.isSome_iff_exists.mp hsome
  exact hs hi j hj

/-- The dwell that is closed lasted as long as before. -/
theorem closeDwell (h : t.ShiftedBy c t') (hi : t.idle = false) (time : ℚ) :
    ∃ s, t'.closeDwell (time + c) = { t.closeDwell time with dwellStart := s } := by
  obtain ⟨s, rfl, hs⟩ := h.exists_dwellStart
  refine ⟨s, ?_⟩
  rcases Option.eq_none_or_eq_some t.current with hc | ⟨i, hc⟩
  · rw [closeDwell_of_none hc, closeDwell_of_none (t := { t with dwellStart := s }) hc]
  · rw [closeDwell_of_some hc, closeDwell_of_some (t := { t with dwellStart := s }) hc, hs hi i hc]
    dsimp only
    rw [span_shift]
    split <;> rfl

theorem switchTo (h : t.ShiftedBy c t') (hi : t.idle = false) (time : ℚ) (next : ℕ) :
    (t.switchTo time next).ShiftedBy c (t'.switchTo (time + c) next) := by
  obtain ⟨s, hs⟩ := h.closeDwell hi time
  unfold PStateTrack.switchTo
  rw [show t'.current = t.current by rw [h.rest]]
  split
  · exact h
  · rw [hs]
    exact shiftedBy_of_dwellStart
      (t := { t.closeDwell time with current := some next, dwellStart := time }) fun _ _ _ => rfl

theorem changeFreq (h : t.ShiftedBy c t') (time : ℚ) (f : ℕ) :
    (t.changeFreq time f).ShiftedBy c (t'.changeFreq (time + c) f) := by
  obtain ⟨hslot, hnext⟩ := h.slotFor f
  unfold PStateTrack.changeFreq
  dsimp only
  rw [hnext, hslot.idle_eq]
  split
  · next hi =>
    -- while the CPU is idle no dwell is open, whatever is selected
    obtain ⟨s, hs, -⟩ := hslot.exists_dwellStart
    rw [hs]
    refine shiftedBy_of_dwellStart
      (t := { (t.slotFor f).1 with current := some (t.slotFor f).2 }) fun hrun => ?_
    rw [show (t.slotFor f).1.idle = false from hrun] at hi
    cases hi
  · next hi => exact hslot.switchTo (Bool.eq_false_iff.mpr hi) time _

theorem groupFreq (h : t.ShiftedBy c t') (hi : t.idle = false) (time : ℚ) (f : ℕ) :
    (t.groupFreq time f).ShiftedBy c (t'.groupFreq (time + c) f) := by
  unfold PStateTrack.groupFreq
  split
  · obtain ⟨s, hs⟩ := h.closeDwell hi time
    rw [hs]
    exact shiftedBy_of_dwellStart (t := { t.closeDwell time with current := none })
      fun _ _ hc => nomatch hc
  · obtain ⟨hslot, hnext⟩ := h.slotFor f
    rw [hnext]
    exact hslot.switchTo ((t.idle_slotFor f).trans hi) time _

theorem enterIdle (h : t.ShiftedBy c t') (time : ℚ) :
    (t.enterIdle time).ShiftedBy c (t'.enterIdle (time + c)) := by
  obtain ⟨s, hs⟩ : ∃ s, (if t.idle then t' else t'.closeDwell (time + c)) =
      { (if t.idle then t else t.closeDwell time) with dwellStart := s } := by
    split
    · exact ⟨t'.dwellStart, h.rest⟩
    · next hi => exact h.closeDwell (Bool.eq_false_iff.mpr hi) time
  unfold PStateTrack.enterIdle
  rw [h.idle_eq, hs]
  exact shiftedBy_of_dwellStart
    (t := { (if t.idle then t else t.closeDwell time) with idle := true }) fun hrun => nomatch hrun

theorem exitIdle (h : t.ShiftedBy c t') (time : ℚ) :
    (t.exitIdle time).ShiftedBy c (t'.exitIdle (time + c)) := by
  obtain ⟨s, rfl, hs⟩ := h.exists_dwellStart
  unfold PStateTrack.exitIdle
  dsimp only
  split
  · refine shiftedBy_of_dwellStart (t := { t with
      idle := false
      dwellStart := if t.current.isSome then time else t.dwellStart }) fun _ i hc => ?_
    dsimp only at hc ⊢
    rw [hc]
    rfl
  · exact h

end ShiftedBy

end PStateTrack

/-! ### The machine -/

/-- The two tracks of a node that agree up to a shift. -/
structure Tracks.ShiftedBy (c : ℚ) (s s' : Tracks ℚ) : Prop where
  cstates : s.cstates.ShiftedBy c s'.cstates
  pstates : s.pstates.ShiftedBy c s'.pstates

/-- Two CPUs with the same wake-up sources that agree up to a shift. -/
structure Cpu.ShiftedBy (c : ℚ) (u u' : Cpu ℚ) : Prop where
  id : u'.id = u.id
  wakeups : u'.wakeups = u.wakeups
  tracks : u.tracks.ShiftedBy c u'.tracks

structure Core.ShiftedBy (c : ℚ) (k k' : Core ℚ) : Prop where
  id : k'.id = k.id
  multiCpu : k'.multiCpu = k.multiCpu
  cpus : List.Forall₂ (Cpu.ShiftedBy c) k.cpus k'.cpus
  tracks : k.tracks.ShiftedBy c k'.tracks

structure Cluster.ShiftedBy (c : ℚ) (u u' : Cluster ℚ) : Prop where
  id : u'.id = u.id
  cores : List.Forall₂ (Core.ShiftedBy c) u.cores u'.cores
  tracks : u.tracks.ShiftedBy c u'.tracks

/-- Two machines of the same shape that agree up to a shift. -/
def Topology.ShiftedBy (c : ℚ) (t t' : Topology ℚ) : Prop :=
  List.Forall₂ (Cluster.ShiftedBy c) t.clusters t'.clusters

/-- **An action that much later** on a CPU. -/
theorem Cpu.ShiftedBy.apply {u u' : Cpu ℚ} (h : u.ShiftedBy c u') (time : ℚ) (a : Action) :
    (u.apply time a).ShiftedBy c (u'.apply (time + c) a) ∧
      u'.closedBy (time + c) a = (u.closedBy time a).map (·.shift c) := by
  have hc : u.cstates.ShiftedBy c u'.cstates := h.tracks.cstates
  have hp : u.pstates.ShiftedBy c u'.pstates := h.tracks.pstates
  cases a with
  | setDepth d =>
    obtain ⟨htrack, hclosed⟩ := hc.record time d
    refine ⟨⟨h.id, h.wakeups, htrack, ?_⟩, hclosed⟩
    show PStateTrack.ShiftedBy c (if d.isSome then _ else _) (if d.isSome then _ else _)
    split
    · exact hp.enterIdle time
    · exact hp.exitIdle time
  | changeFreq f => exact ⟨⟨h.id, h.wakeups, hc, hp.changeFreq time f⟩, rfl⟩
  | wake id name =>
    have hclaimed : u'.cstates.claimed = u.cstates.claimed := by rw [hc.rest]
    have hclass : u'.cstates.lastClass = u.cstates.lastClass := by rw [hc.rest]
    have hcharge : (u'.wakeups.charge u'.cstates id name).1 =
          (u.wakeups.charge u.cstates id name).1 ∧
        (u.wakeups.charge u.cstates id name).2.ShiftedBy c
          (u'.wakeups.charge u'.cstates id name).2 := by
      unfold WakeupTable.charge
      rw [h.wakeups, hclaimed, hclass]
      split
      · exact ⟨rfl, hc⟩
      · exact ⟨rfl, hc.claim⟩
    exact ⟨⟨h.id, hcharge.1, hcharge.2, hp⟩, rfl⟩

section Members

variable {l l' : List (Cpu ℚ)}

theorem forall₂_applyToCpu (h : List.Forall₂ (Cpu.ShiftedBy c) l l') (id : CpuId) (time : ℚ)
    (a : Action) :
    List.Forall₂ (Cpu.ShiftedBy c) (applyToCpu id time a l) (applyToCpu id (time + c) a l') := by
  unfold applyToCpu
  rw [List.forall₂_map_left_iff, List.forall₂_map_right_iff]
  refine h.imp fun u u' hu => ?_
  rw [hu.id]
  split
  · exact (hu.apply time a).1
  · exact hu

theorem map_id_of_forall₂ (h : List.Forall₂ (Cpu.ShiftedBy c) l l') :
    l'.map (·.id) = l.map (·.id) := by
  induction h with
  | nil => rfl
  | cons hu _ ih => exact congrArg₂ List.cons hu.id ih

/-- The composite state of a group reads no instant. -/
theorem compositeDepth_of_forall₂ (h : List.Forall₂ (Cpu.ShiftedBy c) l l') :
    compositeDepth l' = compositeDepth l := by
  have hdepths : l'.map (·.cstates.current) = l.map (·.cstates.current) := by
    induction h with
    | nil => rfl
    | cons hu _ ih => exact congrArg₂ List.cons hu.tracks.cstates.current_eq ih
  rw [compositeDepth, hdepths, compositeDepth]

theorem compositeFreq_of_forall₂ (x : Extremum) (h : List.Forall₂ (Cpu.ShiftedBy c) l l') :
    compositeFreq x l' = compositeFreq x l := by
  have hfreqs : runningFreqs l' = runningFreqs l := by
    induction h with
    | nil => rfl
    | @cons u u' l l' hu _ ih =>
      have hidle : u'.isIdle = u.isIdle := congrArg Option.isSome hu.tracks.cstates.current_eq
      have hfreq : u'.pstates.currentFreq = u.pstates.currentFreq := hu.tracks.pstates.currentFreq_eq
      unfold runningFreqs at ih ⊢
      rw [List.filter_cons, List.filter_cons, hidle]
      split
      · rw [List.filterMap_cons, List.filterMap_cons, hfreq, ih]
      · exact ih
  rw [compositeFreq, hfreqs, compositeFreq]

theorem any_owns_of_forall₂ (h : List.Forall₂ (Cpu.ShiftedBy c) l l') (id : CpuId) :
    l'.any (·.id == id) = l.any (·.id == id) := by
  have hany : ∀ l : List (Cpu ℚ), (l.map (·.id)).any (· == id) = l.any (·.id == id) := by
    intro l
    rw [List.any_map]
    rfl
  rw [← hany, ← hany, map_id_of_forall₂ h]

/-- The interval that an action closes on one of several CPUs. -/
theorem closedBy_of_forall₂ (h : List.Forall₂ (Cpu.ShiftedBy c) l l') (id : CpuId) (time : ℚ)
    (a : Action) :
    (l'.find? (·.id == id)).bind (·.closedBy (time + c) a) =
      ((l.find? (·.id == id)).bind (·.closedBy time a)).map (·.shift c) := by
  induction h with
  | nil => rfl
  | @cons u u' l l' hu _ ih =>
    rw [List.find?_cons, List.find?_cons, hu.id]
    cases u.id == id with
    | true => exact (hu.apply time a).2
    | false => exact ih

end Members

/-- The same composite state that much later. -/
theorem Tracks.ShiftedBy.feed {s s' : Tracks ℚ} (h : s.ShiftedBy c s') (hi : s.pstates.idle = false)
    {l l' : List (Cpu ℚ)} (hl : List.Forall₂ (Cpu.ShiftedBy c) l l') (x : Extremum) (time : ℚ) :
    (s.feed x time l).ShiftedBy c (s'.feed x (time + c) l') := by
  rw [Tracks.feed, Tracks.feed, compositeDepth_of_forall₂ hl, compositeFreq_of_forall₂ x hl]
  exact ⟨(h.cstates.record time _).1, h.pstates.groupFreq hi time _⟩

theorem Core.ShiftedBy.apply {k k' : Core ℚ} (h : k.ShiftedBy c k') (hi : k.pstates.idle = false)
    (x : Extremum) (id : CpuId) (time : ℚ) (a : Action) :
    (k.apply x id time a).ShiftedBy c (k'.apply x id (time + c) a) := by
  have hcpus := forall₂_applyToCpu h.cpus id time a
  have howns : k'.owns id = k.owns id := any_owns_of_forall₂ h.cpus id
  unfold Core.apply
  rw [howns]
  dsimp only
  split
  · split
    · exact ⟨h.id, h.multiCpu, hcpus, h.tracks.feed hi hcpus x time⟩
    · exact ⟨h.id, h.multiCpu, hcpus, h.tracks⟩
  · exact h

theorem Cluster.ShiftedBy.cpus {u u' : Cluster ℚ} (h : u.ShiftedBy c u') :
    List.Forall₂ (Cpu.ShiftedBy c) u.cpus u'.cpus :=
  List.rel_flatMap h.cores fun _ _ hk => hk.cpus

theorem Cluster.ShiftedBy.apply {u u' : Cluster ℚ} (h : u.ShiftedBy c u')
    (hi : u.pstates.idle = false) (hk : ∀ k ∈ u.cores, k.pstates.idle = false) (x : Extremum)
    (id : CpuId) (time : ℚ) (a : Action) :
    (u.apply x id time a).ShiftedBy c (u'.apply x id (time + c) a) := by
  have hcores : List.Forall₂ (Core.ShiftedBy c) (u.cores.map (·.apply x id time a))
      (u'.cores.map (·.apply x id (time + c) a)) := by
    rw [List.forall₂_map_left_iff, List.forall₂_map_right_iff]
    refine ((List.forall₂_and_left _ _).mpr ⟨hk, h.cores⟩).imp fun k k' hkk => ?_
    exact hkk.2.apply hkk.1 x id time a
  have hmember : (u.applyToMember x id time a).ShiftedBy c (u'.applyToMember x id (time + c) a) :=
    ⟨h.id, hcores, h.tracks⟩
  have howns : u'.owns id = u.owns id := by
    rw [Cluster.owns_eq, Cluster.owns_eq]
    exact any_owns_of_forall₂ h.cpus id
  unfold Cluster.apply
  rw [howns]
  dsimp only
  split
  · split
    · exact ⟨h.id, hcores, hmember.tracks.feed hi hmember.cpus x time⟩
    · exact hmember
  · exact h

namespace Topology.ShiftedBy

variable {t t' : Topology ℚ}

theorem cpus (h : t.ShiftedBy c t') : List.Forall₂ (Cpu.ShiftedBy c) t.cpus t'.cpus :=
  List.rel_flatMap h fun _ _ hu => hu.cpus

theorem cpuIds_eq (h : t.ShiftedBy c t') : t'.cpuIds = t.cpuIds := map_id_of_forall₂ h.cpus

/-- **An action that much later** on the whole machine. -/
theorem apply (h : t.ShiftedBy c t') {x : Extremum} (hs : ∀ m ∈ t.entities, m.Settled x)
    (id : CpuId) (time : ℚ) (a : Action) :
    (t.apply x id time a).ShiftedBy c (t'.apply x id (time + c) a) := by
  show List.Forall₂ _ (t.clusters.map _) (t'.clusters.map _)
  rw [List.forall₂_map_left_iff, List.forall₂_map_right_iff]
  have hrun : ∀ u ∈ t.clusters,
      u.pstates.idle = false ∧ ∀ k ∈ u.cores, k.pstates.idle = false := by
    intro u hu
    refine ⟨(hs _ (mem_entities_cluster hu)).running rfl, ?_⟩
    intro k hk
    exact (hs _ (mem_entities_core hu hk)).running rfl
  refine ((List.forall₂_and_left _ _).mpr ⟨hrun, h⟩).imp fun u u' hu => ?_
  exact hu.2.apply hu.1.1 hu.1.2 x id time a

theorem abandon (h : t.ShiftedBy c t') : t.abandon.ShiftedBy c t'.abandon := by
  have hcpu : ∀ {u u' : Cpu ℚ}, u.ShiftedBy c u' → u.abandon.ShiftedBy c u'.abandon :=
    fun hu => ⟨hu.id, hu.wakeups, hu.tracks.cstates.abandon, hu.tracks.pstates⟩
  have hcore : ∀ {k k' : Core ℚ}, k.ShiftedBy c k' → k.abandon.ShiftedBy c k'.abandon := by
    intro k k' hk
    refine ⟨hk.id, hk.multiCpu, ?_, hk.tracks.cstates.abandon, hk.tracks.pstates⟩
    exact List.rel_map (fun _ _ hu => hcpu hu) hk.cpus
  have hcluster : ∀ {u u' : Cluster ℚ}, u.ShiftedBy c u' → u.abandon.ShiftedBy c u'.abandon := by
    intro u u' hu
    refine ⟨hu.id, ?_, hu.tracks.cstates.abandon, hu.tracks.pstates⟩
    exact List.rel_map (fun _ _ hk => hcore hk) hu.cores
  exact List.rel_map (fun _ _ hu => hcluster hu) h

end Topology.ShiftedBy

/-- Before its first event a machine stores no instant that means anything. -/
theorem Topology.shiftedBy_of_build {d : Description} {t : Topology ℚ}
    (h : Topology.build d = .ok t) (c : ℚ) : t.ShiftedBy c t := by
  have htracks : ∀ m ∈ t.entities, m.tracks.ShiftedBy c m.tracks := by
    intro m hm
    obtain ⟨⟨infos, hc⟩, hp⟩ := t.fresh_of_build h m hm
    refine ⟨?_, ?_⟩
    · rw [hc]
      exact CStateTrack.shiftedBy_of_none rfl _
    · rw [hp]
      exact PStateTrack.shiftedBy_of_dwellStart (t := .empty) fun _ _ hc => nomatch hc
  refine List.forall₂_same.mpr fun u hu => ⟨rfl, ?_, htracks _ (mem_entities_cluster hu)⟩
  refine List.forall₂_same.mpr fun k hk => ⟨rfl, rfl, ?_, htracks _ (mem_entities_core hu hk)⟩
  refine List.forall₂_same.mpr fun v hv => ⟨rfl, rfl, htracks _ (mem_entities_cpu ?_)⟩
  exact List.mem_flatMap.mpr ⟨u, hu, List.mem_flatMap.mpr ⟨k, hk, hv⟩⟩

/-! ### Two replays -/

/-- The same summary that much later. -/
def Summary.shift (c : ℚ) (s : Summary ℚ) : Summary ℚ :=
  { s with start := s.start.map (· + c), stop := s.stop.map (· + c) }

theorem Summary.count_shift (s : Summary ℚ) (e : Event ℚ) :
    (s.shift c).count (e.shift c) = (s.count e).shift c := by
  unfold Summary.count Summary.shift Event.shift
  cases e.kind.isIdle with
  | false => rfl
  | true => cases s.start <;> rfl

/-- Two replays of the same machine that agree up to a shift. -/
structure Replay.ShiftedBy (c : ℚ) (r r' : Replay ℚ) : Prop where
  options : r'.options = r.options
  topology : r.topology.ShiftedBy c r'.topology
  summary : r'.summary = r.summary.shift c
  retained : r'.retained = r.retained.map (·.shift c)

/-- Two analyses that agree up to a shift. -/
structure Analysis.ShiftedBy (c : ℚ) (a a' : Analysis ℚ) : Prop where
  topology : a.topology.ShiftedBy c a'.topology
  summary : a'.summary = a.summary.shift c
  retained : a'.retained = a.retained.map (·.shift c)

/-- **An overlap query gives the same answer.** -/
theorem Analysis.ShiftedBy.overlap {a a' : Analysis ℚ} (h : a.ShiftedBy c a') (cpus : List CpuId)
    (depth : ℕ) : (a'.overlap cpus depth).map (·.1) = (a.overlap cpus depth).map (·.1) := by
  unfold Analysis.overlap
  rw [h.retained]
  cases a.retained with
  | none => rfl
  | some kept =>
    show ((kept.shift c).overlap cpus depth >>= _).map _ = (kept.overlap cpus depth >>= _).map _
    rw [RetainedIntervals.overlap_shift]
    cases kept.overlap cpus depth <;> rfl

namespace Replay

variable {r r' : Replay ℚ}

theorem ShiftedBy.finish (h : r.ShiftedBy c r') : r.finish.ShiftedBy c r'.finish :=
  ⟨h.topology.abandon, h.summary, h.retained⟩

theorem ShiftedBy.retain (h : r.ShiftedBy c r') (cpu : CpuId) (time : ℚ) (a : Action) :
    r'.retain cpu (time + c) a = (r.retain cpu time a).map (Option.map (·.shift c)) := by
  have hclosed : (r'.topology.cpu? cpu).bind (·.closedBy (time + c) a) =
      ((r.topology.cpu? cpu).bind (·.closedBy time a)).map (·.shift c) :=
    closedBy_of_forall₂ h.topology.cpus cpu time a
  unfold Replay.retain
  rw [hclosed, h.retained]
  cases r.retained with
  | none => cases (r.topology.cpu? cpu).bind (·.closedBy time a) <;> rfl
  | some kept =>
    cases (r.topology.cpu? cpu).bind (·.closedBy time a) with
    | none => rfl
    | some i =>
      show (if i.isDiscarded then Except.ok (some (kept.shift c))
        else ((kept.shift c).record cpu (i.shift c)).map some) =
          (if i.isDiscarded then Except.ok (some kept) else (kept.record cpu i).map some).map _
      rw [RetainedIntervals.record_shift]
      split
      · rfl
      · cases kept.record cpu i <;> rfl

/-- **An event that much later** is accepted or dropped as before. -/
theorem ShiftedBy.process (h : r.ShiftedBy c r') (hs : r.Settled) (e : Event ℚ) :
    ∃ q q' : Replay ℚ, r.process e = .ok q ∧ r'.process (e.shift c) = .ok q' ∧
      q.ShiftedBy c q' := by
  have haction : (e.shift c).action? r'.topology.cpuIds = e.action? r.topology.cpuIds := by
    rw [h.topology.cpuIds_eq]
    rfl
  cases ha : e.action? r.topology.cpuIds with
  | none =>
    rw [ha] at haction
    refine ⟨_, _, process_of_dropped ha, process_of_dropped haction, ?_⟩
    exact ⟨h.options, h.topology, by rw [h.summary]; rfl, h.retained⟩
  | some a =>
    rw [ha] at haction
    obtain ⟨kept, hk, -⟩ := hs.sound.retain e.cpu e.time a
    have hk' : r'.retain (e.shift c).cpu (e.shift c).time a = .ok (kept.map (·.shift c)) := by
      show r'.retain e.cpu (e.time + c) a = _
      rw [h.retain, hk]
      rfl
    refine ⟨_, _, process_of_accepted ha hk, process_of_accepted haction hk', h.options, ?_, ?_, rfl⟩
    · show Topology.ShiftedBy c _ (r'.topology.apply r'.options.compositeFrequency _ _ a)
      rw [h.options]
      exact h.topology.apply hs.nodes e.cpu e.time a
    · show r'.summary.count (e.shift c) = (r.summary.count e).shift c
      rw [h.summary, Summary.count_shift]

theorem ShiftedBy.processAll (h : r.ShiftedBy c r') (hs : r.Settled) (es : List (Event ℚ)) :
    ∃ q q' : Replay ℚ, r.processAll es = .ok q ∧ r'.processAll (es.map (·.shift c)) = .ok q' ∧
      q.ShiftedBy c q' := by
  induction es generalizing r r' with
  | nil => exact ⟨r, r', rfl, rfl, h⟩
  | cons e es ih =>
    obtain ⟨r₁, r₁', h₁, h₁', hshift⟩ := h.process hs e
    obtain ⟨q, hq, hs₁⟩ := hs.process e
    obtain rfl : q = r₁ := Except.ok.inj (hq.symm.trans h₁)
    obtain ⟨r₂, r₂', h₂, h₂', hshift₂⟩ := ih hshift hs₁
    refine ⟨r₂, r₂', ?_, ?_, hshift₂⟩
    · rw [processAll_cons, h₁]
      exact h₂
    · rw [List.map_cons, processAll_cons, h₁']
      exact h₂'

theorem shiftedBy_of_start {d : Description} {o : ReplayOptions} (h : start d o = .ok r) (c : ℚ) :
    r.ShiftedBy c r := by
  obtain ⟨hb, -⟩ := build_of_start h
  rw [start, hb] at h
  have hr := Except.ok.inj h
  refine ⟨rfl, Topology.shiftedBy_of_build hb c, ?_, ?_⟩
  · rw [← hr]
    rfl
  · rw [← hr]
    dsimp only
    split <;> rfl

/-- **Only differences of instants matter.**  On exact instants, whatever the machine, the options,
the events and the amount, replaying the events and replaying them that much later both get to the
end.  There, and in the analyses, every CPU, core and cluster has the same statistics, the same open
states, selections, classifications and wake-up sources; the counts of events are the same; every
stored instant and every interval kept is that much later; and every overlap query gives the same
answer. -/
theorem shifted_run {d : Description} {t : Topology ℚ} (h : Topology.build d = .ok t)
    (o : ReplayOptions) (es : List (Event ℚ)) (c : ℚ) :
    ∃ r₀ r r' : Replay ℚ, start d o = .ok r₀ ∧ r₀.processAll es = .ok r ∧
      r₀.processAll (es.map (·.shift c)) = .ok r' ∧
      r.ShiftedBy c r' ∧ r.finish.ShiftedBy c r'.finish ∧
      ∀ cpus depth,
        (r'.finish.overlap cpus depth).map (·.1) = (r.finish.overlap cpus depth).map (·.1) := by
  obtain ⟨r₀, h₀, hs₀⟩ := exists_settled_start h o
  obtain ⟨r, r', hr, hr', hshift⟩ := (shiftedBy_of_start h₀ c).processAll hs₀ es
  exact ⟨r₀, r, r', h₀, hr, hr', hshift, hshift.finish, hshift.finish.overlap⟩

/-- Both CPUs of a core go idle in turn, and all that an hour later. -/
theorem shifted_run_idleInTurn :
    ∃ t : Topology ℚ, Topology.build .sharedCore = .ok t ∧
      ∃ r₀ r r' : Replay ℚ, start .sharedCore { retainIntervals := true } = .ok r₀ ∧
        r₀.processAll Event.idleInTurn = .ok r ∧
        r₀.processAll (Event.idleInTurn.map (·.shift 3600)) = .ok r' ∧
        r.ShiftedBy 3600 r' ∧ r.finish.ShiftedBy 3600 r'.finish ∧
        ∀ cpus depth,
          (r'.finish.overlap cpus depth).map (·.1) = (r.finish.overlap cpus depth).map (·.1) :=
  ⟨_, rfl, shifted_run rfl { retainIntervals := true } Event.idleInTurn 3600⟩

end Replay

end PowerTrace
