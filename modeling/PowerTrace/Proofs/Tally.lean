import PowerTrace.Proofs.Alignment
import PowerTrace.Proofs.Composite
import PowerTrace.Proofs.Locality
import PowerTrace.Proofs.TimeOrder
import PowerTrace.Proofs.Transition

/-!
# What the counts of a depth say

An interval is counted once and under one class, and only an entity that was deep enough counts one.
An early wake-up needs a target residency to miss, a late one a deeper depth to miss that the entity
has been at.  A track stores all these numbers side by side and derives none from another, so it takes
an invariant to tie them together.

* `CStateTrack.Tallied`: what the counts of a track say about it;
* `CStateTrack.Tallied.close`, `CStateTrack.Tallied.record`: transitions keep it;
* `Topology.Tallied`: it holds of every node;
* `Analysis.Reached`: the analyses there are, of runs and of runs lined up with others;
* `Replay.counts_tallied`: the counts are right in every replay and in every analysis.
-/

namespace PowerTrace

open TimeValue

variable {τ : Type}

/-! ### Depths as deep as the deepest -/

theorem Depth.le_deeper_left (a b : Depth) : a ≤ a.deeper b := by
  unfold deeper
  split
  · assumption
  · exact Nat.le_refl a.val

theorem Depth.le_deeper_right (a b : Depth) : b ≤ a.deeper b := by
  unfold deeper
  split
  · exact Nat.le_refl b.val
  · next h => exact Nat.le_of_lt (Nat.lt_of_not_le h)

theorem Depth.eq_of_next? {d next : Depth} (h : d.next? = some next) : next.val = d.val + 1 := by
  unfold next? ofNat? at h
  split at h
  · cases h
    rfl
  · cases h

/-! ### The invariant -/

/-- The target residency of a depth is known and positive. -/
def CState.HasTarget (s : CState τ) : Prop := ∃ target, s.target = some target ∧ 0 < target

namespace CStateTrack

/-- The entity was at the next deeper depth or below, and that depth has a target residency. -/
def NextReached (t : CStateTrack τ) (d : Depth) : Prop :=
  ∃ next : Depth, next.val = d.val + 1 ∧ some next ≤ t.highest ∧ (t.slot next).HasTarget

/-- What the counts of a track say about it. -/
structure Tallied (t : CStateTrack τ) : Prop where
  /-- There are sixteen depths. -/
  length_slots : t.slots.toList.length = 16
  /-- Every interval is counted under one class. -/
  sum_eq : ∀ d, (t.slot d).early + (t.slot d).asExpected + (t.slot d).late = (t.slot d).stats.count
  /-- It is nowhere deeper than the deepest depth so far. -/
  current_le : t.current ≤ t.highest
  /-- Nor has it been. -/
  used_le : ∀ d, 0 < (t.slot d).stats.count → some d ≤ t.highest
  /-- Early wake-ups need a target. -/
  hasTarget : ∀ d, 0 < (t.slot d).early → (t.slot d).HasTarget
  /-- Late wake-ups need a deeper depth to miss. -/
  nextReached : ∀ d, 0 < (t.slot d).late → t.NextReached d

theorem NextReached.mono {t u : CStateTrack τ} {d : Depth} (h : t.NextReached d)
    (htarget : ∀ d', (u.slot d').target = (t.slot d').target) (hhigh : t.highest ≤ u.highest) :
    u.NextReached d := by
  obtain ⟨next, hnext, hle, target, ht, hpos⟩ := h
  exact ⟨next, hnext, depth_le_trans hle hhigh, target, (htarget next).trans ht, hpos⟩

/-- The counts say the same while no interval is counted and the deepest depth at most gets
deeper. -/
theorem Tallied.of_slots_eq {t u : CStateTrack τ} (h : t.Tallied) (hslots : u.slots = t.slots)
    (hhigh : t.highest ≤ u.highest) (hcurrent : u.current ≤ u.highest) : u.Tallied := by
  have hslot : ∀ d, u.slot d = t.slot d := by
    intro d
    rw [slot, hslots]
    rfl
  refine ⟨by rw [hslots]; exact h.length_slots, ?_, hcurrent, ?_, ?_, ?_⟩
  · intro d
    rw [hslot]
    exact h.sum_eq d
  · intro d hd
    rw [hslot] at hd
    exact depth_le_trans (h.used_le d hd) hhigh
  · intro d hd
    rw [hslot] at hd ⊢
    exact h.hasTarget d hd
  · intro d hd
    rw [hslot] at hd
    exact (h.nextReached d hd).mono (fun d' => congrArg CState.target (hslot d')) hhigh

/-! ### What transitions do to it -/

theorem Tallied.enter {t : CStateTrack τ} (h : t.Tallied) (d : Depth) (time : τ) :
    (t.enter d time).Tallied := by
  have hdeep : t.highest ≤ (t.enter d time).highest ∧ some d ≤ (t.enter d time).highest := by
    unfold CStateTrack.enter
    cases t.highest with
    | none => exact ⟨Option.none_le, depth_le_refl _⟩
    | some highest =>
      exact ⟨Option.some_le_some.mpr (d.le_deeper_right highest),
        Option.some_le_some.mpr (d.le_deeper_left highest)⟩
  exact h.of_slots_eq rfl hdeep.1 hdeep.2

theorem Tallied.claim {t : CStateTrack τ} (h : t.Tallied) : t.claim.Tallied :=
  h.of_slots_eq rfl (depth_le_refl _) h.current_le

variable [TimeValue τ]

theorem nextReached_of_classify {t : CStateTrack τ} {d : Depth} {duration : τ}
    (h : t.classify d duration = .tooLong) : t.NextReached d := by
  have hreach : t.reachesNext d duration = true := by
    unfold classify at h
    split at h
    · cases h
    · split at h
      · assumption
      · cases h
  unfold reachesNext at hreach
  split at hreach
  · next highest next hhigh hnext =>
    rw [Bool.and_eq_true, decide_eq_true_eq] at hreach
    obtain ⟨hle, hany⟩ := hreach
    refine ⟨next, Depth.eq_of_next? hnext, ?_, ?_⟩
    · rw [hhigh]
      exact Option.some_le_some.mpr hle
    · cases ht : (t.slot next).target with
      | none => simp [ht] at hany
      | some target =>
        rw [ht, Option.any_some, Bool.and_eq_true, decide_eq_true_eq] at hany
        exact ⟨target, ht, hany.1⟩
  · cases hreach

theorem tallied_ofInfos (infos : Depth → Option StateInfo) :
    (ofInfos infos : CStateTrack τ).Tallied := by
  have hnone : ∀ d, ((ofInfos infos : CStateTrack τ).slot d).early = 0 ∧
      ((ofInfos infos : CStateTrack τ).slot d).asExpected = 0 ∧
      ((ofInfos infos : CStateTrack τ).slot d).late = 0 ∧
      ((ofInfos infos : CStateTrack τ).slot d).stats.count = 0 := by
    intro d
    rw [slot_ofInfos]
    cases infos d <;> exact ⟨rfl, rfl, rfl, rfl⟩
  refine ⟨Vector.length_toList, ?_, Option.none_le, ?_, ?_, ?_⟩
  · intro d
    obtain ⟨he, ha, hl, hc⟩ := hnone d
    rw [he, ha, hl, hc]
  · intro d hd
    exact absurd (hnone d).2.2.2 hd.ne'
  · intro d hd
    exact absurd (hnone d).1 hd.ne'
  · intro d hd
    exact absurd (hnone d).2.2.1 hd.ne'

/-- Nothing that counts is shorter than zero, so a target that was missed is positive. -/
theorem hasTarget_of_classify {t : CStateTrack Float} {d : Depth} {duration : Float}
    (h : t.classify d duration = .tooShort) (hcounted : le duration zero = false) :
    (t.slot d).HasTarget := by
  unfold classify at h
  split at h
  · next hany =>
    cases ht : (t.slot d).target with
    | none => simp [ht] at hany
    | some target =>
      rw [ht, Option.any_some] at hany
      refine ⟨target, ht, ?_⟩
      by_contra hzero
      rw [UInt32.lt_iff_toNat_lt, UInt32.toNat_zero, Nat.not_lt, Nat.le_zero] at hzero
      rw [hzero] at hany
      exact Bool.false_ne_true (hcounted.symm.trans (FloatOrder.le_of_lt hany))
  · split at h <;> cases h

/-- **Closing an interval** counts it under the class it is given, or not at all. -/
theorem Tallied.close {t : CStateTrack Float} (h : t.Tallied) {d : Depth} (hd : t.current = some d)
    (time : Float) : (t.close d time).1.Tallied := by
  have htarget := t.target_slot_close d time
  have hhigh := t.highest_close d time
  have hopen : some d ≤ t.highest := hd ▸ h.current_le
  refine ⟨Vector.length_toList, ?_, ?_, ?_, ?_, ?_⟩
  · intro d'
    rw [slot_close]
    split
    · have hsum := h.sum_eq d
      cases hc : t.classify d (span t.since time) <;> simp [CState.record] <;> omega
    · exact h.sum_eq d'
  · rw [current_close]
    exact Option.none_le
  · intro d' hpos
    rw [hhigh]
    rw [slot_close] at hpos
    split at hpos
    · next hcounted =>
      rw [hcounted.1]
      exact hopen
    · exact h.used_le d' hpos
  · intro d' hpos
    unfold CState.HasTarget
    rw [htarget]
    rw [slot_close] at hpos
    split at hpos
    · next hcounted =>
      obtain ⟨rfl, hcounted⟩ := hcounted
      -- counted as early just now, or already before
      by_cases hc : t.classify d' (span t.since time) = .tooShort
      · exact hasTarget_of_classify hc hcounted
      · exact h.hasTarget d' (by simpa [CState.record, hc] using hpos)
    · exact h.hasTarget d' hpos
  · intro d' hpos
    refine NextReached.mono (t := t) ?_ htarget (by rw [hhigh]; exact depth_le_refl _)
    rw [slot_close] at hpos
    split at hpos
    · next hcounted =>
      obtain ⟨rfl, -⟩ := hcounted
      by_cases hc : t.classify d' (span t.since time) = .tooLong
      · exact nextReached_of_classify hc
      · exact h.nextReached d' (by simpa [CState.record, hc] using hpos)
    · exact h.nextReached d' hpos

/-- **Transitions keep the counts right.** -/
theorem Tallied.record {t : CStateTrack Float} (h : t.Tallied) (time : Float) (new : Option Depth) :
    (t.record time new).1.Tallied :=
  record_induction (fun _ _ hd ht => ht.close hd time) (fun _ d _ ht => ht.enter d time) h new

theorem Tallied.abandon {t : CStateTrack Float} (h : t.Tallied) : t.abandon.1.Tallied :=
  closeOpen_induction (fun _ hd => h.close hd t.since) h

end CStateTrack

/-! ### Every node -/

/-- The counts of every node are right. -/
def Topology.Tallied (t : Topology τ) : Prop := ∀ e ∈ t.entities, e.tracks.cstates.Tallied

theorem Topology.Tallied.of_cstates {t u : Topology τ} (h : t.Tallied)
    (hsame : ∀ e ∈ u.entities, ∃ e' ∈ t.entities, e.tracks.cstates = e'.tracks.cstates) :
    u.Tallied := by
  intro e he
  obtain ⟨e', he', hcs⟩ := hsame e he
  rw [hcs]
  exact h e' he'

theorem Topology.tallied_of_build [TimeValue τ] {d : Description} {t : Topology τ}
    (h : Topology.build d = .ok t) : t.Tallied := by
  intro e he
  obtain ⟨infos, hc⟩ := (t.fresh_of_build h e he).cstates
  rw [hc]
  exact CStateTrack.tallied_ofInfos infos

theorem Topology.Tallied.run {t : Topology Float} (h : t.Tallied) (x : Extremum)
    (es : List (Event Float)) : (t.run x es).Tallied :=
  forall_entities_run (fun e id time a he => e.cstates_apply (P := CStateTrack.Tallied) x id time a
    (fun _ ht => ht.claim) (fun _ d ht => ht.record time d) he) h es

theorem Topology.Tallied.abandon {t : Topology Float} (h : t.Tallied) : t.abandon.Tallied := by
  intro e he
  rw [entities_abandon] at he
  obtain ⟨e, hmem, rfl⟩ := List.mem_map.mp he
  rw [Entity.cstates_abandon]
  exact (h e hmem).abandon

/-- Opening frequency slots leaves the idle track of every node. -/
theorem Topology.Extends.cstates [TimeValue τ] {t u : Topology τ} (h : t.Extends u) :
    ∀ e ∈ u.entities, ∃ e' ∈ t.entities, e.tracks.cstates = e'.tracks.cstates := by
  intro e he
  obtain ⟨c, hc, he⟩ := List.mem_flatMap.mp he
  obtain ⟨c', hc', hcx⟩ := exists_of_forall₂_of_mem h hc
  rcases List.mem_cons.mp he with rfl | he
  · exact ⟨_, mem_entities_cluster hc', hcx.cstates⟩
  · obtain ⟨k, hk, he⟩ := List.mem_flatMap.mp he
    obtain ⟨k', hk', hkx⟩ := exists_of_forall₂_of_mem hcx.cores hk
    rcases List.mem_cons.mp he with rfl | he
    · exact ⟨_, mem_entities_core hc' hk', hkx.cstates⟩
    · obtain ⟨m, hm, rfl⟩ := List.mem_map.mp he
      obtain ⟨m', hm', hmx⟩ := exists_of_forall₂_of_mem hkx.cpus hm
      refine ⟨_, mem_entities_cpu ?_, hmx.cstates⟩
      exact List.mem_flatMap.mpr ⟨c', hc', List.mem_flatMap.mpr ⟨k', hk', hm'⟩⟩

/-! ### Every analysis -/

/-- The analyses there are: of a run that is over, and of one that was lined up with another. -/
inductive Analysis.Reached [TimeValue τ] : Analysis τ → Prop
  /-- At the end of a run. -/
  | finished (d : Description) (o : ReplayOptions) (es : List (Event τ)) {r₀ r : Replay τ}
    (hstart : Replay.start d o = .ok r₀) (hrun : r₀.processAll es = .ok r) : Reached r.finish
  /-- After a baseline was attached. -/
  | attached {a b c : Analysis τ} (ha : Reached a) (hb : Reached b)
    (h : a.attachBaseline b = .ok c) : Reached c

/-- Attaching a baseline opens frequency slots in both machines. -/
theorem Analysis.extends_attachBaseline [TimeValue τ] {a b c : Analysis τ}
    (h : a.attachBaseline b = .ok c) :
    a.topology.Extends c.topology ∧ ∃ u, c.baseline = some u ∧ b.topology.Extends u := by
  by_cases hn : a.topology.cpuCount = b.topology.cpuCount
  · rw [attachBaseline, alignTopologies_eq hn] at h
    obtain ⟨hax, hbx⟩ := extends_aligned a.topology b.topology
    cases h
    exact ⟨hax, _, rfl, hbx⟩
  · rw [attachBaseline, alignTopologies_eq_error hn] at h
    cases h

theorem Analysis.Reached.tallied {a : Analysis Float} (h : a.Reached) :
    a.topology.Tallied ∧ ∀ u, a.baseline = some u → u.Tallied := by
  induction h with
  | finished d o es hstart hrun =>
    obtain ⟨hbuild, hs⟩ := Replay.build_of_start hstart
    obtain ⟨r', hr', -, -, htop⟩ := hs.processAll es
    obtain rfl := Except.ok.inj (hrun.symm.trans hr')
    refine ⟨?_, fun u hu => nomatch hu⟩
    show Topology.Tallied (Topology.abandon _)
    rw [htop]
    exact ((Topology.tallied_of_build hbuild).run _ es).abandon
  | attached ha hb h iha ihb =>
    obtain ⟨hax, u, hu, hbx⟩ := extends_attachBaseline h
    refine ⟨iha.1.of_cstates hax.cstates, ?_⟩
    intro u' hu'
    obtain rfl := Option.some.inj (hu.symm.trans hu')
    exact ihb.1.of_cstates hbx.cstates

/-- **The counts of every depth are right**, for every machine, all options and all events: wherever a
replay is, and in every analysis, also one with a baseline and in the baseline itself.  On every node,
at each of sixteen depths, every interval is counted under one class; no depth that was used, nor the
one it is at, is deeper than the deepest; early wake-ups are found only where there is a target to
miss, late ones only above a depth that has a target and that the node was at or below. -/
theorem Replay.counts_tallied {d : Description} {t : Topology Float} (h : Topology.build d = .ok t)
    (o : ReplayOptions) (es : List (Event Float)) :
    ∃ r₀ r : Replay Float, Replay.start d o = .ok r₀ ∧ r₀.processAll es = .ok r ∧
      r.topology.Tallied ∧ r.finish.Reached ∧
      ∀ a : Analysis Float, a.Reached →
        a.topology.Tallied ∧ ∀ u, a.baseline = some u → u.Tallied := by
  obtain ⟨r₀, r, h₀, hr, -, htop⟩ := Replay.exists_run h o es
  refine ⟨r₀, r, h₀, hr, ?_, .finished d o es h₀ hr, fun a ha => ha.tallied⟩
  rw [htop]
  exact (Topology.tallied_of_build h).run _ es

/-- A core whose CPUs go idle together and are compared with themselves afterwards. -/
theorem Replay.counts_tallied_sharedCore :
    ∃ (r₀ r : Replay Float) (a : Analysis Float),
      Replay.start .sharedCore {} = .ok r₀ ∧
      r₀.processAll [⟨1, 0, .idleEnter 1⟩, ⟨2, 1, .idleEnter 0⟩, ⟨2.5, 1, .idleExit⟩] = .ok r ∧
      r.topology.Tallied ∧ r.finish.attachBaseline r.finish = .ok a ∧ a.topology.Tallied := by
  obtain ⟨r₀, r, h₀, hr, htallied, hfinish, hall⟩ := Replay.counts_tallied (d := .sharedCore) rfl {}
    [⟨1, 0, .idleEnter 1⟩, ⟨2, 1, .idleEnter 0⟩, (⟨2.5, 1, .idleExit⟩ : Event Float)]
  have hattach : ∃ a, r.finish.attachBaseline r.finish = .ok a := by
    rw [Analysis.attachBaseline, alignTopologies_eq rfl]
    exact ⟨_, rfl⟩
  obtain ⟨a, ha⟩ := hattach
  exact ⟨r₀, r, a, h₀, hr, htallied, ha, (hall a (.attached hfinish hfinish ha)).1⟩

end PowerTrace
