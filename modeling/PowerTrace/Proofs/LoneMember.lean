import PowerTrace.Proofs.ReportRows
import PowerTrace.Proofs.Stays

/-!
# Groups of one CPU

A core with a single CPU is not shown in a report, since it could only repeat what is shown of the
CPU.  The two are nevertheless driven in different ways.  A CPU is told when it goes idle and
resumes, and selects frequencies meanwhile; a group is told a depth and a frequency, where zero
stands for none.  So their frequency tables differ, but the stays that both keep track of do not.

* `CStateTrack.record_forgetClaim`: transitions do not depend on whether a wake-up was charged;
* `Entity.frequency_of_lone_member`: a group dwells where its only member does, unless that runs at
  zero, which a group takes for unknown;
* `PStateTrack.Recounts.pstateRows_eq`: tables that keep track of the same stays have the same rows;
* `Tracks.Doubles`: what ties a group to its only member, and `Tracks.Doubles.apply`: every action
  but a change to zero keeps it;
* `Replay.lone_member_shown`: hence a group of one CPU shows what the CPU shows.
-/

namespace PowerTrace

open TimeValue

variable {τ : Type} [TimeValue τ]

/-- One node shows what another one does: the same idle states with all that was counted of them,
the same open interval, and the same rows of frequencies. -/
structure Tracks.ShowsAs (s u : Tracks τ) : Prop where
  /-- Names, targets, statistics and counters of all depths. -/
  slots : s.cstates.slots = u.cstates.slots
  /-- The depth it is idle at. -/
  depth : s.cstates.current = u.cstates.current
  /-- The deepest depth it was ever idle at. -/
  highest : s.cstates.highest = u.cstates.highest
  /-- Since when it is idle. -/
  openSince : s.cstates.openSince = u.cstates.openSince
  /-- How the interval closed last compares. -/
  lastClass : s.cstates.lastClass = u.cstates.lastClass
  /-- The frequencies at which it dwelled, with all that was counted of them. -/
  rows : pstateRows s.pstates none = pstateRows u.pstates none

/-! ### The idle track -/

namespace CStateTrack

omit [TimeValue τ] in
/-- The same track, as if no wake-up was charged since the interval opened last.  Wake-ups are
charged to CPUs, and no group hears of them. -/
def forgetClaim (t : CStateTrack τ) : CStateTrack τ := { t with claimed := false }

theorem close_forgetClaim (t : CStateTrack τ) (d : Depth) (time : τ) :
    (t.forgetClaim.close d time).1 = (t.close d time).1.forgetClaim := by
  unfold close
  by_cases hle : TimeValue.le (TimeValue.span t.since time) TimeValue.zero = true
  · have hle' : TimeValue.le (TimeValue.span t.forgetClaim.since time) TimeValue.zero = true := hle
    rw [if_pos hle', if_pos hle]
    rfl
  · have hle' : ¬ TimeValue.le (TimeValue.span t.forgetClaim.since time) TimeValue.zero = true := hle
    rw [if_neg hle', if_neg hle]
    rfl

theorem closeOpen_forgetClaim (t : CStateTrack τ) (time : τ) :
    (t.forgetClaim.closeOpen time).1 = (t.closeOpen time).1.forgetClaim := by
  cases hc : t.current with
  | none =>
    have hc' : t.forgetClaim.current = none := hc
    rw [closeOpen_of_none hc, closeOpen_of_none hc']
  | some d =>
    have hc' : t.forgetClaim.current = some d := hc
    rw [closeOpen_of_some hc, closeOpen_of_some hc']
    exact t.close_forgetClaim d time

/-- A transition does the same whether or not a wake-up was charged before. -/
theorem record_forgetClaim (t : CStateTrack τ) (time : τ) (new : Option Depth) :
    (t.forgetClaim.record time new).1.forgetClaim = (t.record time new).1.forgetClaim := by
  by_cases hn : new = t.current
  · have hn' : new = t.forgetClaim.current := hn
    rw [record, if_pos hn', record, if_pos hn]
    rfl
  · have hn' : ¬ new = t.forgetClaim.current := hn
    rw [record, if_neg hn', record, if_neg hn]
    dsimp only
    rw [closeOpen_forgetClaim]
    cases new <;> rfl

theorem record_congr {t u : CStateTrack τ} (h : t.forgetClaim = u.forgetClaim) (time : τ)
    (new : Option Depth) :
    (t.record time new).1.forgetClaim = (u.record time new).1.forgetClaim := by
  rw [← record_forgetClaim, h, record_forgetClaim]

theorem abandon_congr {t u : CStateTrack τ} (h : t.forgetClaim = u.forgetClaim) :
    t.abandon.1.forgetClaim = u.abandon.1.forgetClaim := by
  have hsince : t.forgetClaim.since = u.forgetClaim.since := by rw [h]
  change t.since = u.since at hsince
  rw [abandon, ← closeOpen_forgetClaim, h, hsince, closeOpen_forgetClaim, abandon]

end CStateTrack

/-! ### Rows of frequencies -/

namespace PStateTrack

/-- What a table that keeps track of its stays shows of a frequency depends on the stays alone. -/
theorem Holds.used?_eq {c : τ → Bool} {t : PStateTrack τ} {stays : List (Stay ℕ τ)}
    (h : t.Holds c stays) (f : ℕ) :
    t.used? f = if (DurationStats.counted c (durationsAt stays f)).isEmpty then none
      else some ⟨f, .counted c (durationsAt stays f)⟩ := by
  unfold used?
  cases hp : t.slots.find? (·.freq == f) with
  | none =>
    -- no slot, so no stay
    have hnone : durationsAt stays f = [] := by
      refine durationsAt_eq_nil fun s hs he => ?_
      obtain ⟨p, hmem, hfreq⟩ := List.mem_map.mp (he ▸ h.known s hs)
      exact List.find?_eq_none.mp hp p hmem (beq_iff_eq.mpr hfreq)
    rw [hnone]
    rfl
  | some p =>
    have hfreq := List.find?_some hp
    rw [beq_iff_eq] at hfreq
    subst hfreq
    have hstats := h.stats p (List.mem_of_find?_eq_some hp)
    rw [← hstats, Option.filter_some]
    cases p.stats.isEmpty <;> rfl

/-- **Tables that keep track of the same stays have the same rows.** -/
theorem Recounts.pstateRows_eq {t u : PStateTrack τ} (ht : t.WellFormed) (hu : u.WellFormed)
    {it : Itinerary ℕ τ} (h : t.Recounts it) (h' : u.Recounts it) :
    pstateRows t none = pstateRows u none :=
  ht.pstateRows_congr hu (fun _ hmem => nomatch hmem) (fun _ hmem => nomatch hmem)
    (fun f => by rw [h.holds.used?_eq, h'.holds.used?_eq]) fun _ => rfl

end PStateTrack

/-! ### A group and its only member -/

@[simp] theorem PStateTrack.currentFreq_enterIdle (t : PStateTrack τ) (time : τ) :
    (t.enterIdle time).currentFreq = t.currentFreq := by
  show (if t.idle then t else t.closeDwell time).currentFreq = t.currentFreq
  split
  · rfl
  · exact t.currentFreq_closeDwell time

omit [TimeValue τ] in
@[simp] theorem PStateTrack.currentFreq_exitIdle (t : PStateTrack τ) (time : τ) :
    (t.exitIdle time).currentFreq = t.currentFreq := by
  unfold exitIdle
  split <;> rfl

/-- A CPU that was not told to run at zero does not. -/
theorem Cpu.currentFreq_apply_ne_zero {c : Cpu τ} (h : c.pstates.currentFreq ≠ some 0) (time : τ)
    {a : Action} (ha : a ≠ .changeFreq 0) : (c.apply time a).pstates.currentFreq ≠ some 0 := by
  cases a with
  | setDepth d =>
    cases d with
    | none =>
      show (c.pstates.exitIdle time).currentFreq ≠ some 0
      rwa [PStateTrack.currentFreq_exitIdle]
    | some d =>
      show (c.pstates.enterIdle time).currentFreq ≠ some 0
      rwa [PStateTrack.currentFreq_enterIdle]
  | changeFreq f =>
    show (c.pstates.changeFreq time f).currentFreq ≠ some 0
    rw [PStateTrack.currentFreq_changeFreq]
    rintro ⟨rfl⟩
    exact ha rfl
  | wake id name => exact h

omit [TimeValue τ] in
/-- The composite frequency of a single CPU: its own, if it runs at a known one. -/
theorem compositeFreq_singleton (x : Extremum) (c : Cpu τ) :
    compositeFreq x [c] = if c.isIdle then 0 else c.pstates.currentFreq.getD 0 := by
  unfold compositeFreq runningFreqs
  cases hi : c.isIdle with
  | true =>
    rw [List.filter_cons_of_neg (by rw [hi]; exact Bool.false_ne_true)]
    cases x <;> rfl
  | false =>
    rw [List.filter_cons_of_pos (by rw [hi]; rfl), List.filterMap_cons]
    cases c.pstates.currentFreq <;> cases x <;> rfl

omit [TimeValue τ] in
/-- **A group dwells where its only member does**, unless that is zero. -/
theorem Entity.frequency_of_lone_member {x : Extremum} {m : Entity τ} {c : Cpu τ}
    (hm : m.Settled x) (hc : (Entity.cpu c).Settled x) (hg : m.isGroup = true)
    (hmem : m.members = [c]) (hknown : c.pstates.currentFreq ≠ some 0) :
    m.frequency = (Entity.cpu c).frequency := by
  have hfollow := (coherent_iff_of_isGroup hg).mp hm.coherent
  have hidle : c.pstates.idle = c.isIdle := hc.coherent
  rw [hmem] at hfollow
  have hzero : compositeFreq x [c] = 0 → m.tracks.pstates.currentFreq = none := by
    intro h₀
    rw [PStateTrack.currentFreq, PStateTrack.currentSlot, hfollow.unknown h₀]
    rfl
  have hgroup : m.frequency = m.tracks.pstates.currentFreq :=
    PStateTrack.runsAt_of_running (hm.running hg)
  rw [hgroup]
  show m.tracks.pstates.currentFreq = c.pstates.runsAt
  have hcomp := compositeFreq_singleton x c
  rw [← hidle] at hcomp
  cases hi : c.pstates.idle with
  | true =>
    rw [hi, if_pos rfl] at hcomp
    rw [hzero hcomp, PStateTrack.runsAt_of_idle hi]
  | false =>
    rw [hi, if_neg Bool.false_ne_true] at hcomp
    rw [PStateTrack.runsAt_of_running hi]
    cases hf : c.pstates.currentFreq with
    | none =>
      rw [hf] at hcomp
      exact hzero hcomp
    | some f =>
      rw [hf] at hcomp hknown
      have hne : compositeFreq x [c] ≠ 0 := by
        rw [hcomp]
        exact fun he => hknown (congrArg some he)
      rw [hfollow.freq hne, hcomp]
      rfl

/-- What ties a group to its only member: their idle tracks are the same apart from wake-ups, their
frequency tracks keep track of the same stays, and the member does not run at zero. -/
structure Tracks.Doubles (s : Tracks τ) (c : Cpu τ) : Prop where
  cstates : s.cstates.forgetClaim = c.cstates.forgetClaim
  pstates : ∃ it : Itinerary ℕ τ, s.pstates.Recounts it ∧ c.pstates.Recounts it
  known : c.pstates.currentFreq ≠ some 0

namespace Tracks.Doubles

theorem showsAs {s : Tracks τ} {c : Cpu τ} (h : s.Doubles c) (hs : s.pstates.WellFormed)
    (hc : c.pstates.WellFormed) : s.ShowsAs c.tracks := by
  obtain ⟨it, hit, hit'⟩ := h.pstates
  exact ⟨(congrArg CStateTrack.slots h.cstates :), (congrArg CStateTrack.current h.cstates :),
    (congrArg CStateTrack.highest h.cstates :), (congrArg CStateTrack.openSince h.cstates :),
    (congrArg CStateTrack.lastClass h.cstates :), hit.pstateRows_eq hs hc hit'⟩

/-- Closing what is open at the end does the same to both. -/
theorem abandon {s : Tracks τ} {c : Cpu τ} (h : s.Doubles c) :
    Tracks.Doubles ⟨s.cstates.abandon.1, s.pstates⟩ c.abandon :=
  ⟨CStateTrack.abandon_congr h.cstates, h.pstates, h.known⟩

/-- Before the first event nothing is counted. -/
theorem of_fresh {s : Tracks τ} {c : Cpu τ} (hs : s.Fresh) (hc : c.tracks.Fresh)
    (h : s.cstates = c.cstates) : s.Doubles c := by
  have hempty : c.pstates = .empty := hc.pstates
  refine ⟨by rw [h], ⟨.nowhere, ?_, ?_⟩, ?_⟩
  · rw [hs.pstates]
    exact PStateTrack.recounts_empty
  · rw [hempty]
    exact PStateTrack.recounts_empty
  · rw [hempty]
    exact Option.some_ne_none 0 ∘ Eq.symm

/-- The idle tracks after an action on the member: it goes to a depth, and so does the group. -/
theorem cstates_apply {x : Extremum} {m : Entity τ} {c : Cpu τ} (h : m.tracks.Doubles c)
    (hg : m.isGroup = true) (hmem : m.members = [c]) (time : τ) (a : Action) :
    (m.apply x c.id time a).tracks.cstates.forgetClaim =
      (c.apply time a).cstates.forgetClaim := by
  have ho : m.owns c.id = true := by
    rw [Entity.owns, hmem]
    simp
  have hlone : applyToCpu c.id time a m.members = [c.apply time a] := by
    rw [hmem]
    show [if c.id = c.id then c.apply time a else c] = _
    rw [if_pos rfl]
  rw [Entity.tracks_apply_of_isGroup x c.id time a hg ho, hlone]
  cases a with
  | setDepth d =>
    show (m.tracks.cstates.record time (c.cstates.record time d).1.current).1.forgetClaim =
      (c.cstates.record time d).1.forgetClaim
    rw [CStateTrack.current_record]
    exact CStateTrack.record_congr h.cstates time d
  | changeFreq f =>
    have hdepth : c.cstates.current = m.tracks.cstates.current :=
      (congrArg CStateTrack.current h.cstates).symm
    show (m.tracks.cstates.record time c.cstates.current).1.forgetClaim = c.cstates.forgetClaim
    rw [hdepth, CStateTrack.record, if_pos rfl]
    exact h.cstates
  | wake id name =>
    show m.tracks.cstates.forgetClaim = (c.wakeups.charge c.cstates id name).2.forgetClaim
    rw [h.cstates]
    unfold WakeupTable.charge
    split <;> rfl

/-- **Every action but a change to zero keeps a group tied to its only member.** -/
theorem apply {x : Extremum} {m : Entity τ} {c : Cpu τ} (h : m.tracks.Doubles c)
    (hm : m.Settled x) (hc : (Entity.cpu c).Settled x) (hg : m.isGroup = true)
    (hmem : m.members = [c]) (id : CpuId) (time : τ) {a : Action} (ha : a ≠ .changeFreq 0) :
    (m.apply x id time a).tracks.Doubles (if c.id = id then c.apply time a else c) := by
  by_cases hid : c.id = id
  · subst hid
    rw [if_pos rfl]
    have hcpu : (Entity.cpu c).apply x c.id time a = .cpu (c.apply time a) :=
      congrArg Entity.cpu (if_pos rfl)
    have hknown := Cpu.currentFreq_apply_ne_zero h.known time ha
    have hmem' : (m.apply x c.id time a).members = [c.apply time a] := by
      rw [Entity.members_apply, hmem]
      exact congrArg (fun c => [c]) (if_pos rfl)
    have hfreq : (m.apply x c.id time a).frequency = (Entity.cpu (c.apply time a)).frequency :=
      Entity.frequency_of_lone_member (hm.apply c.id time a) (hcpu ▸ hc.apply c.id time a)
        (by rw [Entity.isGroup_apply, hg]) hmem' hknown
    obtain ⟨it, hit, hit'⟩ := h.pstates
    have hgroup := Entity.recounts_pstates_apply hm hit c.id time a
    have hmember := Entity.recounts_pstates_apply hc hit' c.id time a
    rw [hcpu] at hmember
    rw [hfreq] at hgroup
    exact ⟨h.cstates_apply hg hmem time a, ⟨_, hgroup, hmember⟩, hknown⟩
  · have ho : m.owns id = false := by
      rw [Entity.owns, hmem]
      simpa using hid
    rw [if_neg hid, Entity.apply_of_not_owns x id time a ho]
    exact h

end Tracks.Doubles

/-! ### Before the first event -/

/-- A core takes its depths from its first CPU, and a CPU without a history has no more to give. -/
theorem Description.cstates_core (d : Description) {k : CoreLayout} {c : Cpu τ}
    (h : (d.core k : Core τ).cpus.head? = some c) :
    (d.core k).cstates = c.cstates ∧ ∃ infos, c.cstates = .ofInfos infos := by
  have hcpus : (d.core k : Core τ).cpus = k.cpus.map d.cpu := rfl
  have hcore : (d.core k : Core τ).cstates =
      groupCStates ((k.cpus.map d.cpu).map (·.cstates)) := rfl
  rw [hcpus] at h
  rw [hcore]
  cases hk : k.cpus with
  | nil =>
    rw [hk] at h
    cases h
  | cons id rest =>
    rw [hk] at h
    obtain rfl : d.cpu id = c := Option.some.inj h
    exact ⟨CStateTrack.ofTemplate_ofInfos (d.info? id), d.info? id, rfl⟩

/-- **Before the first event every group has the depths of its first member.** -/
theorem Topology.cstates_of_build {d : Description} {t : Topology τ} (h : Topology.build d = .ok t) :
    ∀ m ∈ t.entities, ∀ c, m.members.head? = some c → m.tracks.cstates = c.cstates := by
  have hshape := wellShaped_of_build h
  obtain ⟨-, rfl⟩ := build_eq_ok_iff.mp h
  intro m hm c hc
  obtain ⟨u, hu, hm⟩ := List.mem_flatMap.mp hm
  obtain ⟨l, -, rfl⟩ := List.mem_map.mp hu
  rcases List.mem_cons.mp hm with rfl | hm
  · show groupCStates ((l.cores.map d.core).map (·.cstates)) = c.cstates
    have hcpus : (d.cluster l : Cluster τ).cpus = (l.cores.map d.core).flatMap (·.cpus) := rfl
    change (d.cluster l : Cluster τ).cpus.head? = some c at hc
    rw [hcpus] at hc
    cases hl : l.cores with
    | nil =>
      rw [hl] at hc
      cases hc
    | cons k rest =>
      have hne : (d.core k : Core τ).cpus ≠ [] := by
        refine hshape.cpus_ne_nil _ hu _ ?_
        show d.core k ∈ l.cores.map d.core
        rw [hl]
        exact List.mem_cons_self
      rw [hl, List.map_cons, List.flatMap_cons, List.head?_append_of_ne_nil _ hne] at hc
      obtain ⟨hcore, infos, hinfos⟩ := d.cstates_core hc
      show CStateTrack.ofTemplate (d.core k : Core τ).cstates = c.cstates
      rw [hcore, hinfos, CStateTrack.ofTemplate_ofInfos]
  · obtain ⟨v, hv, hm⟩ := List.mem_flatMap.mp hm
    obtain ⟨k, -, rfl⟩ := List.mem_map.mp hv
    rcases List.mem_cons.mp hm with rfl | hm
    · exact (d.cstates_core hc).1
    · obtain ⟨c', -, rfl⟩ := List.mem_map.mp hm
      obtain rfl : c' = c := Option.some.inj hc
      rfl

/-! ### Every run -/

/-- What holds of every node of a run without changes to zero: it is settled, and a group is tied to
its only member, if it has no other. -/
structure Entity.Lone (x : Extremum) (m : Entity τ) : Prop where
  settled : m.Settled x
  member : ∀ c, m.members = [c] → (Entity.cpu c).Settled x
  doubles : m.isGroup = true → ∀ c, m.members = [c] → m.tracks.Doubles c

theorem Entity.Lone.apply {x : Extremum} {m : Entity τ} (h : m.Lone x) (id : CpuId) (time : τ)
    {a : Action} (ha : a ≠ .changeFreq 0) : (m.apply x id time a).Lone x := by
  have hmember : ∀ c', (m.apply x id time a).members = [c'] →
      ∃ c, m.members = [c] ∧ c' = if c.id = id then c.apply time a else c := by
    intro c' hc'
    rw [members_apply, applyToCpu, List.map_eq_singleton_iff] at hc'
    obtain ⟨c, hc, rfl⟩ := hc'
    exact ⟨c, hc, rfl⟩
  refine ⟨h.settled.apply id time a, fun c' hc' => ?_, fun hg c' hc' => ?_⟩
  · obtain ⟨c, hc, rfl⟩ := hmember c' hc'
    exact (h.member c hc).apply id time a
  · obtain ⟨c, hc, rfl⟩ := hmember c' hc'
    rw [isGroup_apply] at hg
    exact (h.doubles hg c hc).apply h.settled (h.member c hc) hg hc id time ha

theorem Topology.lone_of_build {d : Description} {t : Topology τ} (h : Topology.build d = .ok t)
    (x : Extremum) : ∀ m ∈ t.entities, m.Lone x := by
  have hcpu : ∀ m ∈ t.entities, ∀ c, m.members = [c] → Entity.cpu c ∈ t.entities := by
    intro m hm c hc
    refine mem_entities_cpu (mem_cpus_of_mem_members hm ?_)
    rw [hc]
    exact List.mem_singleton_self c
  intro m hm
  refine ⟨settled_of_build h x m hm, fun c hc => ?_, fun _ c hc => ?_⟩
  · exact settled_of_build h x _ (hcpu m hm c hc)
  · refine Tracks.Doubles.of_fresh (t.fresh_of_build h m hm) (t.fresh_of_build h _ (hcpu m hm c hc)) ?_
    exact cstates_of_build h m hm c (by rw [hc]; rfl)

omit [TimeValue τ] in
/-- A change of frequency is asked for by an event that says so. -/
theorem Event.kind_of_action? {ids : List CpuId} {e : Event τ} {f : ℕ}
    (h : e.action? ids = some (.changeFreq f)) : e.kind = .freqChange f := by
  unfold Event.action? at h
  split at h
  · cases hk : e.kind with
    | idleEnter depth =>
      rw [hk] at h
      unfold EventKind.action at h
      cases hd : Depth.ofNat? depth <;> simp [hd, Except.toOption] at h
    | idleExit =>
      rw [hk] at h
      cases h
    | freqChange g =>
      rw [hk] at h
      cases h
      rfl
    | wakeup id name =>
      rw [hk] at h
      cases h
  · cases h

theorem Entity.tracks_abandon (m : Entity τ) :
    m.abandon.tracks = ⟨m.tracks.cstates.abandon.1, m.tracks.pstates⟩ := by
  cases m <;> rfl

/-- **Hiding groups of one CPU loses nothing.**  Whatever the machine, the options and the events, as
long as none of them is a change to zero, every core and every cluster that has just one CPU shows
what that CPU shows, at every point of the replay and in the analysis. -/
theorem Replay.lone_member_shown {d : Description} {t : Topology τ} (h : Topology.build d = .ok t)
    (o : ReplayOptions) (es : List (Event τ)) (hes : ∀ e ∈ es, e.kind ≠ .freqChange 0) :
    ∃ r₀ r : Replay τ, start d o = .ok r₀ ∧ r₀.processAll es = .ok r ∧
      ∀ top ∈ [r.topology, r.finish.topology], ∀ m ∈ top.entities, ∀ c,
        m.isGroup = true → m.members = [c] → m.tracks.ShowsAs c.tracks := by
  obtain ⟨r₀, r, h₀, hr, -, ht⟩ := exists_run h o es
  have hlone : ∀ m ∈ r.topology.entities, m.Lone o.compositeFrequency := by
    rw [ht]
    refine Topology.forall_entities_run_of (Q := (· ≠ .changeFreq 0))
      (fun m id time a ha hm => hm.apply id time ha) (Topology.lone_of_build h _) ?_
    rintro e he _ ha rfl
    exact hes e he (Event.kind_of_action? ha)
  refine ⟨r₀, r, h₀, hr, ?_⟩
  intro top htop m hm c hg hc
  rcases List.mem_pair.mp htop with rfl | rfl
  · have hl := hlone m hm
    exact (hl.doubles hg c hc).showsAs hl.settled.ordered (hl.member c hc).ordered
  · change m ∈ r.topology.abandon.entities at hm
    rw [Topology.entities_abandon] at hm
    obtain ⟨m₀, hm₀, rfl⟩ := List.mem_map.mp hm
    have hl := hlone m₀ hm₀
    rw [Entity.isGroup_abandon] at hg
    rw [Entity.members_abandon, List.map_eq_singleton_iff] at hc
    obtain ⟨c₀, hc₀, rfl⟩ := hc
    rw [Entity.tracks_abandon]
    exact (hl.doubles hg c₀ hc₀).abandon.showsAs hl.settled.ordered (hl.member c₀ hc₀).ordered

/-- Two clusters; the second holds a core with a single CPU. -/
def Description.loneCore : Description :=
  .ofPlacements [⟨0, 0, 0, false⟩, ⟨0, 0, 1, false⟩, ⟨1, 1, 2, false⟩] [⟨2, 0, "WFI", some 1000⟩]

/-- The single CPU changes its frequency while it runs, while it is idle and when it resumed. -/
theorem Replay.lone_member_shown_loneCore :
    ∃ r : Replay Float, (start .loneCore {} >>= (·.processAll [⟨0.1, 2, .freqChange 800⟩,
        ⟨0.5, 2, .idleEnter 0⟩, ⟨0.6, 2, .freqChange 1000⟩, ⟨0.7, 2, .freqChange 1200⟩,
        ⟨0.8, 2, .idleExit⟩, ⟨0.9, 2, .freqChange 800⟩])) = .ok r ∧
      ∀ m ∈ r.topology.entities, ∀ c, m.isGroup = true → m.members = [c] →
        m.tracks.ShowsAs c.tracks := by
  obtain ⟨r₀, r, h₀, hr, hshown⟩ := lone_member_shown (d := .loneCore) rfl {}
    [⟨0.1, 2, .freqChange 800⟩, ⟨0.5, 2, .idleEnter 0⟩, ⟨0.6, 2, .freqChange 1000⟩,
      ⟨0.7, 2, .freqChange 1200⟩, ⟨0.8, 2, .idleExit⟩, (⟨0.9, 2, .freqChange 800⟩ : Event Float)]
    (by simp)
  refine ⟨r, by rw [h₀]; exact hr, hshown _ List.mem_cons_self⟩

end PowerTrace
