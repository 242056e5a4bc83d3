import PowerTrace.Proofs.Dropping
import PowerTrace.Proofs.FullRefresh

/-!
# Events that happen twice

Tracers repeat themselves: an event may stand in the trace twice, with another time stamp the second
time.  The second one finds the machine where the first one put it, so it is counted and leaves no
other trace, whatever its time.

* `CStateTrack.record_record`, `PStateTrack.WellFormed.changeFreq_changeFreq` and its companions,
  `WakeupTable.charge_charge`: an operation on a track, done twice;
* `Cpu.apply_apply`, `Cpu.closedBy_apply`: an action on a CPU, done twice;
* `Topology.apply_eq_self`: where an action leaves the CPU alone it leaves the machine alone;
* `Topology.apply_apply`: hence an action on the machine, done twice;
* `Replay.process_repeated`: an event that happens twice.
-/

namespace PowerTrace

variable {τ : Type} [TimeValue τ]

/-! ### One track -/

/-- A transition leads to where the same transition leads nowhere. -/
theorem CStateTrack.record_record (t : CStateTrack τ) (time time' : τ) (new : Option Depth) :
    (t.record time new).1.record time' new = ((t.record time new).1, none) := by
  have h := (t.record time new).1.record_current time'
  rwa [current_record] at h

namespace PStateTrack

theorem enterIdle_of_idle {t : PStateTrack τ} (h : t.idle = true) (time : τ) :
    t.enterIdle time = t := by
  rw [enterIdle, if_pos h, ← h]

omit [TimeValue τ] in
theorem exitIdle_of_running {t : PStateTrack τ} (h : t.idle = false) (time : τ) :
    t.exitIdle time = t := by
  rw [exitIdle, if_neg (Bool.eq_false_iff.mp h)]

/-- The frequency a CPU already has opens no slot and moves no selection, so no dwell ends. -/
theorem WellFormed.changeFreq_current {t : PStateTrack τ} (hw : t.WellFormed) {f : Nat}
    (hf : t.currentFreq = some f) (time : τ) : t.changeFreq time f = t := by
  obtain ⟨hsame, hcur⟩ := hw.slotFor_currentFreq hf
  unfold PStateTrack.changeFreq
  dsimp only
  rw [hsame]
  split
  · rw [← hcur]
  · rw [PStateTrack.switchTo, if_pos hcur]

theorem WellFormed.changeFreq_changeFreq {t : PStateTrack τ} (hw : t.WellFormed) (time time' : τ)
    (f : Nat) : (t.changeFreq time f).changeFreq time' f = t.changeFreq time f :=
  (hw.changeFreq time f).changeFreq_current (t.currentFreq_changeFreq time f) time'

end PStateTrack

omit [TimeValue τ] in
/-- Of two wake-ups in a row the second is not charged: the first claimed the interval. -/
theorem WakeupTable.charge_charge (t : WakeupTable) (track : CStateTrack τ) (id : Option Int)
    (name : String) :
    (t.charge track id name).1.charge (t.charge track id name).2 id name =
      t.charge track id name := by
  have hclaimed : (t.charge track id name).2.claimed = true := by
    unfold charge
    split
    · assumption
    · rfl
  rw [charge, if_pos hclaimed]

/-! ### One CPU -/

/-- **An action done twice on a CPU is done once.** -/
theorem Cpu.apply_apply {c : Cpu τ} (hw : c.pstates.WellFormed) (time time' : τ) (a : Action) :
    (c.apply time a).apply time' a = c.apply time a := by
  cases a with
  | setDepth d =>
    cases d with
    | none =>
      show ({ c with
        cstates := ((c.cstates.record time none).1.record time' none).1
        pstates := (c.pstates.exitIdle time).exitIdle time' } : Cpu τ) = _
      rw [CStateTrack.record_record,
        PStateTrack.exitIdle_of_running (c.pstates.idle_exitIdle time)]
      rfl
    | some d =>
      show ({ c with
        cstates := ((c.cstates.record time (some d)).1.record time' (some d)).1
        pstates := (c.pstates.enterIdle time).enterIdle time' } : Cpu τ) = _
      rw [CStateTrack.record_record, PStateTrack.enterIdle_of_idle rfl]
      rfl
  | changeFreq f =>
    show ({ c with pstates := (c.pstates.changeFreq time f).changeFreq time' f } : Cpu τ) = _
    rw [hw.changeFreq_changeFreq]
    rfl
  | wake id name =>
    have hcharge := c.wakeups.charge_charge c.cstates id name
    show ({ c with
      cstates := ((c.wakeups.charge c.cstates id name).1.charge
        (c.wakeups.charge c.cstates id name).2 id name).2
      wakeups := ((c.wakeups.charge c.cstates id name).1.charge
        (c.wakeups.charge c.cstates id name).2 id name).1 } : Cpu τ) = _
    rw [hcharge]
    rfl

/-- The second of two actions closes no idle interval. -/
theorem Cpu.closedBy_apply (c : Cpu τ) (time time' : τ) (a : Action) :
    (c.apply time a).closedBy time' a = none := by
  cases a with
  | setDepth d => exact congrArg Prod.snd (c.cstates.record_record time time' d)
  | changeFreq f => rfl
  | wake id name => rfl

/-! ### The machine -/

variable {x : Extremum} {id : CpuId} {time : τ} {a : Action}

theorem Core.apply_eq_self {k : Core τ} (h : (Entity.core k).Settled x)
    (hcpus : applyToCpu id time a k.cpus = k.cpus) : k.apply x id time a = k := by
  have hmember : k.applyToMember id time a = k := by rw [applyToMember, hcpus]
  rw [Core.apply_eq_refresh x id time a h, hmember,
    Core.refresh_eq_self h.coherent h.ordered time]

theorem Cluster.apply_eq_self {c : Cluster τ} (h : (Entity.cluster c).Settled x)
    (hcores : c.cores.map (·.apply x id time a) = c.cores) : c.apply x id time a = c := by
  have hmember : c.applyToMember x id time a = c := by rw [applyToMember, hcores]
  rw [Cluster.apply_eq_refresh x id time a h, hmember,
    Cluster.refresh_eq_self h.coherent h.ordered time]

/-- **Where an action leaves its CPU alone it leaves the machine alone**: the owners of that CPU
follow their members already. -/
theorem Topology.apply_eq_self {t : Topology τ} (h : ∀ m ∈ t.entities, m.Settled x)
    (hcpu : ∀ c ∈ t.cpus, c.id = id → c.apply time a = c) : t.apply x id time a = t := by
  have hcore : ∀ u ∈ t.clusters, ∀ k ∈ u.cores, k.apply x id time a = k := by
    intro u hu k hk
    refine Core.apply_eq_self (h _ (mem_entities_core hu hk)) ?_
    refine (List.map_congr_left fun c hc => ?_).trans (List.map_id' _)
    have hmem : c ∈ t.cpus := mem_cpus_of_mem_members (mem_entities_core hu hk) hc
    split
    · next hid => exact hcpu c hmem hid
    · rfl
  have hcluster : ∀ u ∈ t.clusters, u.apply x id time a = u := by
    intro u hu
    refine Cluster.apply_eq_self (h _ (mem_entities_cluster hu)) ?_
    exact (List.map_congr_left (hcore u hu)).trans (List.map_id' _)
  rw [Topology.apply, List.map_congr_left hcluster, List.map_id']

theorem Topology.forall_settled_apply {t : Topology τ} (h : ∀ m ∈ t.entities, m.Settled x)
    (id : CpuId) (time : τ) (a : Action) : ∀ m ∈ (t.apply x id time a).entities, m.Settled x := by
  intro m hm
  rw [entities_apply] at hm
  obtain ⟨n, hn, rfl⟩ := List.mem_map.mp hm
  exact (h n hn).apply id time a

/-- **An action done twice on the machine is done once**, whenever it is done again. -/
theorem Topology.apply_apply {t : Topology τ} (h : ∀ m ∈ t.entities, m.Settled x) (id : CpuId)
    (time time' : τ) (a : Action) :
    (t.apply x id time a).apply x id time' a = t.apply x id time a := by
  refine Topology.apply_eq_self (Topology.forall_settled_apply h id time a) ?_
  intro c hc hid
  rw [cpus_apply] at hc
  obtain ⟨c₀, hc₀, rfl⟩ := List.mem_map.mp hc
  have hw : c₀.pstates.WellFormed := (h _ (mem_entities_cpu hc₀)).ordered
  split at hid
  · next h₀ =>
    rw [if_pos h₀]
    exact Cpu.apply_apply hw time time' a
  · next h₀ => exact absurd hid h₀

theorem Topology.closedBy_apply (t : Topology τ) (x : Extremum) (id : CpuId) (time time' : τ)
    (a : Action) : ((t.apply x id time a).cpu? id).bind (·.closedBy time' a) = none := by
  rw [cpu?_apply]
  cases hc : t.cpu? id with
  | none => rfl
  | some c =>
    rw [Option.map_some, if_pos (key_of_find? Cpu.id hc)]
    exact c.closedBy_apply time time' a

/-! ### The replay -/

namespace Replay

theorem retain_of_not_closed {r : Replay τ} {cpu : CpuId} {time : τ} {a : Action}
    (h : (r.topology.cpu? cpu).bind (·.closedBy time a) = none) :
    r.retain cpu time a = .ok r.retained := by
  unfold Replay.retain
  rw [h]
  cases r.retained <;> rfl

/-- No list of events unsettles a replay. -/
theorem Settled.processAll {r : Replay τ} (h : r.Settled) (es : List (Event τ)) :
    ∃ r', r.processAll es = .ok r' ∧ r'.Settled := by
  induction es generalizing r with
  | nil => exact ⟨r, rfl, h⟩
  | cons e es ih =>
    obtain ⟨r₁, h₁, hs₁⟩ := h.process e
    obtain ⟨r₂, h₂, hs₂⟩ := ih hs₁
    exact ⟨r₂, by rw [processAll_cons, h₁]; exact h₂, hs₂⟩

/-- From building a machine to a settled replay at the end of its events. -/
theorem exists_settled_run {d : Description} {t : Topology τ} (h : Topology.build d = .ok t)
    (o : ReplayOptions) (es : List (Event τ)) :
    ∃ r₀ r : Replay τ, start d o = .ok r₀ ∧ r₀.processAll es = .ok r ∧ r.Settled ∧
      r.topology.cpuIds = d.layout.cpuIds := by
  obtain ⟨r₀, r, h₀, hr, -, ht⟩ := exists_run h o es
  obtain ⟨r₀', h₀', hs₀⟩ := exists_settled_start h o
  obtain rfl : r₀ = r₀' := Except.ok.inj (h₀.symm.trans h₀')
  obtain ⟨r', hr', hs⟩ := hs₀.processAll es
  obtain rfl : r = r' := Except.ok.inj (hr.symm.trans hr')
  exact ⟨r₀, r, h₀, hr, hs, by rw [ht, Topology.cpuIds_run, Topology.cpuIds_of_build h]⟩

/-- An event that was applied, once more: it is counted. -/
theorem Settled.process_again {r : Replay τ} (h : r.Settled) {e : Event τ}
    (hv : ¬ e.IsInvalid r.topology.cpuIds) (time' : τ) :
    ∃ r₁, r.process e = .ok r₁ ∧ r₁.summary = r.summary.count e ∧
      r₁.process { e with time := time' } =
        .ok { r₁ with summary := r₁.summary.count { e with time := time' } } := by
  obtain ⟨a, ha⟩ := Event.exists_action?_of_not_isInvalid hv
  obtain ⟨kept, hk, -⟩ := h.sound.retain e.cpu e.time a
  refine ⟨_, process_of_accepted ha hk, rfl, ?_⟩
  have hstay := Topology.apply_apply h.nodes e.cpu e.time time' a
  refine (process_of_accepted (a := a) ?_ (retain_of_not_closed ?_)).trans ?_
  · show e.action? (r.topology.apply r.options.compositeFrequency e.cpu e.time a).cpuIds = some a
    rw [Topology.cpuIds_apply, ha]
  · exact r.topology.closedBy_apply _ e.cpu e.time time' a
  · dsimp only
    rw [hstay]

/-- **An event that happens twice happens once.**  Whatever the machine, the options and the events
so far, the next event, repeated at any instant, even an earlier one, leaves the whole machine with
all tracks and tables, and all intervals kept, as the first one left them.  The number of dropped
events grows by one if the event is one that is dropped; otherwise the number of applied events
does, and the end moves to the second instant if the event is one of idling. -/
theorem process_repeated {d : Description} {t : Topology τ} (h : Topology.build d = .ok t)
    (o : ReplayOptions) (es : List (Event τ)) (e : Event τ) (time' : τ) :
    ∃ r₀ r r₁ : Replay τ, start d o = .ok r₀ ∧ r₀.processAll es = .ok r ∧ r.process e = .ok r₁ ∧
      (e.IsInvalid d.layout.cpuIds →
        r₁.summary = r.summary.drop ∧
        r₁.process { e with time := time' } =
          .ok { r₁ with summary := { r₁.summary with dropped := r₁.summary.dropped + 1 } }) ∧
      (¬ e.IsInvalid d.layout.cpuIds →
        r₁.summary = r.summary.count e ∧
        r₁.process { e with time := time' } =
          .ok { r₁ with summary := { r₁.summary with
            events := r₁.summary.events + 1
            stop := if e.kind.isIdle then some time' else r₁.summary.stop } }) := by
  obtain ⟨r₀, r, h₀, hr, hs, hids⟩ := exists_settled_run h o es
  by_cases hv : e.IsInvalid d.layout.cpuIds
  · have hdrop := process_of_isInvalid (r := r) (hids ▸ hv)
    refine ⟨r₀, r, _, h₀, hr, hdrop, fun _ => ⟨rfl, ?_⟩, fun hn => absurd hv hn⟩
    exact process_of_isInvalid (e := { e with time := time' }) (hids ▸ hv)
  · obtain ⟨r₁, h₁, hcount, hagain⟩ := hs.process_again (hids ▸ hv) time'
    refine ⟨r₀, r, r₁, h₀, hr, h₁, fun hi => absurd hi hv, fun _ => ⟨hcount, hagain.trans ?_⟩⟩
    -- the first of the two events has begun the summary if the second could have
    rw [hcount]
    congr 2
    unfold Summary.count
    cases e.kind.isIdle <;> cases r.summary.start <;> rfl

/-- A CPU is woken while its core is idle; the interrupt happens twice, the second time before the
first. -/
theorem process_repeated_sharedCore :
    ∃ (t : Topology Float) (r₀ r r₁ : Replay Float), Topology.build .sharedCore = .ok t ∧
      start .sharedCore { retainIntervals := true } = .ok r₀ ∧
      r₀.processAll [⟨0.5, 0, .idleEnter 2⟩, ⟨0.6, 1, .idleEnter 1⟩, ⟨0.7, 0, .idleExit⟩] = .ok r ∧
      r.process ⟨0.8, 0, .wakeup (some 4) "timer"⟩ = .ok r₁ ∧
      r₁.process ⟨0.4, 0, .wakeup (some 4) "timer"⟩ =
        .ok { r₁ with summary := { r₁.summary with events := r₁.summary.events + 1 } } := by
  obtain ⟨r₀, r, r₁, h₀, hr, h₁, -, hagain⟩ := process_repeated (d := .sharedCore) rfl
    { retainIntervals := true } [⟨0.5, 0, .idleEnter 2⟩, ⟨0.6, 1, .idleEnter 1⟩, ⟨0.7, 0, .idleExit⟩]
    ⟨0.8, 0, .wakeup (some 4) "timer"⟩ (0.4 : Float)
  have hvalid : ¬ (⟨0.8, 0, .wakeup (some 4) "timer"⟩ : Event Float).IsInvalid
      Description.sharedCore.layout.cpuIds := by
    rintro (hno | ⟨depth, hdepth, -⟩)
    · exact hno (List.mem_cons_self)
    · cases hdepth
  exact ⟨_, r₀, r, r₁, rfl, h₀, hr, h₁, (hagain hvalid).2⟩

end Replay

end PowerTrace
