import PowerTrace.Proofs.Accounting

/-!
# Refreshing the owners is refreshing everything

An action on a CPU refreshes its core and its cluster, and only if it can move them.  A plainer
replay recomputes the composite state of every core and every cluster after every action, wake-ups
included.  Both end in the same place, because a group that already stands where its members put it
takes no notice of being fed that state again.

* `Topology.refreshAll`, `Replay.processAllPlainly`: the plainer replay;
* `CStateTrack.record_current`, `PStateTrack.groupFreq_current`: a state fed again changes nothing;
* `Tracks.Follow.feed_eq`: hence a group that follows its members can be fed at any instant;
* `Topology.apply_eq_applyPlainly`, `Replay.Settled.process_eq_processPlainly`: one action, one event;
* `Replay.processAll_eq_processAllPlainly`: a whole replay.
-/

namespace PowerTrace

variable {τ : Type} [TimeValue τ]

/-! ### The plainer replay -/

/-- Apply an action to the CPU with a given number, leaving all groups as they are. -/
def Topology.applyToMember (cpu : CpuId) (time : τ) (a : Action) (t : Topology τ) : Topology τ :=
  ⟨t.clusters.map fun c => { c with cores := c.cores.map (·.applyToMember cpu time a) }⟩

/-- Feed every core of a cluster, then the cluster itself, the composite state of its CPUs. -/
def Cluster.refreshAll (x : Extremum) (time : τ) (c : Cluster τ) : Cluster τ :=
  Cluster.refresh x time { c with cores := c.cores.map (·.refresh x time) }

/-- Feed every core and every cluster of a machine the composite state of its CPUs. -/
def Topology.refreshAll (x : Extremum) (time : τ) (t : Topology τ) : Topology τ :=
  ⟨t.clusters.map (·.refreshAll x time)⟩

/-- An action of any kind, after which every core and every cluster is refreshed. -/
def Topology.applyPlainly (x : Extremum) (cpu : CpuId) (time : τ) (a : Action) (t : Topology τ) :
    Topology τ :=
  (t.applyToMember cpu time a).refreshAll x time

namespace Replay

/-- Apply an event that the machine accepts, after which every core and every cluster is refreshed, and keep
the idle interval that it ends. -/
def applyPlainly (r : Replay τ) (e : Event τ) : Except Error (Replay τ) := do
  let action ← r.action e
  let retained ← r.retain e.cpu e.time action
  .ok { r with
    topology := r.topology.applyPlainly r.options.compositeFrequency e.cpu e.time action
    retained }

/-- Apply an event and count it, or drop it if the machine does not accept it. -/
def processPlainly (r : Replay τ) (e : Event τ) : Except Error (Replay τ) :=
  match r.applyPlainly e with
  | .ok next => .ok { next with summary := next.summary.count e }
  | .error err =>
    if err.isRecoverable then .ok { r with summary := r.summary.drop } else .error err

/-- The replay that refreshes everything after every event it accepts. -/
def processAllPlainly (r : Replay τ) (es : List (Event τ)) : Except Error (Replay τ) :=
  es.foldlM processPlainly r

@[simp] theorem processAllPlainly_nil (r : Replay τ) : r.processAllPlainly [] = .ok r := rfl

@[simp] theorem processAllPlainly_cons (r : Replay τ) (e : Event τ) (es : List (Event τ)) :
    r.processAllPlainly (e :: es) = r.processPlainly e >>= (·.processAllPlainly es) := rfl

end Replay

/-! ### A state that is fed again -/

/-- The depth an entity already has is no transition: the open interval goes on, and a wake-up that
was charged stays charged. -/
theorem CStateTrack.record_current (t : CStateTrack τ) (time : τ) :
    t.record time t.current = (t, none) := if_pos rfl

namespace PStateTrack

theorem groupFreq_zero_of_none {t : PStateTrack τ} (h : t.current = none) (time : τ) :
    t.groupFreq time 0 = t := by
  rw [groupFreq, if_pos rfl, closeDwell_of_none h, ← h]

/-- The position of the selected frequency is the selection itself. -/
theorem WellFormed.slotFor_currentFreq {t : PStateTrack τ} (hw : t.WellFormed) {f : Nat}
    (hf : t.currentFreq = some f) :
    (t.slotFor f).1 = t ∧ t.current = some (t.slotFor f).2 := by
  obtain ⟨s, hs, rfl⟩ := Option.map_eq_some_iff.mp hf
  obtain ⟨i, hi, hget⟩ := Option.bind_eq_some_iff.mp hs
  have hsame : (t.slotFor s.freq).1 = t :=
    slotFor_of_mem (List.mem_map_of_mem (List.mem_of_getElem? hget))
  obtain ⟨p, hp, hpf⟩ := t.getElem?_slotFor s.freq
  rw [hsame] at hp
  exact ⟨hsame, by rw [hi, hw.position_unique hget hp hpf.symm]⟩

/-- The frequency a group already has opens no slot, closes no dwell and begins none. -/
theorem WellFormed.groupFreq_current {t : PStateTrack τ} (hw : t.WellFormed) {f : Nat} (h₀ : f ≠ 0)
    (hf : t.currentFreq = some f) (time : τ) : t.groupFreq time f = t := by
  obtain ⟨hsame, hcur⟩ := hw.slotFor_currentFreq hf
  rw [PStateTrack.groupFreq, if_neg h₀, hsame, PStateTrack.switchTo, if_pos hcur]

end PStateTrack

/-- **A group that follows its members takes no notice of being fed.** -/
theorem Tracks.Follow.feed_eq {x : Extremum} {members : List (Cpu τ)} {s : Tracks τ}
    (h : s.Follow x members) (hw : s.pstates.WellFormed) (time : τ) :
    s.feed x time members = s := by
  have hdepth : (s.cstates.record time (compositeDepth members)).1 = s.cstates := by
    rw [← h.depth, CStateTrack.record_current]
  have hfreq : s.pstates.groupFreq time (compositeFreq x members) = s.pstates := by
    by_cases h₀ : compositeFreq x members = 0
    · rw [h₀]
      exact PStateTrack.groupFreq_zero_of_none (h.unknown h₀) time
    · exact hw.groupFreq_current h₀ (h.freq h₀) time
  rw [Tracks.feed, hdepth, hfreq]

theorem Core.refresh_eq_self {x : Extremum} {k : Core τ} (h : Tracks.Follow x k.cpus k.tracks)
    (hw : k.pstates.WellFormed) (time : τ) : k.refresh x time = k := by
  have hfeed : k.tracks.feed x time k.cpus = k.tracks := h.feed_eq hw time
  show { k with
    cstates := (k.tracks.feed x time k.cpus).cstates
    pstates := (k.tracks.feed x time k.cpus).pstates } = k
  rw [hfeed]
  rfl

theorem Cluster.refresh_eq_self {x : Extremum} {c : Cluster τ}
    (h : Tracks.Follow x c.cpus c.tracks) (hw : c.pstates.WellFormed) (time : τ) :
    c.refresh x time = c := by
  have hfeed : c.tracks.feed x time c.cpus = c.tracks := h.feed_eq hw time
  show { c with
    cstates := (c.tracks.feed x time c.cpus).cstates
    pstates := (c.tracks.feed x time c.cpus).pstates } = c
  rw [hfeed]
  rfl

/-! ### One action -/

variable (x : Extremum) (id : CpuId) (time : τ) (a : Action)

/-- What an action does to a core is what it does to its CPU, and a refresh: either the refresh is
part of the action, or the core follows its members as it is. -/
theorem Core.apply_eq_refresh {k : Core τ} (h : (Entity.core k).Settled x) :
    k.apply x id time a = (k.applyToMember id time a).refresh x time := by
  have hafter : ((Entity.core k).apply x id time a).Settled x := h.apply id time a
  have hself : (k.apply x id time a).refresh x time = k.apply x id time a :=
    Core.refresh_eq_self hafter.coherent hafter.ordered time
  cases ho : k.owns id with
  | false =>
    have hmember : k.applyToMember id time a = k.apply x id time a := by
      rw [Core.apply_of_not_owns x id time a ho, applyToMember, applyToCpu_eq_self ho]
    rw [hmember, hself]
  | true =>
    cases hm : a.movesGroups with
    | false =>
      have hmember : k.apply x id time a = k.applyToMember id time a := by
        rw [Core.apply, if_pos ho]
        exact if_neg (Bool.eq_false_iff.mp hm)
      rw [← hmember, hself]
    | true =>
      rw [Core.apply, if_pos ho]
      exact if_pos hm

/-- The same of a cluster, whose cores have acted already. -/
theorem Cluster.apply_eq_refresh {c : Cluster τ} (h : (Entity.cluster c).Settled x) :
    c.apply x id time a = (c.applyToMember x id time a).refresh x time := by
  have hafter : ((Entity.cluster c).apply x id time a).Settled x := h.apply id time a
  have hself : (c.apply x id time a).refresh x time = c.apply x id time a :=
    Cluster.refresh_eq_self hafter.coherent hafter.ordered time
  cases ho : c.owns id with
  | false =>
    have hmember : c.applyToMember x id time a = c.apply x id time a := by
      rw [applyToMember, ← Cluster.cores_apply, Cluster.apply_of_not_owns x id time a ho]
    rw [hmember, hself]
  | true =>
    cases hm : a.movesGroups with
    | false =>
      have hmember : c.apply x id time a = c.applyToMember x id time a := by
        rw [Cluster.apply, if_pos ho]
        exact if_neg (Bool.eq_false_iff.mp hm)
      rw [← hmember, hself]
    | true =>
      rw [Cluster.apply, if_pos ho]
      exact if_pos hm

/-- **An action refreshes as much as it has to.** -/
theorem Topology.apply_eq_applyPlainly {t : Topology τ} (h : ∀ m ∈ t.entities, m.Settled x) :
    t.apply x id time a = t.applyPlainly x id time a := by
  rw [apply, applyPlainly, refreshAll, applyToMember, List.map_map]
  congr 1
  refine List.map_congr_left fun c hc => ?_
  have hcores : c.cores.map (·.apply x id time a) =
      c.cores.map fun k => (k.applyToMember id time a).refresh x time :=
    List.map_congr_left fun k hk =>
      Core.apply_eq_refresh x id time a (h _ (mem_entities_core hc hk))
  rw [Cluster.apply_eq_refresh x id time a (h _ (mem_entities_cluster hc)), Cluster.applyToMember,
    hcores, Function.comp_apply, Cluster.refreshAll, List.map_map]
  rfl

/-! ### A whole replay -/

namespace Replay

theorem Settled.process_eq_processPlainly {r : Replay τ} (h : r.Settled) (e : Event τ) :
    r.process e = r.processPlainly e := by
  have happly : r.apply e = r.applyPlainly e := by
    unfold Replay.apply applyPlainly
    simp only [Topology.apply_eq_applyPlainly _ _ _ _ h.nodes]
  cases hplain : r.applyPlainly e <;> simp only [Replay.process, processPlainly, happly, hplain]

/-- Every machine on the way is settled, so each event does the same in both replays. -/
theorem Settled.processAll_eq {r : Replay τ} (h : r.Settled) (es : List (Event τ)) :
    r.processAll es = r.processAllPlainly es := by
  induction es generalizing r with
  | nil => rfl
  | cons e es ih =>
    obtain ⟨r₁, h₁, hs₁⟩ := h.process e
    rw [processAll_cons, processAllPlainly_cons, ← h.process_eq_processPlainly e, h₁]
    exact ih hs₁

/-- **Refreshing the owners is as good as refreshing everything.**  Whatever the machine, the
options, the instants and the order of the events, the replay and the plainer one get to the end of
every list of events, so also to the end of each of its beginnings, and arrive at the same machine
with all its tracks and tables, the same intervals kept and the same summary. -/
theorem processAll_eq_processAllPlainly {d : Description} {t : Topology τ}
    (h : Topology.build d = .ok t) (o : ReplayOptions) (es : List (Event τ)) :
    ∃ r₀ r : Replay τ, start d o = .ok r₀ ∧ r₀.processAll es = .ok r ∧
      r₀.processAllPlainly es = .ok r := by
  obtain ⟨r₀, h₀, hs₀⟩ := exists_settled_start h o
  obtain ⟨r, hr, -⟩ := hs₀.sound.processAll es
  exact ⟨r₀, r, h₀, hr, (hs₀.processAll_eq es).symm.trans hr⟩

/-- The first CPU of a core is woken while the core is idle, the second changes its frequency and
resumes; what each closes is kept. -/
theorem processAll_eq_processAllPlainly_sharedCore :
    ∃ t : Topology Float, Topology.build .sharedCore = .ok t ∧
      ∃ r₀ r : Replay Float, start .sharedCore { retainIntervals := true } = .ok r₀ ∧
        r₀.processAll [⟨0.5, 0, .idleEnter 2⟩, ⟨0.6, 1, .idleEnter 1⟩,
          ⟨0.7, 0, .wakeup (some 4) "timer"⟩, ⟨0.8, 1, .freqChange 800⟩, ⟨0.9, 1, .idleExit⟩] =
            .ok r ∧
        r₀.processAllPlainly [⟨0.5, 0, .idleEnter 2⟩, ⟨0.6, 1, .idleEnter 1⟩,
          ⟨0.7, 0, .wakeup (some 4) "timer"⟩, ⟨0.8, 1, .freqChange 800⟩, ⟨0.9, 1, .idleExit⟩] =
            .ok r :=
  ⟨_, rfl, processAll_eq_processAllPlainly rfl { retainIntervals := true } _⟩

end Replay

end PowerTrace
