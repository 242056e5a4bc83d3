import PowerTrace.Proofs.Overlap

/-!
# What an option can change

A replay has three options, and each of them is good for one thing only.  The composite frequency
decides at which frequencies the groups run; whether intervals are kept decides whether there are
any to ask for; and the verbosity decides what is said and nothing else.

* `Topology.forgetGroupFreqs`: a machine without the frequencies of its cores and clusters;
* `Topology.forgetGroupFreqs_apply`: what an action does to the rest does not depend on the choice
  of composite frequency, nor on the frequencies that were forgotten;
* `Replay.Alike`: what two replays with different options have in common at every point;
* `Replay.analyzeLogged_options`: hence what their analyses have in common.
-/

namespace PowerTrace

variable {τ : Type} [TimeValue τ]

/-! ### Machines without the frequencies of their groups -/

/-- A core without its composite frequencies; its idle states and its CPUs stay. -/
def Core.forgetFreqs (k : Core τ) : Core τ := { k with pstates := .empty }

/-- A cluster without the composite frequencies of itself and its cores. -/
def Cluster.forgetFreqs (c : Cluster τ) : Cluster τ :=
  { c with cores := c.cores.map (·.forgetFreqs), pstates := .empty }

/-- A machine without the composite frequencies of its cores and clusters.  All of their idle states
stay, and all there is of the CPUs. -/
def Topology.forgetGroupFreqs (t : Topology τ) : Topology τ := ⟨t.clusters.map (·.forgetFreqs)⟩

@[simp] theorem Cluster.cpus_forgetFreqs (c : Cluster τ) : c.forgetFreqs.cpus = c.cpus := by
  rw [cpus, forgetFreqs, List.flatMap_map]
  rfl

@[simp] theorem Cluster.owns_forgetFreqs (c : Cluster τ) (id : CpuId) :
    c.forgetFreqs.owns id = c.owns id := by
  rw [owns_eq, cpus_forgetFreqs, owns_eq]

@[simp] theorem Cluster.forgetFreqs_forgetFreqs (c : Cluster τ) :
    c.forgetFreqs.forgetFreqs = c.forgetFreqs := by
  rw [forgetFreqs, forgetFreqs, List.map_map]
  rfl

namespace Topology

@[simp] theorem cpus_forgetGroupFreqs (t : Topology τ) : t.forgetGroupFreqs.cpus = t.cpus := by
  rw [cpus, forgetGroupFreqs, List.flatMap_map]
  simp only [Cluster.cpus_forgetFreqs]
  rfl

/-- Machines that differ in nothing but the frequencies of their groups have the same CPUs. -/
theorem cpus_eq_of_forgetGroupFreqs {t t' : Topology τ}
    (h : t.forgetGroupFreqs = t'.forgetGroupFreqs) : t.cpus = t'.cpus := by
  rw [← cpus_forgetGroupFreqs, h, cpus_forgetGroupFreqs]

end Topology

/-! ### One action -/

section Action

variable (x x' : Extremum) (id : CpuId) (time : τ) (a : Action)

/-- The idle states of a core and its CPUs go on as before without its frequencies. -/
theorem Core.forgetFreqs_apply (k : Core τ) :
    (k.forgetFreqs.apply x' id time a).forgetFreqs = (k.apply x id time a).forgetFreqs := by
  cases ho : k.owns id with
  | false =>
    have ho' : k.forgetFreqs.owns id = false := ho
    rw [Core.apply_of_not_owns _ _ _ _ ho', Core.apply_of_not_owns _ _ _ _ ho]
    rfl
  | true =>
    have ho' : k.forgetFreqs.owns id = true := ho
    rw [Core.apply, if_pos ho', Core.apply, if_pos ho]
    dsimp only
    split <;> rfl

theorem Cluster.cpus_applyToMember (c : Cluster τ) :
    (c.applyToMember x id time a).cpus = applyToCpu id time a c.cpus := by
  rw [applyToMember, ← Cluster.cores_apply]
  exact c.cpus_apply x id time a

theorem Cluster.forgetFreqs_applyToMember (c : Cluster τ) :
    (c.forgetFreqs.applyToMember x' id time a).forgetFreqs =
      (c.applyToMember x id time a).forgetFreqs := by
  have hcores : (c.forgetFreqs.applyToMember x' id time a).cores.map (·.forgetFreqs) =
      (c.applyToMember x id time a).cores.map (·.forgetFreqs) := by
    rw [applyToMember, forgetFreqs, applyToMember, List.map_map, List.map_map, List.map_map]
    exact List.map_congr_left fun k _ => k.forgetFreqs_apply x x' id time a
  rw [forgetFreqs, hcores]
  rfl

/-- The same of a cluster, whose idle states depend on those of its CPUs alone. -/
theorem Cluster.forgetFreqs_apply (c : Cluster τ) :
    (c.forgetFreqs.apply x' id time a).forgetFreqs = (c.apply x id time a).forgetFreqs := by
  cases ho : c.owns id with
  | false =>
    have ho' : c.forgetFreqs.owns id = false := by rw [owns_forgetFreqs, ho]
    rw [Cluster.apply_of_not_owns _ _ _ _ ho', Cluster.apply_of_not_owns _ _ _ _ ho,
      forgetFreqs_forgetFreqs]
  | true =>
    have ho' : c.forgetFreqs.owns id = true := by rw [owns_forgetFreqs, ho]
    have hmember := c.forgetFreqs_applyToMember x x' id time a
    have hcpus : (c.forgetFreqs.applyToMember x' id time a).cpus =
        (c.applyToMember x id time a).cpus := by
      rw [cpus_applyToMember, cpus_applyToMember, cpus_forgetFreqs]
    rw [Cluster.apply, if_pos ho', Cluster.apply, if_pos ho]
    dsimp only
    split
    · show Cluster.mk _ _ (CStateTrack.record _ time (compositeDepth _)).1 _ =
        Cluster.mk _ _ (CStateTrack.record _ time (compositeDepth _)).1 _
      rw [hcpus]
      congr 1
      exact congrArg Cluster.cores hmember
    · exact hmember

namespace Topology

/-- **What an action does apart from group frequencies** depends neither on the choice of composite
frequency nor on the group frequencies so far. -/
theorem forgetGroupFreqs_apply (t : Topology τ) :
    (t.forgetGroupFreqs.apply x' id time a).forgetGroupFreqs =
      (t.apply x id time a).forgetGroupFreqs := by
  rw [apply, forgetGroupFreqs, forgetGroupFreqs, List.map_map, List.map_map, apply,
    forgetGroupFreqs, List.map_map]
  congr 1
  exact List.map_congr_left fun c _ => c.forgetFreqs_apply x x' id time a

theorem forgetGroupFreqs_apply_congr {t t' : Topology τ}
    (h : t.forgetGroupFreqs = t'.forgetGroupFreqs) :
    (t.apply x id time a).forgetGroupFreqs = (t'.apply x' id time a).forgetGroupFreqs := by
  rw [← t.forgetGroupFreqs_apply x x', h, t'.forgetGroupFreqs_apply x' x']

/-- Closing what is open at the end touches no frequency. -/
theorem forgetGroupFreqs_abandon (t : Topology τ) :
    t.abandon.forgetGroupFreqs = t.forgetGroupFreqs.abandon := by
  have hcluster : ∀ c : Cluster τ, c.abandon.forgetFreqs = c.forgetFreqs.abandon := by
    intro c
    rw [Cluster.abandon, Cluster.forgetFreqs, List.map_map, Cluster.abandon, Cluster.forgetFreqs,
      List.map_map]
    rfl
  rw [abandon, forgetGroupFreqs, List.map_map, abandon, forgetGroupFreqs, List.map_map]
  congr 1
  exact List.map_congr_left fun c _ => hcluster c

end Topology

end Action

/-! ### Two replays -/

namespace Replay

/-- What two replays of the same events have in common, whatever their options. -/
structure Alike (r r' : Replay τ) : Prop where
  /-- All CPUs, and the idle states of all groups. -/
  machine : r.topology.forgetGroupFreqs = r'.topology.forgetGroupFreqs
  /-- What was seen. -/
  summary : r.summary = r'.summary
  /-- The frequencies of the groups too, if they are composed in the same way. -/
  freqs : r.options.compositeFrequency = r'.options.compositeFrequency → r.topology = r'.topology
  /-- The intervals, if both keep them or neither does. -/
  retained : r.options.retainIntervals = r'.options.retainIntervals → r.retained = r'.retained

/-- What is kept after an action depends on what was kept before and on the CPU. -/
theorem retain_congr {r r' : Replay τ} (hkept : r.retained = r'.retained) {cpu : CpuId}
    (hcpu : r.topology.cpu? cpu = r'.topology.cpu? cpu) (time : τ) (a : Action) :
    r.retain cpu time a = r'.retain cpu time a := by
  rw [Replay.retain, hkept, hcpu, Replay.retain]

/-- The replay of a machine that was built, before its first event. -/
theorem start_eq {d : Description} {t : Topology τ} (h : Topology.build d = .ok t)
    (o : ReplayOptions) :
    start d o = .ok ⟨o, t, .empty, if o.retainIntervals then some .empty else none⟩ := by
  rw [start, h]
  rfl

theorem alike_start (t : Topology τ) (o o' : ReplayOptions) :
    (⟨o, t, .empty, if o.retainIntervals then some .empty else none⟩ : Replay τ).Alike
      ⟨o', t, .empty, if o'.retainIntervals then some .empty else none⟩ := by
  refine ⟨rfl, rfl, fun _ => rfl, fun hkeep => ?_⟩
  dsimp only at hkeep ⊢
  rw [hkeep]

/-- **No event tells two replays apart.** -/
theorem Alike.process {r r' : Replay τ} (h : r.Alike r') (hs : r.Sound) (hs' : r'.Sound)
    (e : Event τ) :
    ∃ r₁ r₁', r.process e = .ok r₁ ∧ r'.process e = .ok r₁' ∧ r₁.Alike r₁' := by
  have hcpus : r.topology.cpus = r'.topology.cpus :=
    Topology.cpus_eq_of_forgetGroupFreqs h.machine
  have hids : r.topology.cpuIds = r'.topology.cpuIds := congrArg (List.map Cpu.id) hcpus
  have hcpu : r.topology.cpu? e.cpu = r'.topology.cpu? e.cpu :=
    congrArg (List.find? fun c : Cpu τ => c.id == e.cpu) hcpus
  cases ha : e.action? r.topology.cpuIds with
  | none =>
    refine ⟨_, _, process_of_dropped ha, process_of_dropped (hids ▸ ha), h.machine, ?_, h.freqs,
      h.retained⟩
    exact congrArg Summary.drop h.summary
  | some a =>
    obtain ⟨kept, hk, -⟩ := hs.retain e.cpu e.time a
    obtain ⟨kept', hk', -⟩ := hs'.retain e.cpu e.time a
    refine ⟨_, _, process_of_accepted ha hk, process_of_accepted (hids ▸ ha) hk', ?_, ?_, ?_, ?_⟩
    · exact Topology.forgetGroupFreqs_apply_congr _ _ e.cpu e.time a h.machine
    · exact congrArg (·.count e) h.summary
    · intro hfreq
      show r.topology.apply _ e.cpu e.time a = r'.topology.apply _ e.cpu e.time a
      rw [h.freqs hfreq, show r.options.compositeFrequency = _ from hfreq]
    · intro hkeep
      have hsame := retain_congr (h.retained hkeep) hcpu e.time a
      exact Except.ok.inj (hk.symm.trans (hsame.trans hk'))

/-- **No list of events tells two replays apart.** -/
theorem Alike.processAll {r r' : Replay τ} (h : r.Alike r') (hs : r.Sound) (hs' : r'.Sound)
    (es : List (Event τ)) :
    ∃ r₁ r₁', r.processAll es = .ok r₁ ∧ r'.processAll es = .ok r₁' ∧ r₁.Alike r₁' ∧
      r₁.options = r.options ∧ r₁'.options = r'.options := by
  induction es generalizing r r' with
  | nil => exact ⟨r, r', rfl, rfl, h, rfl, rfl⟩
  | cons e es ih =>
    obtain ⟨r₁, r₁', h₁, h₁', halike⟩ := h.process hs hs' e
    obtain ⟨r₂, h₂, hs₂, ho₂, -⟩ := hs.process e
    obtain ⟨r₂', h₂', hs₂', ho₂', -⟩ := hs'.process e
    obtain rfl := Except.ok.inj (h₁.symm.trans h₂)
    obtain rfl := Except.ok.inj (h₁'.symm.trans h₂')
    obtain ⟨r₃, r₃', h₃, h₃', halike₃, ho₃, ho₃'⟩ := ih halike hs₂ hs₂'
    refine ⟨r₃, r₃', ?_, ?_, halike₃, ho₃.trans ho₂, ho₃'.trans ho₂'⟩
    · rw [processAll_cons, h₁]
      exact h₃
    · rw [processAll_cons, h₁']
      exact h₃'

/-! ### Two analyses -/

/-- Two replays of one machine end alike, and an analysis is what is left at the end of one. -/
theorem exists_alike {d : Description} {t : Topology τ} (h : Topology.build d = .ok t)
    (es : List (Event τ)) (o₁ o₂ : ReplayOptions) :
    ∃ r₁ r₂ : Replay τ,
      (start d o₁ >>= (·.processAll es)) = .ok r₁ ∧ (start d o₂ >>= (·.processAll es)) = .ok r₂ ∧
      analyze d es o₁ = .ok r₁.finish ∧ analyze d es o₂ = .ok r₂.finish ∧
      r₁.Alike r₂ ∧ r₁.options = o₁ ∧ r₂.options = o₂ := by
  have hsound : ∀ o, Sound (⟨o, t, .empty, if o.retainIntervals then some .empty else none⟩ :
      Replay τ) := fun o => (build_of_start (start_eq h o)).2
  obtain ⟨r₁, r₂, h₁, h₂, halike, ho₁, ho₂⟩ :=
    (alike_start t o₁ o₂).processAll (hsound o₁) (hsound o₂) es
  refine ⟨r₁, r₂, ?_, ?_, analyze_of_run (start_eq h o₁) h₁, analyze_of_run (start_eq h o₂) h₂, halike,
    ho₁, ho₂⟩
  · rw [start_eq h]
    exact h₁
  · rw [start_eq h]
    exact h₂

/-- **An option changes what it is for.**  Whatever the machine, the events and the two choices of
options, either the machine cannot be built and both analyses fail alike, or both are made.  Then,
when the events are over and in the analysis, the two agree on all CPUs, their idle states,
frequencies and wake-up sources, on the idle states of all cores and clusters and on the summary.
They agree on the frequencies of the cores and clusters too if these are composed in the same way,
whatever is said and kept; on the intervals if both keep them or neither does; and if both do, every
question about them has the same answer in both and leaves both as they are. -/
theorem analyzeLogged_options (d : Description) (es : List (Event τ)) (o₁ o₂ : ReplayOptions) :
    (∃ err, (Topology.build d : Except Error (Topology τ)) = .error err ∧
      (analyzeLogged d es o₁).result = .error err ∧
      (analyzeLogged d es o₂).result = .error err) ∨
    ∃ r₁ r₂ : Replay τ,
      (start d o₁ >>= (·.processAll es)) = .ok r₁ ∧
      (start d o₂ >>= (·.processAll es)) = .ok r₂ ∧
      (analyzeLogged d es o₁).result = .ok r₁.finish ∧
      (analyzeLogged d es o₂).result = .ok r₂.finish ∧
      r₁.topology.forgetGroupFreqs = r₂.topology.forgetGroupFreqs ∧
      r₁.finish.topology.forgetGroupFreqs = r₂.finish.topology.forgetGroupFreqs ∧
      r₁.summary = r₂.summary ∧ r₁.finish.summary = r₂.finish.summary ∧
      (o₁.compositeFrequency = o₂.compositeFrequency →
        r₁.topology = r₂.topology ∧ r₁.finish.topology = r₂.finish.topology) ∧
      (o₁.retainIntervals = o₂.retainIntervals → r₁.retained = r₂.retained) ∧
      (o₁.retainIntervals = true → o₂.retainIntervals = true → ∀ cpus depth, ∃ total,
        r₁.finish.overlap cpus depth = .ok (total, r₁.finish) ∧
        r₂.finish.overlap cpus depth = .ok (total, r₂.finish)) := by
  cases h : (Topology.build d : Except Error (Topology τ)) with
  | error err =>
    refine .inl ⟨err, rfl, ?_⟩
    have hfail : ∀ o, (analyzeLogged d es o).result = .error err := by
      intro o
      rw [result_analyzeLogged, analyze, start, h]
      rfl
    exact ⟨hfail o₁, hfail o₂⟩
  | ok t =>
    obtain ⟨r₁, r₂, h₁, h₂, ha₁, ha₂, halike, ho₁, ho₂⟩ := exists_alike h es o₁ o₂
    refine .inr ⟨r₁, r₂, h₁, h₂, ?_, ?_, halike.machine, ?_, halike.summary, halike.summary, ?_, ?_,
      ?_⟩
    · rw [result_analyzeLogged, ha₁]
    · rw [result_analyzeLogged, ha₂]
    · show r₁.topology.abandon.forgetGroupFreqs = r₂.topology.abandon.forgetGroupFreqs
      rw [Topology.forgetGroupFreqs_abandon, halike.machine, Topology.forgetGroupFreqs_abandon]
    · intro hfreq
      have hsame : r₁.topology = r₂.topology := by
        refine halike.freqs ?_
        rw [ho₁, ho₂]
        exact hfreq
      exact ⟨hsame, congrArg Topology.abandon hsame⟩
    · intro hkeep
      refine halike.retained ?_
      rw [ho₁, ho₂]
      exact hkeep
    · -- both answer as the events alone would have it
      intro hkeep₁ hkeep₂ cpus depth
      obtain ⟨a₁, ha₁', hq₁⟩ := Analysis.exists_overlap h hkeep₁ es
      obtain ⟨a₂, ha₂', hq₂⟩ := Analysis.exists_overlap h hkeep₂ es
      obtain rfl := Except.ok.inj (ha₁.symm.trans ha₁')
      obtain rfl := Except.ok.inj (ha₂.symm.trans ha₂')
      exact ⟨_, hq₁ cpus depth, hq₂ cpus depth⟩

/-- A core whose CPUs run at two frequencies and go idle in turn, replayed quietly with its lowest
frequency and with every remark and its highest. -/
theorem analyzeLogged_options_sharedCore :
    ∃ r₁ r₂ : Replay Float,
      (analyzeLogged .sharedCore [⟨0.1, 0, .freqChange 800⟩, ⟨0.2, 1, .freqChange 1200⟩,
        ⟨0.5, 0, .idleEnter 2⟩, ⟨0.6, 1, .idleEnter 1⟩, ⟨0.7, 0, .idleExit⟩]
        { verbosity := .quiet, retainIntervals := true }).result = .ok r₁.finish ∧
      (analyzeLogged .sharedCore [⟨0.1, 0, .freqChange 800⟩, ⟨0.2, 1, .freqChange 1200⟩,
        ⟨0.5, 0, .idleEnter 2⟩, ⟨0.6, 1, .idleEnter 1⟩, ⟨0.7, 0, .idleExit⟩]
        { verbosity := .verbose, compositeFrequency := .max, retainIntervals := true }).result =
          .ok r₂.finish ∧
      r₁.finish.topology.forgetGroupFreqs = r₂.finish.topology.forgetGroupFreqs ∧
      r₁.retained = r₂.retained := by
  obtain ⟨err, hfail, -⟩ | ⟨r₁, r₂, -, -, h₁, h₂, -, hmachine, -, -, -, hkept, -⟩ :=
    analyzeLogged_options .sharedCore [⟨0.1, 0, .freqChange 800⟩, ⟨0.2, 1, .freqChange 1200⟩,
      ⟨0.5, 0, .idleEnter 2⟩, ⟨0.6, 1, .idleEnter 1⟩, (⟨0.7, 0, .idleExit⟩ : Event Float)]
      { verbosity := .quiet, retainIntervals := true }
      { verbosity := .verbose, compositeFrequency := .max, retainIntervals := true }
  · cases hfail
  · exact ⟨r₁, r₂, h₁, h₂, hmachine, hkept rfl⟩

end Replay

end PowerTrace
