import PowerTrace.Proofs.FrequencyTable
import PowerTrace.Proofs.Run

/-!
# Groups follow their members

Each event refreshes the one core and the one cluster of its CPU, through two machines that ignore
what they take for no change.  The result is nevertheless that of recomputing everything: after
every event each core and each cluster stands where its members put it.

* `leastDepth_mem`, `leastDepth_le`: the composite depth is the least depth of the members;
* `Tracks.Follow`: the two tracks of a group stand where given members put them;
* `Entity.Coherent`: what holds of every node, and `Entity.Coherent.apply`: no action breaks it;
* `Replay.groups_follow_members`: hence it holds after every event of every replay.
-/

namespace PowerTrace

/-! ### The least depth of a list -/

theorem depth_le_refl (d : Option Depth) : d ≤ d := by
  cases d with
  | none => exact Option.none_le
  | some a => exact Option.some_le_some.mpr (Nat.le_refl a.val)

theorem depth_le_trans {a b c : Option Depth} (hab : a ≤ b) (hbc : b ≤ c) : a ≤ c := by
  match a, b, c, hab, hbc with
  | none, _, _, _, _ => exact Option.none_le
  | some a, some b, some c, hab, hbc =>
    exact Option.some_le_some.mpr
      (Nat.le_trans (Option.some_le_some.mp hab) (Option.some_le_some.mp hbc))

theorem depth_le_antisymm {a b : Option Depth} (hab : a ≤ b) (hba : b ≤ a) : a = b := by
  match a, b, hab, hba with
  | none, none, _, _ => rfl
  | some a, some b, hab, hba =>
    exact congrArg some
      (Fin.ext (Nat.le_antisymm (Option.some_le_some.mp hab) (Option.some_le_some.mp hba)))

/-- The lesser of two depths is one of them, and not above the other. -/
theorem lesserDepth_eq (a b : Option Depth) :
    (lesserDepth a b = a ∧ a ≤ b) ∨ (lesserDepth a b = b ∧ b ≤ a) := by
  match a, b with
  | none, b => exact .inl ⟨rfl, Option.none_le⟩
  | some a, none => exact .inr ⟨rfl, Option.none_le⟩
  | some a, some b =>
    by_cases h : a ≤ b
    · refine .inl ⟨?_, Option.some_le_some.mpr h⟩
      show some (if a ≤ b then a else b) = some a
      rw [if_pos h]
    · refine .inr ⟨?_, Option.some_le_some.mpr (Nat.le_of_lt (Nat.lt_of_not_le h))⟩
      show some (if a ≤ b then a else b) = some b
      rw [if_neg h]

theorem leastDepth_mem {l : List (Option Depth)} (h : l ≠ []) : leastDepth l ∈ l := by
  induction l with
  | nil => exact absurd rfl h
  | cons d rest ih =>
    by_cases hr : rest = []
    · subst hr
      exact List.mem_singleton_self d
    · rw [leastDepth_cons d hr]
      rcases lesserDepth_eq d (leastDepth rest) with ⟨he, -⟩ | ⟨he, -⟩
      · rw [he]
        exact List.mem_cons_self
      · rw [he]
        exact List.mem_cons_of_mem _ (ih hr)

theorem leastDepth_le {l : List (Option Depth)} {d : Option Depth} (h : d ∈ l) :
    leastDepth l ≤ d := by
  induction l with
  | nil => exact absurd h List.not_mem_nil
  | cons e rest ih =>
    by_cases hr : rest = []
    · subst hr
      rw [List.mem_singleton.mp h]
      exact depth_le_refl e
    · rw [leastDepth_cons e hr]
      rcases lesserDepth_eq e (leastDepth rest) with ⟨he, hle⟩ | ⟨he, hle⟩
      · rw [he]
        rcases List.mem_cons.mp h with rfl | h
        · exact depth_le_refl d
        · exact depth_le_trans hle (ih h)
      · rw [he]
        rcases List.mem_cons.mp h with rfl | h
        · exact hle
        · exact ih h

/-- A depth is the least of a list: it occurs in the list, and no depth of the list lies below. -/
def IsLeastDepth (d : Option Depth) (l : List (Option Depth)) : Prop := d ∈ l ∧ ∀ e ∈ l, d ≤ e

/-- The least of the least depths of several lists is the least depth of all of them together. -/
theorem isLeastDepth_map {α : Type} {f : α → List (Option Depth)} {l : List α} (hl : l ≠ [])
    (hf : ∀ a ∈ l, f a ≠ []) :
    IsLeastDepth (leastDepth (l.flatMap f)) (l.map fun a => leastDepth (f a)) := by
  have hle : ∀ a ∈ l, leastDepth (l.flatMap f) ≤ leastDepth (f a) := by
    intro a ha
    exact leastDepth_le (List.mem_flatMap.mpr ⟨a, ha, leastDepth_mem (hf a ha)⟩)
  refine ⟨?_, ?_⟩
  · have hne : l.flatMap f ≠ [] := by
      intro he
      obtain ⟨a, ha⟩ := List.exists_mem_of_ne_nil l hl
      exact hf a ha (List.flatMap_eq_nil_iff.mp he a ha)
    obtain ⟨a, ha, hmem⟩ := List.mem_flatMap.mp (leastDepth_mem hne)
    have heq : leastDepth (f a) = leastDepth (l.flatMap f) :=
      depth_le_antisymm (leastDepth_le hmem) (hle a ha)
    exact List.mem_map.mpr ⟨a, ha, heq⟩
  · intro e he
    obtain ⟨a, ha, rfl⟩ := List.mem_map.mp he
    exact hle a ha

variable {τ : Type}

/-! ### Where the members put a group -/

/-- The two tracks of a group stand where the given members put them: at their composite depth, and
at their composite frequency, which is unknown when it is zero. -/
structure Tracks.Follow (x : Extremum) (members : List (Cpu τ)) (s : Tracks τ) : Prop where
  depth : s.cstates.current = compositeDepth members
  freq : compositeFreq x members ≠ 0 → s.pstates.currentFreq = some (compositeFreq x members)
  unknown : compositeFreq x members = 0 → s.pstates.current = none

/-- A CPU agrees with itself on whether it is idle; a group follows its members. -/
def Entity.Coherent (x : Extremum) : Entity τ → Prop
  | .cpu c => c.pstates.idle = c.cstates.isIdle
  | .core k => Tracks.Follow x k.cpus k.tracks
  | .cluster c => Tracks.Follow x c.cpus c.tracks

theorem Entity.coherent_iff_of_isGroup {x : Extremum} {e : Entity τ} (h : e.isGroup = true) :
    e.Coherent x ↔ Tracks.Follow x e.members e.tracks := by
  cases e with
  | cpu c => cases h
  | core k => exact Iff.rfl
  | cluster c => exact Iff.rfl

/-- A group that is idle has no member left that runs. -/
theorem compositeFreq_eq_zero_of_idle (x : Extremum) {members : List (Cpu τ)}
    (h : (compositeDepth members).isSome = true) : compositeFreq x members = 0 := by
  obtain ⟨d, hd⟩ := Option.isSome_iff_exists.mp h
  have hidle : members.filter (!·.isIdle) = [] := by
    rw [List.filter_eq_nil_iff]
    intro c hc hrun
    have hle : some d ≤ c.cstates.current := by
      rw [← hd]
      exact leastDepth_le (List.mem_map_of_mem hc)
    cases hcur : c.cstates.current with
    | none =>
      rw [hcur] at hle
      exact Option.not_some_le_none hle
    | some e =>
      rw [Cpu.isIdle, CStateTrack.isIdle, hcur] at hrun
      exact Bool.false_ne_true hrun
  rw [compositeFreq, runningFreqs, hidle]
  cases x <;> rfl

section Apply

variable [TimeValue τ]

/-- Feeding a group its composite state puts it where its members are, wherever it stood. -/
theorem Tracks.follow_feed (x : Extremum) (time : τ) (members : List (Cpu τ)) (s : Tracks τ) :
    (s.feed x time members).Follow x members := by
  refine ⟨?_, ?_, ?_⟩
  · exact CStateTrack.current_record _ _ _
  · intro hf
    exact PStateTrack.currentFreq_groupFreq _ _ hf
  · intro hf
    show (s.pstates.groupFreq time (compositeFreq x members)).current = none
    rw [hf]
    exact PStateTrack.current_groupFreq_zero _ _

/-- A member after an action that cannot move its groups: same depth, same frequencies. -/
theorem Cpu.apply_of_not_movesGroups (c : Cpu τ) (time : τ) {a : Action}
    (h : a.movesGroups = false) :
    (c.apply time a).cstates.current = c.cstates.current ∧ (c.apply time a).pstates = c.pstates := by
  cases a with
  | setDepth d => cases h
  | changeFreq f => cases h
  | wake id name =>
    refine ⟨?_, rfl⟩
    rcases c.tracks_apply_wake time id name with he | he
    · exact congrArg (·.cstates.current) he
    · exact congrArg (·.cstates.current) he

theorem compositeDepth_applyToCpu (id : CpuId) (time : τ) {a : Action} (h : a.movesGroups = false)
    (l : List (Cpu τ)) : compositeDepth (applyToCpu id time a l) = compositeDepth l := by
  rw [compositeDepth, applyToCpu, List.map_map, compositeDepth]
  congr 1
  refine List.map_congr_left fun c _ => ?_
  show (if c.id = id then c.apply time a else c).cstates.current = c.cstates.current
  split
  · exact (c.apply_of_not_movesGroups time h).1
  · rfl

theorem runningFreqs_applyToCpu (id : CpuId) (time : τ) {a : Action} (h : a.movesGroups = false)
    (l : List (Cpu τ)) : runningFreqs (applyToCpu id time a l) = runningFreqs l := by
  have hidle : ∀ c : Cpu τ,
      (if c.id = id then c.apply time a else c).isIdle = c.isIdle ∧
        (if c.id = id then c.apply time a else c).pstates = c.pstates := by
    intro c
    split
    · obtain ⟨hd, hp⟩ := c.apply_of_not_movesGroups time h
      exact ⟨by rw [Cpu.isIdle, CStateTrack.isIdle, hd]; rfl, hp⟩
    · exact ⟨rfl, rfl⟩
  induction l with
  | nil => rfl
  | cons c l ih =>
    obtain ⟨hi, hp⟩ := hidle c
    unfold runningFreqs applyToCpu at ih ⊢
    rw [List.map_cons, List.filter_cons, List.filter_cons, hi]
    split
    · rw [List.filterMap_cons, List.filterMap_cons, hp, ih]
    · exact ih

theorem compositeFreq_applyToCpu (x : Extremum) (id : CpuId) (time : τ) {a : Action}
    (h : a.movesGroups = false) (l : List (Cpu τ)) :
    compositeFreq x (applyToCpu id time a l) = compositeFreq x l := by
  rw [compositeFreq, runningFreqs_applyToCpu id time h, compositeFreq]

@[simp] theorem PStateTrack.idle_switchTo (t : PStateTrack τ) (time : τ) (next : Nat) :
    (t.switchTo time next).idle = t.idle := by
  unfold PStateTrack.switchTo
  split
  · rfl
  · exact t.idle_closeDwell time

@[simp] theorem PStateTrack.idle_changeFreq (t : PStateTrack τ) (time : τ) (f : Nat) :
    (t.changeFreq time f).idle = t.idle := by
  unfold PStateTrack.changeFreq
  dsimp only
  split
  · exact t.idle_slotFor f
  · rw [idle_switchTo, idle_slotFor]

omit [TimeValue τ] in
theorem PStateTrack.idle_exitIdle (t : PStateTrack τ) (time : τ) :
    (t.exitIdle time).idle = false := by
  unfold PStateTrack.exitIdle
  split
  · rfl
  · next h => exact Bool.eq_false_iff.mpr h

/-- The two machines of a CPU go idle together and resume together. -/
theorem Cpu.idle_apply {c : Cpu τ} (h : c.pstates.idle = c.cstates.isIdle) (time : τ) (a : Action) :
    (c.apply time a).pstates.idle = (c.apply time a).cstates.isIdle := by
  cases a with
  | setDepth d =>
    show (if d.isSome then c.pstates.enterIdle time else c.pstates.exitIdle time).idle =
      (c.cstates.record time d).1.current.isSome
    rw [CStateTrack.current_record]
    cases d with
    | none => exact c.pstates.idle_exitIdle time
    | some d => rfl
  | changeFreq f =>
    show (c.pstates.changeFreq time f).idle = c.cstates.isIdle
    rw [PStateTrack.idle_changeFreq, h]
  | wake id name =>
    obtain ⟨hd, hp⟩ := c.apply_of_not_movesGroups time (a := .wake id name) rfl
    rw [hp, h, CStateTrack.isIdle, CStateTrack.isIdle, hd]

/-- **No action breaks the agreement** between the machines of a CPU, or between a group and its
members. -/
theorem Entity.Coherent.apply {x : Extremum} {e : Entity τ} (h : e.Coherent x) (id : CpuId)
    (time : τ) (a : Action) : (e.apply x id time a).Coherent x := by
  obtain he | ⟨c, rfl, he⟩ | ⟨hg, hg', hmembers, htracks⟩ := e.apply_cases x id time a
  · rw [he]
    exact h
  · rw [he]
    exact Cpu.idle_apply h time a
  · rw [Entity.coherent_iff_of_isGroup hg', hmembers, htracks]
    rw [Entity.coherent_iff_of_isGroup hg] at h
    split
    · exact Tracks.follow_feed x time _ _
    · next hm =>
      -- an action that cannot move groups leaves every composite state as it is
      have hm : a.movesGroups = false := Bool.eq_false_iff.mpr hm
      refine ⟨?_, ?_, ?_⟩
      · rw [compositeDepth_applyToCpu id time hm]
        exact h.depth
      · rw [compositeFreq_applyToCpu x id time hm]
        exact h.freq
      · rw [compositeFreq_applyToCpu x id time hm]
        exact h.unknown

end Apply

/-! ### Every run -/

section Run

variable [TimeValue τ]

/-- Before its first event every CPU runs and knows no frequency, and so does every group. -/
theorem Topology.coherent_of_build {d : Description} {t : Topology τ}
    (h : Topology.build d = .ok t) (x : Extremum) : ∀ e ∈ t.entities, e.Coherent x := by
  intro e he
  have hfresh : ∀ c ∈ e.members, c.cstates.current = none ∧ c.pstates = .empty := by
    intro c hc
    have hs := t.fresh_of_build h _ (mem_entities_cpu (mem_cpus_of_mem_members he hc))
    obtain ⟨infos, hi⟩ := hs.cstates
    exact ⟨congrArg CStateTrack.current hi, hs.pstates⟩
  have hs := t.fresh_of_build h e he
  obtain ⟨c, rfl⟩ | hg := e.cpu_or_isGroup
  · obtain ⟨hd, hp⟩ := hfresh c List.mem_cons_self
    show c.pstates.idle = c.cstates.current.isSome
    rw [hd, hp]
    rfl
  · have hdepth : compositeDepth e.members = none := by
      by_cases hne : e.members = []
      · rw [hne]
        rfl
      · have hmem := leastDepth_mem (l := e.members.map (·.cstates.current))
          (by rwa [Ne, List.map_eq_nil_iff])
        obtain ⟨c, hc, heq⟩ := List.mem_map.mp hmem
        rw [compositeDepth, ← heq]
        exact (hfresh c hc).1
    have hfreqs : runningFreqs e.members = [] := by
      rw [runningFreqs, List.filterMap_eq_nil_iff]
      intro c hc
      rw [(hfresh c ((List.mem_filter.mp hc).1)).2]
      rfl
    have hfreq : compositeFreq x e.members = 0 := by
      rw [compositeFreq, hfreqs]
      cases x <;> rfl
    obtain ⟨infos, hi⟩ := hs.cstates
    rw [Entity.coherent_iff_of_isGroup hg]
    refine ⟨?_, fun hne => absurd hfreq hne, fun _ => congrArg PStateTrack.current hs.pstates⟩
    rw [hdepth, hi]
    rfl

theorem Topology.coherent_run {t : Topology τ} {x : Extremum} (h : ∀ e ∈ t.entities, e.Coherent x)
    (es : List (Event τ)) : ∀ e ∈ (t.run x es).entities, e.Coherent x :=
  Topology.forall_entities_run (fun _ id time a he => he.apply id time a) h es

/-- **Groups follow their members.**  Whatever the machine, the options, the instants and the order
of the events, a replay gets to the end of its events, and there every CPU agrees with itself on
whether it is idle, every core and every cluster stands at the composite depth and the composite
frequency of its CPUs, and every cluster is as deep as the least deep of its cores. -/
theorem Replay.groups_follow_members {d : Description} {t : Topology τ}
    (h : Topology.build d = .ok t) (o : ReplayOptions) (es : List (Event τ)) :
    ∃ r₀ r : Replay τ, Replay.start d o = .ok r₀ ∧ r₀.processAll es = .ok r ∧
      (∀ c ∈ r.topology.cpus, c.pstates.idle = c.cstates.isIdle) ∧
      (∀ k ∈ r.topology.cores, Tracks.Follow o.compositeFrequency k.cpus k.tracks) ∧
      ∀ c ∈ r.topology.clusters, Tracks.Follow o.compositeFrequency c.cpus c.tracks ∧
        IsLeastDepth c.cstates.current (c.cores.map (·.cstates.current)) := by
  obtain ⟨r₀, r, h₀, hr, -, htop⟩ := Replay.exists_run h o es
  have hcoh := Topology.coherent_run (t.coherent_of_build h o.compositeFrequency) es
  have hshape := (Topology.wellShaped_of_build h).run o.compositeFrequency es
  rw [← htop] at hcoh hshape
  refine ⟨r₀, r, h₀, hr, ?_, ?_, ?_⟩
  · intro c hc
    exact hcoh _ (Topology.mem_entities_cpu hc)
  · intro k hk
    obtain ⟨c, hc, hk⟩ := List.mem_flatMap.mp hk
    exact hcoh _ (Topology.mem_entities_core hc hk)
  · intro c hc
    have hfollow : Tracks.Follow o.compositeFrequency c.cpus c.tracks :=
      hcoh _ (Topology.mem_entities_cluster hc)
    refine ⟨hfollow, ?_⟩
    have hcore : ∀ k ∈ c.cores, k.cstates.current = leastDepth (k.cpus.map (·.cstates.current)) := by
      intro k hk
      have hk' : Tracks.Follow o.compositeFrequency k.cpus k.tracks :=
        hcoh _ (Topology.mem_entities_core hc hk)
      exact hk'.depth
    have hcluster : c.cstates.current =
        leastDepth (c.cores.flatMap fun k => k.cpus.map (·.cstates.current)) := by
      rw [← List.map_flatMap]
      exact hfollow.depth
    rw [hcluster, List.map_congr_left hcore]
    refine isLeastDepth_map (hshape.cores_ne_nil c hc) ?_
    intro k hk
    rw [Ne, List.map_eq_nil_iff]
    exact hshape.cpus_ne_nil c hc k hk

/-- Both CPUs of a core go idle, the second changes its frequency meanwhile and resumes. -/
theorem Replay.groups_follow_members_sharedCore :
    ∃ t : Topology Float, Topology.build .sharedCore = .ok t ∧
      ∃ r₀ r : Replay Float, Replay.start .sharedCore {} = .ok r₀ ∧
        r₀.processAll [⟨0.5, 0, .idleEnter 2⟩, ⟨0.6, 1, .idleEnter 1⟩, ⟨0.7, 1, .freqChange 800⟩,
          ⟨0.8, 1, .idleExit⟩] = .ok r ∧
        (∀ c ∈ r.topology.cpus, c.pstates.idle = c.cstates.isIdle) ∧
        (∀ k ∈ r.topology.cores, Tracks.Follow .min k.cpus k.tracks) ∧
        ∀ c ∈ r.topology.clusters, Tracks.Follow .min c.cpus c.tracks ∧
          IsLeastDepth c.cstates.current (c.cores.map (·.cstates.current)) :=
  ⟨_, rfl, Replay.groups_follow_members rfl {} _⟩

end Run

end PowerTrace
