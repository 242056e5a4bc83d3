import PowerTrace.Proofs.FrequencyTable
import PowerTrace.Proofs.Shape

/-!
# Runs

What a replay does to the machine, apart from counting events and keeping intervals, is a plain
fold: an event whose CPU and depth exist is applied, any other leaves the machine as it is.

* `Event.action?`: what an event asks of a machine, if it is accepted;
* `Topology.step`, `Topology.run`: what one event, and a list of them, do to the machine;
* `Replay.Sound.processAll`: a replay never stops before the end of its events;
* `Replay.exists_run`: the machine it arrives at;
* `Topology.forall_entities_run`: what every action preserves of a node holds after every run;
* `Entity.ordered_apply`: among it, that its frequency table is in order.
-/

namespace PowerTrace

variable {τ : Type}

/-! ### Which events are accepted -/

/-- What an event asks of a machine with the given CPUs, `none` if its CPU or its depth does not
exist. -/
def Event.action? (ids : List CpuId) (e : Event τ) : Option Action :=
  if e.cpu ∈ ids then (e.kind.action e.cpu).toOption else none

theorem Topology.any_owns (t : Topology τ) (id : CpuId) :
    t.clusters.any (·.owns id) = true ↔ id ∈ t.cpuIds := by
  rw [List.any_eq_true, cpuIds, List.mem_map]
  constructor
  · rintro ⟨u, hu, ho⟩
    rw [Cluster.owns_eq, List.any_eq_true] at ho
    obtain ⟨c, hc, hid⟩ := ho
    exact ⟨c, List.mem_flatMap.mpr ⟨u, hu, hc⟩, beq_iff_eq.mp hid⟩
  · rintro ⟨c, hc, hid⟩
    obtain ⟨u, hu, hc⟩ := List.mem_flatMap.mp hc
    refine ⟨u, hu, ?_⟩
    rw [Cluster.owns_eq, List.any_eq_true]
    exact ⟨c, hc, beq_iff_eq.mpr hid⟩

/-- The item that a search by position finds has the property searched for. -/
theorem exists_of_findIdx?_eq_some {α : Type} {p : α → Bool} {l : List α} {i : Nat}
    (h : l.findIdx? p = some i) : ∃ x, l[i]? = some x ∧ x ∈ l ∧ p x = true := by
  have hp := List.of_findIdx?_eq_some h
  split at hp
  · next x hx => exact ⟨x, hx, List.mem_of_getElem? hx, hp⟩
  · exact absurd hp Bool.false_ne_true

theorem exists_findIdx?_of_any {α : Type} {p : α → Bool} {l : List α} (h : l.any p = true) :
    ∃ i, l.findIdx? p = some i :=
  Option.isSome_iff_exists.mp (by rw [List.findIdx?_isSome]; exact h)

/-- The search for a CPU of the machine arrives at a place that holds it. -/
theorem Topology.exists_path?_of_mem {t : Topology τ} {id : CpuId} (h : id ∈ t.cpuIds) :
    ∃ p c, t.path? id = some p ∧ t.cpuAt? p = some c ∧ c.id = id := by
  obtain ⟨i, hi⟩ := exists_findIdx?_of_any ((t.any_owns id).mpr h)
  obtain ⟨u, hu, -, hou⟩ := exists_of_findIdx?_eq_some hi
  obtain ⟨j, hj⟩ := exists_findIdx?_of_any hou
  obtain ⟨k, hk, -, hok⟩ := exists_of_findIdx?_eq_some hj
  obtain ⟨m, hm⟩ := exists_findIdx?_of_any hok
  obtain ⟨c, hc, -, hid⟩ := exists_of_findIdx?_eq_some hm
  refine ⟨⟨i, j, m⟩, c, ?_, ?_, beq_iff_eq.mp hid⟩
  · simp only [path?, hi, hu, hj, hk, hm, Option.bind_eq_bind, Option.bind_some]
  · simp only [cpuAt?, hu, hk, hc, Option.bind_eq_bind, Option.bind_some]

/-- The search for a CPU finds it exactly when it is part of the machine. -/
theorem Topology.isSome_path? (t : Topology τ) (id : CpuId) :
    (t.path? id).isSome = true ↔ id ∈ t.cpuIds := by
  constructor
  · intro h
    rw [← any_owns, ← List.findIdx?_isSome]
    cases hi : t.clusters.findIdx? (·.owns id) with
    | none => rw [path?, hi] at h; exact absurd h Bool.false_ne_true
    | some i => rfl
  · intro h
    obtain ⟨p, -, hp, -⟩ := exists_path?_of_mem h
    rw [hp]
    rfl

namespace Replay

/-- Why an event is refused, and what it asks otherwise, depends only on which CPUs there are. -/
theorem action_eq (r : Replay τ) (e : Event τ) :
    r.action e =
      if e.cpu ∈ r.topology.cpuIds then e.kind.action e.cpu else .error (.unknownCpu e.cpu) := by
  have hp := r.topology.isSome_path? e.cpu
  rw [action, Topology.locate]
  cases h : r.topology.path? e.cpu with
  | none =>
    rw [h] at hp
    rw [if_neg fun hmem => Bool.false_ne_true (hp.mpr hmem)]
    rfl
  | some p =>
    rw [h] at hp
    rw [if_pos (hp.mp rfl)]
    rfl

theorem action_eq_ok_iff {r : Replay τ} {e : Event τ} {a : Action} :
    r.action e = .ok a ↔ e.action? r.topology.cpuIds = some a := by
  rw [action_eq, Event.action?]
  split
  · cases e.kind.action e.cpu <;> simp [Except.toOption]
  · simp

/-- An event that is not accepted is refused with an error that lets the replay go on. -/
theorem action_eq_error {r : Replay τ} {e : Event τ} (h : e.action? r.topology.cpuIds = none) :
    ∃ err, r.action e = .error err ∧ err.isRecoverable = true := by
  rw [action_eq]
  rw [Event.action?] at h
  split at h
  · next hmem =>
    rw [if_pos hmem]
    cases hk : e.kind with
    | idleEnter depth =>
      rw [hk] at h
      simp only [EventKind.action] at h ⊢
      split at h
      · simp [Except.toOption] at h
      · exact ⟨_, rfl, rfl⟩
    | idleExit => rw [hk] at h; simp [EventKind.action, Except.toOption] at h
    | freqChange freq => rw [hk] at h; simp [EventKind.action, Except.toOption] at h
    | wakeup id name => rw [hk] at h; simp [EventKind.action, Except.toOption] at h
  · next hmem => exact ⟨_, if_neg hmem, rfl⟩

end Replay

/-! ### One event -/

section Step

variable [TimeValue τ]

/-- What an event does to the machine. -/
def Topology.step (x : Extremum) (t : Topology τ) (e : Event τ) : Topology τ :=
  match e.action? t.cpuIds with
  | some a => t.apply x e.cpu e.time a
  | none => t

/-- What an event does to a node of a machine with the given CPUs. -/
def Entity.step (x : Extremum) (ids : List CpuId) (n : Entity τ) (e : Event τ) : Entity τ :=
  match e.action? ids with
  | some a => n.apply x e.cpu e.time a
  | none => n

/-- Whether an event is accepted and happens on a member of a node. -/
def Event.concerns (ids : List CpuId) (n : Entity τ) (e : Event τ) : Bool :=
  (e.action? ids).isSome && n.owns e.cpu

/-- The events of a list that concern a node. -/
def Entity.events (ids : List CpuId) (n : Entity τ) (es : List (Event τ)) : List (Event τ) :=
  es.filter (·.concerns ids n)

/-- **Locality.**  An event that does not concern a node leaves it alone. -/
theorem Entity.step_of_not_concerns (x : Extremum) {ids : List CpuId} {n : Entity τ} {e : Event τ}
    (h : e.concerns ids n = false) : n.step x ids e = n := by
  rw [Event.concerns, Bool.and_eq_false_iff] at h
  unfold Entity.step
  split
  · next a ha =>
    rcases h with h | h
    · rw [ha] at h
      cases h
    · exact Entity.apply_of_not_owns x e.cpu e.time a h
  · rfl

/-- An event that concerns a node is an action on it. -/
theorem Entity.exists_of_concerns (x : Extremum) {ids : List CpuId} {n : Entity τ} {e : Event τ}
    (h : e.concerns ids n = true) : ∃ a, n.step x ids e = n.apply x e.cpu e.time a := by
  rw [Event.concerns, Bool.and_eq_true] at h
  obtain ⟨a, ha⟩ := Option.isSome_iff_exists.mp h.1
  exact ⟨a, by rw [Entity.step, ha]⟩

omit [TimeValue τ] in
theorem Entity.events_cons_of_concerns {ids : List CpuId} {n : Entity τ} {e : Event τ}
    (es : List (Event τ)) (h : e.concerns ids n = true) :
    n.events ids (e :: es) = e :: n.events ids es := List.filter_cons_of_pos h

omit [TimeValue τ] in
theorem Entity.events_cons_of_not_concerns {ids : List CpuId} {n : Entity τ} {e : Event τ}
    (es : List (Event τ)) (h : e.concerns ids n = false) :
    n.events ids (e :: es) = n.events ids es :=
  List.filter_cons_of_neg (by rw [h]; exact Bool.false_ne_true)

/-- No event changes which events concern a node. -/
theorem Entity.events_step (x : Extremum) (ids : List CpuId) (n : Entity τ) (e : Event τ)
    (es : List (Event τ)) : (n.step x ids e).events ids es = n.events ids es := by
  have hcon : ∀ e' : Event τ, e'.concerns ids (n.step x ids e) = e'.concerns ids n := by
    intro e'
    unfold Event.concerns Entity.step
    split
    · rw [Entity.owns_apply]
    · rfl
  unfold Entity.events
  simp only [hcon]

theorem Topology.entities_step (x : Extremum) (t : Topology τ) (e : Event τ) :
    (t.step x e).entities = t.entities.map (·.step x t.cpuIds e) := by
  unfold Topology.step Entity.step
  cases e.action? t.cpuIds with
  | none => exact (List.map_id _).symm
  | some a => exact t.entities_apply x e.cpu e.time a

@[simp] theorem Topology.cpuIds_step (x : Extremum) (t : Topology τ) (e : Event τ) :
    (t.step x e).cpuIds = t.cpuIds := by
  unfold Topology.step
  split
  · exact t.cpuIds_apply _ _ _ _
  · rfl

theorem Topology.WellShaped.step {t : Topology τ} (h : t.WellShaped) (x : Extremum)
    (e : Event τ) : (t.step x e).WellShaped := by
  unfold Topology.step
  split
  · exact h.apply _ _ _ _
  · exact h

namespace RetainedIntervals

/-- Every handle that is kept leads to a set. -/
def Sound (r : RetainedIntervals τ) : Prop := ∀ s ∈ r.index, s.set.index < r.store.size

omit [TimeValue τ] in
theorem Sound.ensure {r : RetainedIntervals τ} (h : r.Sound) (cpu : CpuId) (depth : Depth) :
    (r.ensure cpu depth).1.Sound ∧ (r.ensure cpu depth).2.index < (r.ensure cpu depth).1.store.size := by
  unfold RetainedIntervals.ensure
  split
  · next id hid =>
    refine ⟨h, ?_⟩
    rw [setOf?, Option.map_eq_some_iff] at hid
    obtain ⟨s, hs, rfl⟩ := hid
    exact h s (List.mem_of_find?_eq_some hs)
  · have hsize : r.store.alloc.1.size = r.store.size + 1 := r.store.size_add []
    refine ⟨?_, ?_⟩
    · intro s hs
      show s.set.index < r.store.alloc.1.size
      rcases List.mem_append.mp hs with hs | hs
      · have := h s hs
        omega
      · rw [List.mem_singleton] at hs
        subst hs
        show r.store.size < r.store.alloc.1.size
        omega
    · show r.store.size < r.store.alloc.1.size
      omega

/-- Keeping an interval never fails while every handle leads to a set, and keeps it so. -/
theorem Sound.record {r : RetainedIntervals τ} (h : r.Sound) (cpu : CpuId) (i : ClosedInterval τ) :
    ∃ r', r.record cpu i = .ok r' ∧ r'.Sound := by
  obtain ⟨hs, hid⟩ := h.ensure cpu i.depth
  obtain ⟨set, hset⟩ : ∃ set, (r.ensure cpu i.depth).1.store.get? (r.ensure cpu i.depth).2 = some set :=
    ⟨_, List.getElem?_eq_getElem hid⟩
  have hget : (r.ensure cpu i.depth).1.store.get (r.ensure cpu i.depth).2 = .ok set := by
    rw [IntervalStore.get, hset]
  obtain ⟨store, hpush, hsize⟩ : ∃ store,
      (r.ensure cpu i.depth).1.store.push (r.ensure cpu i.depth).2 ⟨i.start, i.stop⟩ = .ok store ∧
        store.size = (r.ensure cpu i.depth).1.store.size := by
    simp only [IntervalStore.push, hget]
    by_cases hp : (⟨i.start, i.stop⟩ : Interval τ).isProper
    · refine ⟨_, if_pos hp, ?_⟩
      exact List.length_set
    · exact ⟨_, if_neg hp, rfl⟩
  refine ⟨{ (r.ensure cpu i.depth).1 with store }, ?_, ?_⟩
  · simp only [RetainedIntervals.record, hpush]
    rfl
  · intro s hmem
    show s.set.index < store.size
    rw [hsize]
    exact hs s hmem

end RetainedIntervals

namespace Replay

/-- Every handle that a replay keeps leads to a set. -/
def Sound (r : Replay τ) : Prop := ∀ kept, r.retained = some kept → kept.Sound

theorem Sound.retain {r : Replay τ} (h : r.Sound) (cpu : CpuId) (time : τ) (a : Action) :
    ∃ kept, r.retain cpu time a = .ok kept ∧ ∀ k, kept = some k → k.Sound := by
  have hkept : ∀ k, r.retained = some k → k.Sound := h
  unfold Replay.retain
  cases hr : r.retained with
  | none => exact ⟨none, rfl, fun k hk => nomatch hk⟩
  | some kept =>
    rw [hr] at hkept
    cases (r.topology.cpu? cpu).bind (·.closedBy time a) with
    | none => exact ⟨some kept, rfl, hkept⟩
    | some i =>
      dsimp only
      split
      · exact ⟨some kept, rfl, hkept⟩
      · obtain ⟨kept', hok, hs⟩ := (hkept kept rfl).record cpu i
        refine ⟨some kept', by rw [hok]; rfl, ?_⟩
        rintro k ⟨rfl⟩
        exact hs

theorem process_of_accepted {r : Replay τ} {e : Event τ} {a : Action}
    (ha : e.action? r.topology.cpuIds = some a) {kept : Option (RetainedIntervals τ)}
    (hk : r.retain e.cpu e.time a = .ok kept) :
    r.process e = .ok { r with
      topology := r.topology.apply r.options.compositeFrequency e.cpu e.time a
      retained := kept
      summary := r.summary.count e } := by
  have happly : r.apply e = .ok { r with
      topology := r.topology.apply r.options.compositeFrequency e.cpu e.time a
      retained := kept } := by
    rw [Replay.apply, action_eq_ok_iff.mpr ha]
    show (do
      let retained ← r.retain e.cpu e.time a
      Except.ok { r with
        topology := r.topology.apply r.options.compositeFrequency e.cpu e.time a
        retained }) = _
    rw [hk]
    rfl
  rw [process, happly]

theorem process_of_dropped {r : Replay τ} {e : Event τ} (h : e.action? r.topology.cpuIds = none) :
    r.process e = .ok { r with summary := r.summary.drop } := by
  obtain ⟨err, herr, hrec⟩ := action_eq_error h
  have happly : r.apply e = .error err := by rw [Replay.apply, herr]; rfl
  rw [process, happly]
  exact if_pos hrec

/-- **No event stops a replay**, and this is what becomes of its machine. -/
theorem Sound.process {r : Replay τ} (h : r.Sound) (e : Event τ) :
    ∃ r', r.process e = .ok r' ∧ r'.Sound ∧ r'.options = r.options ∧
      r'.topology = r.topology.step r.options.compositeFrequency e := by
  unfold Topology.step
  cases ha : e.action? r.topology.cpuIds with
  | none => exact ⟨_, process_of_dropped ha, h, rfl, rfl⟩
  | some a =>
    obtain ⟨kept, hk, hs⟩ := h.retain e.cpu e.time a
    exact ⟨_, process_of_accepted ha hk, hs, rfl, rfl⟩

end Replay

/-! ### Many events -/

/-- What the events of a list do to the machine, first to last. -/
def Topology.run (x : Extremum) (t : Topology τ) (es : List (Event τ)) : Topology τ :=
  es.foldl (·.step x) t

@[simp] theorem Topology.run_nil (x : Extremum) (t : Topology τ) : t.run x [] = t := rfl

@[simp] theorem Topology.run_cons (x : Extremum) (t : Topology τ) (e : Event τ)
    (es : List (Event τ)) : t.run x (e :: es) = (t.step x e).run x es := rfl

@[simp] theorem Topology.cpuIds_run (x : Extremum) (t : Topology τ) (es : List (Event τ)) :
    (t.run x es).cpuIds = t.cpuIds := by
  induction es generalizing t with
  | nil => rfl
  | cons e es ih => rw [run_cons, ih, cpuIds_step]

@[simp] theorem Topology.length_entities_run (x : Extremum) (t : Topology τ) (es : List (Event τ)) :
    (t.run x es).entities.length = t.entities.length := by
  induction es generalizing t with
  | nil => rfl
  | cons e es ih => rw [run_cons, ih, entities_step, List.length_map]

theorem Topology.WellShaped.run {t : Topology τ} (h : t.WellShaped) (x : Extremum)
    (es : List (Event τ)) : (t.run x es).WellShaped := by
  induction es generalizing t with
  | nil => exact h
  | cons e es ih => exact ih (h.step x e)

/-- **What the actions of a run preserve of a node holds of every node after the run.** -/
theorem Topology.forall_entities_run_of {Q : Action → Prop} {P : Entity τ → Prop} {x : Extremum}
    {t : Topology τ} (hstep : ∀ n id time a, Q a → P n → P (n.apply x id time a))
    (h : ∀ n ∈ t.entities, P n) {es : List (Event τ)}
    (hes : ∀ e ∈ es, ∀ a, e.action? t.cpuIds = some a → Q a) :
    ∀ n ∈ (t.run x es).entities, P n := by
  induction es generalizing t with
  | nil => exact h
  | cons e es ih =>
    refine ih (fun n hn => ?_) fun e' he' a ha => ?_
    · rw [entities_step] at hn
      obtain ⟨m, hm, rfl⟩ := List.mem_map.mp hn
      unfold Entity.step
      split
      · next a ha => exact hstep m _ _ _ (hes e List.mem_cons_self a ha) (h m hm)
      · exact h m hm
    · rw [cpuIds_step] at ha
      exact hes e' (List.mem_cons_of_mem _ he') a ha

/-- **What every action preserves of a node holds of every node after every run.** -/
theorem Topology.forall_entities_run {P : Entity τ → Prop} {x : Extremum} {t : Topology τ}
    (hstep : ∀ n id time a, P n → P (n.apply x id time a)) (h : ∀ n ∈ t.entities, P n)
    (es : List (Event τ)) : ∀ n ∈ (t.run x es).entities, P n :=
  forall_entities_run_of (Q := fun _ => True) (fun n id time a _ => hstep n id time a) h
    fun _ _ _ _ => trivial

theorem Cpu.ordered_apply {c : Cpu τ} (h : c.pstates.WellFormed) (time : τ) (a : Action) :
    (c.apply time a).pstates.WellFormed := by
  cases a with
  | setDepth d =>
    show (if d.isSome then _ else _ : PStateTrack τ).WellFormed
    split
    · exact h.enterIdle time
    · exact h.exitIdle time
  | changeFreq f => exact h.changeFreq time f
  | wake id name => exact h

/-- No action puts the frequency table of a node out of order. -/
theorem Entity.ordered_apply {m : Entity τ} (h : m.tracks.pstates.WellFormed) (x : Extremum)
    (id : CpuId) (time : τ) (a : Action) : (m.apply x id time a).tracks.pstates.WellFormed := by
  obtain he | ⟨c, rfl, he⟩ | ⟨-, -, -, ht⟩ := m.apply_cases x id time a
  · rw [he]
    exact h
  · rw [he]
    exact Cpu.ordered_apply h time a
  · rw [ht]
    split
    · exact h.groupFreq time _
    · exact h

theorem Topology.ordered_of_build {d : Description} {t : Topology τ}
    (h : Topology.build d = .ok t) : ∀ m ∈ t.entities, m.tracks.pstates.WellFormed := by
  intro m hm
  rw [(t.fresh_of_build h m hm).pstates]
  exact PStateTrack.wellFormed_empty

namespace Replay

/-- **A replay never stops before the end of its events**, and this is the machine it arrives
at. -/
theorem Sound.processAll {r : Replay τ} (h : r.Sound) (es : List (Event τ)) :
    ∃ r', r.processAll es = .ok r' ∧ r'.Sound ∧ r'.options = r.options ∧
      r'.topology = r.topology.run r.options.compositeFrequency es := by
  induction es generalizing r with
  | nil => exact ⟨r, rfl, h, rfl, rfl⟩
  | cons e es ih =>
    obtain ⟨r₁, h₁, hs₁, ho₁, ht₁⟩ := h.process e
    obtain ⟨r₂, h₂, hs₂, ho₂, ht₂⟩ := ih hs₁
    refine ⟨r₂, ?_, hs₂, ho₂.trans ho₁, ?_⟩
    · rw [processAll_cons, h₁]
      exact h₂
    · rw [ht₂, ht₁, ho₁]
      rfl

/-- A machine that can be built can be replayed, and nothing was kept yet. -/
theorem start_of_build {d : Description} {t : Topology τ} (h : Topology.build d = .ok t)
    (o : ReplayOptions) :
    ∃ r : Replay τ, start d o = .ok r ∧ r.Sound ∧ r.options = o ∧ r.topology = t := by
  refine ⟨_, by rw [start, h]; rfl, ?_, rfl, rfl⟩
  intro kept hkept
  dsimp only at hkept
  split at hkept
  · cases hkept
    exact fun s hs => absurd hs List.not_mem_nil
  · cases hkept

/-- A replay that was started has a machine that was built. -/
theorem build_of_start {d : Description} {o : ReplayOptions} {r : Replay τ}
    (h : start d o = .ok r) : Topology.build d = .ok r.topology ∧ r.Sound := by
  cases hb : (Topology.build d : Except Error (Topology τ)) with
  | error e =>
    rw [start, hb] at h
    cases h
  | ok t =>
    obtain ⟨r', h', hs, -, ht⟩ := start_of_build hb o
    obtain rfl : r' = r := Except.ok.inj (h'.symm.trans h)
    exact ⟨congrArg _ ht.symm, hs⟩

/-- From building a machine to the end of its events. -/
theorem exists_run {d : Description} {t : Topology τ} (h : Topology.build d = .ok t)
    (o : ReplayOptions) (es : List (Event τ)) :
    ∃ r₀ r : Replay τ, start d o = .ok r₀ ∧ r₀.processAll es = .ok r ∧
      r₀.topology = t ∧ r.topology = t.run o.compositeFrequency es := by
  obtain ⟨r₀, h₀, hs, ho, ht⟩ := start_of_build h o
  obtain ⟨r, hr, -, -, htop⟩ := hs.processAll es
  exact ⟨r₀, r, h₀, hr, ht, by rw [htop, ho, ht]⟩

end Replay

end Step

/-! ### A machine to look at -/

/-- Two CPUs that share a core; the second of them has a state with a target of a millisecond. -/
def Description.sharedCore : Description :=
  .ofPlacements [⟨0, 0, 0, false⟩, ⟨0, 0, 1, false⟩] [⟨1, 0, "WFI", some 1000⟩]

end PowerTrace
