import Mathlib.Data.List.Nodup
import PowerTrace.Proofs.Run

/-!
# The idle periods of a CPU and what is kept of them

A replay that keeps idle intervals files them by CPU and depth, in sets that it addresses by handle.
What is filed can be told from the events of the CPU alone: it is every idle period that these
events close, first to last, unless it has no length.

* `IdlePeriod`, `closedPeriods`: the idle periods that events close on a CPU;
* `closedPeriods_filter`: events on other CPUs do not matter;
* `RetainedIntervals.Tidy`: every handle leads to a set of its own;
* `RetainedIntervals.intervals?`: the set of a CPU and a depth;
* `RetainedIntervals.Tidy.record`: keeping an interval changes one set;
* `RetainedIntervals.Tidy.keepClosed`: what becomes of an interval that a transition closes;
* `Replay.Tidy.processAll`, `Replay.intervals?_of_run`: what a replay has kept at the end of its
  events.
-/

namespace PowerTrace

variable {τ : Type}

/-! ### The idle periods of a CPU -/

/-- An interval that a CPU spent idle. -/
structure IdlePeriod (τ : Type) extends Interval τ where
  /-- The depth it was idle at. -/
  depth : Depth
  deriving Repr

/-- The depth, or running, that an action takes its CPU to, if it does. -/
def Action.goesTo? : Action → Option (Option Depth)
  | .setDepth new => some new
  | .changeFreq _ | .wake _ _ => none

/-- The depth, or running, that an event takes a CPU to, if it does: it must be accepted by a
machine with the given CPUs. -/
def Event.goesTo? (ids : List CpuId) (cpu : CpuId) (e : Event τ) : Option (Option Depth) :=
  if e.cpu = cpu then (e.action? ids).bind (·.goesTo?) else none

/-- What an event does to the depth a CPU is idle at and the instant since when it is, `none` while
it runs.  Going where it is already is no transition. -/
def Event.reopen (ids : List CpuId) (cpu : CpuId) (e : Event τ) (since? : Option (Depth × τ)) :
    Option (Depth × τ) :=
  match e.goesTo? ids cpu with
  | some new => if new = since?.map (·.1) then since? else new.map fun d => (d, e.time)
  | none => since?

/-- The idle period that an event ends on a CPU, if any. -/
def Event.closes? (ids : List CpuId) (cpu : CpuId) (e : Event τ) (since? : Option (Depth × τ)) :
    Option (IdlePeriod τ) :=
  match e.goesTo? ids cpu with
  | some new =>
    if new = since?.map (·.1) then none
    else since?.map fun (depth, start) => { depth, start, stop := e.time }
  | none => none

/-- The idle periods that events end on a CPU, first to last. -/
def closedPeriods (ids : List CpuId) (cpu : CpuId) :
    Option (Depth × τ) → List (Event τ) → List (IdlePeriod τ)
  | _, [] => []
  | since?, e :: es =>
    (e.closes? ids cpu since?).toList ++ closedPeriods ids cpu (e.reopen ids cpu since?) es

theorem Event.goesTo?_of_ne (ids : List CpuId) {cpu : CpuId} {e : Event τ} (h : e.cpu ≠ cpu) :
    e.goesTo? ids cpu = none := if_neg h

theorem Event.goesTo?_of_action? {ids : List CpuId} {e : Event τ} {a : Action}
    (h : e.action? ids = some a) : e.goesTo? ids e.cpu = a.goesTo? := by
  rw [Event.goesTo?, if_pos rfl, h, Option.bind_some]

theorem Event.goesTo?_of_action?_none {ids : List CpuId} {e : Event τ} (h : e.action? ids = none)
    (cpu : CpuId) : e.goesTo? ids cpu = none := by
  rw [Event.goesTo?, h]
  exact ite_self _

theorem Event.mem_of_action? {ids : List CpuId} {e : Event τ} {a : Action}
    (h : e.action? ids = some a) : e.cpu ∈ ids := by
  unfold Event.action? at h
  split at h
  · assumption
  · cases h

theorem Event.closes?_of_ne (ids : List CpuId) {cpu : CpuId} {e : Event τ} (h : e.cpu ≠ cpu)
    (since? : Option (Depth × τ)) : e.closes? ids cpu since? = none := by
  rw [Event.closes?, Event.goesTo?_of_ne ids h]

theorem Event.reopen_of_ne (ids : List CpuId) {cpu : CpuId} {e : Event τ} (h : e.cpu ≠ cpu)
    (since? : Option (Depth × τ)) : e.reopen ids cpu since? = since? := by
  rw [Event.reopen, Event.goesTo?_of_ne ids h]

theorem Event.closes?_of_action?_none {ids : List CpuId} {e : Event τ} (h : e.action? ids = none)
    (cpu : CpuId) (since? : Option (Depth × τ)) : e.closes? ids cpu since? = none := by
  rw [Event.closes?, Event.goesTo?_of_action?_none h]

/-- Only the events on a CPU itself matter for its idle periods. -/
theorem closedPeriods_filter (ids : List CpuId) (cpu : CpuId) (since? : Option (Depth × τ))
    (es : List (Event τ)) :
    closedPeriods ids cpu since? (es.filter (·.cpu == cpu)) = closedPeriods ids cpu since? es := by
  induction es generalizing since? with
  | nil => rfl
  | cons e es ih =>
    by_cases h : e.cpu = cpu
    · rw [List.filter_cons_of_pos (by simpa using h), closedPeriods, closedPeriods, ih]
    · rw [List.filter_cons_of_neg (by simpa using h), closedPeriods, ih, Event.closes?_of_ne ids h,
        Event.reopen_of_ne ids h]
      rfl

section Kept

variable [TimeValue τ]

/-- Whether a period counts: its length is not zero or below. -/
def IdlePeriod.counts (p : IdlePeriod τ) : Bool := !TimeValue.le p.duration TimeValue.zero

/-- Add an interval to a set, unless it does not end after it starts. -/
def IntervalSet.keep (s : IntervalSet τ) (i : Interval τ) : IntervalSet τ :=
  if i.isProper then s.insert i else s

/-- What is kept of a period at a depth, given what was kept so far. -/
def keepPeriod (depth : Nat) (kept : Option (IntervalSet τ)) (p : IdlePeriod τ) :
    Option (IntervalSet τ) :=
  if p.depth.val = depth ∧ p.counts = true then some ((kept.getD []).keep p.toInterval) else kept

/-! ### The sets and their handles -/

/-- Adding an interval to a set changes that set and no other. -/
theorem IntervalStore.exists_push {s : IntervalStore τ} {id : SetId} {set : IntervalSet τ}
    (h : s.get? id = some set) (i : Interval τ) :
    ∃ s', s.push id i = .ok s' ∧ s'.size = s.size ∧
      ∀ other, s'.get? other = if other = id then some (set.keep i) else s.get? other := by
  have hpush : s.push id i =
      if i.isProper then .ok ⟨s.sets.set id.index (set.insert i)⟩ else .ok s := by
    rw [push, get, h]
    rfl
  rw [hpush]
  unfold IntervalSet.keep
  split
  · refine ⟨_, rfl, List.length_set, ?_⟩
    intro other
    show (s.sets.set id.index (set.insert i))[other.index]? = _
    rw [List.getElem?_set]
    have hlt : id.index < s.sets.length := (List.getElem?_eq_some_iff.mp h).1
    by_cases ho : other = id
    · rw [ho, if_pos rfl, if_pos hlt, if_pos rfl]
    · rw [if_neg ho, if_neg fun hi => ho (congrArg SetId.mk hi.symm)]
      rfl
  · refine ⟨s, rfl, rfl, ?_⟩
    intro other
    split
    · next ho => rw [ho, h]
    · rfl

namespace RetainedIntervals

/-- Every handle leads to a set, and no two entries share one. -/
structure Tidy (r : RetainedIntervals τ) : Prop where
  sound : r.Sound
  distinct : (r.index.map (·.set)).Nodup

/-- The set of a CPU and a depth, if anything was kept for them. -/
def intervals? (r : RetainedIntervals τ) (cpu : CpuId) (depth : Nat) : Option (IntervalSet τ) :=
  (r.setOf? cpu depth).bind r.store.get?

omit [TimeValue τ] in
theorem tidy_empty : (empty : RetainedIntervals τ).Tidy :=
  ⟨fun _ h => absurd h List.not_mem_nil, List.nodup_nil⟩

omit [TimeValue τ] in
/-- A handle that is found is that of an entry for the CPU and the depth. -/
theorem exists_of_setOf? {r : RetainedIntervals τ} {cpu : CpuId} {depth : Nat} {id : SetId}
    (h : r.setOf? cpu depth = some id) :
    ∃ e ∈ r.index, e.cpu = cpu ∧ e.depth.val = depth ∧ e.set = id := by
  obtain ⟨e, he, hid⟩ := Option.map_eq_some_iff.mp h
  have hkey := List.find?_some he
  rw [Bool.and_eq_true, beq_iff_eq, beq_iff_eq] at hkey
  exact ⟨e, List.mem_of_find?_eq_some he, hkey.1, hkey.2, hid⟩

omit [TimeValue τ] in
/-- A handle that is found leads to the set of the CPU and the depth. -/
theorem Sound.get?_of_setOf? {r : RetainedIntervals τ} (h : r.Sound) {cpu : CpuId} {depth : Nat}
    {id : SetId} (hid : r.setOf? cpu depth = some id) :
    r.store.get? id = some ((r.intervals? cpu depth).getD []) := by
  obtain ⟨e, he, -, -, rfl⟩ := exists_of_setOf? hid
  obtain ⟨u, hu⟩ : ∃ u, r.store.get? e.set = some u := ⟨_, List.getElem?_eq_getElem (h e he)⟩
  rw [intervals?, hid, Option.bind_some, hu]
  rfl

omit [TimeValue τ] in
/-- Where there is no set there is no handle either. -/
theorem Sound.setOf?_eq_none {r : RetainedIntervals τ} (h : r.Sound) {cpu : CpuId} {depth : Nat}
    (hnone : r.intervals? cpu depth = none) : r.setOf? cpu depth = none := by
  cases hid : r.setOf? cpu depth with
  | none => rfl
  | some id =>
    rw [intervals?, hid, Option.bind_some, h.get?_of_setOf? hid] at hnone
    cases hnone

omit [TimeValue τ] in
/-- Sets of different CPUs or depths have different handles. -/
theorem Tidy.eq_of_setOf?_eq {r : RetainedIntervals τ} (h : r.Tidy) {cpu cpu' : CpuId}
    {depth depth' : Nat} {id : SetId} (hid : r.setOf? cpu depth = some id)
    (hid' : r.setOf? cpu' depth' = some id) : cpu' = cpu ∧ depth' = depth := by
  obtain ⟨e, he, rfl, rfl, rfl⟩ := exists_of_setOf? hid
  obtain ⟨e', he', rfl, rfl, hset⟩ := exists_of_setOf? hid'
  obtain rfl := List.inj_on_of_nodup_map h.distinct he' he hset
  exact ⟨rfl, rfl⟩

omit [TimeValue τ] in
/-- Making a set for a CPU and a depth, if need be, leaves the look-up of all others as it is. -/
theorem setOf?_ensure (r : RetainedIntervals τ) (cpu : CpuId) (depth : Depth) (cpu' : CpuId)
    (depth' : Nat) :
    (r.ensure cpu depth).1.setOf? cpu' depth' =
      if cpu' = cpu ∧ depth' = depth.val then some (r.ensure cpu depth).2
      else r.setOf? cpu' depth' := by
  unfold ensure
  split
  · next id hid =>
    split
    · next h => rw [h.1, h.2, hid]
    · rfl
  · next hnone =>
    show ((r.index ++ [RetainedSet.mk cpu depth r.store.alloc.2]).find? _).map RetainedSet.set = _
    rw [List.find?_append]
    split
    · next h =>
      obtain ⟨rfl, rfl⟩ := h
      rw [setOf?, Option.map_eq_none_iff] at hnone
      rw [hnone]
      simp
    · next h =>
      have hno : (cpu == cpu' && depth.val == depth') = false := by
        rw [Bool.and_eq_false_iff, beq_eq_false_iff_ne, beq_eq_false_iff_ne]
        rcases not_and_or.mp h with h | h
        · exact .inl (Ne.symm h)
        · exact .inr (Ne.symm h)
      rw [List.find?_cons_of_neg (by rw [hno]; exact Bool.false_ne_true), List.find?_nil,
        Option.or_none]
      rfl

omit [TimeValue τ] in
theorem Tidy.ensure {r : RetainedIntervals τ} (h : r.Tidy) (cpu : CpuId) (depth : Depth) :
    (r.ensure cpu depth).1.Tidy := by
  refine ⟨(h.sound.ensure cpu depth).1, ?_⟩
  unfold RetainedIntervals.ensure
  split
  · exact h.distinct
  · show ((r.index ++ [RetainedSet.mk cpu depth ⟨r.store.size⟩]).map RetainedSet.set).Nodup
    rw [List.map_append, List.map_singleton, List.nodup_append]
    refine ⟨h.distinct, List.nodup_singleton _, ?_⟩
    -- the fresh handle lies past all that are there
    intro id hid id' hid' heq
    rw [List.mem_singleton] at hid'
    obtain ⟨e, he, rfl⟩ := List.mem_map.mp hid
    have hlt := h.sound e he
    rw [heq, hid'] at hlt
    exact Nat.lt_irrefl _ hlt

omit [TimeValue τ] in
/-- A set that is made is empty, and no set that is there changes. -/
theorem Tidy.intervals?_ensure {r : RetainedIntervals τ} (h : r.Tidy) (cpu : CpuId) (depth : Depth)
    (cpu' : CpuId) (depth' : Nat) :
    (r.ensure cpu depth).1.intervals? cpu' depth' =
      if cpu' = cpu ∧ depth' = depth.val then some ((r.intervals? cpu depth.val).getD [])
      else r.intervals? cpu' depth' := by
  have hset : ∀ {cpu'' : CpuId} {depth'' : Nat} {id : SetId},
      r.setOf? cpu'' depth'' = some id → id.index < r.store.size := by
    intro cpu'' depth'' id hid
    obtain ⟨e, he, -, -, rfl⟩ := exists_of_setOf? hid
    exact h.sound e he
  have hold : ∀ {id : SetId}, id.index < r.store.size →
      (r.ensure cpu depth).1.store.get? id = r.store.get? id := by
    intro id hid
    unfold RetainedIntervals.ensure
    split
    · rfl
    · exact List.getElem?_append_left hid
  rw [intervals?, setOf?_ensure]
  split
  · next hk =>
    rw [Option.bind_some]
    cases hid : r.setOf? cpu depth.val with
    | some id =>
      obtain ⟨u, hget⟩ : ∃ u, r.store.get? id = some u :=
        ⟨_, List.getElem?_eq_getElem (hset hid)⟩
      have hens : r.ensure cpu depth = (r, id) := by rw [RetainedIntervals.ensure, hid]
      rw [hens, intervals?, hid, Option.bind_some, hget]
      rfl
    | none =>
      rw [intervals?, hid, RetainedIntervals.ensure, hid]
      exact r.store.get?_add_self []
  · cases hid : r.setOf? cpu' depth' with
    | some id => rw [intervals?, hid, Option.bind_some, Option.bind_some, hold (hset hid)]
    | none => rw [intervals?, hid]; rfl

/-- **Keeping an interval changes the set of its CPU and depth, and no other.** -/
theorem Tidy.record {r : RetainedIntervals τ} (h : r.Tidy) (cpu : CpuId) (i : ClosedInterval τ) :
    ∃ r', r.record cpu i = .ok r' ∧ r'.Tidy ∧ ∀ cpu' depth',
      r'.intervals? cpu' depth' =
        if cpu' = cpu ∧ depth' = i.depth.val then
          some (((r.intervals? cpu i.depth.val).getD []).keep ⟨i.start, i.stop⟩)
        else r.intervals? cpu' depth' := by
  have ht := h.ensure cpu i.depth
  have hview := h.intervals?_ensure cpu i.depth
  have hid := r.setOf?_ensure cpu i.depth cpu i.depth.val
  rw [if_pos ⟨rfl, rfl⟩] at hid
  have hget : (r.ensure cpu i.depth).1.store.get? (r.ensure cpu i.depth).2 =
      some ((r.intervals? cpu i.depth.val).getD []) := by
    have hself := hview cpu i.depth.val
    rw [if_pos ⟨rfl, rfl⟩, intervals?, hid] at hself
    exact hself
  obtain ⟨store, hpush, hsize, hstore⟩ := IntervalStore.exists_push hget ⟨i.start, i.stop⟩
  refine ⟨{ (r.ensure cpu i.depth).1 with store }, ?_, ⟨?_, ht.distinct⟩, ?_⟩
  · simp only [RetainedIntervals.record, hpush]
    rfl
  · intro s hs
    show s.set.index < store.size
    rw [hsize]
    exact ht.sound s hs
  · intro cpu' depth'
    show ((r.ensure cpu i.depth).1.setOf? cpu' depth').bind store.get? = _
    split
    · next hk =>
      rw [hk.1, hk.2, hid, Option.bind_some, hstore, if_pos rfl]
    · next hk =>
      have hother := hview cpu' depth'
      rw [if_neg hk, intervals?] at hother
      rw [← hother]
      cases hid' : (r.ensure cpu i.depth).1.setOf? cpu' depth' with
      | none => rfl
      | some id' =>
        rw [Option.bind_some, Option.bind_some, hstore, if_neg]
        rintro rfl
        exact hk (ht.eq_of_setOf?_eq hid hid')

end RetainedIntervals

/-! ### The idle state of a CPU under a replay -/

/-- What a transition returns: the open interval, closed at its instant. -/
theorem CStateTrack.snd_record (t : CStateTrack τ) (time : τ) (new : Option Depth) :
    (t.record time new).2 =
      if new = t.current then none else t.current.map fun d => (t.close d time).2 := by
  unfold record
  split
  · rfl
  · unfold closeOpen
    cases t.current <;> rfl

/-- Where a transition leads: nowhere, out of the idle state, or into one from its instant on. -/
theorem CStateTrack.openSince_record (t : CStateTrack τ) (time : τ) (new : Option Depth) :
    ((t.record time new).1.current.map fun d => (d, (t.record time new).1.since)) =
      if new = t.current then t.current.map fun d => (d, t.since)
      else new.map fun d => (d, time) := by
  unfold record
  split
  · rfl
  · cases new with
    | none => exact congrArg (Option.map _) (t.current_closeOpen time)
    | some d => rfl

/-- An interval that was closed, without its statistics. -/
def ClosedInterval.period (i : ClosedInterval τ) : IdlePeriod τ :=
  { start := i.start, stop := i.stop, depth := i.depth }

/-- Closing an interval ends the period since it was opened, and discards it if it does not count. -/
theorem CStateTrack.period_close (t : CStateTrack τ) (d : Depth) (time : τ) :
    (t.close d time).2.period = { start := t.since, stop := time, depth := d } ∧
      (t.close d time).2.isDiscarded = !(t.close d time).2.period.counts := by
  have hperiod : (t.close d time).2.period = { start := t.since, stop := time, depth := d } := by
    unfold close
    dsimp only
    split <;> rfl
  refine ⟨hperiod, ?_⟩
  rw [hperiod, IdlePeriod.counts, Bool.not_not, Interval.duration]
  unfold close
  dsimp only
  split
  · next h => exact h.symm
  · next h => exact (Bool.eq_false_iff.mpr h).symm

/-- The depth a CPU is idle at and the instant since when it is. -/
def Cpu.since? (c : Cpu τ) : Option (Depth × τ) := c.cstates.current.map fun d => (d, c.cstates.since)

omit [TimeValue τ] in
theorem Cpu.map_fst_since? (c : Cpu τ) : c.since?.map (·.1) = c.cstates.current := by
  rw [since?, Option.map_map]
  exact Option.map_id'

theorem Cpu.since?_apply (c : Cpu τ) (time : τ) (a : Action) :
    (c.apply time a).since? =
      match a.goesTo? with
      | some new => if new = c.since?.map (·.1) then c.since? else new.map fun d => (d, time)
      | none => c.since? := by
  cases a with
  | setDepth new =>
    show ((c.cstates.record time new).1.current.map fun d =>
        (d, (c.cstates.record time new).1.since)) = if new = c.since?.map (·.1) then _ else _
    rw [CStateTrack.openSince_record, Cpu.map_fst_since?]
    rfl
  | changeFreq f => rfl
  | wake id name =>
    show (((c.wakeups.charge c.cstates id name).2.current).map fun d =>
      (d, (c.wakeups.charge c.cstates id name).2.since)) = c.since?
    unfold WakeupTable.charge
    split <;> rfl

/-- The period that an action ends on its CPU. -/
theorem Cpu.period_closedBy (c : Cpu τ) (time : τ) (a : Action) :
    (c.closedBy time a).map (·.period) =
      match a.goesTo? with
      | some new =>
        if new = c.since?.map (·.1) then none
        else c.since?.map fun (depth, start) => { depth, start, stop := time }
      | none => none := by
  cases a with
  | setDepth new =>
    show ((c.cstates.record time new).2).map (·.period) = if new = c.since?.map (·.1) then _ else _
    rw [CStateTrack.snd_record, Cpu.map_fst_since?]
    split
    · rfl
    · rw [since?, Option.map_map, Option.map_map]
      exact congrArg (Option.map · _) (funext fun d => (c.cstates.period_close d time).1)
  | changeFreq f => rfl
  | wake id name => rfl

theorem Cpu.isDiscarded_closedBy {c : Cpu τ} {time : τ} {a : Action} {i : ClosedInterval τ}
    (h : c.closedBy time a = some i) : i.isDiscarded = !i.period.counts := by
  cases a with
  | setDepth new =>
    have h : (c.cstates.record time new).2 = some i := h
    rw [CStateTrack.snd_record] at h
    split at h
    · cases h
    · obtain ⟨d, -, rfl⟩ := Option.map_eq_some_iff.mp h
      exact (c.cstates.period_close d time).2
  | changeFreq f => cases h
  | wake id name => cases h

namespace Topology

/-- The depth a CPU is idle at and since when, `none` while it runs. -/
def since? (t : Topology τ) (cpu : CpuId) : Option (Depth × τ) := (t.cpu? cpu).bind (·.since?)

omit [TimeValue τ] in
theorem id_of_cpu? {t : Topology τ} {cpu : CpuId} {c : Cpu τ} (h : t.cpu? cpu = some c) :
    c.id = cpu := key_of_find? _ h

omit [TimeValue τ] in
theorem exists_cpu?_of_mem {t : Topology τ} {cpu : CpuId} (h : cpu ∈ t.cpuIds) :
    ∃ c, t.cpu? cpu = some c := by
  obtain ⟨c, hc, rfl⟩ := List.mem_map.mp h
  refine Option.isSome_iff_exists.mp ?_
  rw [cpu?, List.find?_isSome]
  exact ⟨c, hc, beq_self_eq_true c.id⟩

/-- What an event does to the idle state of a CPU can be told from the event. -/
theorem since?_step (x : Extremum) (t : Topology τ) (e : Event τ) (cpu : CpuId) :
    (t.step x e).since? cpu = e.reopen t.cpuIds cpu (t.since? cpu) := by
  unfold Topology.step Event.reopen
  cases ha : e.action? t.cpuIds with
  | none =>
    rw [Event.goesTo?_of_action?_none ha]
  | some a =>
    show ((t.apply x e.cpu e.time a).cpu? cpu).bind (·.since?) = _
    rw [cpu?_apply]
    by_cases hcpu : e.cpu = cpu
    · subst hcpu
      obtain ⟨c, hc⟩ := exists_cpu?_of_mem (Event.mem_of_action? ha)
      rw [Event.goesTo?_of_action? ha, since?, hc, Option.map_some, Option.bind_some,
        Option.bind_some, if_pos (id_of_cpu? hc), Cpu.since?_apply]
    · rw [Event.goesTo?_of_ne _ hcpu, since?]
      cases hc : t.cpu? cpu with
      | none => rfl
      | some c =>
        rw [Option.map_some, if_neg fun h => hcpu (h.symm.trans (id_of_cpu? hc))]

/-- The interval that an event closes is the period that it ends, on its own CPU and on no other. -/
theorem closes?_eq {t : Topology τ} {e : Event τ} {a : Action} (ha : e.action? t.cpuIds = some a)
    (cpu : CpuId) :
    e.closes? t.cpuIds cpu (t.since? cpu) =
      if cpu = e.cpu then ((t.cpu? e.cpu).bind (·.closedBy e.time a)).map (·.period) else none := by
  split
  · next hcpu =>
    obtain ⟨c, hc⟩ := exists_cpu?_of_mem (Event.mem_of_action? ha)
    rw [hcpu, Event.closes?, Event.goesTo?_of_action? ha, since?, hc, Option.bind_some,
      Option.bind_some, Cpu.period_closedBy]
  · next hcpu => exact Event.closes?_of_ne _ (Ne.symm hcpu) _

end Topology

/-! ### What a replay keeps -/

/-- What becomes of a closed interval: the set of its CPU and depth receives the period that it is,
if this counts, and no other set changes. -/
theorem RetainedIntervals.Tidy.keepClosed {kept : RetainedIntervals τ} (h : kept.Tidy) (cpu : CpuId)
    {i : ClosedInterval τ} (hi : i.isDiscarded = !i.period.counts) :
    ∃ kept', (if i.isDiscarded then .ok (some kept) else (kept.record cpu i).map some) =
        .ok (some kept') ∧ kept'.Tidy ∧ ∀ cpu' depth,
      kept'.intervals? cpu' depth =
        if cpu' = cpu then keepPeriod depth (kept.intervals? cpu depth) i.period
        else kept.intervals? cpu' depth := by
  cases hcounts : i.period.counts with
  | true =>
    obtain ⟨kept', hrecord, htidy, hview⟩ := h.record cpu i
    refine ⟨kept', ?_, htidy, ?_⟩
    · rw [hi, hcounts, hrecord]
      rfl
    · intro cpu' depth
      rw [hview, keepPeriod, hcounts]
      by_cases hcpu : cpu' = cpu
      · subst hcpu
        by_cases hdepth : depth = i.depth.val
        · subst hdepth
          rw [if_pos ⟨rfl, rfl⟩, if_pos rfl, if_pos ⟨rfl, rfl⟩]
          rfl
        · rw [if_neg fun hk => hdepth hk.2, if_pos rfl, if_neg fun hk => hdepth hk.1.symm]
      · rw [if_neg fun hk => hcpu hk.1, if_neg hcpu]
  | false =>
    refine ⟨kept, ?_, h, ?_⟩
    · rw [hi, hcounts]
      rfl
    · intro cpu' depth
      split
      · next hcpu =>
        rw [hcpu, keepPeriod, if_neg fun hk => Bool.false_ne_true (hcounts.symm.trans hk.2)]
      · rfl

namespace Replay

/-- The handles that a replay keeps lead to sets of their own. -/
def Tidy (r : Replay τ) : Prop := ∀ kept, r.retained = some kept → kept.Tidy

/-- The kept idle intervals of a CPU at a depth. -/
def intervals? (r : Replay τ) (cpu : CpuId) (depth : Nat) : Option (IntervalSet τ) :=
  r.retained.bind (·.intervals? cpu depth)

/-- What an accepted action adds to what is kept. -/
theorem Tidy.retain {r : Replay τ} (h : r.Tidy) {e : Event τ} {a : Action}
    (ha : e.action? r.topology.cpuIds = some a) :
    ∃ kept, r.retain e.cpu e.time a = .ok kept ∧ kept.isSome = r.retained.isSome ∧
      (∀ k, kept = some k → k.Tidy) ∧
      (r.retained.isSome = true → ∀ cpu depth,
        kept.bind (·.intervals? cpu depth) =
          (e.closes? r.topology.cpuIds cpu (r.topology.since? cpu)).toList.foldl
            (keepPeriod depth) (r.intervals? cpu depth)) := by
  unfold Replay.retain Replay.intervals?
  cases hr : r.retained with
  | none => exact ⟨none, rfl, rfl, fun _ hk => (nomatch hk), fun hk => (nomatch hk)⟩
  | some kept =>
    have hkept := h kept hr
    cases hi : (r.topology.cpu? e.cpu).bind (·.closedBy e.time a) with
    | none =>
      refine ⟨some kept, rfl, rfl, fun k hk => Option.some.inj hk ▸ hkept, ?_⟩
      intro _ cpu depth
      rw [Topology.closes?_eq ha, hi, Option.map_none, ite_self]
      rfl
    | some i =>
      obtain ⟨c, -, hc⟩ := Option.bind_eq_some_iff.mp hi
      obtain ⟨kept', hretain, htidy, hview⟩ :=
        hkept.keepClosed e.cpu (Cpu.isDiscarded_closedBy hc)
      refine ⟨some kept', hretain, rfl, fun k hk => Option.some.inj hk ▸ htidy, ?_⟩
      intro _ cpu depth
      rw [Topology.closes?_eq ha, hi, Option.bind_some, Option.bind_some, hview]
      split
      · next hcpu => rw [hcpu]; rfl
      · rfl

/-- What an event adds to what is kept. -/
theorem Tidy.process {r : Replay τ} (h : r.Tidy) (e : Event τ) :
    ∃ r', r.process e = .ok r' ∧ r'.Tidy ∧ r'.options = r.options ∧
      r'.topology = r.topology.step r.options.compositeFrequency e ∧
      r'.retained.isSome = r.retained.isSome ∧
      (r.retained.isSome = true → ∀ cpu depth,
        r'.intervals? cpu depth =
          (e.closes? r.topology.cpuIds cpu (r.topology.since? cpu)).toList.foldl
            (keepPeriod depth) (r.intervals? cpu depth)) := by
  unfold Topology.step
  cases ha : e.action? r.topology.cpuIds with
  | none =>
    refine ⟨_, process_of_dropped ha, h, rfl, rfl, rfl, ?_⟩
    intro _ cpu depth
    rw [Event.closes?_of_action?_none ha]
    rfl
  | some a =>
    obtain ⟨kept, hk, hsome, ht, hview⟩ := h.retain ha
    exact ⟨_, process_of_accepted ha hk, ht, rfl, rfl, hsome, hview⟩

/-- **What a replay has kept by the end of its events** are the idle periods that they end, first to
last, if it keeps any at all. -/
theorem Tidy.processAll {r : Replay τ} (h : r.Tidy) (es : List (Event τ)) :
    ∃ r', r.processAll es = .ok r' ∧ r'.Tidy ∧ r'.retained.isSome = r.retained.isSome ∧
      (r.retained.isSome = true → ∀ cpu depth, r'.intervals? cpu depth =
        (closedPeriods r.topology.cpuIds cpu (r.topology.since? cpu) es).foldl (keepPeriod depth)
          (r.intervals? cpu depth)) := by
  induction es generalizing r with
  | nil => exact ⟨r, rfl, h, rfl, fun _ _ _ => rfl⟩
  | cons e es ih =>
    obtain ⟨r₁, h₁, ht₁, -, htop, hsome, hview⟩ := h.process e
    obtain ⟨r₂, h₂, ht₂, hsome₂, hview₂⟩ := ih ht₁
    refine ⟨r₂, by rw [processAll_cons, h₁]; exact h₂, ht₂, hsome₂.trans hsome, ?_⟩
    intro hr cpu depth
    rw [hview₂ (hsome.trans hr), hview hr, htop, Topology.cpuIds_step, Topology.since?_step,
      closedPeriods, List.foldl_append]

/-- At first nothing is kept and every CPU runs. -/
theorem exists_start_tidy {d : Description} {t : Topology τ} (h : Topology.build d = .ok t)
    (o : ReplayOptions) :
    ∃ r : Replay τ, start d o = .ok r ∧ r.Tidy ∧ r.retained.isSome = o.retainIntervals ∧
      r.topology.cpuIds = d.layout.cpuIds ∧ ∀ cpu, r.topology.since? cpu = none ∧
        ∀ depth, r.intervals? cpu depth = none := by
  refine ⟨⟨o, t, .empty, if o.retainIntervals then some .empty else none⟩, ?_, ?_, ?_,
    Topology.cpuIds_of_build h, fun cpu => ⟨?_, fun depth => ?_⟩⟩
  · rw [start, h]
    rfl
  · intro kept hkept
    dsimp only at hkept
    split at hkept
    · cases hkept
      exact RetainedIntervals.tidy_empty
    · cases hkept
  · cases o.retainIntervals <;> rfl
  · show (t.cpu? cpu).bind (·.since?) = none
    cases hc : t.cpu? cpu with
    | none => rfl
    | some c =>
      obtain ⟨infos, hinfos⟩ :=
        (t.fresh_of_build h _ (Topology.mem_entities_cpu (List.mem_of_find?_eq_some hc))).cstates
      rw [Option.bind_some, Cpu.since?, show c.cstates = .ofInfos infos from hinfos]
      rfl
  · rw [intervals?]
    cases o.retainIntervals <;> rfl

/-- **What the events of a trace leave behind**: the idle periods that they end on each CPU, if idle
intervals are kept. -/
theorem intervals?_of_run {d : Description} {t : Topology τ} (h : Topology.build d = .ok t)
    (o : ReplayOptions) (es : List (Event τ)) :
    ∃ r₀ r : Replay τ, start d o = .ok r₀ ∧ r₀.processAll es = .ok r ∧ r.Tidy ∧
      r.retained.isSome = o.retainIntervals ∧ ∀ cpu depth, r.intervals? cpu depth =
        if o.retainIntervals = true then
          (closedPeriods d.layout.cpuIds cpu none es).foldl (keepPeriod depth) none
        else none := by
  obtain ⟨r₀, h₀, ht₀, hr₀, hids, hnew⟩ := exists_start_tidy h o
  obtain ⟨r, hr, ht, hsome, hview⟩ := ht₀.processAll es
  refine ⟨r₀, r, h₀, hr, ht, hsome.trans hr₀, ?_⟩
  intro cpu depth
  split
  · next ho => rw [hview (hr₀.trans ho), hids, (hnew cpu).1, (hnew cpu).2]
  · next ho =>
    have hnone : r.retained = none := by
      rw [← Option.isNone_iff_eq_none, ← Option.not_isSome, hsome, hr₀, Bool.eq_false_iff.mpr ho]
      rfl
    rw [intervals?, hnone]
    rfl

end Replay

end Kept

end PowerTrace
