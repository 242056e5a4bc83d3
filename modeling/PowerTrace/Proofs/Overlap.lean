import PowerTrace.Analysis
import PowerTrace.Proofs.Retention
import PowerTrace.Proofs.Sweep

/-!
# What an overlap query answers

The idle intervals that are kept of a CPU follow each other if its events come in the order of time,
and a query for several CPUs answers with what their sets have in common.

* `InOrder`: the events on a CPU come in the order of time;
* `InOrder.closedPeriods_apart`: no idle period of such a CPU starts before an earlier one stops;
* `keptSet`, `keptSet_eq`, `ordered_keptSet`: what is kept of a CPU at a depth, as an ordered set;
* `RetainedIntervals.Tidy.overlap_cons`: a query answers with the total of an intersection and leaves
  what is kept as it was;
* `togetherTotal`, `Analysis.exists_overlap`: the answer in terms of the events of a trace;
* `togetherTotal_congr`: it depends on nothing but which CPUs are asked for.
-/

namespace PowerTrace

open TimeValue OrderedTime

variable {τ R : Type} [TimeValue τ] [LinearOrder R] [OrderedTime τ R]

/-! ### Events in the order of time -/

omit [LinearOrder R] [OrderedTime τ R] in
/-- Whether no event on a CPU lies before an earlier one on it. -/
def InOrder (cpu : CpuId) (es : List (Event τ)) : Prop :=
  (es.filter (·.cpu == cpu)).Pairwise fun e e' => TimeValue.lt e'.time e.time = false

omit [LinearOrder R] [OrderedTime τ R] in
instance (cpu : CpuId) (es : List (Event τ)) : Decidable (InOrder cpu es) :=
  inferInstanceAs (Decidable (List.Pairwise _ _))

omit [TimeValue τ] [LinearOrder R] [OrderedTime τ R] in
/-- A period that an event ends started when the CPU went idle. -/
theorem Event.start_of_closes? {ids : List CpuId} {cpu : CpuId} {e : Event τ}
    {since? : Option (Depth × τ)} {p : IdlePeriod τ} (h : e.closes? ids cpu since? = some p) :
    ∃ d, since? = some (d, p.start) := by
  unfold Event.closes? at h
  split at h
  · split at h
    · cases h
    · obtain ⟨⟨d, start⟩, hs, rfl⟩ := Option.map_eq_some_iff.mp h
      exact ⟨d, hs⟩
  · cases h

omit [TimeValue τ] [LinearOrder R] [OrderedTime τ R] in
/-- After an event a CPU is idle since before, or since the event. -/
theorem Event.since_of_reopen {ids : List CpuId} {cpu : CpuId} {e : Event τ}
    {since? : Option (Depth × τ)} {d : Depth} {s : τ}
    (h : e.reopen ids cpu since? = some (d, s)) : since? = some (d, s) ∨ s = e.time := by
  unfold Event.reopen at h
  split at h
  · split at h
    · exact .inl h
    · obtain ⟨d', -, heq⟩ := Option.map_eq_some_iff.mp h
      exact .inr (Prod.mk.inj heq).2.symm
  · exact .inl h

omit [TimeValue τ] [LinearOrder R] [OrderedTime τ R] in
/-- A period starts where the CPU went idle: before the events, or at one of them. -/
theorem start_of_mem_closedPeriods {ids : List CpuId} {cpu : CpuId} {since? : Option (Depth × τ)}
    {es : List (Event τ)} {p : IdlePeriod τ} (h : p ∈ closedPeriods ids cpu since? es) :
    (∃ d, since? = some (d, p.start)) ∨ ∃ e ∈ es, p.start = e.time := by
  induction es generalizing since? with
  | nil => exact absurd h List.not_mem_nil
  | cons e es ih =>
    rw [closedPeriods, List.mem_append, Option.mem_toList] at h
    rcases h with h | h
    · exact .inl (Event.start_of_closes? h)
    · rcases ih h with ⟨d, hd⟩ | ⟨e', he', hstart⟩
      · rcases Event.since_of_reopen hd with hold | hnew
        · exact .inl ⟨d, hold⟩
        · exact .inr ⟨e, List.mem_cons_self, hnew⟩
      · exact .inr ⟨e', List.mem_cons_of_mem e he', hstart⟩

omit [TimeValue τ] [LinearOrder R] [OrderedTime τ R] in
/-- An event that ends a period ends it at its own instant, and a period that it starts starts
there. -/
theorem Event.stop_of_closes? {ids : List CpuId} {cpu : CpuId} {e : Event τ}
    {since? : Option (Depth × τ)} {p : IdlePeriod τ} (h : e.closes? ids cpu since? = some p) :
    p.stop = e.time ∧ ∀ d t, e.reopen ids cpu since? = some (d, t) → t = e.time := by
  unfold Event.closes? at h
  unfold Event.reopen
  split at h
  · split at h
    · cases h
    · next hne =>
      obtain ⟨⟨d, start⟩, -, rfl⟩ := Option.map_eq_some_iff.mp h
      refine ⟨rfl, ?_⟩
      intro d t hreopen
      rw [if_neg hne] at hreopen
      obtain ⟨d', -, heq⟩ := Option.map_eq_some_iff.mp hreopen
      exact (Prod.mk.inj heq).2.symm
  · cases h

include R in
theorem lt_self (a : τ) : TimeValue.lt a a = false := by
  rw [Bool.eq_false_iff]
  intro h
  obtain ⟨ha, -⟩ := isNumber_of_lt h
  exact lt_irrefl _ ((lt_iff ha ha).mp h)

include R in
/-- No period starts before an earlier one stops if no event lies before an earlier one. -/
theorem pairwise_closedPeriods {ids : List CpuId} {cpu : CpuId} {es : List (Event τ)}
    (h : es.Pairwise fun e e' => TimeValue.lt e'.time e.time = false)
    (since? : Option (Depth × τ)) :
    (closedPeriods ids cpu since? es).Pairwise fun p q => TimeValue.lt q.start p.stop = false := by
  induction es generalizing since? with
  | nil => exact .nil
  | cons e es ih =>
    obtain ⟨he, hes⟩ := List.pairwise_cons.mp h
    rw [closedPeriods]
    cases hp : e.closes? ids cpu since? with
    | none => exact ih hes _
    | some p =>
      refine List.pairwise_cons.mpr ⟨?_, ih hes _⟩
      intro q hq
      obtain ⟨hstop, hreopen⟩ := Event.stop_of_closes? hp
      rw [hstop]
      rcases start_of_mem_closedPeriods hq with ⟨d, hd⟩ | ⟨e', he', hstart⟩
      · rw [hreopen d q.start hd]
        exact lt_self e.time
      · rw [hstart]
        exact he e' he'

include R in
/-- No period of a CPU whose events are in order starts before an earlier one stops. -/
theorem InOrder.closedPeriods_apart {ids : List CpuId} {cpu : CpuId} {es : List (Event τ)}
    (h : InOrder cpu es) :
    (closedPeriods ids cpu none es).Pairwise fun p q => TimeValue.lt q.start p.stop = false := by
  rw [← closedPeriods_filter]
  exact pairwise_closedPeriods h none

/-! ### What is kept of a CPU -/

/-- Whether a period is kept: it is at the depth, it counts, and it stops after it starts. -/
def IdlePeriod.isKept (depth : Nat) (p : IdlePeriod τ) : Bool :=
  p.depth.val == depth && p.counts && p.isProper

omit [LinearOrder R] [OrderedTime τ R] in
/-- An interval that starts no sooner than all others comes last. -/
theorem IntervalSet.insert_eq_append {s : IntervalSet τ} {i : Interval τ}
    (h : ∀ j ∈ s, TimeValue.le j.start i.start = true) : s.insert i = s ++ [i] := by
  induction s with
  | nil => rfl
  | cons j s ih =>
    obtain ⟨hj, hs⟩ := List.forall_mem_cons.mp h
    rw [insert, if_pos hj, ih hs, List.cons_append]

include R in
/-- Periods that follow each other are kept in their order. -/
theorem foldl_keepPeriod (depth : Nat) {ps : List (IdlePeriod τ)}
    (hps : ps.Pairwise fun p q => TimeValue.lt q.start p.stop = false)
    {kept : Option (IntervalSet τ)} (hproper : ∀ i ∈ kept.getD [], i.isProper = true)
    (hkept : ∀ i ∈ kept.getD [], ∀ p ∈ ps, TimeValue.lt p.start i.stop = false) :
    (ps.foldl (keepPeriod depth) kept).getD [] =
      kept.getD [] ++ (ps.filter (·.isKept depth)).map (·.toInterval) := by
  induction ps generalizing kept with
  | nil => exact (List.append_nil _).symm
  | cons p ps ih =>
    obtain ⟨hp, hps⟩ := List.pairwise_cons.mp hps
    have hrest : ∀ i ∈ kept.getD [], ∀ q ∈ ps, TimeValue.lt q.start i.stop = false :=
      fun i hi q hq => hkept i hi q (List.mem_cons_of_mem p hq)
    rw [List.foldl_cons]
    by_cases hk : p.isKept depth = true
    · rw [List.filter_cons_of_pos hk]
      rw [IdlePeriod.isKept, Bool.and_eq_true, Bool.and_eq_true, beq_iff_eq] at hk
      obtain ⟨⟨hdepth, hcounts⟩, hpp⟩ := hk
      -- all that is kept so far stops before the period starts, so starts before it does
      have hle : ∀ j ∈ kept.getD [], TimeValue.le j.start p.start = true := by
        intro j hj
        obtain ⟨hjs, hje, hjlt⟩ := Interval.isNumber_of_isProper (hproper j hj)
        have hps := (Interval.isNumber_of_isProper hpp).1
        have hnot := hkept j hj p List.mem_cons_self
        rw [← Bool.not_eq_true, lt_iff hps hje, not_lt] at hnot
        exact (le_iff hjs hps).mpr (hjlt.le.trans hnot)
      have hstep : (keepPeriod depth kept p).getD [] = kept.getD [] ++ [p.toInterval] := by
        rw [keepPeriod, if_pos ⟨hdepth, hcounts⟩, Option.getD_some, IntervalSet.keep, if_pos hpp,
          IntervalSet.insert_eq_append hle]
      rw [ih hps, hstep, List.map_cons, List.append_assoc, List.singleton_append]
      · rw [hstep]
        exact List.forall_mem_append.mpr ⟨hproper, List.forall_mem_singleton.mpr hpp⟩
      · rw [hstep]
        exact List.forall_mem_append.mpr ⟨hrest, List.forall_mem_singleton.mpr hp⟩
    · rw [List.filter_cons_of_neg hk]
      have hstep : (keepPeriod depth kept p).getD [] = kept.getD [] := by
        unfold keepPeriod
        split
        · next h =>
          rw [Option.getD_some, IntervalSet.keep, if_neg]
          intro hpp
          rw [IdlePeriod.isKept, h.2, h.1, beq_self_eq_true] at hk
          exact hk hpp
        · rfl
      rw [ih hps, hstep]
      · rwa [hstep]
      · rwa [hstep]

/-- The set that is kept of a CPU at a depth. -/
def keptSet (ids : List CpuId) (es : List (Event τ)) (depth : Nat) (cpu : CpuId) : IntervalSet τ :=
  ((closedPeriods ids cpu none es).foldl (keepPeriod depth) none).getD []

variable {ids : List CpuId} {es : List (Event τ)} {cpu : CpuId}

include R in
theorem keptSet_eq (h : InOrder cpu es) (depth : Nat) :
    keptSet ids es depth cpu =
      ((closedPeriods ids cpu none es).filter (·.isKept depth)).map (·.toInterval) := by
  exact foldl_keepPeriod depth h.closedPeriods_apart (fun _ hi => absurd hi List.not_mem_nil)
    fun _ hi => absurd hi List.not_mem_nil

/-- The set that is kept of a CPU whose events are in order is ordered. -/
theorem ordered_keptSet (h : InOrder cpu es) (depth : Nat) : (keptSet ids es depth cpu).Ordered := by
  have hproper : ∀ p ∈ (closedPeriods ids cpu none es).filter (·.isKept depth),
      p.toInterval.isProper = true := by
    intro p hp
    have hk := (List.mem_filter.mp hp).2
    rw [IdlePeriod.isKept, Bool.and_eq_true] at hk
    exact hk.2
  rw [keptSet_eq h]
  refine ⟨List.forall_mem_map.mpr hproper, List.pairwise_map.mpr ?_⟩
  refine (h.closedPeriods_apart.filter _).imp_of_mem fun {p q} hp hq hpq => ?_
  have hpe := (Interval.isNumber_of_isProper (hproper p hp)).2.1
  have hqs := (Interval.isNumber_of_isProper (hproper q hq)).1
  rw [← Bool.not_eq_true, lt_iff hqs hpe, not_lt] at hpq
  exact hpq

/-- The sets that are kept of CPUs whose events are in order are ordered. -/
theorem ordered_keptSets {cpus : List CpuId} (h : ∀ c ∈ cpu :: cpus, InOrder c es) (depth : Nat) :
    ∀ u ∈ keptSet ids es depth cpu :: cpus.map (keptSet ids es depth), u.Ordered := by
  rw [← List.map_cons]
  exact List.forall_mem_map.mpr fun c hc => ordered_keptSet (h c hc) depth

/-! ### What a query answers -/

omit [TimeValue τ] [LinearOrder R] [OrderedTime τ R] in
/-- Sets that are added leave those that were there where they are. -/
theorem IntervalStore.get?_of_prefix {store store' : IntervalStore τ} (h : store.sets <+: store'.sets)
    {id : SetId} {u : IntervalSet τ} (hid : store.get? id = some u) : store'.get? id = some u := by
  obtain ⟨more, hmore⟩ := h
  have hlt : id.index < store.sets.length := (List.getElem?_eq_some_iff.mp hid).1
  show store'.sets[id.index]? = some u
  rw [← hmore, List.getElem?_append_left hlt]
  exact hid

omit [LinearOrder R] [OrderedTime τ R] in
/-- Sets are intersected one after the other; the sets made on the way come after all others. -/
theorem RetainedIntervals.exists_meetAll {store : IntervalStore τ} {first : SetId}
    {u : IntervalSet τ} (hfirst : store.get? first = some u) {rest : List SetId}
    {us : List (IntervalSet τ)}
    (hrest : List.Forall₂ (fun id set => store.get? id = some set) rest us) :
    ∃ store' id, meetAll store first rest = .ok (store', id) ∧
      store'.get? id = some (us.foldl IntervalSet.intersect u) ∧
      store'.truncate store.size = store := by
  suffices h : ∃ store' id, meetAll store first rest = .ok (store', id) ∧
      store'.get? id = some (us.foldl IntervalSet.intersect u) ∧
      ∃ more, store'.sets = store.sets ++ more by
    obtain ⟨store', id, hmeet, hget, more, hmore⟩ := h
    refine ⟨store', id, hmeet, hget, ?_⟩
    rw [IntervalStore.truncate, hmore, IntervalStore.size, List.take_left]
  induction rest generalizing store first u us with
  | nil =>
    cases hrest
    exact ⟨store, first, rfl, hfirst, [], (List.append_nil _).symm⟩
  | cons id rest ih =>
    cases hrest with
    | @cons _ v _ vs hid hrest =>
      have hstep : store.intersect first id = .ok (store.add (u.intersect v)) :=
        IntervalStore.intersect_eq_ok hfirst hid
      obtain ⟨store', id', hmeet, hget, more, hmore⟩ :=
        ih (store.get?_add_self (u.intersect v))
          (hrest.imp fun _ _ hget => IntervalStore.get?_of_prefix (List.prefix_append _ _) hget)
      refine ⟨store', id', ?_, hget, u.intersect v :: more, ?_⟩
      · rw [meetAll, List.foldlM_cons]
        simp only [hstep]
        exact hmeet
      · rw [hmore]
        exact List.append_assoc _ _ _

omit [LinearOrder R] [OrderedTime τ R] in
/-- An empty set has nothing in common with others. -/
theorem IntervalSet.foldl_intersect_eq_nil {s : IntervalSet τ} {ts : List (IntervalSet τ)}
    (h : [] ∈ s :: ts) : ts.foldl intersect s = [] := by
  induction ts generalizing s with
  | nil => exact (List.mem_singleton.mp h).symm
  | cons t ts ih =>
    refine ih ?_
    rcases List.mem_cons.mp h with rfl | h
    · rw [nil_intersect]
      exact List.mem_cons_self
    · rcases List.mem_cons.mp h with rfl | h
      · rw [intersect_nil]
        exact List.mem_cons_self
      · exact List.mem_cons_of_mem _ h

/-- A look-up of every element of a list either misses one or finds them all. -/
theorem exists_mapM_option {α β : Type} (f : α → Option β) (l : List α) :
    (l.mapM f = none ∧ ∃ a ∈ l, f a = none) ∨
      ∃ bs, l.mapM f = some bs ∧ List.Forall₂ (fun a b => f a = some b) l bs := by
  induction l with
  | nil => exact .inr ⟨[], rfl, .nil⟩
  | cons a l ih =>
    rw [List.mapM_cons]
    cases ha : f a with
    | none => exact .inl ⟨rfl, a, List.mem_cons_self, ha⟩
    | some b =>
      rcases ih with ⟨hnone, a', ha', hmiss⟩ | ⟨bs, hsome, hall⟩
      · rw [hnone]
        exact .inl ⟨rfl, a', List.mem_cons_of_mem a ha', hmiss⟩
      · rw [hsome]
        exact .inr ⟨b :: bs, rfl, .cons ha hall⟩

omit [LinearOrder R] [OrderedTime τ R] in
/-- **A query answers with the total of the intersection**, where a CPU without a set counts as one
with an empty set, and leaves what is kept as it was. -/
theorem RetainedIntervals.Tidy.overlap_cons {r : RetainedIntervals τ} (h : r.Tidy) (cpu : CpuId)
    (cpus : List CpuId) (depth : Nat) :
    r.overlap (cpu :: cpus) depth =
      .ok (((cpus.map fun c => (r.intervals? c depth).getD []).foldl IntervalSet.intersect
        ((r.intervals? cpu depth).getD [])).total, r) := by
  unfold RetainedIntervals.overlap
  rcases exists_mapM_option (r.setOf? · depth) (cpu :: cpus) with
    ⟨hnone, c, hc, hmiss⟩ | ⟨ids, hsome, hall⟩
  · rw [hnone, IntervalSet.foldl_intersect_eq_nil]
    · rfl
    · rw [← List.map_cons (f := fun c => (r.intervals? c depth).getD [])]
      refine List.mem_map.mpr ⟨c, hc, ?_⟩
      rw [intervals?, hmiss]
      rfl
  · cases hall with
    | @cons _ first _ rest hfirst hrest =>
      have hsets : List.Forall₂ (fun id set => r.store.get? id = some set) rest
          (cpus.map fun c => (r.intervals? c depth).getD []) := by
        rw [List.forall₂_map_right_iff]
        exact hrest.flip.imp fun _ _ hid => h.sound.get?_of_setOf? hid
      obtain ⟨store', id, hmeet, hid, htrunc⟩ := exists_meetAll (h.sound.get?_of_setOf? hfirst) hsets
      rw [hsome]
      dsimp only
      rw [hmeet]
      show Except.ok (((store'.get? id).map IntervalSet.total).getD zero, _) = _
      rw [hid, htrunc]
      rfl

/-- The total of what the kept sets of several CPUs have in common. -/
def togetherTotal (ids : List CpuId) (es : List (Event τ)) (depth : Nat) : List CpuId → τ
  | [] => zero
  | cpu :: cpus =>
    ((cpus.map (keptSet ids es depth)).foldl IntervalSet.intersect (keptSet ids es depth cpu)).total

omit [LinearOrder R] [OrderedTime τ R] in
/-- **What a query answers**, in terms of the events of the trace.  It leaves the analysis as it
was. -/
theorem Analysis.exists_overlap {d : Description} {t : Topology τ} (h : Topology.build d = .ok t)
    {o : ReplayOptions} (ho : o.retainIntervals = true) (es : List (Event τ)) :
    ∃ a : Analysis τ, analyze d es o = .ok a ∧ ∀ cpus depth,
      a.overlap cpus depth = .ok (togetherTotal d.layout.cpuIds es depth cpus, a) := by
  obtain ⟨r₀, r, h₀, hr, ht, hsome, hview⟩ := Replay.intervals?_of_run h o es
  refine ⟨r.finish, analyze_of_run h₀ hr, ?_⟩
  intro cpus depth
  obtain ⟨kept, hkept⟩ := Option.isSome_iff_exists.mp (hsome.trans ho)
  have hset : ∀ c, (kept.intervals? c depth).getD [] = keptSet d.layout.cpuIds es depth c := by
    intro c
    have hc := hview c depth
    rw [Replay.intervals?, hkept, Option.bind_some, if_pos ho] at hc
    rw [hc, keptSet]
  have hoverlap : kept.overlap cpus depth =
      .ok (togetherTotal d.layout.cpuIds es depth cpus, kept) := by
    cases cpus with
    | nil => rfl
    | cons cpu cpus =>
      rw [(ht kept hkept).overlap_cons]
      simp only [hset]
      rfl
  rw [overlap, show r.finish.retained = some kept from hkept]
  dsimp only
  rw [hoverlap]
  show Except.ok (_, { r.finish with retained := some kept }) = _
  rw [← hkept]
  rfl

include R in
/-- **The answer depends on nothing but which CPUs are asked for**: neither on their order, nor on
how often they come. -/
theorem togetherTotal_congr {cpus cpus' : List CpuId} {depth : Nat}
    (horder : ∀ c ∈ cpus, InOrder c es) (hmem : ∀ c, c ∈ cpus' ↔ c ∈ cpus) :
    togetherTotal ids es depth cpus' = togetherTotal ids es depth cpus := by
  cases cpus with
  | nil =>
    cases cpus' with
    | nil => rfl
    | cons c' cpus' => exact absurd ((hmem c').mp List.mem_cons_self) List.not_mem_nil
  | cons c cpus =>
    cases cpus' with
    | nil => exact absurd ((hmem c).mpr List.mem_cons_self) List.not_mem_nil
    | cons c' cpus' =>
      refine IntervalSet.total_foldl_intersect_congr (ordered_keptSets horder depth) fun u => ?_
      rw [← List.map_cons (f := keptSet ids es depth), ← List.map_cons (f := keptSet ids es depth),
        List.mem_map, List.mem_map]
      exact exists_congr fun c => and_congr_left' (hmem c)

end PowerTrace
