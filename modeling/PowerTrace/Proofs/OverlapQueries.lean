import Mathlib.Logic.Relation
import PowerTrace.Proofs.OverlapMeasure

/-!
# Queries leave no trace

A query for the time that several CPUs were idle together makes sets in the store that holds the
retained ones, and releases them by number before it returns: where it has been over all CPUs, where one
of them has no set, and where intersecting fails.  Since it only adds sets, what is released is what it
made, whatever the store holds.  That intersecting never fails takes that every handle leads to a set.

* `RetainedIntervals.walk`, `RetainedIntervals.query`: a query as it goes from CPU to CPU;
* `RetainedIntervals.Scratch`: a store with more sets, and otherwise the same;
* `RetainedIntervals.snd_query`: no query changes what is kept, whatever it answers;
* `RetainedIntervals.Sound.query_eq`: every query is answered, if every handle leads to a set;
* `Analysis.queryAll_eq`: of many queries each is answered as if it were the first;
* `Analysis.queries_leave_no_trace`: what all this says of every analysis that keeps intervals.
-/

namespace PowerTrace

open TimeValue

variable {τ : Type}

/-- Intersecting adds to the sets that are there. -/
theorem IntervalStore.prefix_of_intersect [TimeValue τ] {s : IntervalStore τ} {a b : SetId}
    {made : IntervalStore τ × SetId} (h : s.intersect a b = .ok made) : s.sets <+: made.1.sets := by
  unfold intersect at h
  cases ha : s.get a with
  | error e =>
    rw [ha] at h
    cases h
  | ok x =>
    cases hb : s.get b with
    | error e =>
      rw [ha, hb] at h
      cases h
    | ok y =>
      rw [ha, hb] at h
      cases h
      exact List.prefix_append _ _

namespace RetainedIntervals

/-! ### A query as it goes -/

section Walk

variable [TimeValue τ]

omit [TimeValue τ] in
/-- Release every set made after the first `n`. -/
def release (r : RetainedIntervals τ) (n : ℕ) : RetainedIntervals τ :=
  { r with store := r.store.truncate n }

/-- What a set has in common with those before, if there were any: the first set is taken as it is. -/
def narrow (r : RetainedIntervals τ) : Option SetId → SetId → Except Error (RetainedIntervals τ × SetId)
  | none, set => .ok (r, set)
  | some acc, set => (r.store.intersect acc set).map fun made => ({ r with store := made.1 }, made.2)

/-- Go from CPU to CPU, with the handle of what those before have in common, and release on every exit
what was made after the first `mark` sets. -/
def walk (depth mark : ℕ) (r : RetainedIntervals τ) (acc : Option SetId) :
    List CpuId → Except Error τ × RetainedIntervals τ
  | [] => (.ok (((acc.bind r.store.get?).map IntervalSet.total).getD zero), r.release mark)
  | cpu :: cpus =>
    match r.setOf? cpu depth with
    | none => (.ok zero, r.release mark)
    | some set =>
      match r.narrow acc set with
      | .ok (r', id) => walk depth mark r' (some id) cpus
      | .error e => (.error e, r.release mark)

/-- How long all CPUs of a list were idle at a depth together, and what is kept afterwards. -/
def query (r : RetainedIntervals τ) (cpus : List CpuId) (depth : ℕ) :
    Except Error τ × RetainedIntervals τ :=
  walk depth r.store.size r none cpus

end Walk

/-! ### Sets that are made on the way -/

/-- The same, with more sets in the store. -/
structure Scratch (r r' : RetainedIntervals τ) : Prop where
  index : r'.index = r.index
  sets : r.store.sets <+: r'.store.sets

variable {r r' r'' : RetainedIntervals τ}

theorem Scratch.refl (r : RetainedIntervals τ) : r.Scratch r := ⟨rfl, List.prefix_refl _⟩

theorem Scratch.trans (h : r.Scratch r') (h' : r'.Scratch r'') : r.Scratch r'' :=
  ⟨h'.index.trans h.index, h.sets.trans h'.sets⟩

/-- **Releasing by number undoes it.** -/
theorem Scratch.release (h : r.Scratch r') : r'.release r.store.size = r := by
  obtain ⟨⟨sets⟩, index⟩ := r
  obtain ⟨⟨sets'⟩, index'⟩ := r'
  obtain rfl : index' = index := h.index
  have htake : sets'.take sets.length = sets := (List.prefix_iff_eq_take.mp h.sets).symm
  show (⟨⟨sets'.take sets.length⟩, index'⟩ : RetainedIntervals τ) = _
  rw [htake]

theorem Scratch.setOf? (h : r.Scratch r') (cpu : CpuId) (depth : ℕ) :
    r'.setOf? cpu depth = r.setOf? cpu depth := by
  rw [RetainedIntervals.setOf?, h.index]
  rfl

variable [TimeValue τ]

/-- Narrowing only adds to the store. -/
theorem Scratch.of_narrow {acc : Option SetId} {set id : SetId} (h : r.narrow acc set = .ok (r', id)) :
    r.Scratch r' := by
  cases acc with
  | none =>
    cases h
    exact .refl r
  | some acc =>
    rw [narrow] at h
    cases hmade : r.store.intersect acc set with
    | error e =>
      rw [hmade] at h
      cases h
    | ok made =>
      rw [hmade] at h
      cases h
      exact ⟨rfl, IntervalStore.prefix_of_intersect hmade⟩

/-- **A query leaves what is kept as it was**, on every exit and whatever the store holds. -/
theorem Scratch.snd_walk (h : r.Scratch r') (depth : ℕ) (acc : Option SetId) (cpus : List CpuId) :
    (walk depth r.store.size r' acc cpus).2 = r := by
  induction cpus generalizing r' acc with
  | nil => exact h.release
  | cons cpu cpus ih =>
    rw [walk]
    split
    · exact h.release
    · split
      · next hmade => exact ih (h.trans (.of_narrow hmade)) _
      · exact h.release

theorem snd_query (r : RetainedIntervals τ) (cpus : List CpuId) (depth : ℕ) :
    (r.query cpus depth).2 = r := (Scratch.refl r).snd_walk depth none cpus

/-! ### What a query answers -/

/-- The total of what the sets of several CPUs have in common, where a CPU without a set counts as one
with an empty set. -/
def together (r : RetainedIntervals τ) (depth : ℕ) : List CpuId → τ
  | [] => zero
  | cpu :: cpus =>
    ((cpus.map fun c => (r.intervals? c depth).getD []).foldl IntervalSet.intersect
      ((r.intervals? cpu depth).getD [])).total

omit [TimeValue τ] in
theorem getD_intervals?_of_none {cpu : CpuId} {depth : ℕ} (h : r.setOf? cpu depth = none) :
    (r.intervals? cpu depth).getD [] = [] := by
  rw [intervals?, h]
  rfl

/-- **The walk answers with the total of what all sets have in common.**  A set is met again under its
handle however many were made since. -/
theorem Scratch.fst_walk (h : r.Scratch r') (hs : r.Sound) (depth : ℕ) {acc : SetId} {u : IntervalSet τ}
    (hacc : r'.store.get? acc = some u) (cpus : List CpuId) :
    (walk depth r.store.size r' (some acc) cpus).1 =
      .ok ((cpus.map fun c => (r.intervals? c depth).getD []).foldl IntervalSet.intersect u).total := by
  induction cpus generalizing r' acc u with
  | nil =>
    rw [walk, Option.bind_some, hacc]
    rfl
  | cons cpu cpus ih =>
    rw [walk, h.setOf?, List.map_cons]
    cases hset : r.setOf? cpu depth with
    | none =>
      rw [getD_intervals?_of_none hset, IntervalSet.foldl_intersect_eq_nil (List.mem_cons_of_mem _ List.mem_cons_self)]
      rfl
    | some set =>
      have hmade : r'.narrow (some acc) set = .ok
          ({ r' with store := (r'.store.add (u.intersect ((r.intervals? cpu depth).getD []))).1 },
            (r'.store.add (u.intersect ((r.intervals? cpu depth).getD []))).2) := by
        have hget := IntervalStore.get?_of_prefix h.sets (hs.get?_of_setOf? hset)
        rw [narrow, IntervalStore.intersect_eq_ok hacc hget]
        rfl
      dsimp only
      rw [hmade]
      exact ih (h.trans (.of_narrow hmade)) (r'.store.get?_add_self _)

/-- **Every query is answered**, if every handle leads to a set. -/
theorem Sound.query_eq (h : r.Sound) (cpus : List CpuId) (depth : ℕ) :
    r.query cpus depth = (.ok (r.together depth cpus), r) := by
  refine Prod.ext ?_ (r.snd_query cpus depth)
  cases cpus with
  | nil => rfl
  | cons cpu cpus =>
    rw [query, walk]
    cases hset : r.setOf? cpu depth with
    | none =>
      rw [together, getD_intervals?_of_none hset, IntervalSet.foldl_intersect_eq_nil List.mem_cons_self]
      rfl
    | some set => exact (Scratch.refl r).fst_walk h depth (h.get?_of_setOf? hset) cpus

theorem Tidy.overlap_eq (h : r.Tidy) (cpus : List CpuId) (depth : ℕ) :
    r.overlap cpus depth = .ok (r.together depth cpus, r) := by
  cases cpus with
  | nil => rfl
  | cons cpu cpus => exact h.overlap_cons cpu cpus depth

end RetainedIntervals

/-! ### Many queries -/

/-- What is asked for. -/
structure OverlapQuery where
  /-- The CPUs. -/
  cpus : List CpuId
  /-- The depth. -/
  depth : ℕ
  deriving DecidableEq, Repr

namespace Analysis

variable [TimeValue τ]

/-- The answer to a query, and the analysis afterwards. -/
def query (a : Analysis τ) (q : OverlapQuery) : Except Error τ × Analysis τ :=
  match a.retained with
  | none => (.error (.config "interval retention is disabled"), a)
  | some kept =>
    ((kept.query q.cpus q.depth).1, { a with retained := some (kept.query q.cpus q.depth).2 })

/-- The answers to queries, first to last, and the analysis afterwards. -/
def queryAll (a : Analysis τ) : List OverlapQuery → List (Except Error τ) × Analysis τ
  | [] => ([], a)
  | q :: qs => ((a.query q).1 :: ((a.query q).2.queryAll qs).1, ((a.query q).2.queryAll qs).2)

/-- **No query changes an analysis**, whatever it answers. -/
theorem snd_query (a : Analysis τ) (q : OverlapQuery) : (a.query q).2 = a := by
  cases hkept : a.retained with
  | none => rw [query, hkept]
  | some kept =>
    simp only [query, hkept, RetainedIntervals.snd_query]
    rw [← hkept]

/-- **Of many queries each is answered as if it were the first.** -/
theorem queryAll_eq (a : Analysis τ) (qs : List OverlapQuery) :
    a.queryAll qs = (qs.map fun q => (a.query q).1, a) := by
  induction qs with
  | nil => rfl
  | cons q qs ih => rw [queryAll, snd_query, ih, List.map_cons]

/-- **Every query to an analysis whose handles are tidy is answered**, by going from CPU to CPU and by looking
all handles up first alike. -/
theorem query_of_tidy {a : Analysis τ} {kept : RetainedIntervals τ} (ha : a.retained = some kept)
    (h : kept.Tidy) (cpus : List CpuId) (depth : ℕ) :
    a.query ⟨cpus, depth⟩ = (.ok (kept.together depth cpus), a) ∧
      a.overlap cpus depth = .ok (kept.together depth cpus, a) := by
  constructor
  · refine Prod.ext ?_ (a.snd_query _)
    simp only [query, ha, h.sound.query_eq]
  · simp only [overlap, ha, h.overlap_eq]
    show Except.ok (_, { a with retained := some kept }) = _
    rw [← ha]

/-- An analysis with another one as its baseline. -/
def ComparedWith (a c : Analysis τ) : Prop := ∃ b, a.attachBaseline b = .ok c

/-- Attaching a baseline leaves what is kept alone. -/
theorem retained_of_comparedWith {a c : Analysis τ} (h : Relation.ReflTransGen ComparedWith a c) :
    c.retained = a.retained := by
  induction h with
  | refl => rfl
  | tail _ hstep ih =>
    obtain ⟨b, hb⟩ := hstep
    rw [← ih]
    unfold attachBaseline at hb
    cases halign : alignTopologies _ b.topology with
    | error e =>
      rw [halign] at hb
      cases hb
    | ok lined =>
      rw [halign] at hb
      cases hb
      rfl

/-- **Queries leave no trace and never fail.**  Of every trace, if intervals are retained, there is an
analysis, and whatever baselines are attached to it: a query for any list of CPUs, also an empty one or one
with CPUs that are unknown or come again, at any depth, is answered, with the total of what the sets of the
CPUs have in common, and leaves the whole analysis as it was, the store and the index among it.  Of any
sequence of queries each is answered as if it were asked first.  Looking all handles up before any set is
made gives the same answers. -/
theorem queries_leave_no_trace {d : Description} {t : Topology τ} (h : Topology.build d = .ok t)
    {o : ReplayOptions} (ho : o.retainIntervals = true) (es : List (Event τ)) :
    ∃ a : Analysis τ, analyze d es o = .ok a ∧
      ∀ c, Relation.ReflTransGen ComparedWith a c →
        (∀ cpus depth,
          c.query ⟨cpus, depth⟩ = (.ok (togetherTotal d.layout.cpuIds es depth cpus), c) ∧
          c.overlap cpus depth = .ok (togetherTotal d.layout.cpuIds es depth cpus, c)) ∧
        ∀ qs : List OverlapQuery, c.queryAll qs =
          (qs.map fun q => .ok (togetherTotal d.layout.cpuIds es q.depth q.cpus), c) := by
  obtain ⟨a, ha, hanswer⟩ := exists_overlap h ho es
  obtain ⟨r₀, r, h₀, hr, htidy, hsome, -⟩ := Replay.intervals?_of_run h o es
  obtain rfl : a = r.finish := Except.ok.inj (ha.symm.trans (analyze_of_run h₀ hr))
  obtain ⟨kept, hkept⟩ := Option.isSome_iff_exists.mp (hsome.trans ho)
  refine ⟨r.finish, ha, fun c hc => ?_⟩
  have hc : c.retained = some kept := (retained_of_comparedWith hc).trans hkept
  have htogether : ∀ cpus depth,
      kept.together depth cpus = togetherTotal d.layout.cpuIds es depth cpus := fun cpus depth =>
    congrArg Prod.fst (Except.ok.inj
      ((query_of_tidy hkept (htidy kept hkept) cpus depth).2.symm.trans (hanswer cpus depth)))
  have hquery : ∀ cpus depth, c.query ⟨cpus, depth⟩ =
        (.ok (togetherTotal d.layout.cpuIds es depth cpus), c) ∧
      c.overlap cpus depth = .ok (togetherTotal d.layout.cpuIds es depth cpus, c) := by
    intro cpus depth
    rw [← htogether]
    exact query_of_tidy hc (htidy kept hkept) cpus depth
  refine ⟨hquery, fun qs => ?_⟩
  rw [queryAll_eq]
  exact congrArg (·, c) (List.map_congr_left fun q _ => congrArg Prod.fst (hquery q.cpus q.depth).1)

/-- Two CPUs that were idle together for one second: they are asked for, then a CPU that is not there is
asked for with them and by itself, then none, and then they are asked for again. -/
theorem queries_leave_no_trace_idleShifted :
    ∃ a : Analysis ℚ,
      analyze .sharedCore (Event.idleShifted ℚ) { retainIntervals := true } = .ok a ∧
      a.queryAll [⟨[0, 1], 1⟩, ⟨[0, 7, 1], 1⟩, ⟨[7], 1⟩, ⟨[], 1⟩, ⟨[1, 0, 1], 1⟩] =
        ([.ok 1000000, .ok 0, .ok 0, .ok 0, .ok 1000000], a) := by
  obtain ⟨a, ha, hqueries⟩ := queries_leave_no_trace (d := .sharedCore) rfl
    (o := { retainIntervals := true }) rfl (Event.idleShifted ℚ)
  have htotals : [(⟨[0, 1], 1⟩ : OverlapQuery), ⟨[0, 7, 1], 1⟩, ⟨[7], 1⟩, ⟨[], 1⟩, ⟨[1, 0, 1], 1⟩].map
      (fun q => togetherTotal Description.sharedCore.layout.cpuIds (Event.idleShifted ℚ) q.depth q.cpus) =
        [1000000, 0, 0, 0, 1000000] := by decide +kernel
  have hanswers := congrArg (fun l : List ℚ => ((l.map .ok : List (Except Error ℚ)), a)) htotals
  exact ⟨a, ha, ((hqueries a .refl).2 _).trans hanswers⟩

end Analysis

end PowerTrace
