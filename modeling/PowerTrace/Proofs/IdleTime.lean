import Mathlib.Algebra.BigOperators.Fin
import Mathlib.Algebra.BigOperators.Group.Finset.Piecewise
import PowerTrace.Proofs.Accounting
import PowerTrace.Proofs.Locality
import PowerTrace.Proofs.Transition

/-!
# A group is idle no longer than its members

A group stands at the least depth of its members, so whenever it is idle at some depth or deeper, so
is each of them.  The intervals of the two are cut at different instants, and depth changes move time
from one slot to another.  What can be compared is the time at some depth or deeper, closed and open
together: an event leaves it as it is, and what passes between two events adds to that of a member
whenever it adds to that of the group.

* `Entity.parts`: the nodes below a node;
* `Topology.depth_le_of_mem_parts`: a node is at most as deep as each of its parts;
* `CStateTrack.idleFrom`: the time at some depth or deeper, by an instant;
* `CStateTrack.idleFrom_record`, `CStateTrack.idleFrom_later`: events keep it, and what passes adds
  to it;
* `Entity.IdlesWithin`: a node that has no more of it than another;
* `Entity.IdlesWithin.apply`, `Entity.IdlesWithin.later`: how two nodes stay so;
* `Replay.idleFrom_le_parts`: hence no group has more of it than any of its parts.
-/

namespace PowerTrace

open TimeValue

/-! ### The nodes below a node -/

namespace Entity

variable {τ : Type}

/-- All nodes below a node: the CPUs of a core, the cores of a cluster and their CPUs. -/
def parts : Entity τ → List (Entity τ)
  | cpu _ => []
  | core k => k.cpus.map .cpu
  | cluster c => c.cores.flatMap (·.entities)

theorem members_subset_of_mem_parts {e m : Entity τ} (h : m ∈ e.parts) : m.members ⊆ e.members := by
  intro c hc
  cases e with
  | cpu _ => exact absurd h List.not_mem_nil
  | core k =>
    obtain ⟨c', hc', rfl⟩ := List.mem_map.mp h
    rw [List.mem_singleton.mp hc]
    exact hc'
  | cluster u =>
    obtain ⟨k, hk, h⟩ := List.mem_flatMap.mp h
    refine List.mem_flatMap.mpr ⟨k, hk, ?_⟩
    rcases List.mem_cons.mp h with rfl | h
    · exact hc
    · obtain ⟨c', hc', rfl⟩ := List.mem_map.mp h
      rw [List.mem_singleton.mp hc]
      exact hc'

theorem owns_of_mem_parts {e m : Entity τ} (h : m ∈ e.parts) {id : CpuId} (ho : m.owns id = true) :
    e.owns id = true := by
  obtain ⟨c, hc, hid⟩ := List.any_eq_true.mp ho
  exact List.any_eq_true.mpr ⟨c, members_subset_of_mem_parts h hc, hid⟩

variable [TimeValue τ]

theorem parts_apply (x : Extremum) (id : CpuId) (time : τ) (a : Action) (e : Entity τ) :
    (e.apply x id time a).parts = e.parts.map (·.apply x id time a) := by
  cases e with
  | cpu c => rfl
  | core k =>
    show (k.apply x id time a).cpus.map cpu = (k.cpus.map cpu).map _
    rw [Core.cpus_apply, applyToCpu, List.map_map, List.map_map]
    rfl
  | cluster c =>
    show (c.apply x id time a).cores.flatMap (·.entities) = (c.cores.flatMap (·.entities)).map _
    rw [Cluster.cores_apply, List.flatMap_map, List.map_flatMap]
    simp only [Core.entities_apply]

theorem parts_run (x : Extremum) (ids : List CpuId) (e : Entity τ) (es : List (Event τ)) :
    (e.run x ids es).parts = e.parts.map (·.run x ids es) := by
  induction es generalizing e with
  | nil => exact (List.map_id _).symm
  | cons ev es ih =>
    have hstep : (e.step x ids ev).parts = e.parts.map (·.step x ids ev) := by
      unfold step
      cases ev.action? ids with
      | none => exact (List.map_id _).symm
      | some a => exact e.parts_apply x ev.cpu ev.time a
    show ((e.step x ids ev).run x ids es).parts = _
    rw [ih, hstep, List.map_map]
    rfl

theorem run_concat (x : Extremum) (ids : List CpuId) (e : Entity τ) (es : List (Event τ))
    (ev : Event τ) : e.run x ids (es ++ [ev]) = (e.run x ids es).step x ids ev :=
  List.foldl_append

omit [TimeValue τ] in
theorem events_concat (ids : List CpuId) (e : Entity τ) (es : List (Event τ)) (ev : Event τ) :
    e.events ids (es ++ [ev]) = e.events ids es ++ if ev.concerns ids e then [ev] else [] := by
  rw [events, List.filter_append, List.filter_singleton, cond_eq_ite]
  rfl

@[simp] theorem owns_run (x : Extremum) (ids : List CpuId) (e : Entity τ) (es : List (Event τ))
    (id : CpuId) : (e.run x ids es).owns id = e.owns id := by
  induction es generalizing e with
  | nil => rfl
  | cons ev es ih => exact (ih _).trans (e.owns_step x ids ev id)

theorem concerns_run (x : Extremum) (ids : List CpuId) (e : Entity τ) (es : List (Event τ))
    (ev : Event τ) : ev.concerns ids (e.run x ids es) = ev.concerns ids e := by
  rw [Event.concerns, owns_run, Event.concerns]

end Entity

/-! ### How deep the parts of a node are -/

namespace Topology

variable {τ : Type} {t : Topology τ}

theorem mem_entities_of_mem_parts {e m : Entity τ} (he : e ∈ t.entities) (hm : m ∈ e.parts) :
    m ∈ t.entities := by
  obtain ⟨u, hu, he⟩ := List.mem_flatMap.mp he
  refine List.mem_flatMap.mpr ⟨u, hu, ?_⟩
  rcases List.mem_cons.mp he with rfl | he
  · exact List.mem_cons_of_mem _ hm
  · obtain ⟨k, hk, he⟩ := List.mem_flatMap.mp he
    refine List.mem_cons_of_mem _ (List.mem_flatMap.mpr ⟨k, hk, ?_⟩)
    rcases List.mem_cons.mp he with rfl | he
    · exact List.mem_cons_of_mem _ hm
    · obtain ⟨c, -, rfl⟩ := List.mem_map.mp he
      exact absurd hm List.not_mem_nil

theorem WellShaped.members_ne_nil (h : t.WellShaped) {e : Entity τ} (he : e ∈ t.entities) :
    e.members ≠ [] := by
  obtain ⟨u, hu, he⟩ := List.mem_flatMap.mp he
  rcases List.mem_cons.mp he with rfl | he
  · obtain ⟨k, hk⟩ := List.exists_mem_of_ne_nil _ (h.cores_ne_nil u hu)
    obtain ⟨c, hc⟩ := List.exists_mem_of_ne_nil _ (h.cpus_ne_nil u hu k hk)
    exact List.ne_nil_of_mem (List.mem_flatMap.mpr ⟨k, hk, hc⟩)
  · obtain ⟨k, hk, he⟩ := List.mem_flatMap.mp he
    rcases List.mem_cons.mp he with rfl | he
    · exact h.cpus_ne_nil u hu k hk
    · obtain ⟨c, -, rfl⟩ := List.mem_map.mp he
      exact List.cons_ne_nil _ _

/-- A node stands at the depth of one of its members, and none of them is less deep. -/
theorem isLeastDepth_of_coherent (h : t.WellShaped) {x : Extremum} {e : Entity τ}
    (he : e ∈ t.entities) (hcoh : e.Coherent x) :
    IsLeastDepth e.tracks.cstates.current (e.members.map (·.cstates.current)) := by
  obtain ⟨c, rfl⟩ | hg := e.cpu_or_isGroup
  · refine ⟨List.mem_cons_self, ?_⟩
    intro d hd
    rw [List.mem_singleton.mp hd]
    exact depth_le_refl _
  · have hne : e.members.map (·.cstates.current) ≠ [] := by
      rw [Ne, List.map_eq_nil_iff]
      exact h.members_ne_nil he
    rw [((Entity.coherent_iff_of_isGroup hg).mp hcoh).depth]
    exact ⟨leastDepth_mem hne, fun d hd => leastDepth_le hd⟩

/-- **A node is at most as deep as each of its parts.** -/
theorem depth_le_of_mem_parts (h : t.WellShaped) {x : Extremum}
    (hcoh : ∀ e ∈ t.entities, e.Coherent x) {e m : Entity τ} (he : e ∈ t.entities)
    (hm : m ∈ e.parts) : e.tracks.cstates.current ≤ m.tracks.cstates.current := by
  have hmem := mem_entities_of_mem_parts he hm
  obtain ⟨-, hle⟩ := isLeastDepth_of_coherent h he (hcoh e he)
  obtain ⟨hin, -⟩ := isLeastDepth_of_coherent h hmem (hcoh m hmem)
  obtain ⟨c, hc, hd⟩ := List.mem_map.mp hin
  rw [← hd]
  exact hle _ (List.mem_map_of_mem (Entity.members_subset_of_mem_parts hm hc))

end Topology

/-! ### The time at some depth or deeper -/

namespace CStateTrack

/-- Whether an entity is idle at depth `k` or deeper. -/
def isFrom {τ : Type} (t : CStateTrack τ) (k : ℕ) : Bool := t.current.any (k ≤ ·.val)

theorem isFrom_of_le {τ : Type} {t u : CStateTrack τ} (h : t.current ≤ u.current) {k : ℕ}
    (hk : t.isFrom k = true) : u.isFrom k = true := by
  unfold isFrom at hk ⊢
  cases ht : t.current with
  | none => simp [ht] at hk
  | some d =>
    cases hu : u.current with
    | none =>
      rw [ht, hu] at h
      exact absurd h Option.not_some_le_none
    | some d' =>
      rw [ht, hu, Option.some_le_some] at h
      rw [ht, Option.any_some, decide_eq_true_eq] at hk
      rw [Option.any_some, decide_eq_true_eq]
      exact hk.trans h

/-- The time in the closed intervals at depth `k` or deeper. -/
def closedFrom (t : CStateTrack ℚ) (k : ℕ) : ℚ :=
  ∑ d : Depth, if k ≤ d.val then (t.slot d).stats.total else 0

/-- The time at depth `k` or deeper by an instant: that in the closed intervals, and that in the open
one if it is one of them. -/
def idleFrom (t : CStateTrack ℚ) (k : ℕ) (now : ℚ) : ℚ :=
  t.closedFrom k + if t.isFrom k then span t.since now else 0

theorem closedFrom_close (t : CStateTrack ℚ) (k : ℕ) (d : Depth) {time : ℚ} (h : t.since ≤ time) :
    (t.close d time).1.closedFrom k =
      t.closedFrom k + if k ≤ d.val then span t.since time else 0 := by
  have hslot : ∀ d' : Depth, ((t.close d time).1.slot d').stats.total =
      (t.slot d').stats.total + if d' = d then span t.since time else 0 := by
    intro d'
    rw [slot_close]
    by_cases hd : d' = d
    · subst hd
      by_cases hle : TimeValue.le (span t.since time) zero = true
      · have hzero : span t.since time = 0 := by
          rw [le_iff, zero_eq] at hle
          exact span_eq_zero h hle
        rw [if_neg fun hpos => Bool.false_ne_true (hpos.2.symm.trans hle), if_pos rfl, hzero,
          add_zero]
      · simp [hle, CState.record]
    · simp [hd]
  calc (t.close d time).1.closedFrom k
      = ∑ d' : Depth, ((if k ≤ d'.val then (t.slot d').stats.total else 0) +
          if d' = d then (if k ≤ d.val then span t.since time else 0) else 0) := by
        refine Finset.sum_congr rfl fun d' _ => ?_
        rw [hslot]
        by_cases hd : d' = d
        · subst hd
          split <;> simp_all
        · simp [hd]
    _ = t.closedFrom k + if k ≤ d.val then span t.since time else 0 := by
        rw [Finset.sum_add_distrib, Finset.sum_ite_eq' Finset.univ d, if_pos (Finset.mem_univ d)]
        rfl

theorem closedFrom_closeOpen {t : CStateTrack ℚ} {time : ℚ} (h : t.BegunBy time) (k : ℕ) :
    (t.closeOpen time).1.closedFrom k = t.idleFrom k time := by
  unfold closeOpen idleFrom isFrom
  split
  · next hc => simp [hc]
  · next d hc => simp [hc, t.closedFrom_close k d (h _ (openSince_of_some hc))]

/-- **A transition keeps the time at a depth or deeper**: what was open is closed, and what is opened
has no length yet. -/
theorem idleFrom_record {t : CStateTrack ℚ} {time : ℚ} (h : t.BegunBy time) (new : Option Depth)
    (k : ℕ) : (t.record time new).1.idleFrom k time = t.idleFrom k time := by
  unfold record
  split
  · rfl
  · rw [← closedFrom_closeOpen h]
    cases new with
    | none =>
      have hnone : ((t.closeOpen time).1.enter? none time).isFrom k = false := by
        simp [enter?, isFrom]
      rw [idleFrom, hnone]
      exact add_zero _
    | some d =>
      have hzero : (if ((t.closeOpen time).1.enter d time).isFrom k then
          span ((t.closeOpen time).1.enter d time).since time else 0) = 0 := by
        simp [enter]
      show ((t.closeOpen time).1.enter d time).idleFrom k time = _
      rw [idleFrom, hzero]
      exact add_zero _

/-- What passes adds to the time at a depth or deeper if the entity is there. -/
theorem idleFrom_later (t : CStateTrack ℚ) (k : ℕ) (now later : ℚ) :
    t.idleFrom k later = t.idleFrom k now + if t.isFrom k then span now later else 0 := by
  unfold idleFrom
  split
  · rw [← span_add t.since now later]
    ring
  · ring

end CStateTrack

/-- No action changes the time at a depth or deeper, on any node. -/
theorem Entity.idleFrom_apply {m : Entity ℚ} {time : ℚ} (h : m.tracks.cstates.BegunBy time)
    (x : Extremum) (id : CpuId) (a : Action) :
    (m.apply x id time a).tracks.cstates.BegunBy time ∧
      ∀ k, (m.apply x id time a).tracks.cstates.idleFrom k time = m.tracks.cstates.idleFrom k time :=
  cstates_apply (P := fun t => t.BegunBy time ∧
      ∀ k, t.idleFrom k time = m.tracks.cstates.idleFrom k time) x id time a
    (fun _ ht => ht)
    (fun _ d ht => ⟨ht.1.record d, fun k => (CStateTrack.idleFrom_record ht.1 d k).trans (ht.2 k)⟩)
    ⟨h, fun _ => rfl⟩

theorem Tracks.Fresh.idleFrom_eq_zero {s : Tracks ℚ} (h : s.Fresh) (k : ℕ) (now : ℚ) :
    s.cstates.idleFrom k now = 0 := by
  obtain ⟨infos, hc⟩ := h.cstates
  have htotal : ∀ d, ((CStateTrack.ofInfos infos : CStateTrack ℚ).slot d).stats.total = 0 := by
    intro d
    rw [CStateTrack.slot_ofInfos]
    cases infos d <;> exact zero_eq
  have hclosed : (CStateTrack.ofInfos infos : CStateTrack ℚ).closedFrom k = 0 := by
    simp [CStateTrack.closedFrom, htotal]
  rw [hc, CStateTrack.idleFrom, hclosed]
  exact add_zero _

/-! ### Two nodes side by side -/

/-- By an instant a node was idle no longer than another, at every depth or deeper, and what is open on
either of them was begun by then. -/
structure Entity.IdlesWithin (g m : Entity ℚ) (now : ℚ) : Prop where
  begun : g.tracks.cstates.BegunBy now
  begun_other : m.tracks.cstates.BegunBy now
  le : ∀ k, g.tracks.cstates.idleFrom k now ≤ m.tracks.cstates.idleFrom k now

namespace Entity.IdlesWithin

variable {g m : Entity ℚ} {now stop : ℚ}

/-- Before anything happened neither was idle. -/
theorem of_fresh (hg : g.tracks.Fresh) (hm : m.tracks.Fresh) (now : ℚ) : g.IdlesWithin m now where
  begun := (hg.begunBy now).cstates
  begun_other := (hm.begunBy now).cstates
  le k := ((hg.idleFrom_eq_zero k now).trans (hm.idleFrom_eq_zero k now).symm).le

/-- An action at an instant changes nothing by that instant. -/
theorem apply (h : g.IdlesWithin m now) (x : Extremum) (id : CpuId) (a : Action) :
    (g.apply x id now a).IdlesWithin (m.apply x id now a) now := by
  obtain ⟨hgb, hgk⟩ := Entity.idleFrom_apply h.begun x id a
  obtain ⟨hmb, hmk⟩ := Entity.idleFrom_apply h.begun_other x id a
  refine ⟨hgb, hmb, fun k => ?_⟩
  rw [hgk, hmk]
  exact h.le k

/-- What passes adds to the time of the deeper node whenever it adds to that of the other. -/
theorem later (h : g.IdlesWithin m now) (hdepth : g.tracks.cstates.current ≤ m.tracks.cstates.current)
    (hle : now ≤ stop) : g.IdlesWithin m stop where
  begun s hs := (h.begun s hs).trans hle
  begun_other s hs := (h.begun_other s hs).trans hle
  le k := by
    rw [CStateTrack.idleFrom_later _ k now stop, CStateTrack.idleFrom_later _ k now stop]
    refine add_le_add (h.le k) ?_
    split
    · next hk => rw [if_pos (CStateTrack.isFrom_of_le hdepth hk)]
    · split
      · exact span_nonneg hle
      · exact le_refl _

end Entity.IdlesWithin

/-! ### Every run -/

section Run

variable {t : Topology ℚ} {x : Extremum} {g m : Entity ℚ}

/-- After every run a node is at most as deep as each of its parts. -/
theorem Topology.depth_le_run (hshape : t.WellShaped) (hcoh : ∀ e ∈ t.entities, e.Coherent x)
    (hg : g ∈ t.entities) (hm : m ∈ g.parts) (es : List (Event ℚ)) :
    (g.run x t.cpuIds es).tracks.cstates.current ≤ (m.run x t.cpuIds es).tracks.cstates.current := by
  refine depth_le_of_mem_parts (hshape.run x es) (coherent_run hcoh es) ?_ ?_
  · rw [entities_run]
    exact List.mem_map_of_mem hg
  · rw [Entity.parts_run]
    exact List.mem_map_of_mem hm

/-- What does not concern a node does not concern its parts. -/
theorem Event.not_concerns_of_mem_parts (hm : m ∈ g.parts) {ids : List CpuId} {e : Event ℚ}
    (h : e.concerns ids g = false) : e.concerns ids m = false := by
  rw [Event.concerns, Bool.and_eq_false_iff] at h ⊢
  refine h.imp_right fun ho => ?_
  exact Bool.eq_false_iff.mpr fun hom =>
    Bool.false_ne_true (ho.symm.trans (Entity.owns_of_mem_parts hm hom))

/-- **The comparison through a run**, at every instant from the latest event on. -/
theorem Topology.idlesWithin_run (hshape : t.WellShaped) (hcoh : ∀ e ∈ t.entities, e.Coherent x)
    (hfresh : ∀ e ∈ t.entities, e.tracks.Fresh) (hg : g ∈ t.entities) (hm : m ∈ g.parts)
    (es : List (Event ℚ)) (hsorted : (g.events t.cpuIds es).Pairwise (·.time ≤ ·.time)) {now : ℚ}
    (hnow : ∀ e ∈ g.events t.cpuIds es, e.time ≤ now) :
    (g.run x t.cpuIds es).IdlesWithin (m.run x t.cpuIds es) now := by
  -- from the end: what was shown of the events before holds at the instant of the last one
  induction es using List.reverseRecOn generalizing now with
  | nil => exact .of_fresh (hfresh g hg) (hfresh m (mem_entities_of_mem_parts hg hm)) now
  | append_singleton es e ih =>
    rw [Entity.events_concat] at hsorted hnow
    rw [Entity.run_concat, Entity.run_concat]
    cases hcon : e.concerns t.cpuIds g with
    | false =>
      have hconm := Event.not_concerns_of_mem_parts hm hcon
      rw [hcon, if_neg Bool.false_ne_true, List.append_nil] at hsorted hnow
      rw [Entity.step_of_not_concerns x (by rw [Entity.concerns_run, hcon]),
        Entity.step_of_not_concerns x (by rw [Entity.concerns_run, hconm])]
      exact ih hsorted hnow
    | true =>
      rw [hcon, if_pos rfl] at hsorted hnow
      obtain ⟨hbefore, -, hlast⟩ := List.pairwise_append.mp hsorted
      have hsofar := ih hbefore fun e' he' => hlast e' he' e (by simp)
      obtain ⟨a, ha⟩ : ∃ a, e.action? t.cpuIds = some a := by
        rw [Event.concerns, Bool.and_eq_true] at hcon
        exact Option.isSome_iff_exists.mp hcon.1
      have hdepth := depth_le_run hshape hcoh hg hm (es ++ [e])
      rw [Entity.run_concat, Entity.run_concat] at hdepth
      simp only [Entity.step, ha] at hdepth ⊢
      exact (hsofar.apply x e.cpu a).later hdepth (hnow e (by simp))

end Run

/-- **A group is idle no longer than its members.**  Whatever the machine, the options and the
events, a replay gets to the end of its events; and if the events on the CPUs of a node do not run
backwards, then by every instant that is not before the latest of them, and for every depth, the node
was idle at that depth or deeper for no longer than any node below it. -/
theorem Replay.idleFrom_le_parts {d : Description} {t : Topology ℚ} (h : Topology.build d = .ok t)
    (o : ReplayOptions) (es : List (Event ℚ)) :
    ∃ r₀ r : Replay ℚ, Replay.start d o = .ok r₀ ∧ r₀.processAll es = .ok r ∧
      ∀ (n : ℕ) (g₀ : Entity ℚ), r₀.topology.entities[n]? = some g₀ →
        ∃ g, r.topology.entities[n]? = some g ∧
          ((g₀.events r₀.topology.cpuIds es).Pairwise (·.time ≤ ·.time) →
            ∀ m ∈ g.parts, ∀ (k : ℕ) (now : ℚ),
              (∀ e ∈ g₀.events r₀.topology.cpuIds es, e.time ≤ now) →
                g.tracks.cstates.idleFrom k now ≤ m.tracks.cstates.idleFrom k now) := by
  obtain ⟨r₀, r, h₀, hr, ht₀, htop⟩ := Replay.exists_run h o es
  refine ⟨r₀, r, h₀, hr, ?_⟩
  intro n g₀ hg₀
  rw [ht₀] at hg₀ ⊢
  refine ⟨g₀.run o.compositeFrequency t.cpuIds es, ?_, ?_⟩
  · exact (Replay.entities_of_run htop hg₀).1
  · intro hsorted m hm k now hnow
    rw [Entity.parts_run] at hm
    obtain ⟨m₀, hm₀, rfl⟩ := List.mem_map.mp hm
    exact (Topology.idlesWithin_run (Topology.wellShaped_of_build h)
      (t.coherent_of_build h o.compositeFrequency) (t.fresh_of_build h) (List.mem_of_getElem? hg₀)
      hm₀ es hsorted hnow).le k

/-- The core of two CPUs that go idle one after the other, compared with the second of them. -/
theorem Replay.idleFrom_le_parts_idleInTurn :
    ∃ r₀ r : Replay ℚ, ∃ g₀ g m : Entity ℚ,
      Replay.start .sharedCore {} = .ok r₀ ∧ r₀.processAll Event.idleInTurn = .ok r ∧
      r₀.topology.entities[1]? = some g₀ ∧ r.topology.entities[1]? = some g ∧
      (g₀.events r₀.topology.cpuIds Event.idleInTurn).Pairwise (·.time ≤ ·.time) ∧
      m ∈ g.parts ∧ (∀ e ∈ g₀.events r₀.topology.cpuIds Event.idleInTurn, e.time ≤ 6) ∧
      g.tracks.cstates.idleFrom 1 6 ≤ m.tracks.cstates.idleFrom 1 6 := by
  obtain ⟨r₀, r, h₀, hr, hall⟩ :=
    Replay.idleFrom_le_parts (d := .sharedCore) rfl {} Event.idleInTurn
  cases h₀
  cases hr
  obtain ⟨g, hg, hle⟩ := hall 1 _ rfl
  cases hg
  exact ⟨_, _, _, _, _, rfl, rfl, rfl, rfl, by decide +kernel,
    List.mem_cons_of_mem _ List.mem_cons_self, by decide +kernel,
    hle (by decide +kernel) _ (List.mem_cons_of_mem _ List.mem_cons_self) 1 6 (by decide +kernel)⟩

end PowerTrace
