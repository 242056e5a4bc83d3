import PowerTrace.Proofs.RetainedTotals
import PowerTrace.Proofs.WakeupCounts

/-!
# Which wake-ups are attributed

A flag on the idle track of a CPU says whether a wake-up was charged since the last interval was
opened.  The replay sets it, the track clears it.  What an observer sees of that are the events alone:
of all wake-ups on a CPU those are charged that come first, before any interval is opened or after one
was.

* `WakeupTable.Counts`: a table is the count of a list of wake-ups;
* `opensAt`, `IsFirstWakeup`: where events open an interval on a CPU, and which wake-ups come first;
* `Cpu.Witnesses`: a CPU is in the state that the events so far lead to;
* `Replay.chargedPlaces`: the wake-ups that a replay charges on a CPU;
* `Replay.first_wakeups_charged`: they are the first ones, and the table of the CPU is their count.
-/

namespace PowerTrace

variable {τ : Type}

/-! ### What the events say -/

/-- The source of a wake-up on a CPU, `none` for any other event. -/
def Event.wakes? (cpu : CpuId) (e : Event τ) : Option (Option Int × String) :=
  if e.cpu = cpu then
    match e.kind with
    | .wakeup id name => some (id, name)
    | _ => none
  else none

/-- Whether an event opens an idle interval on a CPU that is at some depth or runs: it takes it to another
depth. -/
def Event.opens (ids : List CpuId) (cpu : CpuId) (e : Event τ) (here : Option Depth) : Bool :=
  match e.goesTo? ids cpu with
  | some (some d) => here != some d
  | _ => false

/-- An event that is a wake-up on a CPU leads it nowhere. -/
theorem Event.goesTo?_of_wakes? (ids : List CpuId) {cpu : CpuId} {e : Event τ}
    (h : (e.wakes? cpu).isSome = true) : e.goesTo? ids cpu = none := by
  unfold Event.wakes? at h
  split at h
  · next hcpu =>
    split at h
    · next hkind =>
      rw [Event.goesTo?, if_pos hcpu, Event.action?, hkind]
      split <;> rfl
    · cases h
  · cases h

section Places

variable (ids : List CpuId) (cpu : CpuId) (es : List (Event τ))

/-- The source of the wake-up on a CPU at a place in a list of events, if there is one. -/
def wakeAt? (i : ℕ) : Option (Option Int × String) := es[i]?.bind (·.wakes? cpu)

/-- The depth that the events before a place leave a CPU at, `none` where it runs. -/
def depthBefore (i : ℕ) : Option Depth := ((es.take i).filterMap (·.goesTo? ids cpu)).getLastD none

/-- Whether the event at a place opens an idle interval on a CPU. -/
def opensAt (i : ℕ) : Bool := es[i]?.any (·.opens ids cpu (depthBefore ids cpu es i))

/-- Whether the event at a place is a wake-up on a CPU and the first one: of those before any interval
is opened, or of those after an interval was. -/
def IsFirstWakeup (i : ℕ) : Prop :=
  (wakeAt? cpu es i).isSome = true ∧
    ((∀ k < i, opensAt ids cpu es k = false) ∧ (∀ j < i, wakeAt? cpu es j = none) ∨
      ∃ k < i, opensAt ids cpu es k = true ∧ ∀ j < i, k < j → wakeAt? cpu es j = none)

instance : DecidablePred (IsFirstWakeup ids cpu es) := fun _ =>
  inferInstanceAs (Decidable (_ ∧ (_ ∧ _ ∨ ∃ k < _, _)))

/-- Whether a wake-up arrived before a place and no interval was opened in between. -/
def IsSpent (i : ℕ) : Prop :=
  ∃ j < i, (wakeAt? cpu es j).isSome = true ∧ ∀ k < i, j < k → opensAt ids cpu es k = false

variable {ids cpu es} {i : ℕ}

theorem depthBefore_succ {e : Event τ} (he : es[i]? = some e) :
    depthBefore ids cpu es (i + 1) = (e.goesTo? ids cpu).getD (depthBefore ids cpu es i) := by
  unfold depthBefore
  rw [List.take_add_one, he, Option.toList_some, List.filterMap_append]
  cases hg : e.goesTo? ids cpu with
  | none => simp [hg]
  | some new => simp [hg]

/-- No event both is a wake-up and opens an interval. -/
theorem opensAt_of_wakeAt? (h : (wakeAt? cpu es i).isSome = true) : opensAt ids cpu es i = false := by
  unfold opensAt
  cases he : es[i]? with
  | none => rfl
  | some e =>
    rw [wakeAt?, he, Option.bind_some] at h
    rw [Option.any_some, Event.opens, Event.goesTo?_of_wakes? ids h]

theorem isSpent_succ :
    IsSpent ids cpu es (i + 1) ↔
      (wakeAt? cpu es i).isSome = true ∨ IsSpent ids cpu es i ∧ opensAt ids cpu es i = false := by
  constructor
  · rintro ⟨j, hj, hwake, hopen⟩
    rcases Nat.lt_succ_iff_lt_or_eq.mp hj with hj | rfl
    · refine .inr ⟨⟨j, hj, hwake, fun k hk => hopen k (Nat.lt_succ_of_lt hk)⟩, ?_⟩
      exact hopen i (Nat.lt_succ_self i) hj
    · exact .inl hwake
  · rintro (hwake | ⟨⟨j, hj, hwake, hopen⟩, hnow⟩)
    · exact ⟨i, Nat.lt_succ_self i, hwake, fun k hk hlt => absurd hk (by omega)⟩
    · refine ⟨j, Nat.lt_succ_of_lt hj, hwake, fun k hk hlt => ?_⟩
      rcases Nat.lt_succ_iff_lt_or_eq.mp hk with hk | rfl
      · exact hopen k hk hlt
      · exact hnow

/-- Where none arrived since the last interval was opened, that interval shows it, or there is none. -/
theorem clear_of_not_isSpent (h : ¬ IsSpent ids cpu es i) :
    (∀ k < i, opensAt ids cpu es k = false) ∧ (∀ j < i, wakeAt? cpu es j = none) ∨
      ∃ k < i, opensAt ids cpu es k = true ∧ ∀ j < i, k < j → wakeAt? cpu es j = none := by
  induction i with
  | zero => exact .inl ⟨fun k hk => absurd hk k.not_lt_zero, fun j hj => absurd hj j.not_lt_zero⟩
  | succ i ih =>
    rw [isSpent_succ, not_or, Option.not_isSome_iff_eq_none] at h
    obtain ⟨hwake, hspent⟩ := h
    cases hopens : opensAt ids cpu es i with
    | true => exact .inr ⟨i, i.lt_succ_self, hopens, fun j hj hlt => absurd hj (by omega)⟩
    | false =>
      -- what was clear before this place is clear after it
      have hlater : ∀ {P : ℕ → Prop}, (∀ j < i, P j) → P i → ∀ j < i + 1, P j := by
        intro P hP hi j hj
        rcases Nat.lt_succ_iff_lt_or_eq.mp hj with hj | rfl
        · exact hP j hj
        · exact hi
      rcases ih fun hs => hspent ⟨hs, hopens⟩ with ⟨hclosed, hnone⟩ | ⟨k, hk, hk', hnone⟩
      · exact .inl ⟨hlater hclosed hopens, hlater hnone hwake⟩
      · exact .inr ⟨k, Nat.lt_succ_of_lt hk, hk', hlater hnone fun _ => hwake⟩

/-- **A wake-up is the first one exactly where none arrived** since the last interval was opened. -/
theorem isFirstWakeup_iff :
    IsFirstWakeup ids cpu es i ↔ (wakeAt? cpu es i).isSome = true ∧ ¬ IsSpent ids cpu es i := by
  refine and_congr_right fun _ => ⟨?_, clear_of_not_isSpent⟩
  rintro (⟨-, hnone⟩ | ⟨k, hk, hopens, hnone⟩) ⟨j, hj, hwake, hclosed⟩
  · rw [hnone j hj] at hwake
    cases hwake
  · rcases lt_trichotomy j k with hlt | rfl | hlt
    · exact Bool.false_ne_true ((hclosed k hk hlt).symm.trans hopens)
    · exact Bool.false_ne_true ((opensAt_of_wakeAt? hwake).symm.trans hopens)
    · rw [hnone j hj hlt] at hwake
      cases hwake

variable (ids cpu es i) in
/-- The first wake-ups before a place and at it. -/
theorem filterMap_firstWakeups_succ :
    ((List.range (i + 1)).filter (IsFirstWakeup ids cpu es)).filterMap (wakeAt? cpu es) =
      ((List.range i).filter (IsFirstWakeup ids cpu es)).filterMap (wakeAt? cpu es) ++
        if IsFirstWakeup ids cpu es i then (wakeAt? cpu es i).toList else [] := by
  rw [List.range_succ, List.filter_append, List.filterMap_append, List.filter_singleton]
  by_cases hfirst : IsFirstWakeup ids cpu es i
  · cases hwake : wakeAt? cpu es i <;> simp [hfirst, hwake]
  · simp [hfirst]

variable (ids cpu es) in
/-- **No more wake-ups come first than intervals are opened**, and one that comes before them all.  The
second part is what the induction needs: where no wake-up arrived since the last opening, that opening
is not used up yet. -/
theorem countP_firstWakeups_le (n : ℕ) :
    (List.range n).countP (IsFirstWakeup ids cpu es) ≤
        1 + (List.range n).countP (opensAt ids cpu es) ∧
      (¬ IsSpent ids cpu es n → (List.range n).countP (IsFirstWakeup ids cpu es) ≤
        (List.range n).countP (opensAt ids cpu es)) := by
  induction n with
  | zero => exact ⟨Nat.zero_le _, fun _ => Nat.le_refl _⟩
  | succ n ih =>
    obtain ⟨hle, hclear⟩ := ih
    have hfirst : decide (IsFirstWakeup ids cpu es n) = true ↔
        (wakeAt? cpu es n).isSome = true ∧ ¬ IsSpent ids cpu es n :=
      decide_eq_true_iff.trans isFirstWakeup_iff
    rw [List.range_succ, List.countP_append, List.countP_append, List.countP_singleton,
      List.countP_singleton, isSpent_succ]
    cases hopens : opensAt ids cpu es n with
    | true =>
      have hwake : ¬ (wakeAt? cpu es n).isSome = true := fun hwake =>
        Bool.false_ne_true ((opensAt_of_wakeAt? hwake).symm.trans hopens)
      rw [if_neg fun h => hwake (hfirst.mp h).1, if_pos rfl]
      omega
    | false =>
      rw [if_neg Bool.false_ne_true]
      by_cases hspent : IsSpent ids cpu es n
      · rw [if_neg fun h => (hfirst.mp h).2 hspent]
        exact ⟨hle, fun h => absurd (.inr ⟨hspent, rfl⟩) h⟩
      · have hle' := hclear hspent
        by_cases hwake : (wakeAt? cpu es n).isSome = true
        · rw [if_pos (hfirst.mpr ⟨hwake, hspent⟩)]
          exact ⟨by omega, fun h => absurd (.inl hwake) h⟩
        · rw [if_neg fun h => hwake (hfirst.mp h).1]
          exact ⟨hle, fun _ => hle'⟩

end Places

/-! ### A CPU and the events so far -/

section Cpu

variable [TimeValue τ]

/-- **What an event does to a CPU** is told by where it leads it and by the wake-up that it is. -/
theorem Cpu.step_cases {ids : List CpuId} {c : Cpu τ} (hc : c.id ∈ ids) (e : Event τ) :
    ((c.step ids e = c ∨ ∃ f, c.step ids e = c.apply e.time (.changeFreq f)) ∧
        e.goesTo? ids c.id = none ∧ e.wakes? c.id = none) ∨
      (∃ new, c.step ids e = c.apply e.time (.setDepth new) ∧
        e.goesTo? ids c.id = some new ∧ e.wakes? c.id = none) ∨
      ∃ id name, c.step ids e = c.apply e.time (.wake id name) ∧
        e.goesTo? ids c.id = none ∧ e.wakes? c.id = some (id, name) := by
  by_cases hid : e.cpu = c.id
  · have haction : e.action? ids = (e.kind.action e.cpu).toOption := by
      rw [Event.action?, if_pos (hid ▸ hc)]
    unfold Cpu.step Event.goesTo? Event.wakes?
    rw [if_pos hid, if_pos hid, haction]
    cases hkind : e.kind with
    | idleEnter depth =>
      cases hd : Depth.ofNat? depth with
      | none =>
        have hnone : (EventKind.action e.cpu (.idleEnter depth)).toOption = none := by
          rw [EventKind.action, hd]
          rfl
        rw [hnone]
        exact .inl ⟨.inl rfl, rfl, rfl⟩
      | some d =>
        have hsome : (EventKind.action e.cpu (.idleEnter depth)).toOption = some (.setDepth (some d)) := by
          rw [EventKind.action, hd]
          rfl
        rw [hsome]
        exact .inr (.inl ⟨some d, if_pos hid.symm, rfl, rfl⟩)
    | idleExit => exact .inr (.inl ⟨none, if_pos hid.symm, rfl, rfl⟩)
    | freqChange f => exact .inl ⟨.inr ⟨f, if_pos hid.symm⟩, rfl, rfl⟩
    | wakeup id name => exact .inr (.inr ⟨id, name, if_pos hid.symm, rfl, rfl⟩)
  · refine .inl ⟨.inl ?_, Event.goesTo?_of_ne ids hid, if_neg hid⟩
    unfold Cpu.step
    split
    · exact if_neg (Ne.symm hid)
    · rfl

/-- Only opening an interval allows the next charge. -/
theorem CStateTrack.claimed_record (t : CStateTrack τ) (time : τ) (new : Option Depth) :
    (t.record time new).1.claimed = (t.claimed && (new == none || new == t.current)) := by
  unfold record
  by_cases hn : new = t.current
  · rw [if_pos hn, hn, beq_self_eq_true, Bool.or_true, Bool.and_true]
  · rw [if_neg hn, beq_eq_false_iff_ne.mpr hn, Bool.or_false]
    cases new with
    | none =>
      rw [beq_self_eq_true, Bool.and_true]
      exact closeOpen_induction (P := fun u => u.claimed = t.claimed)
        (fun d _ => t.claimed_close d time) rfl
    | some d => exact (Bool.and_false _).symm

/-- **What an event does to the depth, the flag and the table of a CPU.** -/
theorem Cpu.step_spec {ids : List CpuId} {c : Cpu τ} (hc : c.id ∈ ids) (e : Event τ) :
    (c.step ids e).cstates.current = (e.goesTo? ids c.id).getD c.cstates.current ∧
      ((c.step ids e).cstates.claimed = true ↔ (e.wakes? c.id).isSome = true ∨
        c.cstates.claimed = true ∧ e.opens ids c.id c.cstates.current = false) ∧
      (c.step ids e).wakeups = match e.wakes? c.id with
        | some (id, name) =>
          if c.cstates.claimed then c.wakeups else c.wakeups.credit id name c.cstates.lastClass
        | none => c.wakeups := by
  unfold Event.opens
  obtain ⟨hstep, hgoes, hwakes⟩ | ⟨new, hstep, hgoes, hwakes⟩ | ⟨id, name, hstep, hgoes, hwakes⟩ :=
    c.step_cases hc e
  · rw [hgoes, hwakes]
    rcases hstep with hstep | ⟨f, hstep⟩ <;> rw [hstep] <;> exact ⟨rfl, by simp [apply], rfl⟩
  · rw [hgoes, hwakes, hstep]
    refine ⟨CStateTrack.current_record _ _ _, ?_, rfl⟩
    show (c.cstates.record e.time new).1.claimed = true ↔ _
    rw [CStateTrack.claimed_record]
    cases new with
    | none => simp
    | some d => simp [@eq_comm _ (some d)]
  · rw [hgoes, hwakes, hstep]
    show (c.wakeups.charge c.cstates id name).2.current = _ ∧
      ((c.wakeups.charge c.cstates id name).2.claimed = true ↔ _) ∧
      (c.wakeups.charge c.cstates id name).1 = _
    unfold WakeupTable.charge
    dsimp only
    split
    · next hclaim => exact ⟨rfl, by simp [hclaim], rfl⟩
    · exact ⟨rfl, by simp [CStateTrack.claim], rfl⟩

/-- A CPU is in the state that the events before a place lead to: it is at the depth that they leave it
at, the flag says whether a wake-up arrived since the last interval was opened, and its table counts
the first wake-ups. -/
structure Cpu.Witnesses (ids : List CpuId) (es : List (Event τ)) (i : ℕ) (c : Cpu τ) : Prop where
  here : c.cstates.current = depthBefore ids c.id es i
  claimed : c.cstates.claimed = true ↔ IsSpent ids c.id es i
  counts : c.wakeups.Counts
    (((List.range i).filter (IsFirstWakeup ids c.id es)).filterMap (wakeAt? c.id es))

/-- **Every event keeps it so.** -/
theorem Cpu.Witnesses.step {ids : List CpuId} {es : List (Event τ)} {i : ℕ} {c : Cpu τ}
    (h : c.Witnesses ids es i) (hc : c.id ∈ ids) {e : Event τ} (he : es[i]? = some e) :
    (c.step ids e).Witnesses ids es (i + 1) := by
  have hwakeAt : wakeAt? c.id es i = e.wakes? c.id := by rw [wakeAt?, he, Option.bind_some]
  have hopensAt : opensAt ids c.id es i = e.opens ids c.id c.cstates.current := by
    rw [opensAt, he, Option.any_some, h.here]
  have hfirst : IsFirstWakeup ids c.id es i ↔
      (e.wakes? c.id).isSome = true ∧ ¬ c.cstates.claimed = true := by
    rw [isFirstWakeup_iff, hwakeAt, h.claimed]
  obtain ⟨hhere, hclaimed, hwakeups⟩ := Cpu.step_spec hc e
  refine ⟨?_, ?_, ?_⟩
  · rw [id_step, hhere, depthBefore_succ he, h.here]
  · rw [id_step, hclaimed, isSpent_succ, hwakeAt, hopensAt, h.claimed]
  · rw [id_step, hwakeups, filterMap_firstWakeups_succ, hwakeAt]
    cases hwakes : e.wakes? c.id with
    | none =>
      rw [if_neg fun hf => ?_, List.append_nil]
      · exact h.counts
      · have hsome := (hfirst.mp hf).1
        rw [hwakes] at hsome
        cases hsome
    | some key =>
      obtain ⟨id, name⟩ := key
      cases hclaim : c.cstates.claimed with
      | true =>
        rw [if_neg fun hf => (hfirst.mp hf).2 hclaim, List.append_nil]
        exact h.counts
      | false =>
        rw [if_pos (hfirst.mpr ⟨by rw [hwakes]; rfl, Bool.eq_false_iff.mp hclaim⟩)]
        exact h.counts.credit

/-- **A CPU without a history is always in the state that the events so far lead to.** -/
theorem Cpu.witnesses_run {ids : List CpuId} {c : Cpu τ} (hc : c.id ∈ ids) (hfresh : c.tracks.Fresh)
    (hempty : c.wakeups = .empty) (es : List (Event τ)) {i : ℕ} (hi : i ≤ es.length) :
    (c.run ids (es.take i)).Witnesses ids es i := by
  induction i with
  | zero =>
    obtain ⟨infos, hinfos⟩ := hfresh.cstates
    have htrack : c.cstates = .ofInfos infos := hinfos
    refine ⟨?_, ?_, ?_⟩
    · show c.cstates.current = none
      rw [htrack]
      rfl
    · show c.cstates.claimed = true ↔ _
      rw [htrack]
      exact iff_of_false Bool.false_ne_true fun ⟨j, hj, _⟩ => j.not_lt_zero hj
    · show c.wakeups.Counts []
      rw [hempty]
      exact WakeupTable.counts_empty
  | succ i ih =>
    have he : es[i]? = some es[i] := List.getElem?_eq_getElem hi
    have hrun : c.run ids (es.take (i + 1)) = (c.run ids (es.take i)).step ids es[i] := by
      rw [run, List.take_add_one, he, List.foldl_append]
      rfl
    rw [hrun]
    exact (ih (Nat.le_of_succ_le hi)).step (by rwa [id_run]) he

end Cpu

/-! ### Every replay -/

namespace Replay

/-- Whether a replay charges an event to the interval that a CPU closed last: it is a wake-up on that
CPU, and none was charged since the CPU opened an interval. -/
def charges (r : Replay τ) (cpu : CpuId) (e : Event τ) : Bool :=
  match r.action e, r.topology.cpu? cpu with
  | .ok (.wake _ _), some c => c.id == e.cpu && !c.cstates.claimed
  | _, _ => false

/-- The places of the events that a replay charges on a CPU, when it comes to them. -/
def chargedPlaces [TimeValue τ] (r : Replay τ) (cpu : CpuId) (es : List (Event τ)) : List ℕ :=
  (List.range es.length).filter fun i =>
    match r.processAll (es.take i), es[i]? with
    | .ok now, some e => now.charges cpu e
    | _, _ => false

/-- What a replay charges is told by the event and by the flag of the CPU. -/
theorem charges_eq {r : Replay τ} {c : Cpu τ} (hc : r.topology.cpu? c.id = some c)
    (hmem : c.id ∈ r.topology.cpuIds) (e : Event τ) :
    r.charges c.id e = ((e.wakes? c.id).isSome && !c.cstates.claimed) := by
  unfold charges
  rw [hc]
  by_cases hid : e.cpu = c.id
  · rw [action_eq, if_pos (hid ▸ hmem), Event.wakes?, if_pos hid, hid]
    cases e.kind with
    | idleEnter depth =>
      simp only [EventKind.action]
      cases Depth.ofNat? depth <;> rfl
    | idleExit => rfl
    | freqChange f => rfl
    | wakeup id name => exact congrArg (· && !c.cstates.claimed) (beq_self_eq_true c.id)
  · have hne : (c.id == e.cpu) = false := beq_eq_false_iff_ne.mpr (Ne.symm hid)
    rw [Event.wakes?, if_neg hid]
    cases r.action e with
    | error err => rfl
    | ok a =>
      cases a with
      | setDepth new => rfl
      | changeFreq f => rfl
      | wake id name => exact congrArg (· && !c.cstates.claimed) hne

section Run

variable [TimeValue τ] {d : Description} {t : Topology τ} (h : Topology.build d = .ok t)

include h

/-- A CPU after the events before a place, and the replay at that place. -/
theorem exists_cpu_before {o : ReplayOptions} {r₀ : Replay τ} (h₀ : start d o = .ok r₀)
    {cpu : CpuId} (hcpu : cpu ∈ d.layout.cpuIds) (es : List (Event τ)) {i : ℕ} (hi : i ≤ es.length) :
    ∃ (now : Replay τ) (c : Cpu τ), r₀.processAll (es.take i) = .ok now ∧ c.id = cpu ∧
      now.topology.cpu? cpu = some c ∧ now.topology.cpuIds = d.layout.cpuIds ∧
      c.Witnesses d.layout.cpuIds es i := by
  obtain ⟨r₀', now, h₀', hnow, -, htop⟩ := exists_run h o (es.take i)
  obtain rfl : r₀ = r₀' := Except.ok.inj (h₀.symm.trans h₀')
  have hids := Topology.cpuIds_of_build h
  obtain ⟨c₀, hc₀, rfl⟩ : ∃ c₀ ∈ t.cpus, c₀.id = cpu := List.mem_map.mp (by rw [← hids] at hcpu; exact hcpu)
  refine ⟨now, c₀.run d.layout.cpuIds (es.take i), hnow, c₀.id_run _ _, ?_, ?_, ?_⟩
  · have hshape := (Topology.wellShaped_of_build h).run o.compositeFrequency (es.take i)
    have hmem : c₀.run d.layout.cpuIds (es.take i) ∈ (t.run o.compositeFrequency (es.take i)).cpus := by
      rw [Topology.cpus_run, hids]
      exact List.mem_map_of_mem hc₀
    have hfind := hshape.cpu?_of_mem hmem
    rw [Cpu.id_run] at hfind
    rw [htop, hfind]
  · rw [htop, Topology.cpuIds_run, hids]
  · obtain ⟨id, -, rfl⟩ := List.mem_map.mp (Topology.cpus_of_build h ▸ hc₀)
    exact Cpu.witnesses_run hcpu (t.fresh_of_build h _ (Topology.mem_entities_cpu hc₀)) rfl es hi

/-- **A replay charges the first wake-ups.** -/
theorem chargedPlaces_eq {o : ReplayOptions} {r₀ : Replay τ} (h₀ : start d o = .ok r₀) {cpu : CpuId}
    (hcpu : cpu ∈ d.layout.cpuIds) (es : List (Event τ)) :
    r₀.chargedPlaces cpu es =
      (List.range es.length).filter (IsFirstWakeup d.layout.cpuIds cpu es) := by
  refine List.filter_congr fun i hi => ?_
  have hi := List.mem_range.mp hi
  have he : es[i]? = some es[i] := List.getElem?_eq_getElem hi
  obtain ⟨now, c, hnow, rfl, hc, hids, hwitness⟩ := exists_cpu_before h h₀ hcpu es hi.le
  rw [hnow, he]
  show now.charges c.id es[i] = _
  rw [charges_eq hc (hids ▸ hcpu), Bool.eq_iff_iff, decide_eq_true_iff, isFirstWakeup_iff,
    ← hwitness.claimed, wakeAt?, he, Option.bind_some, Bool.and_eq_true, Bool.not_eq_true',
    Bool.not_eq_true]

/-- **The first wake-ups of a CPU are those that are charged, and its table is their count.**  Whatever
the machine, the options and the events, the replay charges on a CPU just the first wake-up before any
idle interval is opened on it and the first one after each opening, that is after each event that takes
the CPU to a depth it was not at.  Its table lists their sources in the order of their first charge,
each once, with the number of its charges, of which no more are early or late than there are; in total
it counts all charges, which are at most one more than the openings. -/
theorem first_wakeups_charged (o : ReplayOptions) (es : List (Event τ)) :
    ∃ r₀ r : Replay τ, start d o = .ok r₀ ∧ r₀.processAll es = .ok r ∧
      ∀ c ∈ r.topology.cpus,
        let places := r₀.chargedPlaces c.id es
        let keys := places.filterMap (wakeAt? c.id es)
        (c.wakeups.sources.map (·.key)).Nodup ∧
        c.wakeups.sources.map (·.key) = keys.eraseDups ∧
        (∀ s ∈ c.wakeups.sources,
          1 ≤ s.count ∧ s.early + s.late ≤ s.count ∧ s.count = keys.count s.key) ∧
        c.wakeups.total = places.length ∧
        (∀ i, i ∈ places ↔ i < es.length ∧ IsFirstWakeup d.layout.cpuIds c.id es i) ∧
        c.wakeups.total ≤ 1 + (List.range es.length).countP (opensAt d.layout.cpuIds c.id es) := by
  obtain ⟨r₀, r, h₀, hr, -, htop⟩ := exists_run h o es
  refine ⟨r₀, r, h₀, hr, fun c hc => ?_⟩
  have hids : r.topology.cpuIds = d.layout.cpuIds := by
    rw [htop, Topology.cpuIds_run, Topology.cpuIds_of_build h]
  have hcpu : c.id ∈ d.layout.cpuIds := hids ▸ List.mem_map_of_mem hc
  have hshape : r.topology.WellShaped :=
    htop ▸ (Topology.wellShaped_of_build h).run o.compositeFrequency es
  obtain ⟨now, c', hnow, -, hc', -, hwitness⟩ := exists_cpu_before h h₀ hcpu es (Nat.le_refl _)
  rw [List.take_length] at hnow
  obtain rfl : r = now := Except.ok.inj (hr.symm.trans hnow)
  obtain rfl : c = c' := Option.some.inj ((hshape.cpu?_of_mem hc).symm.trans hc')
  intro places keys
  have hplaces : places = (List.range es.length).filter (IsFirstWakeup d.layout.cpuIds c.id es) :=
    chargedPlaces_eq h h₀ hcpu es
  have hcounts : c.wakeups.Counts keys := by
    show c.wakeups.Counts (places.filterMap _)
    rw [hplaces]
    exact hwitness.counts
  have htotal : c.wakeups.total = places.length := by
    -- every place that is charged holds a wake-up
    have hwake : ∀ i ∈ places, (wakeAt? c.id es i).isSome = true := by
      intro i hi
      rw [hplaces, List.mem_filter, decide_eq_true_iff] at hi
      exact hi.2.1
    rw [hcounts.total]
    exact List.filterMap_length_eq_length.mpr hwake
  refine ⟨hcounts.distinct, hcounts.order, fun s hs => ?_, htotal, fun i => ?_, ?_⟩
  · exact ⟨hcounts.one_le_count hs, hcounts.missed s hs, hcounts.count s hs⟩
  · rw [hplaces, List.mem_filter, List.mem_range, decide_eq_true_iff]
  · rw [htotal, hplaces, ← List.countP_eq_length_filter]
    exact (countP_firstWakeups_le _ _ es es.length).1

end Run

end Replay

/-- A CPU that meets two wake-ups before its first idle interval, two in it, where going to the depth it
is at opens no other, and one after the second; another wake-up is on the other CPU. -/
def Event.threeStretches : List (Event Float) :=
  [⟨1, 1, .wakeup none "call"⟩, ⟨1, 1, .wakeup (some 4) "timer"⟩, ⟨2, 1, .idleEnter 0⟩,
    ⟨3, 1, .wakeup (some 4) "timer"⟩, ⟨3, 1, .idleEnter 0⟩, ⟨4, 1, .wakeup (some 5) "timer"⟩,
    ⟨4, 1, .idleEnter 1⟩, ⟨5, 1, .idleExit⟩, ⟨5, 0, .wakeup (some 5) "timer"⟩,
    ⟨5, 1, .wakeup none "call"⟩]

/-- Of its wake-ups the first, the third and the last are charged. -/
theorem Replay.first_wakeups_charged_threeStretches :
    ∃ (r₀ r : Replay Float) (c : Cpu Float),
      start .sharedCore {} = .ok r₀ ∧ r₀.processAll Event.threeStretches = .ok r ∧
      c ∈ r.topology.cpus ∧ c.id = 1 ∧
      (∀ i, i ∈ r₀.chargedPlaces 1 Event.threeStretches ↔ i = 0 ∨ i = 3 ∨ i = 9) ∧
      c.wakeups.total = (r₀.chargedPlaces 1 Event.threeStretches).length ∧ c.wakeups.total ≤ 3 := by
  obtain ⟨r₀, r, h₀, hr, hall⟩ :=
    Replay.first_wakeups_charged (d := .sharedCore) rfl {} Event.threeStretches
  obtain ⟨c, hc, hid⟩ : ∃ c ∈ r.topology.cpus, c.id = 1 := by
    cases h₀
    cases hr
    exact List.mem_map.mp (by decide +kernel)
  obtain ⟨-, -, -, htotal, hplaces, hle⟩ := hall c hc
  rw [hid] at htotal hplaces hle
  have hfirst : ∀ i < Event.threeStretches.length,
      IsFirstWakeup Description.sharedCore.layout.cpuIds 1 Event.threeStretches i ↔
        i = 0 ∨ i = 3 ∨ i = 9 := by
    decide +kernel
  refine ⟨r₀, r, c, h₀, hr, hc, hid, fun i => ?_, htotal, hle.trans (by decide +kernel)⟩
  rw [hplaces]
  constructor
  · rintro ⟨hi, hf⟩
    exact (hfirst i hi).mp hf
  · intro hi
    have hlt : i < Event.threeStretches.length := by
      show i < 10
      omega
    exact ⟨hlt, (hfirst i hlt).mpr hi⟩

end PowerTrace
