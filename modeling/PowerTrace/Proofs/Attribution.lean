import PowerTrace.Proofs.ExactTime
import PowerTrace.Proofs.Run
import PowerTrace.Proofs.Totals
import PowerTrace.Proofs.Transition

/-!
# What wake-ups are charged to

A wake-up is charged to the interval closed last, unless one was charged since the last interval was
opened.  Opening an interval therefore allows one more charge while the interval closed last is
still the one before: an interval can be charged once after it ended and once more while the CPU is
idle again.

* `Chronicle`: which intervals a CPU closed, and where around them wake-ups arrived;
* `Period.charges`: how often an interval is charged, from where its wake-ups arrived;
* `Chronicle.Explains`: the counters of a CPU are what its chronicle says, and every action keeps
  it so;
* `Replay.triggers_le_misses_iff`: exactly when no more wake-ups are charged than targets missed;
* `Replay.misses_lt_triggers`: a run where more are.
-/

namespace PowerTrace

/-! ### Counting by class -/

/-- How often a source ended an interval of a class that missed its target. -/
def WakeupSource.missed (k : IdleClass) (s : WakeupSource) : Nat :=
  match k with
  | .tooShort => s.early
  | .tooLong => s.late
  | .asExpected => 0

/-- How many intervals at a depth were of a class that missed its target. -/
def CState.missed {τ : Type} (k : IdleClass) (s : CState τ) : Nat :=
  match k with
  | .tooShort => s.early
  | .tooLong => s.late
  | .asExpected => 0

/-- The early triggers of all sources, or their late ones. -/
def WakeupTable.triggers (k : IdleClass) (t : WakeupTable) : Nat :=
  (t.sources.map (·.missed k)).sum

/-- The early wake-ups at all depths, or the late ones. -/
def CStateTrack.misses {τ : Type} (k : IdleClass) (t : CStateTrack τ) : Nat :=
  (t.slots.toList.map (·.missed k)).sum

theorem WakeupSource.missed_record {k : IdleClass} (hk : k ≠ .asExpected) (s : WakeupSource)
    (c : IdleClass) : (s.record c).missed k = s.missed k + if c = k then 1 else 0 := by
  cases k with
  | asExpected => exact absurd rfl hk
  | tooShort => cases c <;> rfl
  | tooLong => cases c <;> rfl

/-- A wake-up adds one to the triggers of the class it is charged to. -/
theorem WakeupTable.triggers_credit {k : IdleClass} (hk : k ≠ .asExpected) (t : WakeupTable)
    (id : Option Int) (name : String) (c : IdleClass) :
    (t.credit id name c).triggers k = t.triggers k + if c = k then 1 else 0 := by
  have hlist : ∀ l : List WakeupSource, ((creditSource id name c l).map (·.missed k)).sum =
      (l.map (·.missed k)).sum + if c = k then 1 else 0 := by
    intro l
    induction l with
    | nil =>
      have hnew : (WakeupSource.unused id name).missed k = 0 := by cases k <;> rfl
      rw [creditSource, List.map_singleton, List.sum_singleton, WakeupSource.missed_record hk, hnew]
      rfl
    | cons s l ih =>
      unfold creditSource
      split
      · rw [List.map_cons, List.sum_cons, WakeupSource.missed_record hk, List.map_cons, List.sum_cons]
        omega
      · rw [List.map_cons, List.sum_cons, ih, List.map_cons, List.sum_cons]
        omega
  exact hlist t.sources

namespace CStateTrack

variable {τ : Type} [TimeValue τ]

/-- Closing an interval adds one to the misses of its class, unless it is discarded. -/
theorem misses_close {k : IdleClass} (hk : k ≠ .asExpected) (t : CStateTrack τ) (d : Depth)
    (time : τ) :
    (t.close d time).1.misses k =
      t.misses k + if (t.close d time).2.outcome = some k then 1 else 0 := by
  unfold close
  dsimp only
  split
  · rfl
  · have hset := t.sum_slots_set (·.missed k) d
      ((t.slot d).record (t.classify d (TimeValue.span t.since time)) (TimeValue.span t.since time))
    have hrecord : ∀ c u, ((t.slot d).record c u).missed k =
        (t.slot d).missed k + if c = k then 1 else 0 := by
      intro c u
      cases k with
      | asExpected => exact absurd rfl hk
      | tooShort => cases c <;> rfl
      | tooLong => cases c <;> rfl
    rw [hrecord] at hset
    unfold misses
    simp only [Option.some.injEq]
    omega

/-- The class left behind by closing an interval is that of the interval, if it counts. -/
theorem lastClass_close (t : CStateTrack τ) (d : Depth) (time : τ) :
    (t.close d time).1.lastClass = (t.close d time).2.outcome.getD .asExpected := by
  unfold close
  dsimp only
  split <;> rfl

end CStateTrack

/-! ### Where wake-ups arrive -/

/-- A closed interval, and where around it wake-ups arrived. -/
structure Period where
  /-- How it compares, `none` where it was discarded. -/
  outcome : Option IdleClass
  /-- Whether one arrived while it was open. -/
  during : Bool
  /-- Whether one arrived after it, before the next was opened. -/
  after : Bool
  /-- Whether one arrived while the next was open. -/
  again : Bool
  deriving DecidableEq

namespace Period

/-- One arrived after the interval. -/
def markAfter (p : Period) : Period := { p with after := true }

/-- One arrived while the next interval was open. -/
def markAgain (p : Period) : Period := { p with again := true }

/-- Whether an interval is charged while the CPU runs: the first wake-up since it was opened comes
after its end. -/
def isCharged (p : Period) : Bool := p.after && !p.during

/-- How often an interval is charged. -/
def charges (p : Period) : Nat := p.isCharged.toNat + p.again.toNat

theorem charges_markAgain {p : Period} (h : p.again = false) :
    p.markAgain.charges = p.charges + 1 := by
  rw [charges, charges, h]
  rfl

/-- Only the first wake-up since the interval was opened charges it. -/
theorem charges_markAfter (p : Period) :
    p.markAfter.charges = p.charges + if p.during || p.after then 0 else 1 := by
  obtain ⟨outcome, during, after, again⟩ := p
  cases during <;> cases after <;> cases again <;> rfl

/-- Whether an interval of a class is charged both after its end and while the CPU is idle again. -/
def isDouble (k : IdleClass) (p : Period) : Bool := p.outcome == some k && p.isCharged && p.again

/-- Whether an interval of a class is charged neither after its end nor while the CPU is idle
again. -/
def isFree (k : IdleClass) (p : Period) : Bool := p.outcome == some k && !p.isCharged && !p.again

end Period

/-- What an observer knows of a CPU who sees its intervals and its wake-ups, and nothing of what is
charged. -/
structure Chronicle where
  /-- The intervals closed so far, the last of them first. -/
  closed : List Period
  /-- Whether a wake-up arrived in the open interval. -/
  during : Bool
  deriving DecidableEq

namespace Chronicle

/-- Nothing happened yet. -/
def empty : Chronicle := ⟨[], false⟩

/-- How often the intervals of a class are charged. -/
def charges (k : IdleClass) (h : Chronicle) : Nat :=
  ((h.closed.filter (·.outcome == some k)).map (·.charges)).sum

/-- How many intervals of a class were closed. -/
def count (k : IdleClass) (h : Chronicle) : Nat := h.closed.countP (·.outcome == some k)

variable {τ : Type} [TimeValue τ]

/-- What an action on a CPU adds to its chronicle. -/
def note (h : Chronicle) (c : Cpu τ) (time : τ) : Action → Chronicle
  | .setDepth d =>
    match c.closedBy time (.setDepth d) with
    | some i => ⟨⟨i.outcome, h.during, false, false⟩ :: h.closed, false⟩
    | none => h
  | .changeFreq _ => h
  | .wake _ _ =>
    if c.isIdle then ⟨h.closed.modifyHead Period.markAgain, true⟩
    else ⟨h.closed.modifyHead Period.markAfter, h.during⟩

end Chronicle

namespace Chronicle

/-! ### The counters of a CPU and its chronicle -/

theorem charges_cons (k : IdleClass) (p : Period) (l : List Period) (b : Bool) :
    (⟨p :: l, b⟩ : Chronicle).charges k =
      (if p.outcome = some k then p.charges else 0) + (⟨l, b⟩ : Chronicle).charges k := by
  unfold charges
  rw [List.filter_cons]
  simp only [beq_iff_eq]
  split
  · rw [List.map_cons, List.sum_cons]
  · rw [Nat.zero_add]

theorem count_cons (k : IdleClass) (p : Period) (l : List Period) (b : Bool) :
    (⟨p :: l, b⟩ : Chronicle).count k =
      (if p.outcome = some k then 1 else 0) + (⟨l, b⟩ : Chronicle).count k := by
  unfold count
  rw [List.countP_cons]
  simp only [beq_iff_eq]
  omega

/-- The counters of a CPU, and what decides on its next charge, are what its chronicle says. -/
structure Explains {τ : Type} (h : Chronicle) (t : CStateTrack τ) (w : WakeupTable) : Prop where
  triggers : ∀ k, k ≠ .asExpected → w.triggers k = h.charges k
  misses : ∀ k, k ≠ .asExpected → t.misses k = h.count k
  lastClass : t.lastClass = (h.closed.head?.bind (·.outcome)).getD .asExpected
  again : ∀ p ∈ h.closed.head?, p.again = h.during
  idle : t.isIdle = true → t.claimed = h.during
  quiet : t.isIdle = false → h.during = false
  running : t.isIdle = false → ∀ p ∈ h.closed.head?, t.claimed = (p.during || p.after)

namespace Explains

variable {τ : Type} {h : Chronicle} {t : CStateTrack τ} {w : WakeupTable}

/-- The class a wake-up is charged to is that of the interval closed last. -/
theorem lastClass_eq_iff {p : Period} {l : List Period} {b : Bool} (hx : Explains ⟨p :: l, b⟩ t w)
    {k : IdleClass} (hk : k ≠ .asExpected) : t.lastClass = k ↔ p.outcome = some k := by
  have hl : t.lastClass = p.outcome.getD .asExpected := hx.lastClass
  rw [hl]
  cases p.outcome with
  | none => exact ⟨fun he => absurd he.symm hk, fun he => nomatch he⟩
  | some c => exact ⟨fun he => congrArg some he, fun he => Option.some.inj he⟩

/-- Crediting a wake-up is right when marking the interval closed last charges it once more. -/
theorem triggers_credit (hx : Explains h t w) {f : Period → Period}
    (hf : ∀ p ∈ h.closed.head?, (f p).outcome = p.outcome ∧ (f p).charges = p.charges + 1)
    {k : IdleClass} (hk : k ≠ .asExpected) (id : Option Int) (name : String) (b : Bool) :
    (w.credit id name t.lastClass).triggers k =
      (⟨h.closed.modifyHead f, b⟩ : Chronicle).charges k := by
  obtain ⟨closed, during⟩ := h
  rw [WakeupTable.triggers_credit hk, hx.triggers k hk]
  cases closed with
  | nil =>
    have hl : t.lastClass = .asExpected := hx.lastClass
    rw [hl, if_neg hk.symm]
    rfl
  | cons p l =>
    obtain ⟨hout, hcharges⟩ := hf p rfl
    show _ = (⟨f p :: l, b⟩ : Chronicle).charges k
    rw [charges_cons, charges_cons, hout, hcharges]
    simp only [hx.lastClass_eq_iff hk]
    show _ = _ + (⟨l, during⟩ : Chronicle).charges k
    split <;> omega

/-- Marking the interval closed last leaves its class, and so what was missed and what is charged
next. -/
theorem marked (hx : Explains h t w) {f : Period → Period} (hf : ∀ p, (f p).outcome = p.outcome)
    (b : Bool) :
    (∀ k, k ≠ .asExpected → t.misses k = (⟨h.closed.modifyHead f, b⟩ : Chronicle).count k) ∧
      t.lastClass = ((h.closed.modifyHead f).head?.bind (·.outcome)).getD .asExpected := by
  obtain ⟨closed, during⟩ := h
  cases closed with
  | nil => exact ⟨hx.misses, hx.lastClass⟩
  | cons p l =>
    refine ⟨?_, ?_⟩
    · intro k hk
      show _ = (⟨f p :: l, b⟩ : Chronicle).count k
      rw [hx.misses k hk, count_cons, count_cons, hf p]
      rfl
    · rw [hx.lastClass]
      show _ = ((f p).outcome).getD .asExpected
      rw [hf p]
      rfl

/-- A running CPU opens an interval: nothing arrived in it yet, and nothing is charged. -/
theorem enter (hx : Explains h t w) (hrun : t.isIdle = false) (d : Depth) (time : τ) :
    Explains h (t.enter d time) w where
  triggers := hx.triggers
  misses := hx.misses
  lastClass := hx.lastClass
  again := hx.again
  idle _ := (hx.quiet hrun).symm
  quiet hi := nomatch hi
  running hi := nomatch hi

variable [TimeValue τ]

/-- An idle CPU closes its interval, which becomes the one that wake-ups are charged to. -/
theorem close (hx : Explains h t w) {d : Depth} (hd : t.current = some d) (time : τ) :
    Explains ⟨⟨(t.close d time).2.outcome, h.during, false, false⟩ :: h.closed, false⟩
      (t.close d time).1 w where
  triggers k hk := by
    rw [charges_cons, hx.triggers k hk]
    have hnew : Period.charges ⟨(t.close d time).2.outcome, h.during, false, false⟩ = 0 := rfl
    rw [hnew, ite_self, Nat.zero_add]
    rfl
  misses k hk := by
    rw [t.misses_close hk d time, count_cons, hx.misses k hk]
    exact Nat.add_comm _ _
  lastClass := t.lastClass_close d time
  again p hp := by
    cases hp
    rfl
  idle hi := by
    rw [CStateTrack.isIdle, t.current_close d time] at hi
    cases hi
  quiet _ := rfl
  running _ p hp := by
    cases hp
    have hidle : t.isIdle = true := by rw [CStateTrack.isIdle, hd]; rfl
    rw [t.claimed_close d time, hx.idle hidle, Bool.or_false]

omit [TimeValue τ] in
/-- A wake-up while the CPU is idle is charged if it is the first in the open interval: to the
interval before. -/
theorem wake_idle (hx : Explains h t w) (hi : t.isIdle = true) (id : Option Int) (name : String) :
    Explains ⟨h.closed.modifyHead Period.markAgain, true⟩ (w.charge t id name).2
      (w.charge t id name).1 := by
  have hclaim : t.claimed = h.during := hx.idle hi
  have hidle : t.isIdle ≠ false := by
    rw [hi]
    exact Bool.noConfusion
  cases hd : h.during with
  | true =>
    -- the interval before was marked when the first one arrived
    have hsame : h.closed.modifyHead Period.markAgain = h.closed := by
      cases hc : h.closed with
      | nil => rfl
      | cons p l =>
        have hp : p.again = true := (hx.again p (by rw [hc]; rfl)).trans hd
        rw [List.modifyHead_cons, Period.markAgain, ← hp]
    rw [hsame, WakeupTable.charge, if_pos (hclaim.trans hd), ← hd]
    exact hx
  | false =>
    rw [WakeupTable.charge, if_neg (by rw [hclaim, hd]; exact Bool.false_ne_true)]
    have hmark : ∀ p ∈ h.closed.head?,
        p.markAgain.outcome = p.outcome ∧ p.markAgain.charges = p.charges + 1 := by
      intro p hp
      exact ⟨rfl, Period.charges_markAgain ((hx.again p hp).trans hd)⟩
    obtain ⟨hmisses, hlast⟩ := hx.marked (f := Period.markAgain) (fun _ => rfl) true
    refine ⟨?_, hmisses, hlast, ?_, fun _ => rfl, fun hr => absurd hr hidle, fun hr => absurd hr hidle⟩
    · intro k hk
      exact hx.triggers_credit hmark hk id name true
    · intro p hp
      rw [List.head?_modifyHead] at hp
      obtain ⟨q, -, rfl⟩ := Option.map_eq_some_iff.mp hp
      rfl

omit [TimeValue τ] in
/-- A wake-up while the CPU runs is charged if it is the first since the last interval was opened:
to that interval. -/
theorem wake_running (hx : Explains h t w) (hr : t.isIdle = false) (id : Option Int)
    (name : String) :
    Explains ⟨h.closed.modifyHead Period.markAfter, h.during⟩ (w.charge t id name).2
      (w.charge t id name).1 := by
  have hidle : t.isIdle ≠ true := by
    rw [hr]
    exact Bool.noConfusion
  have hagain : ∀ p ∈ (h.closed.modifyHead Period.markAfter).head?, p.again = h.during := by
    intro p hp
    rw [List.head?_modifyHead] at hp
    obtain ⟨q, hq, rfl⟩ := Option.map_eq_some_iff.mp hp
    exact hx.again q hq
  have hafter : ∀ p ∈ (h.closed.modifyHead Period.markAfter).head?,
      true = (p.during || p.after) := by
    intro p hp
    rw [List.head?_modifyHead] at hp
    obtain ⟨q, -, rfl⟩ := Option.map_eq_some_iff.mp hp
    exact (Bool.or_true _).symm
  obtain ⟨hmisses, hlast⟩ := hx.marked (f := Period.markAfter) (fun _ => rfl) h.during
  cases hclaim : t.claimed with
  | true =>
    rw [WakeupTable.charge, if_pos hclaim]
    refine ⟨?_, hmisses, hlast, hagain, fun hi => absurd hi hidle, hx.quiet, ?_⟩
    · intro k hk
      rw [hx.triggers k hk]
      obtain ⟨closed, during⟩ := h
      cases closed with
      | nil => rfl
      | cons p l =>
        have hp : (p.during || p.after) = true := (hx.running hr p rfl).symm.trans hclaim
        have hcharges : p.markAfter.charges = p.charges := by
          rw [Period.charges_markAfter, if_pos hp, Nat.add_zero]
        show _ = (⟨p.markAfter :: l, during⟩ : Chronicle).charges k
        rw [charges_cons, charges_cons, hcharges]
        rfl
    · intro _ p hp
      exact hclaim.trans (hafter p hp)
  | false =>
    rw [WakeupTable.charge, if_neg (Bool.eq_false_iff.mp hclaim)]
    have hmark : ∀ p ∈ h.closed.head?,
        p.markAfter.outcome = p.outcome ∧ p.markAfter.charges = p.charges + 1 := by
      intro p hp
      have hnone : (p.during || p.after) = false := (hx.running hr p hp).symm.trans hclaim
      refine ⟨rfl, ?_⟩
      rw [Period.charges_markAfter, hnone]
      rfl
    refine ⟨?_, hmisses, hlast, hagain, fun hi => absurd hi hidle, hx.quiet, fun _ => hafter⟩
    intro k hk
    exact hx.triggers_credit hmark hk id name h.during

/-- **No action breaks the agreement** between the counters of a CPU and its chronicle. -/
theorem note {c : Cpu τ} (hx : Explains h c.cstates c.wakeups) (time : τ) (a : Action) :
    Explains (h.note c time a) (c.apply time a).cstates (c.apply time a).wakeups := by
  cases a with
  | changeFreq f => exact hx
  | wake id name =>
    show Explains (if c.isIdle then _ else _) (c.wakeups.charge c.cstates id name).2
      (c.wakeups.charge c.cstates id name).1
    split
    · next hi => exact hx.wake_idle hi id name
    · next hi => exact hx.wake_running (Bool.eq_false_iff.mpr hi) id name
  | setDepth new =>
    show Explains (match (c.cstates.record time new).2 with
      | some i => ⟨⟨i.outcome, h.during, false, false⟩ :: h.closed, false⟩
      | none => h) (c.cstates.record time new).1 c.wakeups
    by_cases hnew : new = c.cstates.current
    · rw [CStateTrack.record, if_pos hnew]
      exact hx
    · rw [CStateTrack.record, if_neg hnew]
      cases hd : c.cstates.current with
      | none =>
        rw [CStateTrack.closeOpen_of_none hd]
        cases new with
        | none => exact hx
        | some d => exact hx.enter (by rw [CStateTrack.isIdle, hd]; rfl) d time
      | some d =>
        have hclose := hx.close hd time
        rw [CStateTrack.closeOpen_of_some hd]
        cases new with
        | none => exact hclose
        | some d' =>
          refine hclose.enter ?_ d' time
          rw [CStateTrack.isIdle, CStateTrack.current_close]
          rfl

end Explains

/-- Nothing happened to a CPU that was just built. -/
theorem explains_empty {τ : Type} [TimeValue τ] (infos : Depth → Option StateInfo) :
    Explains empty (.ofInfos infos : CStateTrack τ) .empty where
  triggers _ _ := rfl
  misses k _ := by
    show ((CStateTrack.ofInfos infos : CStateTrack τ).slots.toList.map (·.missed k)).sum = 0
    have hzero : ∀ n ∈ (CStateTrack.ofInfos infos : CStateTrack τ).slots.toList.map (·.missed k),
        n = 0 := by
      intro n hn
      obtain ⟨s, hs, rfl⟩ := List.mem_map.mp hn
      obtain ⟨d, rfl⟩ := Vector.mem_ofFn.mp (Vector.mem_toList_iff.mp hs)
      cases infos d <;> cases k <;> rfl
    exact List.sum_eq_zero hzero
  lastClass := rfl
  again _ hp := nomatch hp
  idle hi := nomatch hi
  quiet _ := rfl
  running _ _ hp := nomatch hp

/-- More charges than intervals means more intervals charged twice than not at all. -/
theorem charges_le_count_iff (h : Chronicle) (k : IdleClass) :
    h.charges k ≤ h.count k ↔ h.closed.countP (·.isDouble k) ≤ h.closed.countP (·.isFree k) := by
  have hsum : h.charges k + h.closed.countP (·.isFree k) =
      h.count k + h.closed.countP (·.isDouble k) := by
    obtain ⟨closed, during⟩ := h
    induction closed with
    | nil => rfl
    | cons p l ih =>
      rw [charges_cons, count_cons, List.countP_cons, List.countP_cons]
      have hp : (if p.outcome = some k then p.charges else 0) + (if p.isFree k then 1 else 0) =
          (if p.outcome = some k then 1 else 0) + if p.isDouble k then 1 else 0 := by
        unfold Period.isFree Period.isDouble Period.charges
        by_cases hk : p.outcome = some k
        · rw [if_pos hk, if_pos hk, hk, beq_self_eq_true]
          cases p.isCharged <;> cases p.again <;> rfl
        · rw [if_neg hk, if_neg hk, beq_eq_false_iff_ne.mpr hk]
          rfl
      simp only at ih ⊢
      omega
  omega

end Chronicle

/-! ### Every run -/

section Run

variable {τ : Type} [TimeValue τ]

/-- What an event of a replay adds to the chronicle of a CPU. -/
def Replay.note (r : Replay τ) (id : CpuId) (e : Event τ) (h : Chronicle) : Chronicle :=
  match r.action e, r.topology.cpu? id with
  | .ok a, some c => if c.id = e.cpu then h.note c e.time a else h
  | _, _ => h

/-- The chronicle of a CPU through a replay, continuing a given one. -/
def Replay.chronicle (id : CpuId) : List (Event τ) → Replay τ → Chronicle → Chronicle
  | [], _, h => h
  | e :: es, r, h =>
    match r.process e with
    | .ok next => next.chronicle id es (r.note id e h)
    | .error _ => h

/-- No event breaks the agreement between a CPU and its chronicle. -/
theorem Replay.Sound.explains_process {r : Replay τ} (hr : r.Sound) (e : Event τ) {id : CpuId}
    {c : Cpu τ} {h : Chronicle} (hc : r.topology.cpu? id = some c)
    (hx : h.Explains c.cstates c.wakeups) :
    ∃ next c', r.process e = .ok next ∧ next.Sound ∧ next.topology.cpu? id = some c' ∧
      (r.note id e h).Explains c'.cstates c'.wakeups := by
  obtain ⟨next, hnext, hs, -, ht⟩ := hr.process e
  unfold Replay.note
  rw [hc]
  cases ha : e.action? r.topology.cpuIds with
  | none =>
    obtain ⟨err, herr, -⟩ := Replay.action_eq_error ha
    rw [Topology.step, ha] at ht
    rw [herr]
    exact ⟨next, c, hnext, hs, by rw [ht]; exact hc, hx⟩
  | some a =>
    rw [Topology.step, ha] at ht
    rw [Replay.action_eq_ok_iff.mpr ha]
    refine ⟨next, if c.id = e.cpu then c.apply e.time a else c, hnext, hs, ?_, ?_⟩
    · rw [ht, Topology.cpu?_apply, hc, Option.map_some]
    · dsimp only
      split
      · exact hx.note e.time a
      · exact hx

theorem Replay.Sound.explains_processAll {r : Replay τ} (hr : r.Sound) (es : List (Event τ))
    {id : CpuId} {c : Cpu τ} {h : Chronicle} (hc : r.topology.cpu? id = some c)
    (hx : h.Explains c.cstates c.wakeups) :
    ∃ r' c', r.processAll es = .ok r' ∧ r'.topology.cpu? id = some c' ∧
      (r.chronicle id es h).Explains c'.cstates c'.wakeups := by
  induction es generalizing r c h with
  | nil => exact ⟨r, c, rfl, hc, hx⟩
  | cons e es ih =>
    obtain ⟨next, c', hnext, hs, hc', hx'⟩ := hr.explains_process e hc hx
    obtain ⟨r', c'', hr', hc'', hx''⟩ := ih hs hc' hx'
    refine ⟨r', c'', ?_, hc'', ?_⟩
    · rw [Replay.processAll_cons, hnext]
      exact hr'
    · rw [Replay.chronicle, hnext]
      exact hx''

/-- **When no more wake-ups are charged than targets were missed.**  At any point of any replay, and
for any CPU, the early triggers do not exceed the early wake-ups exactly when the too short
intervals that were charged twice, once after their end and once while the CPU was idle again, are
no more than those that were not charged at all.  The same holds of late triggers and too long
intervals. -/
theorem Replay.triggers_le_misses_iff {d : Description} {t : Topology τ}
    (h : Topology.build d = .ok t) (o : ReplayOptions) (es : List (Event τ)) :
    ∃ r₀ r : Replay τ, Replay.start d o = .ok r₀ ∧ r₀.processAll es = .ok r ∧
      ∀ c ∈ r.topology.cpus, ∀ k : IdleClass, k ≠ .asExpected →
        (c.wakeups.triggers k ≤ c.cstates.misses k ↔
          (r₀.chronicle c.id es .empty).closed.countP (·.isDouble k) ≤
            (r₀.chronicle c.id es .empty).closed.countP (·.isFree k)) := by
  obtain ⟨r₀, h₀, hs₀, -, ht₀⟩ := Replay.start_of_build h o
  obtain ⟨r, hr, -, -, htop⟩ := hs₀.processAll es
  refine ⟨r₀, r, h₀, hr, ?_⟩
  intro c hc k hk
  have hshape₀ : r₀.topology.WellShaped := by
    rw [ht₀]
    exact Topology.wellShaped_of_build h
  have hshape : r.topology.WellShaped := by
    rw [htop]
    exact hshape₀.run _ es
  -- the CPU was there from the beginning, without a history
  obtain ⟨c₀, hc₀, hid⟩ : ∃ c₀ ∈ r₀.topology.cpus, c₀.id = c.id := by
    have hmem : c.id ∈ r₀.topology.cpuIds := by
      rw [← Topology.cpuIds_run r₀.options.compositeFrequency r₀.topology es, ← htop]
      exact List.mem_map_of_mem hc
    exact List.mem_map.mp hmem
  obtain ⟨id, -, rfl⟩ := List.mem_map.mp (Topology.cpus_of_build h ▸ ht₀ ▸ hc₀)
  obtain ⟨r', c', hr', hc', hx⟩ := hs₀.explains_processAll es (hshape₀.cpu?_of_mem hc₀)
    (Chronicle.explains_empty (d.info? id))
  obtain rfl : r = r' := Except.ok.inj (hr.symm.trans hr')
  rw [hid, hshape.cpu?_of_mem hc] at hc'
  obtain rfl : c = c' := Option.some.inj hc'
  rw [hid] at hx
  rw [hx.triggers k hk, hx.misses k hk]
  exact Chronicle.charges_le_count_iff _ k

end Run

/-- One CPU with an idle state whose target residency is a second. -/
def Description.oneSecond : Description := ⟨.flat 1, [⟨0, 1, "C1", some 1000000⟩]⟩

/-- Half a second idle, the interrupt that ended it, and the next one while the CPU is idle again. -/
def Event.wokenTwice : List (Event ℚ) :=
  [⟨1, 0, .idleEnter 1⟩, ⟨3 / 2, 0, .idleExit⟩, ⟨3 / 2, 0, .wakeup (some 42) "timer"⟩,
    ⟨2, 0, .idleEnter 1⟩, ⟨9 / 4, 0, .wakeup (some 42) "timer"⟩, ⟨4, 0, .idleExit⟩]

/-- Up to its fourth event one wake-up is charged to the one interval that was too short. -/
theorem Replay.triggers_le_misses_wokenTwice :
    ∃ r₀ r : Replay ℚ, Replay.start .oneSecond {} = .ok r₀ ∧
      r₀.processAll (Event.wokenTwice.take 4) = .ok r ∧
      ∀ c ∈ r.topology.cpus, c.wakeups.triggers .tooShort ≤ c.cstates.misses .tooShort := by
  obtain ⟨r₀, r, h₀, hr, hiff⟩ :=
    Replay.triggers_le_misses_iff (d := .oneSecond) rfl {} (Event.wokenTwice.take 4)
  cases h₀
  cases hr
  refine ⟨_, _, rfl, rfl, ?_⟩
  intro c hc
  refine (hiff c hc .tooShort IdleClass.noConfusion).mpr ?_
  cases List.mem_singleton.mp hc
  decide +kernel

/-- **More wake-ups charged than targets missed.**  The interval that was too short is charged a
second time while the CPU is idle again. -/
theorem Replay.misses_lt_triggers :
    ∃ r₀ r : Replay ℚ, Replay.start .oneSecond {} = .ok r₀ ∧
      r₀.processAll Event.wokenTwice = .ok r ∧
      ∃ c ∈ r.topology.cpus, c.cstates.misses .tooShort < c.wakeups.triggers .tooShort := by
  refine ⟨_, _, rfl, rfl, _, List.mem_cons_self, ?_⟩
  decide +kernel

end PowerTrace
