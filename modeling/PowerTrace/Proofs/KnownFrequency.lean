import PowerTrace.Proofs.Accounting

/-!
# What a group knows of its members' frequencies

A group is told its frequency as a number in which zero says that no member runs at a known one.  But
zero is a frequency like any other to a CPU, and where it is the one picked among those of the members,
the group knows none although they do.

* `Extremum.picksZero`: when that is;
* `compositeFreq_eq_zero_iff`: a composite frequency of zero says one of two things;
* `Entity.Settled.dwells_iff`: a group dwells while a member runs at a known frequency, and the one
  picked is not zero;
* `Replay.timeWhile`: for how long something holds of a node;
* `Replay.groups_know_members`: what this says of every run.
-/

namespace PowerTrace

open TimeValue

/-! ### A composite frequency of zero -/

/-- Whether the one picked among given frequencies is zero: the lowest is as soon as any is, the highest
only if all are. -/
def Extremum.picksZero : Extremum → List ℕ → Bool
  | .min, freqs => freqs.contains 0
  | .max, freqs => freqs.contains 0 && freqs.all (· == 0)

theorem Extremum.of?_eq_some_zero_iff (x : Extremum) (freqs : List ℕ) :
    x.of? freqs = some 0 ↔ x.picksZero freqs = true := by
  cases x with
  | min => simp [of?, picksZero, List.min?_eq_some_iff]
  | max => simp [of?, picksZero, List.max?_eq_some_iff]

theorem Extremum.of?_eq_none_iff (x : Extremum) (freqs : List ℕ) : x.of? freqs = none ↔ freqs = [] := by
  cases x <;> simp [of?]

/-- Where no frequency is known, none is picked. -/
theorem Extremum.ne_nil_of_picksZero {x : Extremum} {freqs : List ℕ} (h : x.picksZero freqs = true) :
    freqs ≠ [] := by
  rintro rfl
  cases x <;> simp [picksZero] at h

variable {τ : Type}

/-- **A composite frequency of zero says one of two things**: that no member runs at a known frequency,
or that the frequency picked is zero. -/
theorem compositeFreq_eq_zero_iff (x : Extremum) (members : List (Cpu τ)) :
    compositeFreq x members = 0 ↔
      runningFreqs members = [] ∨ x.picksZero (runningFreqs members) = true := by
  rw [compositeFreq, ← x.of?_eq_none_iff, ← x.of?_eq_some_zero_iff]
  cases x.of? (runningFreqs members) <;> simp

/-! ### What a group says -/

/-- The frequencies at which members of a node run, as far as they are known. -/
def Entity.knownFreqs (m : Entity τ) : List ℕ := runningFreqs m.members

/-- Whether a member of a node runs at a known frequency. -/
def Entity.knows (m : Entity τ) : Bool := !m.knownFreqs.isEmpty

theorem Entity.knows_iff {m : Entity τ} : m.knows = true ↔ m.knownFreqs ≠ [] := by simp [knows]

theorem Entity.knownFreqs_eq_nil_iff {m : Entity τ} :
    m.knownFreqs = [] ↔ ∀ c ∈ m.members, c.isIdle = false → c.pstates.currentFreq = none := by
  simp [knownFreqs, runningFreqs]

namespace Entity.Settled

variable {x : Extremum} {m : Entity τ}

theorem current_eq_none_iff (h : m.Settled x) (hg : m.isGroup = true) :
    m.tracks.pstates.current = none ↔ m.knownFreqs = [] ∨ x.picksZero m.knownFreqs = true := by
  have hfollow := (coherent_iff_of_isGroup hg).mp h.coherent
  rw [knownFreqs, ← compositeFreq_eq_zero_iff]
  refine ⟨fun hnone => ?_, hfollow.unknown⟩
  by_contra hne
  have hfreq := hfollow.freq hne
  simp [PStateTrack.currentFreq, PStateTrack.currentSlot, hnone] at hfreq

theorem currentFreq_eq_none_iff (h : m.Settled x) :
    m.tracks.pstates.currentFreq = none ↔ m.tracks.pstates.current = none := by
  cases hc : m.tracks.pstates.current with
  | none => simp [PStateTrack.currentFreq, PStateTrack.currentSlot, hc]
  | some i =>
    obtain ⟨p, -, hf⟩ := h.ordered.slot_of_current hc
    simp [hf]

/-- **A group dwells while a member runs at a known frequency**, unless the one picked is zero. -/
theorem dwells_iff (h : m.Settled x) (hg : m.isGroup = true) :
    m.tracks.pstates.dwellSince.isSome = true ↔
      m.knownFreqs ≠ [] ∧ x.picksZero m.knownFreqs = false := by
  have hcurrent := h.current_eq_none_iff hg
  rw [← not_iff_not, not_and_or, not_not, Bool.not_eq_false, ← hcurrent, PStateTrack.dwellSince,
    h.running hg]
  cases m.tracks.pstates.current <;> simp

/-- **A group knows a frequency exactly while its members do**, as long as the one picked is not
zero. -/
theorem unknown_iff (h : m.Settled x) (hg : m.isGroup = true) :
    (m.tracks.pstates.currentFreq = none ↔
        ∀ c ∈ m.members, c.isIdle = false → c.pstates.currentFreq = none) ↔
      x.picksZero m.knownFreqs = false := by
  rw [h.currentFreq_eq_none_iff, h.current_eq_none_iff hg, ← knownFreqs_eq_nil_iff]
  cases hpick : x.picksZero m.knownFreqs with
  | true => simp [Extremum.ne_nil_of_picksZero hpick]
  | false => simp

/-- **What passes goes to the table of a group** while a member runs at a known frequency, unless the
one picked is zero. -/
theorem dwelled_later {m : Entity ℚ} (h : m.Settled x) (hg : m.isGroup = true) (now later : ℚ) :
    m.tracks.pstates.accounted later +
        (if x.picksZero m.knownFreqs then span now later else 0) =
      m.tracks.pstates.accounted now + (if m.knows then span now later else 0) := by
  have hdwells := h.dwells_iff hg
  rw [PStateTrack.accounted, PStateTrack.accounted, PStateTrack.openTime, PStateTrack.openTime]
  cases hd : m.tracks.pstates.dwellSince with
  | some since =>
    obtain ⟨hknown, hpick⟩ := hdwells.mp (by simp [hd])
    have hspan := span_add since now later
    simp only [hpick, knows_iff.mpr hknown, if_true, Option.elim_some, Bool.false_eq_true, if_false]
    linarith
  | none =>
    rw [hd] at hdwells
    cases hpick : x.picksZero m.knownFreqs with
    | true => simp [knows_iff.mpr (Extremum.ne_nil_of_picksZero hpick)]
    | false =>
      have hknown : m.knownFreqs = [] := by simpa [hpick] using hdwells
      simp [knows, hknown]

/-- No action loses or invents time in the table of a group. -/
theorem conserves_dwells {m : Entity ℚ} (h : m.Settled x) (hg : m.isGroup = true) {time : ℚ}
    (hb : m.tracks.pstates.BegunBy time) (id : CpuId) (a : Action) :
    PStateTrack.Conserves time m.tracks.pstates (m.apply x id time a).tracks.pstates := by
  obtain he | ⟨c, rfl, -⟩ | ⟨-, -, -, htracks⟩ := m.apply_cases x id time a
  · rw [he]
    exact .refl time _
  · cases hg
  · rw [htracks]
    split
    · exact PStateTrack.conserves_groupFreq h.ordered (h.running hg) hb _
    · exact .refl time _

end Entity.Settled

/-! ### Every run -/

/-- For how long something holds of the `n`-th node, from one event that concerns it to the next, the
first of them being awaited since a given instant. -/
def Replay.timeWhile (p : Entity ℚ → Bool) (n : ℕ) : List (Event ℚ) → Replay ℚ → ℚ → ℚ
  | [], _, _ => 0
  | e :: es, r, since =>
    match r.topology.entities[n]?, r.process e with
    | some m, .ok next =>
      if e.concerns r.topology.cpuIds m then
        (if p m then span since e.time else 0) + timeWhile p n es next e.time
      else timeWhile p n es next since
    | _, _ => 0

/-- **The table of a group over a run.**  The time it has in the end, and the time for which the frequency
picked was zero, is what it had at first and the time for which a member ran at a known frequency. -/
theorem Replay.Sound.dwelled_processAll {r r' : Replay ℚ} (hr : r.Sound) {es : List (Event ℚ)}
    (hrun : r.processAll es = .ok r') {n : ℕ} {m m' : Entity ℚ}
    (hm : r.topology.entities[n]? = some m) (hm' : r'.topology.entities[n]? = some m')
    (hg : m.isGroup = true) {x : Extremum} (hx : r.options.compositeFrequency = x) (hs : m.Settled x)
    {now : ℚ} (hb : m.tracks.pstates.BegunBy now)
    (hsorted : (now :: (m.events r.topology.cpuIds es).map (·.time)).Pairwise (· ≤ ·)) :
    m'.tracks.pstates.accounted (((m.events r.topology.cpuIds es).map (·.time)).getLastD now) +
        r.timeWhile (x.picksZero ·.knownFreqs) n es now =
      m.tracks.pstates.accounted now + r.timeWhile Entity.knows n es now := by
  induction es generalizing r m now with
  | nil =>
    cases hrun
    obtain rfl : m = m' := Option.some.inj (hm.symm.trans hm')
    rfl
  | cons e es ih =>
    obtain ⟨r₁, h₁, hr₁, ho₁, ht₁⟩ := hr.process e
    rw [processAll_cons, h₁] at hrun
    have hids : r₁.topology.cpuIds = r.topology.cpuIds := by rw [ht₁, Topology.cpuIds_step]
    have hm₁ : r₁.topology.entities[n]? = some (m.step x r.topology.cpuIds e) := by
      rw [ht₁, hx, Topology.entities_step, List.getElem?_map, hm, Option.map_some]
    have ih := ih hr₁ hrun hm₁
    rw [ho₁, hids, Entity.events_step] at ih
    simp only [Replay.timeWhile, hm, h₁]
    cases hcon : e.concerns r.topology.cpuIds m with
    | false =>
      rw [Entity.events_cons_of_not_concerns es hcon] at hsorted ⊢
      rw [Entity.step_of_not_concerns _ hcon] at ih
      exact ih hg hx hs hb hsorted
    | true =>
      rw [Entity.events_cons_of_concerns es hcon, List.map_cons] at hsorted ⊢
      obtain ⟨hfirst, hrest⟩ := List.pairwise_cons.mp hsorted
      have hle : now ≤ e.time := hfirst _ List.mem_cons_self
      have hb' : m.tracks.pstates.BegunBy e.time := fun s h => le_trans (hb s h) hle
      obtain ⟨a, hstep⟩ := Entity.exists_of_concerns x hcon
      have hcons := hs.conserves_dwells hg hb' e.cpu a
      rw [hstep] at ih
      have heq := ih (by rw [Entity.isGroup_apply, hg]) hx (hs.apply e.cpu e.time a) (hcons.begun hb') hrest
      rw [List.getLastD_cons, if_pos rfl, if_pos rfl]
      rw [hcons.accounted] at heq
      generalize ((m.events _ es).map _).getLastD e.time = stop at heq ⊢
      have hlater := hs.dwelled_later hg now e.time
      linarith

/-- **A group knows what its members run at, where that is not zero.**  Whatever the machine, the options,
the instants and the order of the events, a replay gets to the end of its events.  There a core or a
cluster has no frequency selected exactly if no member both runs and has one, as long as the frequency
picked among those of its members is not zero; where it is, the group has none although they do.  A
group has a dwell open exactly if it has to know a frequency and the one picked is not zero.  So, if the
events on its members do not run backwards, what its table has in the end falls short of the time for
which a member ran at a known frequency by the time for which the one picked was zero. -/
theorem Replay.groups_know_members (d : Description) (o : ReplayOptions) :
    (∀ (τ : Type) [TimeValue τ] (t : Topology τ), Topology.build d = .ok t → ∀ es : List (Event τ),
      ∃ r₀ r : Replay τ, Replay.start d o = .ok r₀ ∧ r₀.processAll es = .ok r ∧
        ∀ m ∈ r.topology.entities, m.isGroup = true →
          ((m.tracks.pstates.currentFreq = none ↔
              ∀ c ∈ m.members, c.isIdle = false → c.pstates.currentFreq = none) ↔
            o.compositeFrequency.picksZero m.knownFreqs = false) ∧
          (m.tracks.pstates.dwellSince.isSome = true ↔
            (∃ c ∈ m.members, c.isIdle = false ∧ c.pstates.currentFreq.isSome = true) ∧
              o.compositeFrequency.picksZero m.knownFreqs = false)) ∧
    ∀ t : Topology ℚ, Topology.build d = .ok t → ∀ es : List (Event ℚ),
      ∃ r₀ r : Replay ℚ, Replay.start d o = .ok r₀ ∧ r₀.processAll es = .ok r ∧
        ∀ (n : ℕ) (m₀ : Entity ℚ), r₀.topology.entities[n]? = some m₀ → m₀.isGroup = true →
          ∃ m, r.topology.entities[n]? = some m ∧ ∀ first last : Event ℚ,
            (m₀.events r₀.topology.cpuIds es).head? = some first →
            (m₀.events r₀.topology.cpuIds es).getLast? = some last →
            (m₀.events r₀.topology.cpuIds es).Pairwise (·.time ≤ ·.time) →
              m.tracks.pstates.closedTime + m.tracks.pstates.openTime last.time +
                  r₀.timeWhile (o.compositeFrequency.picksZero ·.knownFreqs) n es first.time =
                r₀.timeWhile Entity.knows n es first.time := by
  refine ⟨fun τ _ t h es => ?_, fun t h es => ?_⟩
  · obtain ⟨r₀, r, h₀, hr, -, htop⟩ := Replay.exists_run h o es
    refine ⟨r₀, r, h₀, hr, fun m hm hg => ?_⟩
    have hs : m.Settled o.compositeFrequency := by
      rw [htop] at hm
      exact Topology.forall_entities_run (fun _ id time a h => h.apply id time a)
        (t.settled_of_build h _) es m hm
    have hknown : (∃ c ∈ m.members, c.isIdle = false ∧ c.pstates.currentFreq.isSome = true) ↔
        m.knownFreqs ≠ [] := by
      simp [Ne, Entity.knownFreqs_eq_nil_iff, Option.isSome_iff_ne_none]
    rw [hknown]
    exact ⟨hs.unknown_iff hg, hs.dwells_iff hg⟩
  · obtain ⟨r₀, h₀, hs₀, ho₀, ht₀⟩ := Replay.start_of_build h o
    obtain ⟨r, hr, -, -, htop⟩ := hs₀.processAll es
    refine ⟨r₀, r, h₀, hr, fun n m₀ hm₀ hg => ?_⟩
    have hmem : m₀ ∈ t.entities := ht₀ ▸ List.mem_of_getElem? hm₀
    have hlen : n < r.topology.entities.length := by
      rw [htop, Topology.length_entities_run]
      exact (List.getElem?_eq_some_iff.mp hm₀).1
    have hm := List.getElem?_eq_getElem hlen
    refine ⟨_, hm, fun first last hfirst hlast hsorted => ?_⟩
    have hfresh := t.fresh_of_build h m₀ hmem
    obtain ⟨hpair, hlastD⟩ := Event.times_of_sorted hfirst hlast hsorted
    have heq := hs₀.dwelled_processAll hr hm₀ hm hg (congrArg _ ho₀)
      (t.settled_of_build h _ m₀ hmem) (hfresh.begunBy first.time).pstates hpair
    have hzero : m₀.tracks.pstates.accounted first.time = 0 := by
      rw [hfresh.pstates]
      exact add_zero _
    rw [hlastD, hzero, zero_add] at heq
    exact heq

/-- The first CPU of a core runs at nothing for a while, the second at 800. -/
def Event.oneAtZero : List (Event ℚ) :=
  [⟨1, 0, .freqChange 0⟩, ⟨2, 1, .freqChange 800⟩, ⟨5, 0, .freqChange 600⟩, ⟨7, 1, .idleEnter 1⟩]

/-- The core knows a member's frequency from 1 to 7, and dwells from 5 on. -/
theorem Replay.groups_know_members_oneAtZero :
    (∃ r₀ r : Replay ℚ, Replay.start .sharedCore {} = .ok r₀ ∧
      r₀.processAll (Event.oneAtZero.take 2) = .ok r ∧ ∀ m ∈ r.topology.entities, m.isGroup = true →
        ((m.tracks.pstates.currentFreq = none ↔
            ∀ c ∈ m.members, c.isIdle = false → c.pstates.currentFreq = none) ↔
          Extremum.min.picksZero m.knownFreqs = false)) ∧
    ∃ r₀ r : Replay ℚ, Replay.start .sharedCore {} = .ok r₀ ∧ r₀.processAll Event.oneAtZero = .ok r ∧
      ∃ m, r.topology.entities[1]? = some m ∧
        m.tracks.pstates.closedTime + m.tracks.pstates.openTime 7 +
            r₀.timeWhile (Extremum.min.picksZero ·.knownFreqs) 1 Event.oneAtZero 1 =
          r₀.timeWhile Entity.knows 1 Event.oneAtZero 1 := by
  obtain ⟨hstate, htime⟩ := Replay.groups_know_members .sharedCore {}
  refine ⟨?_, ?_⟩
  · obtain ⟨r₀, r, h₀, hr, hall⟩ := hstate ℚ _ rfl (Event.oneAtZero.take 2)
    exact ⟨r₀, r, h₀, hr, fun m hm hg => (hall m hm hg).1⟩
  · obtain ⟨r₀, r, h₀, hr, hall⟩ := htime _ rfl Event.oneAtZero
    cases h₀
    obtain ⟨m, hm, hsum⟩ := hall 1 _ rfl rfl
    exact ⟨_, r, rfl, hr, m, hm,
      hsum ⟨1, 0, .freqChange 0⟩ ⟨7, 1, .idleEnter 1⟩ rfl rfl (by decide +kernel)⟩

/-- While its first CPU runs at zero the core knows no frequency, although its second runs at 800; and
four of the six seconds for which it has to know one are missing from its table. -/
theorem Replay.zero_hides_known :
    (∃ r₀ r : Replay ℚ, Replay.start .sharedCore {} = .ok r₀ ∧
      r₀.processAll (Event.oneAtZero.take 2) = .ok r ∧ ∃ m ∈ r.topology.entities, m.isGroup = true ∧
        m.tracks.pstates.currentFreq = none ∧
        ∃ c ∈ m.members, c.isIdle = false ∧ c.pstates.currentFreq = some 800) ∧
    ∃ r₀ r : Replay ℚ, Replay.start .sharedCore {} = .ok r₀ ∧ r₀.processAll Event.oneAtZero = .ok r ∧
      ∃ m, r.topology.entities[1]? = some m ∧
        m.tracks.pstates.closedTime + m.tracks.pstates.openTime 7 = 2000000 ∧
        r₀.timeWhile Entity.knows 1 Event.oneAtZero 1 = 6000000 := by
  refine ⟨⟨_, _, rfl, rfl, ?_⟩, _, _, rfl, rfl, _, rfl, ?_, ?_⟩
  · decide +kernel
  · decide +kernel
  · decide +kernel

end PowerTrace
