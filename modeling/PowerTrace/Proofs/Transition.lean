import PowerTrace.Proofs.Entity

/-!
# Transitions of an idle track

Every node has an idle track, and whatever happens to it is one of three things: it closes an
interval, it opens one, or a wake-up is claimed.

* `CStateTrack.slot_close`: closing an interval counts it at its depth, unless it is discarded;
* `CStateTrack.record_induction`: what closing and opening keep, every transition keeps;
* `Entity.cstates_apply`: what transitions and claims keep, every action keeps on every node.
-/

namespace PowerTrace

variable {τ : Type} [TimeValue τ]

namespace CStateTrack

/-- A track without a history has the depths as described. -/
theorem slot_ofInfos (infos : Depth → Option StateInfo) (d : Depth) :
    (ofInfos infos : CStateTrack τ).slot d = CState.ofInfo? (infos d) :=
  Vector.getElem_ofFn _

theorem slot_close (t : CStateTrack τ) (d : Depth) (time : τ) (d' : Depth) :
    (t.close d time).1.slot d' =
      if d' = d ∧ TimeValue.le (TimeValue.span t.since time) TimeValue.zero = false then
        (t.slot d).record (t.classify d (TimeValue.span t.since time)) (TimeValue.span t.since time)
      else t.slot d' := by
  by_cases hle : TimeValue.le (TimeValue.span t.since time) TimeValue.zero = true
  · simp [close, hle, slot]
  · by_cases hd : d' = d
    · subst hd
      simp [close, hle, slot]
    · have hne : d.val ≠ d'.val := fun h => hd (Fin.ext h.symm)
      simp [close, hle, slot, hd, Vector.getElem_set_ne, hne]

@[simp] theorem highest_close (t : CStateTrack τ) (d : Depth) (time : τ) :
    (t.close d time).1.highest = t.highest := by
  unfold close
  dsimp only
  split <;> rfl

theorem claimed_close (t : CStateTrack τ) (d : Depth) (time : τ) :
    (t.close d time).1.claimed = t.claimed := by
  unfold close
  dsimp only
  split <;> rfl

@[simp] theorem target_slot_close (t : CStateTrack τ) (d : Depth) (time : τ) (d' : Depth) :
    ((t.close d time).1.slot d').target = (t.slot d').target := by
  rw [slot_close]
  split
  · next h => rw [h.1]; rfl
  · rfl

theorem closeOpen_of_none {t : CStateTrack τ} (h : t.current = none) (time : τ) :
    t.closeOpen time = (t, none) := by
  rw [closeOpen, h]

theorem closeOpen_of_some {t : CStateTrack τ} {d : Depth} (h : t.current = some d) (time : τ) :
    t.closeOpen time = ((t.close d time).1, some (t.close d time).2) := by
  rw [closeOpen, h]

theorem closeOpen_induction {P : CStateTrack τ → Prop} {t : CStateTrack τ} {time : τ}
    (hclose : ∀ d, t.current = some d → P (t.close d time).1) (h : P t) :
    P (t.closeOpen time).1 := by
  unfold closeOpen
  split
  · exact h
  · next d hd => exact hclose d hd

/-- **What closing and opening keep, every transition keeps.** -/
theorem record_induction {P : CStateTrack τ → Prop} {time : τ}
    (hclose : ∀ t d, t.current = some d → P t → P (t.close d time).1)
    (henter : ∀ t d, t.current = none → P t → P (t.enter d time))
    {t : CStateTrack τ} (h : P t) (new : Option Depth) : P (t.record time new).1 := by
  unfold record
  split
  · exact h
  · have hclosed : P (t.closeOpen time).1 := closeOpen_induction (fun d hd => hclose t d hd h) h
    cases new with
    | none => exact hclosed
    | some d => exact henter _ d (t.current_closeOpen time) hclosed

end CStateTrack

namespace Entity

variable (x : Extremum) (id : CpuId) (time : τ) (a : Action)

/-- All that an action can do to the idle track of a node: nothing, a claim or a transition. -/
theorem cstates_apply_cases (e : Entity τ) :
    (e.apply x id time a).tracks.cstates = e.tracks.cstates ∨
      (e.apply x id time a).tracks.cstates = e.tracks.cstates.claim ∨
      ∃ d, (e.apply x id time a).tracks.cstates = (e.tracks.cstates.record time d).1 := by
  obtain he | ⟨c, rfl, he⟩ | ⟨-, -, -, htracks⟩ := e.apply_cases x id time a
  · rw [he]
    exact .inl rfl
  · rw [he]
    cases a with
    | setDepth d => exact .inr (.inr ⟨d, rfl⟩)
    | changeFreq f => exact .inl rfl
    | wake i name =>
      rcases c.tracks_apply_wake time i name with hw | hw
      · exact .inl (congrArg Tracks.cstates hw)
      · exact .inr (.inl (congrArg Tracks.cstates hw))
  · rw [htracks]
    split
    · exact .inr (.inr ⟨_, rfl⟩)
    · exact .inl rfl

/-- **What transitions and claims keep, every action keeps**, on every node. -/
theorem cstates_apply {P : CStateTrack τ → Prop} (hclaim : ∀ t, P t → P t.claim)
    (hrecord : ∀ t d, P t → P (t.record time d).1) {e : Entity τ} (h : P e.tracks.cstates) :
    P (e.apply x id time a).tracks.cstates := by
  obtain he | he | ⟨d, he⟩ := e.cstates_apply_cases x id time a
  · rw [he]
    exact h
  · rw [he]
    exact hclaim _ h
  · rw [he]
    exact hrecord _ d h

end Entity

end PowerTrace
