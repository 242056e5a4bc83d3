import Mathlib.Data.List.Nodup
import PowerTrace.Wakeup

/-!
# A table of wake-up sources as a count

A table lists each source once, where it is first credited, and counts with it all wake-ups credited to
it.  So a table is told by the list of these wake-ups.

* `WakeupSource.key`: what tells a source from others;
* `WakeupTable.mem_creditSource`: what crediting a source does to the sources that are listed;
* `WakeupTable.Counts`: a table counts a list of wake-ups;
* `WakeupTable.Counts.credit`: crediting counts one more.
-/

namespace PowerTrace

/-! ### One source more -/

/-- What tells a source from others: its number and its name. -/
def WakeupSource.key (s : WakeupSource) : Option Int × String := (s.id, s.name)

@[simp] theorem WakeupSource.key_record (s : WakeupSource) (c : IdleClass) :
    (s.record c).key = s.key := rfl

theorem WakeupSource.isNamed_iff (s : WakeupSource) (id : Option Int) (name : String) :
    s.isNamed id name = true ↔ s.key = (id, name) := by
  rw [isNamed, Bool.and_eq_true, beq_iff_eq, beq_iff_eq, key, Prod.mk.injEq]

theorem WakeupSource.missed_le_record {s : WakeupSource} (h : s.early + s.late ≤ s.count)
    (c : IdleClass) : (s.record c).early + (s.record c).late ≤ (s.record c).count := by
  cases c <;> simp [record] <;> omega

namespace WakeupTable

variable (id : Option Int) (name : String) (c : IdleClass)

/-- A source that was not listed is listed last. -/
theorem map_key_creditSource (l : List WakeupSource) :
    (creditSource id name c l).map (·.key) =
      if (id, name) ∈ l.map (·.key) then l.map (·.key) else l.map (·.key) ++ [(id, name)] := by
  induction l with
  | nil => rfl
  | cons s rest ih =>
    unfold creditSource
    by_cases hs : s.key = (id, name)
    · rw [if_pos ((s.isNamed_iff id name).mpr hs), List.map_cons, List.map_cons,
        WakeupSource.key_record, if_pos (by rw [hs]; exact List.mem_cons_self)]
    · rw [if_neg fun h => hs ((s.isNamed_iff id name).mp h), List.map_cons, ih, List.map_cons]
      have hmem : (id, name) ∈ s.key :: rest.map (·.key) ↔ (id, name) ∈ rest.map (·.key) := by
        rw [List.mem_cons]
        exact or_iff_right fun h => hs h.symm
      simp only [hmem]
      split <;> rfl

/-- What is listed afterwards: the other sources, and the one that was credited once more. -/
theorem mem_creditSource {l : List WakeupSource} (h : (l.map (·.key)).Nodup) {s : WakeupSource}
    (hs : s ∈ creditSource id name c l) :
    s ∈ l ∧ s.key ≠ (id, name) ∨
      ∃ s₀, s = s₀.record c ∧ s₀.key = (id, name) ∧
        (s₀ ∈ l ∨ s₀ = .unused id name ∧ (id, name) ∉ l.map (·.key)) := by
  induction l with
  | nil =>
    rw [List.mem_singleton.mp hs]
    exact .inr ⟨_, rfl, rfl, .inr ⟨rfl, List.not_mem_nil⟩⟩
  | cons s₁ rest ih =>
    obtain ⟨hnew, hrest⟩ := List.nodup_cons.mp h
    unfold creditSource at hs
    split at hs
    · next hnamed =>
      have hkey := (s₁.isNamed_iff id name).mp hnamed
      rcases List.mem_cons.mp hs with rfl | hs
      · exact .inr ⟨s₁, rfl, hkey, .inl List.mem_cons_self⟩
      · refine .inl ⟨List.mem_cons_of_mem _ hs, fun he => hnew ?_⟩
        exact List.mem_map.mpr ⟨s, hs, he.trans hkey.symm⟩
    · next hnamed =>
      have hkey : s₁.key ≠ (id, name) := fun he => hnamed ((s₁.isNamed_iff id name).mpr he)
      rcases List.mem_cons.mp hs with rfl | hs
      · exact .inl ⟨List.mem_cons_self, hkey⟩
      · obtain ⟨hmem, hne⟩ | ⟨s₀, rfl, hs₀, hmem | ⟨rfl, hnone⟩⟩ := ih hrest hs
        · exact .inl ⟨List.mem_cons_of_mem _ hmem, hne⟩
        · exact .inr ⟨s₀, rfl, hs₀, .inl (List.mem_cons_of_mem _ hmem)⟩
        · refine .inr ⟨_, rfl, rfl, .inr ⟨rfl, ?_⟩⟩
          rw [List.map_cons, List.mem_cons, not_or]
          exact ⟨Ne.symm hkey, hnone⟩

/-! ### All wake-ups -/

/-- A table counts a list of wake-ups, each given by its source. -/
structure Counts (t : WakeupTable) (keys : List (Option Int × String)) : Prop where
  /-- The sources are listed in the order of their first wake-up. -/
  order : t.sources.map (·.key) = keys.eraseDups
  /-- No source is listed twice. -/
  distinct : (t.sources.map (·.key)).Nodup
  /-- Each is listed with the number of its wake-ups. -/
  count : ∀ s ∈ t.sources, s.count = keys.count s.key
  /-- No more of them are early or late than there are. -/
  missed : ∀ s ∈ t.sources, s.early + s.late ≤ s.count
  /-- All wake-ups are counted. -/
  total : t.total = keys.length

theorem counts_empty : empty.Counts [] where
  order := rfl
  distinct := List.nodup_nil
  count _ hs := absurd hs List.not_mem_nil
  missed _ hs := absurd hs List.not_mem_nil
  total := rfl

variable {id name c} {t : WakeupTable} {keys : List (Option Int × String)}

/-- Those that woke the CPU are listed, and no others. -/
theorem Counts.mem_keys (h : t.Counts keys) (key : Option Int × String) :
    key ∈ t.sources.map (·.key) ↔ key ∈ keys := by
  rw [h.order, List.mem_eraseDups]

/-- Every source that is listed woke the CPU. -/
theorem Counts.one_le_count (h : t.Counts keys) {s : WakeupSource} (hs : s ∈ t.sources) :
    1 ≤ s.count := by
  rw [h.count s hs]
  exact List.count_pos_iff.mpr ((h.mem_keys s.key).mp (List.mem_map_of_mem hs))

/-- The sources stay in the order of their first wake-ups. -/
theorem Counts.order_credit (h : t.Counts keys) :
    (t.credit id name c).sources.map (·.key) = (keys ++ [(id, name)]).eraseDups := by
  have hlast : ([(id, name)].removeAll keys).eraseDups =
      if (id, name) ∈ keys then [] else [(id, name)] := by
    by_cases hk : (id, name) ∈ keys <;> simp [List.removeAll, List.eraseDups_cons, hk]
  rw [WakeupTable.credit, map_key_creditSource, List.eraseDups_append, hlast, ← h.order]
  simp only [h.mem_keys]
  split
  · exact (List.append_nil _).symm
  · rfl

/-- A source is what it was, or it is the one that is credited. -/
theorem Counts.of_mem_credit (h : t.Counts keys) {s : WakeupSource}
    (hs : s ∈ (t.credit id name c).sources) :
    s ∈ t.sources ∧ s.key ≠ (id, name) ∨
      ∃ s₀ : WakeupSource, s = s₀.record c ∧ s₀.key = (id, name) ∧
        s₀.count = keys.count (id, name) ∧ s₀.early + s₀.late ≤ s₀.count := by
  obtain hold | ⟨s₀, rfl, hkey, hmem₀ | ⟨rfl, hnone⟩⟩ := mem_creditSource id name c h.distinct hs
  · exact .inl hold
  · exact .inr ⟨s₀, rfl, hkey, hkey ▸ h.count s₀ hmem₀, h.missed s₀ hmem₀⟩
  · rw [h.mem_keys] at hnone
    exact .inr ⟨_, rfl, hkey, (List.count_eq_zero.mpr hnone).symm, Nat.le_refl _⟩

/-- **Crediting counts one more wake-up.** -/
theorem Counts.credit (h : t.Counts keys) : (t.credit id name c).Counts (keys ++ [(id, name)]) := by
  refine ⟨h.order_credit, ?_, ?_, ?_, ?_⟩
  · rw [WakeupTable.credit, map_key_creditSource]
    split
    · exact h.distinct
    · next hnone =>
      rw [List.nodup_append]
      refine ⟨h.distinct, List.nodup_singleton _, ?_⟩
      rintro k hk k' hk' rfl
      exact hnone (List.mem_singleton.mp hk' ▸ hk)
  · intro s hs
    rw [List.count_append]
    obtain ⟨hold, hne⟩ | ⟨s₀, rfl, hkey, hcount, -⟩ := h.of_mem_credit hs
    · rw [h.count s hold, List.count_singleton, if_neg (by simpa using Ne.symm hne), Nat.add_zero]
    · rw [WakeupSource.key_record, hkey, List.count_singleton_self, ← hcount]
      rfl
  · intro s hs
    obtain ⟨hold, -⟩ | ⟨s₀, rfl, -, -, hle⟩ := h.of_mem_credit hs
    · exact h.missed s hold
    · exact WakeupSource.missed_le_record hle c
  · rw [total_credit, h.total, List.length_append]
    rfl

end WakeupTable

end PowerTrace
