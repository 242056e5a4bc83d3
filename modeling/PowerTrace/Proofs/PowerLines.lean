import PowerTrace.Proofs.EventWords

/-!
# Lines about idle states and frequencies

A line about an idle state or a frequency names its CPU and the new value in two fields.  Whatever stands
before the stamp, and whatever other fields there are, it is decoded to exactly what it says, or to an
error where the value is too large: it is never taken for another event, nor for another value.

* `PowerFields`: fields that name one value and one CPU;
* `PowerFields.kind?_idle`, `PowerFields.kind?_frequency`: what such fields say;
* `power_lines_decoded`: what the whole line is read as.
-/

namespace PowerTrace

open Text
open scoped List

/-! ### The two fields -/

/-- The key of the new value. -/
def stateKey : List Char := "state".toList

/-- The key of the CPU. -/
def cpuKey : List Char := "cpu_id".toList

/-- Fields, in any order, of which one has the new value, one has the CPU, and the others have other keys
and hold no tag. -/
structure PowerFields (fields : List Field) (value cpu : List Char) : Prop where
  words : ∀ f ∈ fields, f.IsWord
  state : fields.filter (·.key == stateKey) = [⟨stateKey, value⟩]
  cpu : fields.filter (·.key == cpuKey) = [⟨cpuKey, cpu⟩]
  tags : ∀ f ∈ fields, f.key ≠ stateKey → f.key ≠ cpuKey → ∀ t : EventTag, ¬ t.IsIn f.text

namespace PowerFields

variable {fields : List Field} {value number : List Char} {n : ℕ} {cpu : CpuId}

/-- Both values are found, wherever they stand. -/
theorem field?_eq (h : PowerFields fields value number) :
    field? "state" (spaced (fields.map Field.text)) = some value ∧
      field? "cpu_id" (spaced (fields.map Field.text)) = some number := by
  constructor
  · rw [field?_fields h.words (by decide), ← List.head?_filter]
    exact congrArg (fun fs : List Field => fs.head?.map Field.value) h.state
  · rw [field?_fields h.words (by decide), ← List.head?_filter]
    exact congrArg (fun fs : List Field => fs.head?.map Field.value) h.cpu

/-- The order of the fields does not matter. -/
theorem of_perm {fields' : List Field} (h : PowerFields fields value number)
    (hperm : fields.Perm fields') : PowerFields fields' value number where
  words f hf := h.words f (hperm.mem_iff.mpr hf)
  state := List.perm_singleton.mp (h.state ▸ (hperm.filter _).symm)
  cpu := List.perm_singleton.mp (h.cpu ▸ (hperm.filter _).symm)
  tags f hf := h.tags f (hperm.mem_iff.mpr hf)

/-- The two fields, either of them first, with any others between them. -/
theorem apart {others : List Field} (hvalue : digits? value = some n)
    (hcpu : digits? number = some cpu.toNat) (hwords : ∀ f ∈ others, f.IsWord)
    (hkeys : ∀ f ∈ others, f.key ≠ stateKey ∧ f.key ≠ cpuKey)
    (htags : ∀ f ∈ others, ∀ t : EventTag, ¬ t.IsIn f.text) :
    PowerFields (⟨stateKey, value⟩ :: (others ++ [⟨cpuKey, number⟩])) value number ∧
      PowerFields (⟨cpuKey, number⟩ :: (others ++ [⟨stateKey, value⟩])) value number := by
  have hnumber : ∀ {digits : List Char} {m : ℕ}, digits? digits = some m →
      ∀ c ∈ digits, isBlank c = false :=
    fun hdigits c hc => isBlank_of_isDigit ((isDigit_of_digits? hdigits).2 c hc)
  have hstate : (⟨stateKey, value⟩ : Field).IsWord := Field.isWord_mk (by decide) (hnumber hvalue)
  have hcpu' : (⟨cpuKey, number⟩ : Field).IsWord := Field.isWord_mk (by decide) (hnumber hcpu)
  have hne : (cpuKey == stateKey) = false ∧ (stateKey == cpuKey) = false := by decide
  have hnone : others.filter (·.key == stateKey) = [] ∧ others.filter (·.key == cpuKey) = [] := by
    simp only [List.filter_eq_nil_iff, beq_iff_eq]
    exact ⟨fun f hf => (hkeys f hf).1, fun f hf => (hkeys f hf).2⟩
  have hfirst : PowerFields (⟨stateKey, value⟩ :: (others ++ [⟨cpuKey, number⟩])) value number := by
    refine ⟨?_, by simp [hnone, hne], by simp [hnone, hne], ?_⟩
    · exact List.forall_mem_cons.mpr
        ⟨hstate, List.forall_mem_append.mpr ⟨hwords, List.forall_mem_singleton.mpr hcpu'⟩⟩
    · refine List.forall_mem_cons.mpr ⟨fun h => absurd rfl h, List.forall_mem_append.mpr ⟨?_, ?_⟩⟩
      · exact fun f hf _ _ => htags f hf
      · exact List.forall_mem_singleton.mpr fun _ h => absurd rfl h
  refine ⟨hfirst, hfirst.of_perm ?_⟩
  calc ⟨stateKey, value⟩ :: (others ++ [⟨cpuKey, number⟩])
      _ ~ ⟨stateKey, value⟩ :: ⟨cpuKey, number⟩ :: others :=
        (List.perm_append_singleton _ _).cons _
      _ ~ ⟨cpuKey, number⟩ :: ⟨stateKey, value⟩ :: others := .swap _ _ _
      _ ~ ⟨cpuKey, number⟩ :: (others ++ [⟨stateKey, value⟩]) :=
        (List.perm_append_singleton _ _).symm.cons _

/-- None of the fields holds a tag. -/
theorem not_isIn (h : PowerFields fields value number) (hvalue : digits? value = some n)
    (hcpu : digits? number = some cpu.toNat) {f : Field} (hf : f ∈ fields) (t : EventTag) :
    ¬ t.IsIn f.text := by
  have hplain : ∀ {key digits : List Char} {m : ℕ}, ':' ∉ key → digits? digits = some m →
      ¬ t.IsIn (Field.text ⟨key, digits⟩) := by
    intro key digits m hkey hdigits
    rw [EventTag.isIn_field_iff hkey]
    exact t.not_isIn_of_not_mem (.inl fun hmem =>
      absurd ((isDigit_of_digits? hdigits).2 _ hmem) (by decide))
  by_cases hs : f.key = stateKey
  · obtain rfl : f = ⟨stateKey, value⟩ := by
      rw [← List.mem_singleton, ← h.state, List.mem_filter]
      exact ⟨hf, beq_iff_eq.mpr hs⟩
    exact hplain (by decide) hvalue
  · by_cases hc : f.key = cpuKey
    · obtain rfl : f = ⟨cpuKey, number⟩ := by
        rw [← List.mem_singleton, ← h.cpu, List.mem_filter]
        exact ⟨hf, beq_iff_eq.mpr hc⟩
      exact hplain (by decide) hcpu
    · exact h.tags f hf hs hc t

/-- What the fields of an idle line say. -/
theorem kind?_idle (h : PowerFields fields value number) (hvalue : digits? value = some n)
    (hcpu : digits? number = some cpu.toNat) (lead line : List Char) :
    TaggedLine.kind? ⟨.idle, lead, spaced (fields.map Field.text)⟩ line =
      if n < 2 ^ 63 then some (cpu, if n = 4294967295 then .idleExit else .idleEnter n) else none := by
  have hkind : idleKind (n : ℤ) = if n = 4294967295 then .idleExit else .idleEnter n := by
    have hexit : (n : ℤ) = idleExitState ↔ n = 4294967295 := by
      rw [idleExitState]
      omega
    have hsign : ¬ (n : ℤ) < 0 := by omega
    simp only [idleKind, hexit, hsign, Bool.or_eq_true, decide_eq_true_eq, decide_false,
      Bool.false_eq_true, or_false, Int.toNat_natCast]
  have hsize : UInt64.size / 2 = 2 ^ 63 := rfl
  simp only [TaggedLine.kind?, h.field?_eq, Option.bind_some, int64?_of_digits? hvalue,
    word32?_of_digits_toNat hcpu, hsize]
  split
  · exact congrArg (fun k => some (cpu, k)) hkind
  · rfl

/-- What the fields of a frequency line say. -/
theorem kind?_frequency (h : PowerFields fields value number) (hvalue : digits? value = some n)
    (hcpu : digits? number = some cpu.toNat) (lead line : List Char) :
    TaggedLine.kind? ⟨.frequency, lead, spaced (fields.map Field.text)⟩ line =
      if 1000 * n < 2 ^ 64 then some (cpu, .freqChange (1000 * n)) else none := by
  have hsize : UInt64.size = 2 ^ 64 := rfl
  simp only [TaggedLine.kind?, h.field?_eq, Option.bind_some, word64?_of_digits? hvalue,
    word32?_of_digits_toNat hcpu, hsize, Nat.mul_comm 1000 n]
  split
  · rfl
  · -- a value that does not fit by itself does not fit in a smaller unit either
    next hlarge => rw [if_neg (by omega)]; rfl

end PowerFields

/-! ### The whole line -/

/-- **Lines about idle states and frequencies are decoded exactly.**  Take a text that holds neither of
their tags, a number as stamp, and fields that name a value and a CPU, in any order and among others that
hold no tag.  The idle line is an exit from idle if the value is 4294967295, an entry at that depth if it
is any other below 2 ^ 63, and an error above; the frequency line is a change to that many kHz, or an error
if this is 2 ^ 64 Hz or more. -/
theorem power_lines_decoded {lead stamp value number : List Char} {time : Float} {n : ℕ} {cpu : CpuId}
    {fields : List Field} (hidle : ¬ EventTag.idle.IsIn lead)
    (hfrequency : ¬ EventTag.frequency.IsIn lead) (hstamp : float? stamp = some time)
    (hvalue : digits? value = some n) (hcpu : digits? number = some cpu.toNat)
    (hfields : PowerFields fields value number) :
    event? (eventLine lead stamp .idle (fields.map Field.text)) = some
      (if n = 4294967295 then .ok ⟨time, cpu, .idleExit⟩
      else if n < 2 ^ 63 then .ok ⟨time, cpu, .idleEnter n⟩
      else .error EventTag.idle.malformed) ∧
    event? (eventLine lead stamp .frequency (fields.map Field.text)) = some
      (if 1000 * n < 2 ^ 64 then .ok ⟨time, cpu, .freqChange (1000 * n)⟩
      else .error EventTag.frequency.malformed) := by
  constructor
  · have hearlier : ∀ s ∈ EventTag.idle.earlier,
        ¬ s.IsIn lead ∧ ∀ w ∈ fields.map Field.text, ¬ s.IsIn w :=
      fun s hs => absurd hs List.not_mem_nil
    rw [event?_eventLine hstamp hidle hearlier, hfields.kind?_idle hvalue hcpu]
    by_cases hexit : n = 4294967295
    · have hfits : n < 2 ^ 63 := by omega
      rw [if_pos hfits, if_pos hexit, if_pos hexit]
    · rw [if_neg hexit, if_neg hexit]
      by_cases hfits : n < 2 ^ 63
      · rw [if_pos hfits, if_pos hfits]
      · rw [if_neg hfits, if_neg hfits]
  · have hearlier : ∀ s ∈ EventTag.frequency.earlier,
        ¬ s.IsIn lead ∧ ∀ w ∈ fields.map Field.text, ¬ s.IsIn w := by
      intro s hs
      obtain rfl : s = .idle := List.mem_singleton.mp hs
      exact ⟨hidle, List.forall_mem_map.mpr fun f hf => hfields.not_isIn hvalue hcpu hf .idle⟩
    rw [event?_eventLine hstamp hfrequency hearlier, hfields.kind?_frequency hvalue hcpu]
    by_cases hfits : 1000 * n < 2 ^ 64
    · rw [if_pos hfits, if_pos hfits]
    · rw [if_neg hfits, if_neg hfits]

/-- A text with a bracket, an equals sign and the tag of an interrupt before the stamp; the CPU named
before the state, and another field between them. -/
theorem power_lines_decoded_swapped :
    event? "x [7] cpu_id=9 irq_handler_entry: 12.5: cpu_idle: cpu_id=1 state2=5 state=4294967295".toList =
        some (.ok ⟨12.5, 1, .idleExit⟩) ∧
      event? "x [7] cpu_id=9 irq_handler_entry: 12.5: cpu_frequency: cpu_id=1 state2=5 state=4294967295".toList =
        some (.ok ⟨12.5, 1, .freqChange 4294967295000⟩) := by
  have hothers : ∀ f ∈ [(⟨"state2".toList, ['5']⟩ : Field)], f.IsWord :=
    List.forall_mem_singleton.mpr (Field.isWord_mk (by decide) (isBlank_of_any (by decide)))
  have hfields : PowerFields [⟨cpuKey, ['1']⟩, ⟨"state2".toList, ['5']⟩, ⟨stateKey, "4294967295".toList⟩]
      "4294967295".toList ['1'] :=
    (PowerFields.apart (n := 4294967295) rfl (show digits? ['1'] = some (1 : CpuId).toNat from rfl)
      hothers (by decide) (List.forall_mem_singleton.mpr fun t => by cases t <;> decide)).2
  have hlead : ∀ t ∈ [EventTag.idle, .frequency],
      ¬ t.IsIn "x [7] cpu_id=9 irq_handler_entry:".toList := by decide
  have hlines := power_lines_decoded (hlead _ (by decide)) (hlead _ (by decide))
    (show float? "12.5".toList = some 12.5 from rfl) (n := 4294967295) rfl
    (show digits? ['1'] = some (1 : CpuId).toNat from rfl) hfields
  rw [if_pos rfl, if_pos (by omega)] at hlines
  exact hlines

end PowerTrace
