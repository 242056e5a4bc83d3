import Mathlib
import PowerTrace.Proofs.HeaderLines
import PowerTrace.Trace.Record

/-!
# The words of an event line

Event lines are read by searching the raw text: for a tag, for the last word before it, for a word that
begins with a key.  What a search finds depends on what stands around the piece that is meant, so for every
search this says when it goes right.

* `Text.splitAt?_append`, `Text.splitAt?_eq_none_iff`: the first occurrence of a mark;
* `Text.infix_spaced_iff`: a mark without blanks is in a line if and only if it is in a piece of it;
* `Text.words_spaced`: the words of a line;
* `Text.isNumberChar_of_float?`: a number holds no character that a search looks for;
* `EventTag.IsIn`: whether a text holds a tag;
* `eventLine`, `event?_eventLine`: a line with a stamp and a tag, and what it is read as;
* `Field`, `field?_fields`: the value of a key among fields.
-/

namespace PowerTrace

namespace Text

/-! ### Where a mark is found -/

theorem after?_eq_none_iff {lead cs : List Char} : after? lead cs = none ↔ ¬ lead <+: cs := by
  rw [Option.eq_none_iff_forall_ne_some]
  constructor
  · rintro h ⟨rest, rfl⟩
    exact h rest (after?_append lead rest)
  · rintro h rest hrest
    exact h ⟨rest, (after?_eq_some_iff.mp hrest).symm⟩

theorem splitAt?_eq_none_iff {mark cs : List Char} : splitAt? mark cs = none ↔ ¬ mark <:+: cs := by
  induction cs with
  | nil => rw [splitAt?, Option.map_eq_none_iff, after?_eq_none_iff, List.prefix_nil, List.infix_nil]
  | cons c cs ih =>
    rw [List.infix_cons_iff, not_or, ← ih, ← after?_eq_none_iff, splitAt?]
    cases after? mark (c :: cs) with
    | some rest => exact iff_of_false (Option.some_ne_none _) fun h => Option.some_ne_none _ h.1
    | none => rw [Option.map_eq_none_iff, and_iff_right rfl]

/-- **The first occurrence of a mark is found** where no other one begins before it. -/
theorem splitAt?_append {mark lead : List Char} (h : ¬ mark <:+: lead ++ mark.dropLast)
    (rest : List Char) : splitAt? mark (lead ++ mark ++ rest) = some (lead, rest) := by
  have hne : mark ≠ [] := by
    rintro rfl
    exact h List.nil_infix
  induction lead with
  | nil =>
    obtain ⟨c, cs, rfl⟩ := List.exists_cons_of_ne_nil hne
    rw [List.nil_append, List.cons_append, splitAt?, ← List.cons_append, after?_append]
  | cons c lead ih =>
    -- an occurrence at the front would end before the mark does
    have hfront : after? mark (c :: (lead ++ mark ++ rest)) = none := by
      rw [after?_eq_none_iff]
      intro hprefix
      have hbefore : c :: lead ++ mark.dropLast <+: c :: (lead ++ mark ++ rest) := by
        refine ⟨mark.getLast hne :: rest, ?_⟩
        have hmark := List.dropLast_append_getLast hne
        rw [List.append_assoc, ← List.singleton_append (x := mark.getLast hne),
          ← List.append_assoc mark.dropLast, hmark, List.cons_append, ← List.append_assoc]
      have hlength : mark.length ≤ (c :: lead ++ mark.dropLast).length := by
        have hpos := List.length_pos_iff.mpr hne
        rw [List.length_append, List.length_dropLast, List.length_cons]
        omega
      exact h (List.prefix_of_prefix_length_le hprefix hbefore hlength).isInfix
    have hrest : ¬ mark <:+: lead ++ mark.dropLast := fun hin => h (List.infix_cons hin)
    rw [List.cons_append, List.cons_append, splitAt?, hfront]
    dsimp only
    rw [ih hrest]
    rfl

/-- A single character is found where it does not occur before. -/
theorem splitAt?_singleton {c : Char} {lead : List Char} (h : c ∉ lead) (rest : List Char) :
    splitAt? [c] (lead ++ c :: rest) = some (lead, rest) := by
  have hfirst := @splitAt?_append [c] lead
    (by rwa [List.dropLast_singleton, List.append_nil, List.singleton_infix_iff]) rest
  rwa [List.append_assoc, List.singleton_append] at hfirst

/-- A mark lies on one side of a character that it does not hold. -/
theorem infix_append_cons_iff {mark xs ys : List Char} {c : Char} (h : c ∉ mark) :
    mark <:+: xs ++ c :: ys ↔ mark <:+: xs ∨ mark <:+: ys := by
  rw [List.infix_append_iff, List.infix_cons_iff]
  constructor
  · rintro (hin | (hin | hin) | ⟨l, l', rfl, hl, hl'⟩)
    · exact .inl hin
    · rcases List.prefix_cons_iff.mp hin with rfl | ⟨l, rfl, -⟩
      · exact .inl List.nil_infix
      · exact absurd List.mem_cons_self h
    · exact .inr hin
    · rcases List.prefix_cons_iff.mp hl' with rfl | ⟨l', rfl, -⟩
      · rw [List.append_nil]
        exact .inl hl.isInfix
      · exact absurd (List.mem_append_right l List.mem_cons_self) h
  · rintro (hin | hin)
    · exact .inl hin
    · exact .inr (.inl (.inr hin))

/-! ### Words -/

/-- Pieces of a line, each after a space. -/
def spaced (pieces : List (List Char)) : List Char := pieces.flatMap (' ' :: ·)

theorem spaced_cons (w : List Char) (ws : List (List Char)) :
    spaced (w :: ws) = ' ' :: (w ++ spaced ws) := rfl

/-- A mark without spaces is in a line if and only if it is in one of its pieces. -/
theorem infix_spaced_iff {mark : List Char} (h : ' ' ∉ mark) {xs : List Char} {ws : List (List Char)} :
    mark <:+: xs ++ spaced ws ↔ mark <:+: xs ∨ ∃ w ∈ ws, mark <:+: w := by
  induction ws generalizing xs with
  | nil => simp [spaced]
  | cons w ws ih =>
    rw [spaced_cons, infix_append_cons_iff h, ih, List.exists_mem_cons_iff]

theorem words_append_cons {b : Char} (h : isBlank b = true) (xs ys : List Char) :
    words (xs ++ b :: ys) = words xs ++ words ys := by
  rw [words, List.splitOnP_append_cons _ _ h, List.filter_append]
  rfl

theorem isBlank_of_any {cs : List Char} (h : cs.any isBlank = false) : ∀ c ∈ cs, isBlank c = false :=
  fun c hc => Bool.eq_false_iff.mpr (List.any_eq_false.mp h c hc)

theorem words_of_forall {w : List Char} (hne : w ≠ []) (h : ∀ c ∈ w, isBlank c = false) :
    words w = [w] := by
  rw [words, List.splitOnP_eq_singleton h, List.filter_cons_of_pos]
  · rfl
  · rw [List.isEmpty_eq_false_iff.mpr hne]
    rfl

theorem words_spaced {ws : List (List Char)} (h : ∀ w ∈ ws, w ≠ [] ∧ ∀ c ∈ w, isBlank c = false)
    (xs : List Char) : words (xs ++ spaced ws) = words xs ++ ws := by
  induction ws generalizing xs with
  | nil => simp [spaced]
  | cons w ws ih =>
    obtain ⟨⟨hne, hblank⟩, hws⟩ := List.forall_mem_cons.mp h
    rw [spaced_cons, words_append_cons (by decide), ih hws, words_of_forall hne hblank,
      List.singleton_append]

/-! ### The characters of numbers -/

/-- A character that numbers are written with. -/
def IsNumberChar (c : Char) : Prop := c.isAlphanum = true ∨ c ∈ ['+', '-', '.']

theorem isNumberChar_of_isDigit {c : Char} (h : c.isDigit = true) : IsNumberChar c :=
  .inl (by rw [Char.isAlphanum, h, Bool.or_true])

/-- Numbers hold no other character that is not a letter or a digit. -/
theorem IsNumberChar.ne {c d : Char} (h : IsNumberChar c)
    (hd : d.isAlphanum = false ∧ d ∉ ['+', '-', '.']) : c ≠ d := by
  rintro rfl
  rcases h with h | h
  · rw [hd.1] at h
    cases h
  · exact hd.2 h

theorem IsNumberChar.isBlank {c : Char} (h : IsNumberChar c) : isBlank c = false := by
  rcases h with h | h
  · have hrange : (48 ≤ c.toNat ∧ c.toNat ≤ 57) ∨ (65 ≤ c.toNat ∧ c.toNat ≤ 90) ∨
        (97 ≤ c.toNat ∧ c.toNat ≤ 122) := by
      simp only [Char.isAlphanum, Char.isAlpha, Char.isUpper, Char.isLower, Char.isDigit,
        Bool.or_eq_true, Bool.and_eq_true, decide_eq_true_eq, ge_iff_le, UInt32.le_iff_toNat_le] at h
      simp only [Char.toNat]
      simpa [or_assoc, or_comm, or_left_comm] using h
    rw [Bool.eq_false_iff]
    intro hblank
    simp only [Text.isBlank, Bool.or_eq_true, Bool.and_eq_true, decide_eq_true_eq, beq_iff_eq] at hblank
    omega
  · have hsigns : ['+', '-', '.'].all (Text.isBlank · == false) = true := by decide
    exact beq_iff_eq.mp (List.all_eq_true.mp hsigns c h)

theorem isNumberChar_of_toLower {c : Char} (h : c.toLower.isAlpha = true) : IsNumberChar c := by
  refine .inl ?_
  by_cases hupper : c.isUpper = true
  · rw [Char.isAlphanum, Char.isAlpha, hupper, Bool.true_or, Bool.true_or]
  · have hlower : c.toLower = c := by
      unfold Char.toLower
      rw [dif_neg]
      simpa [Char.isUpper, UInt32.le_iff_toNat_le] using hupper
    rw [hlower] at h
    rw [Char.isAlphanum, h, Bool.true_or]

theorem isNumberChar_of_digits? {cs : List Char} {n : ℕ} (h : digits? cs = some n) :
    ∀ c ∈ cs, IsNumberChar c := fun c hc => isNumberChar_of_isDigit ((isDigit_of_digits? h).2 c hc)

theorem isNumberChar_of_nat? {cs : List Char} {n : ℕ} (h : nat? cs = some n) :
    ∀ c ∈ cs, IsNumberChar c := by
  unfold nat? at h
  split at h
  · exact List.forall_mem_cons.mpr ⟨.inr (by decide), isNumberChar_of_digits? h⟩
  · exact isNumberChar_of_digits? h

theorem isNumberChar_of_int? {cs : List Char} {n : ℤ} (h : int? cs = some n) :
    ∀ c ∈ cs, IsNumberChar c := by
  unfold int? at h
  split at h
  · obtain ⟨m, hm, -⟩ := Option.map_eq_some_iff.mp h
    obtain ⟨k, hk, -⟩ := Option.bind_eq_some_iff.mp hm
    exact List.forall_mem_cons.mpr ⟨.inr (by decide), isNumberChar_of_digits? hk⟩
  · obtain ⟨m, hm, -⟩ := Option.map_eq_some_iff.mp h
    exact isNumberChar_of_nat? hm

theorem isNumberChar_of_exponent? {cs : List Char} {n : ℤ} (h : exponent? cs = some n) :
    ∀ c ∈ cs, IsNumberChar c := by
  unfold exponent? at h
  split at h
  · exact fun _ hc => absurd hc List.not_mem_nil
  · split at h
    · next hletter =>
      refine List.forall_mem_cons.mpr ⟨.inl ?_, isNumberChar_of_int? h⟩
      rw [Bool.or_eq_true, decide_eq_true_eq, decide_eq_true_eq] at hletter
      rcases hletter with rfl | rfl <;> decide
    · cases h

theorem isNumberChar_of_scientific? {cs : List Char} {s : Scientific} (h : scientific? cs = some s) :
    ∀ c ∈ cs, IsNumberChar c := by
  have hdigits : ∀ {l : List Char}, ∀ c ∈ l.takeWhile Char.isDigit, IsNumberChar c :=
    fun c hc => isNumberChar_of_isDigit (List.mem_takeWhile_imp hc)
  have htail : ∀ {t : List Char} {P : Prop} [Decidable P] {f : ℤ → Scientific},
      (if P then none else (exponent? t).bind fun e => some (f e)) = some s →
        ∀ c ∈ t, IsNumberChar c := by
    intro t P _ f ht
    split at ht
    · cases ht
    · obtain ⟨e, he, -⟩ := Option.bind_eq_some_iff.mp ht
      exact isNumberChar_of_exponent? he
  unfold scientific? at h
  dsimp only at h
  rw [← List.takeWhile_append_dropWhile (p := Char.isDigit) (l := cs)]
  refine List.forall_mem_append.mpr ⟨hdigits, ?_⟩
  -- the point, if there is one, has digits after it as well
  split at h
  · next rest hrest =>
    rw [hrest, ← List.takeWhile_append_dropWhile (p := Char.isDigit) (l := rest)]
    exact List.forall_mem_cons.mpr ⟨.inr (by decide), List.forall_mem_append.mpr ⟨hdigits, htail h⟩⟩
  · exact htail h

theorem isNumberChar_of_unsignedFloat? {cs : List Char} {x : Float} (h : unsignedFloat? cs = some x) :
    ∀ c ∈ cs, IsNumberChar c := by
  -- the words for numbers without digits are read in lower case
  have hword : ∀ {word : List Char}, word.all Char.isAlpha = true → cs.map Char.toLower = word →
      ∀ c ∈ cs, IsNumberChar c := by
    rintro word hletters rfl c hc
    exact isNumberChar_of_toLower (List.all_eq_true.mp hletters _ (List.mem_map_of_mem hc))
  unfold unsignedFloat? at h
  dsimp only at h
  split at h
  · next hinf =>
    rw [Bool.or_eq_true, decide_eq_true_eq, decide_eq_true_eq] at hinf
    exact hinf.elim (hword (by decide)) (hword (by decide))
  · split at h
    · next hnan => exact hword (by decide) hnan
    · obtain ⟨s, hs, -⟩ := Option.map_eq_some_iff.mp h
      exact isNumberChar_of_scientific? hs

/-- **A double is written without blanks, colons and underscores**, so it is a word of its own. -/
theorem isNumberChar_of_float? {cs : List Char} {x : Float} (h : float? cs = some x) :
    ∀ c ∈ cs, IsNumberChar c := by
  unfold float? at h
  split at h
  · exact List.forall_mem_cons.mpr ⟨.inr (by decide), isNumberChar_of_unsignedFloat? h⟩
  · obtain ⟨y, hy, -⟩ := Option.map_eq_some_iff.mp h
    exact List.forall_mem_cons.mpr ⟨.inr (by decide), isNumberChar_of_unsignedFloat? hy⟩
  · exact isNumberChar_of_unsignedFloat? h

theorem isNumberChar_of_word32? {cs : List Char} {n : UInt32} (h : word32? cs = some n) :
    ∀ c ∈ cs, IsNumberChar c := by
  obtain ⟨m, hm, -⟩ := Option.bind_eq_some_iff.mp h
  exact isNumberChar_of_nat? hm

theorem isNumberChar_of_int32? {cs : List Char} {n : ℤ} (h : int32? cs = some n) :
    ∀ c ∈ cs, IsNumberChar c :=
  isNumberChar_of_int? (Option.filter_eq_some_iff.mp h).1

end Text

open Text

/-! ### Tags -/

namespace EventTag

/-- Whether a text holds a tag. -/
def IsIn (t : EventTag) (cs : List Char) : Prop := t.text <:+: cs

instance (t : EventTag) (cs : List Char) : Decidable (t.IsIn cs) :=
  inferInstanceAs (Decidable (_ <:+: _))

/-- The tags that are looked for before this one. -/
def earlier (t : EventTag) : List EventTag := all.takeWhile (· ≠ t)

theorem exists_all_eq (t : EventTag) : ∃ later, all = t.earlier ++ t :: later := by
  cases t <;> exact ⟨_, rfl⟩

/-- A tag is written with small letters, underscores and one colon. -/
theorem text_spec (t : EventTag) : '_' ∈ t.text ∧ ':' ∈ t.text ∧
    ∀ c ∈ t.text, c.isLower = true ∨ c = '_' ∨ c = ':' := by
  have hall : t.text.all (fun c => c.isLower || c == '_' || c == ':') = true := by cases t <;> decide
  refine ⟨by cases t <;> decide, by cases t <;> decide, fun c hc => ?_⟩
  have hchar := List.all_eq_true.mp hall c hc
  rw [Bool.or_eq_true, Bool.or_eq_true, beq_iff_eq, beq_iff_eq, or_assoc] at hchar
  exact hchar

/-- No other character is in a tag. -/
theorem not_mem_text (t : EventTag) {c : Char} (h : c.isLower = false ∧ c ≠ '_' ∧ c ≠ ':') :
    c ∉ t.text := by
  intro hc
  rcases t.text_spec.2.2 c hc with hlower | heq | heq
  · rw [h.1] at hlower
    cases hlower
  · exact h.2.1 heq
  · exact h.2.2 heq

/-- No tag holds another one, and none holds itself without its colon. -/
theorem not_isIn_text {s t : EventTag} (h : s ∈ t.earlier) : ¬ s.IsIn t.text := by
  revert h
  cases t <;> cases s <;> decide

theorem not_isIn_dropLast (t : EventTag) : ¬ t.IsIn t.text.dropLast := by
  cases t <;> decide

/-- A text without underscores or without colons holds no tag. -/
theorem not_isIn_of_not_mem (t : EventTag) {cs : List Char} (h : '_' ∉ cs ∨ ':' ∉ cs) : ¬ t.IsIn cs :=
  fun hin => h.elim (fun h => h (hin.subset t.text_spec.1)) fun h => h (hin.subset t.text_spec.2.1)

/-- A tag lies on one side of a character that no tag holds. -/
theorem isIn_append_cons_iff {t : EventTag} {xs ys : List Char} {c : Char}
    (h : c.isLower = false ∧ c ≠ '_' ∧ c ≠ ':') : t.IsIn (xs ++ c :: ys) ↔ t.IsIn xs ∨ t.IsIn ys :=
  infix_append_cons_iff (t.not_mem_text h)

theorem isIn_append_spaced_iff {t : EventTag} {xs : List Char} {ws : List (List Char)} :
    t.IsIn (xs ++ spaced ws) ↔ t.IsIn xs ∨ ∃ w ∈ ws, t.IsIn w :=
  infix_spaced_iff (t.not_mem_text (by decide))

end EventTag

/-- The tag that is found is the first in the order of looking that the line holds. -/
theorem TaggedLine.ofLine?_append {before : List EventTag} {t : EventTag} {lead payload : List Char}
    (hbefore : ∀ s ∈ before, ¬ s.IsIn (lead ++ t.text ++ payload))
    (hlead : ¬ t.IsIn (lead ++ t.text.dropLast)) (later : List EventTag) :
    ofLine? (lead ++ t.text ++ payload) (before ++ t :: later) = some ⟨t, lead, payload⟩ := by
  induction before with
  | nil => rw [List.nil_append, ofLine?, splitAt?_append hlead]
  | cons s before ih =>
    obtain ⟨hs, hbefore⟩ := List.forall_mem_cons.mp hbefore
    rw [List.cons_append, ofLine?, splitAt?_eq_none_iff.mpr hs]
    exact ih hbefore

/-! ### Lines -/

/-- A line with a stamp, a tag and what follows the tag. -/
def eventLine (lead stamp : List Char) (t : EventTag) (pieces : List (List Char)) : List Char :=
  lead ++ ' ' :: (stamp ++ ':' :: ' ' :: (t.text ++ spaced pieces))

/-- What stands before the tag. -/
def stampedLead (lead stamp : List Char) : List Char := lead ++ ' ' :: (stamp ++ [':', ' '])

theorem eventLine_eq (lead stamp : List Char) (t : EventTag) (pieces : List (List Char)) :
    eventLine lead stamp t pieces = stampedLead lead stamp ++ t.text ++ spaced pieces := by
  simp [eventLine, stampedLead]

section Stamp

variable {lead stamp : List Char} {time : Float}

/-- **The stamp is the last word before the tag.** -/
theorem instant?_stampedLead (h : float? stamp = some time) :
    instant? (stampedLead lead stamp) = some time := by
  have hchars := isNumberChar_of_float? h
  have hne : stamp ++ [':'] ≠ [] := List.append_ne_nil_of_right_ne_nil stamp (List.cons_ne_nil _ _)
  have hblank : ∀ c ∈ stamp ++ [':'], isBlank c = false :=
    List.forall_mem_append.mpr ⟨fun c hc => (hchars c hc).isBlank, List.forall_mem_singleton.mpr (by decide)⟩
  have hwords : words (stampedLead lead stamp) = words lead ++ [stamp ++ [':']] := by
    rw [stampedLead, words_append_cons (by decide)]
    congr 1
    rw [show stamp ++ [':', ' '] = stamp ++ [':'] ++ ' ' :: [] by simp,
      words_append_cons (by decide), words_of_forall hne hblank]
    rfl
  have hcolon : ∀ c ∈ stamp, (c == ':') = false :=
    fun c hc => beq_eq_false_iff_ne.mpr ((hchars c hc).ne (by decide))
  rw [instant?, hwords, List.getLast?_concat, Option.bind_some,
    dropEndWhile_concat (by decide), dropEndWhile_of_forall hcolon, h]

/-- A tag before the stamp is one of what stands there. -/
theorem isIn_stampedLead_append_iff (h : float? stamp = some time) {t : EventTag} {cs : List Char} :
    t.IsIn (stampedLead lead stamp ++ cs) ↔ t.IsIn lead ∨ t.IsIn cs := by
  have hstamp : ¬ t.IsIn (stamp ++ [':']) := by
    refine t.not_isIn_of_not_mem (.inl fun hmem => ?_)
    rcases List.mem_append.mp hmem with hmem | hmem
    · exact (isNumberChar_of_float? h _ hmem).ne (by decide) rfl
    · exact absurd hmem (by decide)
  have hsplit : stampedLead lead stamp ++ cs = lead ++ ' ' :: (stamp ++ [':'] ++ ' ' :: cs) := by
    simp [stampedLead]
  rw [hsplit, EventTag.isIn_append_cons_iff (by decide), EventTag.isIn_append_cons_iff (by decide),
    or_iff_right hstamp]

variable {t : EventTag} {pieces : List (List Char)}

theorem isIn_eventLine_iff (h : float? stamp = some time) {s : EventTag} :
    s.IsIn (eventLine lead stamp t pieces) ↔ s.IsIn lead ∨ s.IsIn t.text ∨ ∃ w ∈ pieces, s.IsIn w := by
  rw [eventLine_eq, List.append_assoc, isIn_stampedLead_append_iff h, EventTag.isIn_append_spaced_iff]

/-- **What a stamped line is read as**, if the tag is not in what stands before, and no tag that is looked
for earlier is anywhere else. -/
theorem event?_eventLine (hstamp : float? stamp = some time) (htag : ¬ t.IsIn lead)
    (hearlier : ∀ s ∈ t.earlier, ¬ s.IsIn lead ∧ ∀ w ∈ pieces, ¬ s.IsIn w) :
    event? (eventLine lead stamp t pieces) = some
      (match TaggedLine.kind? ⟨t, stampedLead lead stamp, spaced pieces⟩
          (eventLine lead stamp t pieces) with
      | some (cpu, kind) => .ok ⟨time, cpu, kind⟩
      | none => .error t.malformed) := by
  have hfirst : TaggedLine.ofLine? (eventLine lead stamp t pieces) EventTag.all =
      some ⟨t, stampedLead lead stamp, spaced pieces⟩ := by
    obtain ⟨later, hall⟩ := t.exists_all_eq
    rw [hall, eventLine_eq]
    refine TaggedLine.ofLine?_append (fun s hs => ?_) ?_ later
    · rw [← eventLine_eq, isIn_eventLine_iff hstamp]
      rintro (hin | hin | ⟨w, hw, hin⟩)
      · exact (hearlier s hs).1 hin
      · exact EventTag.not_isIn_text hs hin
      · exact (hearlier s hs).2 w hw hin
    · rw [isIn_stampedLead_append_iff hstamp]
      exact not_or.mpr ⟨htag, t.not_isIn_dropLast⟩
  rw [event?, hfirst, Option.map_some, instant?_stampedLead hstamp]
  cases TaggedLine.kind? ⟨t, stampedLead lead stamp, spaced pieces⟩ (eventLine lead stamp t pieces) <;>
    rfl

end Stamp

/-! ### Fields -/

/-- A key and its value, as a line shows them. -/
structure Field where
  /-- The key. -/
  key : List Char
  /-- The value. -/
  value : List Char
  deriving DecidableEq, Repr

/-- The text of a field. -/
def Field.text (f : Field) : List Char := f.key ++ '=' :: f.value

/-- A field that is one word, with the key it shows. -/
structure Field.IsWord (f : Field) : Prop where
  blank : ∀ c ∈ f.text, isBlank c = false
  key : '=' ∉ f.key

/-- A key and a value without blanks are a word. -/
theorem Field.isWord_mk {key value : List Char} (hkey : key.any (fun c => isBlank c || c == '=') = false)
    (hvalue : ∀ c ∈ value, isBlank c = false) : (⟨key, value⟩ : Field).IsWord := by
  have hchar : ∀ c ∈ key, isBlank c = false ∧ c ≠ '=' := by
    intro c hc
    have hnot := List.any_eq_false.mp hkey c hc
    rwa [Bool.not_eq_true, Bool.or_eq_false_iff, beq_eq_false_iff_ne] at hnot
  refine ⟨List.forall_mem_append.mpr ⟨fun c hc => (hchar c hc).1, ?_⟩, fun hmem => (hchar _ hmem).2 rfl⟩
  exact List.forall_mem_cons.mpr ⟨by decide, hvalue⟩

/-- A tag in a field is in its value. -/
theorem EventTag.isIn_field_iff {t : EventTag} {key value : List Char} (hkey : ':' ∉ key) :
    t.IsIn (Field.text ⟨key, value⟩) ↔ t.IsIn value := by
  rw [Field.text, EventTag.isIn_append_cons_iff (by decide),
    or_iff_right (t.not_isIn_of_not_mem (.inr hkey))]

/-- A word begins with a key if it is a field with that key. -/
theorem Field.IsWord.after?_key {f : Field} (h : f.IsWord) {key : List Char} (hkey : '=' ∉ key) :
    after? (key ++ ['=']) f.text = if f.key = key then some f.value else none := by
  have hcut : ∀ {k v k' v' : List Char}, '=' ∉ k → '=' ∉ k' → k ++ '=' :: v = k' ++ '=' :: v' →
      k = k' ∧ v = v' := by
    intro k v k' v' hk hk' heq
    have hfound := splitAt?_singleton hk v
    rw [heq, splitAt?_singleton hk'] at hfound
    obtain ⟨rfl, rfl⟩ := Prod.mk.inj (Option.some.inj hfound)
    exact ⟨rfl, rfl⟩
  split
  · next heq =>
    have hcut : key ++ '=' :: f.value = key ++ ['='] ++ f.value := List.append_cons _ _ _
    rw [Field.text, heq, hcut, after?_append]
  · next hne =>
    rw [Option.eq_none_iff_forall_ne_some]
    intro rest hrest
    have heq := after?_eq_some_iff.mp hrest
    rw [Field.text, List.append_assoc, List.singleton_append] at heq
    exact hne (hcut h.key hkey heq).1

theorem Field.IsWord.is_word {f : Field} (h : f.IsWord) :
    f.text ≠ [] ∧ ∀ c ∈ f.text, isBlank c = false :=
  ⟨List.append_ne_nil_of_right_ne_nil f.key (List.cons_ne_nil _ _), h.blank⟩

/-- **The value of a key is that of the first field that has it.** -/
theorem field?_fields {fs : List Field} (h : ∀ f ∈ fs, f.IsWord) {key : String}
    (hkey : '=' ∉ key.toList) :
    field? key (spaced (fs.map Field.text)) = (fs.find? (·.key == key.toList)).map (·.value) := by
  have hwords : words (spaced (fs.map Field.text)) = fs.map Field.text := by
    have hall : ∀ w ∈ fs.map Field.text, w ≠ [] ∧ ∀ c ∈ w, isBlank c = false :=
      List.forall_mem_map.mpr fun f hf => (h f hf).is_word
    exact words_spaced hall []
  rw [field?, hwords, String.toList_append, List.findSome?_map]
  clear hwords
  induction fs with
  | nil => rfl
  | cons f fs ih =>
    obtain ⟨hf, hfs⟩ := List.forall_mem_cons.mp h
    have hafter : (after? (key.toList ++ "=".toList) ∘ Field.text) f =
        if f.key = key.toList then some f.value else none := hf.after?_key hkey
    rw [List.findSome?_cons, hafter, List.find?_cons]
    by_cases heq : f.key = key.toList
    · rw [if_pos heq, beq_iff_eq.mpr heq]
      rfl
    · rw [if_neg heq, beq_eq_false_iff_ne.mpr heq]
      exact ih hfs

end PowerTrace
