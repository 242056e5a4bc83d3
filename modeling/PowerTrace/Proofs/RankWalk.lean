import Mathlib.Data.Finset.SymmDiff
import PowerTrace.Baseline
import PowerTrace.Proofs.FrequencyBook

/-!
# Lining up two tables in one walk

Two sorted tables are lined up rank by rank.  Where both have the same frequency at a rank nothing is
to do; where they differ, the one that lacks the lower of the two frequencies gets a slot for it.  Both
tables grow while they are walked, so what bounds the walk is not the size of either: it is the number
of frequencies that only one of them has, and the ranks left where there is none.

* `PStateTrack.alignFrom`: the walk from a rank on;
* `PStateTrack.WellFormed.freqs_slotFor`: a missing slot is opened at the rank where it is missed;
* `PStateTrack.WellFormed.alignFrom_spec`: what the walk leaves of two tables that agree so far;
* `PStateTrack.Extends.eq_of_sameFreqs`: a table can be extended to given frequencies in one way only,
  so the walk does what covering each other does;
* `PStateTrack.TellsAs`: tracks that say the same of every frequency;
* `PStateTrack.Represents.tellsAs_cover`: opening slots makes no difference, whatever happens later;
* `PStateTrack.walk_lines_up`: what all this says of every two tracks.
-/

namespace PowerTrace

open TimeValue

namespace PStateTrack

variable {τ : Type} [TimeValue τ]

/-! ### The walk -/

omit [TimeValue τ] in
/-- The frequencies that only one of two tables has. -/
def onlyOne (a b : PStateTrack τ) : Finset ℕ := symmDiff a.freqs.toFinset b.freqs.toFinset

omit [TimeValue τ] in
theorem onlyOne_comm (a b : PStateTrack τ) : a.onlyOne b = b.onlyOne a := symmDiff_comm _ _

omit [TimeValue τ] in
/-- What is left to walk from a rank on: the gaps to fill, and then the ranks. -/
def walkLeft (rank : ℕ) (a b : PStateTrack τ) : ℕ × ℕ :=
  ((a.onlyOne b).card, max a.freqs.length b.freqs.length - rank)

theorem onlyOne_slotFor {t u : PStateTrack τ} {f : ℕ} (hu : f ∈ u.freqs) :
    u.onlyOne (t.slotFor f).1 = (u.onlyOne t).erase f := by
  ext g
  simp only [onlyOne, Finset.mem_symmDiff, Finset.mem_erase, List.mem_toFinset, mem_freqs_slotFor]
  by_cases hg : g = f
  · simp [hg, hu]
  · simp [hg]

/-- A step of the walk fills a gap, or moves on to the next rank. -/
theorem walkLeft_slotFor {t u : PStateTrack τ} {rank f : ℕ} (hu : u.freqs[rank]? = some f) :
    Prod.Lex (· < ·) (· < ·) (walkLeft (rank + 1) u (t.slotFor f).1) (walkLeft rank u t) := by
  have hmem : f ∈ u.freqs := List.mem_of_getElem? hu
  have hlt : rank < u.freqs.length := (List.getElem?_eq_some_iff.mp hu).1
  by_cases ht : f ∈ t.freqs
  · rw [slotFor_of_mem ht]
    exact .right _ (by omega)
  · refine .left _ _ ?_
    rw [onlyOne_slotFor hmem]
    exact Finset.card_erase_lt_of_mem (by simp [onlyOne, Finset.mem_symmDiff, hmem, ht])

omit [TimeValue τ] in
theorem walkLeft_comm (rank : ℕ) (a b : PStateTrack τ) : walkLeft rank a b = walkLeft rank b a := by
  rw [walkLeft, walkLeft, onlyOne_comm, max_comm]

/-- Line up two tables from a rank on: the table that lacks the lower of the frequencies found there
gets a slot for it.  The walk ends where both tables do. -/
def alignFrom (rank : ℕ) (a b : PStateTrack τ) : PStateTrack τ × PStateTrack τ :=
  match ha : a.freqs[rank]?, hb : b.freqs[rank]? with
  | none, none => (a, b)
  | some f, some g =>
    if f = g then alignFrom (rank + 1) a b
    else if f < g then alignFrom (rank + 1) a (b.slotFor f).1
    else alignFrom (rank + 1) (a.slotFor g).1 b
  | some f, none => alignFrom (rank + 1) a (b.slotFor f).1
  | none, some g => alignFrom (rank + 1) (a.slotFor g).1 b
termination_by walkLeft rank a b
decreasing_by
  · have hlt : rank < a.freqs.length := (List.getElem?_eq_some_iff.mp ha).1
    exact .right _ (by omega)
  · exact walkLeft_slotFor ha
  · rw [walkLeft_comm, walkLeft_comm rank]
    exact walkLeft_slotFor hb
  · exact walkLeft_slotFor ha
  · rw [walkLeft_comm, walkLeft_comm rank]
    exact walkLeft_slotFor hb

/-! ### Where a slot is opened -/

/-- **A missing slot is opened at the rank where it is missed**, if the frequencies before are lower
and those from there on are higher. -/
theorem WellFormed.freqs_slotFor {t : PStateTrack τ} (hw : t.WellFormed) {f rank : ℕ}
    (hbelow : ∀ g ∈ t.freqs.take rank, g < f) (habove : ∀ g ∈ t.freqs.drop rank, f < g) :
    (t.slotFor f).1.freqs = t.freqs.take rank ++ f :: t.freqs.drop rank := by
  have hsorted : (t.freqs.take rank ++ t.freqs.drop rank).Pairwise (· < ·) := by
    rw [List.take_append_drop]
    exact hw.sorted
  obtain ⟨htake, hdrop, -⟩ := List.pairwise_append.mp hsorted
  refine (hw.slotFor f).sorted.eq_of_mem_iff ?_ fun g => ?_
  · refine List.pairwise_append.mpr ⟨htake, List.pairwise_cons.mpr ⟨habove, hdrop⟩, ?_⟩
    intro g hg g' hg'
    rcases List.mem_cons.mp hg' with rfl | hg'
    · exact hbelow g hg
    · exact (hbelow g hg).trans (habove g' hg')
  · rw [mem_freqs_slotFor, List.mem_append, List.mem_cons, or_left_comm, ← List.mem_append,
      List.take_append_drop]

omit [TimeValue τ] in
/-- Two tables in order that agree below a rank, of which the first has a frequency there that is
lower than the one of the second, if that has any. -/
structure Lacks (rank f : ℕ) (a b : PStateTrack τ) : Prop where
  here : a.freqs[rank]? = some f
  agree : a.freqs.take rank = b.freqs.take rank
  lower : ∀ g, b.freqs[rank]? = some g → f < g

/-- The table that lacks the frequency at a rank agrees with the other one there once it has a slot
for it. -/
theorem Lacks.take_slotFor {rank f : ℕ} {a b : PStateTrack τ} (h : a.Lacks rank f b)
    (ha : a.WellFormed) (hb : b.WellFormed) :
    (b.slotFor f).1.freqs.take (rank + 1) = a.freqs.take (rank + 1) := by
  have hlt : rank < a.freqs.length := (List.getElem?_eq_some_iff.mp h.here).1
  have htake : a.freqs.take (rank + 1) = a.freqs.take rank ++ [f] := by
    rw [List.take_add_one, h.here]
    rfl
  have hbelow : ∀ g ∈ b.freqs.take rank, g < f := by
    have hsorted := ha.sorted.sublist (List.take_sublist (rank + 1) _)
    rw [htake, List.pairwise_append] at hsorted
    rw [← h.agree]
    exact fun g hg => hsorted.2.2 g hg f List.mem_cons_self
  have habove : ∀ g ∈ b.freqs.drop rank, f < g := by
    intro g hg
    cases hr : b.freqs[rank]? with
    | none => simp [List.drop_eq_nil_of_le (List.getElem?_eq_none_iff.mp hr)] at hg
    | some g' =>
      obtain ⟨hlen, rfl⟩ := List.getElem?_eq_some_iff.mp hr
      have hsorted := hb.sorted.sublist (List.drop_sublist rank _)
      rw [List.drop_eq_getElem_cons hlen] at hg hsorted
      rcases List.mem_cons.mp hg with rfl | hg
      · exact h.lower _ hr
      · exact (h.lower _ hr).trans ((List.pairwise_cons.mp hsorted).1 g hg)
  have hlen : (b.freqs.take rank).length = rank := by
    rw [← h.agree, List.length_take_of_le hlt.le]
  rw [hb.freqs_slotFor hbelow habove, htake, h.agree, List.take_append, hlen]
  simp

/-! ### What the walk leaves -/

/-- What comes out of two tables that are lined up: both have the same frequencies, each has all it had
and is otherwise unused, and none has come from elsewhere. -/
structure LinedUp (a b : PStateTrack τ) (r : PStateTrack τ × PStateTrack τ) : Prop where
  fst : a.Extends r.1
  snd : b.Extends r.2
  same : r.1.freqs = r.2.freqs
  only : ∀ f ∈ r.1.freqs, f ∈ a.freqs ∨ f ∈ b.freqs

/-- A slot for a frequency of the other table may be opened before. -/
theorem LinedUp.of_slotFor {a b : PStateTrack τ} {r : PStateTrack τ × PStateTrack τ} {f : ℕ}
    (hf : f ∈ a.freqs) (h : LinedUp a (b.slotFor f).1 r) : LinedUp a b r where
  fst := h.fst
  snd := (b.extends_slotFor f).trans h.snd
  same := h.same
  only g hg := by
    rcases h.only g hg with hg | hg
    · exact .inl hg
    · rcases mem_freqs_slotFor.mp hg with rfl | hg
      · exact .inl hf
      · exact .inr hg

theorem LinedUp.swap {a b : PStateTrack τ} {r : PStateTrack τ × PStateTrack τ} (h : LinedUp b a r.swap) :
    LinedUp a b r where
  fst := h.snd
  snd := h.fst
  same := h.same.symm
  only f hf := (h.only f (h.same.symm ▸ hf)).symm

/-- **The walk lines two tables up**, from any rank below which they agree. -/
theorem WellFormed.alignFrom_spec {a b : PStateTrack τ} (ha : a.WellFormed) (hb : b.WellFormed)
    {rank : ℕ} (hagree : a.freqs.take rank = b.freqs.take rank) :
    LinedUp a b (alignFrom rank a b) := by
  fun_induction alignFrom rank a b with
  | case1 rank a b hra hrb =>
    -- both tables end here, so they agree on all they have
    rw [List.getElem?_eq_none_iff] at hra hrb
    rw [List.take_of_length_le hra, List.take_of_length_le hrb] at hagree
    exact ⟨.refl a, .refl b, hagree, fun _ => .inl⟩
  | case2 rank a b f hra hrb ih =>
    refine ih ha hb ?_
    rw [List.take_add_one, List.take_add_one, hagree, hra, hrb]
  | case3 rank a b f g hra hrb hne hlt ih =>
    have hlacks : a.Lacks rank f b :=
      ⟨hra, hagree, fun g' hg' => Option.some.inj (hrb.symm.trans hg') ▸ hlt⟩
    exact (ih ha (hb.slotFor f) (hlacks.take_slotFor ha hb).symm).of_slotFor (List.mem_of_getElem? hra)
  | case4 rank a b f g hra hrb hne hlt ih =>
    have hlacks : b.Lacks rank g a :=
      ⟨hrb, hagree.symm, fun f' hf' => by
        obtain rfl := Option.some.inj (hra.symm.trans hf')
        omega⟩
    refine LinedUp.swap (LinedUp.of_slotFor (List.mem_of_getElem? hrb) ?_)
    exact (ih (ha.slotFor g) hb (hlacks.take_slotFor hb ha)).swap
  | case5 rank a b f hra hrb ih =>
    have hlacks : a.Lacks rank f b := ⟨hra, hagree, fun g' hg' => nomatch hrb.symm.trans hg'⟩
    exact (ih ha (hb.slotFor f) (hlacks.take_slotFor ha hb).symm).of_slotFor (List.mem_of_getElem? hra)
  | case6 rank a b g hra hrb ih =>
    have hlacks : b.Lacks rank g a := ⟨hrb, hagree.symm, fun f' hf' => nomatch hra.symm.trans hf'⟩
    refine LinedUp.swap (LinedUp.of_slotFor (List.mem_of_getElem? hrb) ?_)
    exact (ih (ha.slotFor g) hb (hlacks.take_slotFor hb ha)).swap

theorem LinedUp.mem_freqs_iff {a b : PStateTrack τ} {r : PStateTrack τ × PStateTrack τ}
    (h : LinedUp a b r) {f : ℕ} : f ∈ r.1.freqs ↔ f ∈ a.freqs ∨ f ∈ b.freqs :=
  ⟨h.only f, fun hf => hf.elim (h.fst.covers f) fun hf => h.same ▸ h.snd.covers f hf⟩

/-- A slot of an extended table whose frequency another extension has too is a slot of that one. -/
theorem Extends.mem_of_freq_mem {t u v : PStateTrack τ} (hu : t.Extends u) (hv : t.Extends v)
    {p : PState τ} (hp : p ∈ u.slots) (hf : p.freq ∈ v.freqs) : p ∈ v.slots := by
  rcases hu.unused p hp with hp | ⟨hnew, he⟩
  · exact hv.kept p hp
  · obtain ⟨q, hq, hqf⟩ := List.mem_map.mp hf
    rcases hv.unused q hq with hold | ⟨-, hqe⟩
    · exact absurd (hqf ▸ List.mem_map_of_mem hold) hnew
    · rw [he, ← hqf, ← hqe]
      exact hq

/-- **A table can be extended to given frequencies in one way only**, the selection included. -/
theorem Extends.eq_of_sameFreqs {t u v : PStateTrack τ} (hw : t.WellFormed) (hu : t.Extends u)
    (hv : t.Extends v) (h : u.SameFreqs v) : u = v := by
  have hwu := hu.ordered hw
  have hwv := hv.ordered hw
  have hslots : u.slots = v.slots := by
    refine List.Pairwise.eq_of_mem_iff (r := fun p q : PState τ => p.freq < q.freq)
      (List.pairwise_map.mp hwu.sorted) (List.pairwise_map.mp hwv.sorted) fun p => ⟨?_, ?_⟩
    · exact fun hp => hu.mem_of_freq_mem hv hp ((h _).mp (List.mem_map_of_mem hp))
    · exact fun hp => hv.mem_of_freq_mem hu hp ((h _).mpr (List.mem_map_of_mem hp))
  have hfreq : u.currentFreq = v.currentFreq := by
    rw [currentFreq, currentFreq, hu.currentSlot, hv.currentSlot]
  have hcurrent : u.current = v.current := by
    refine Option.ext fun i => ⟨fun hi => ?_, fun hi => ?_⟩
    · obtain ⟨p, hp, hpf⟩ := hwu.slot_of_current hi
      exact (hwv.current_eq_iff (hslots ▸ hp)).mpr (hfreq ▸ hpf)
    · obtain ⟨p, hp, hpf⟩ := hwv.slot_of_current hi
      exact (hwu.current_eq_iff (hslots ▸ hp)).mpr (hfreq ▸ hpf)
  obtain ⟨slots, current, idle, start⟩ := u
  obtain ⟨slots', current', idle', start'⟩ := v
  obtain ⟨rfl, rfl⟩ : slots = slots' ∧ current = current' := ⟨hslots, hcurrent⟩
  obtain rfl : idle = idle' := hu.idle.trans hv.idle.symm
  obtain rfl : start = start' := hu.dwellStart.trans hv.dwellStart.symm
  rfl

/-- Covering the frequencies of the other table lines two tables up as well. -/
theorem linedUp_alignTracks {a b : PStateTrack τ} (ha : a.WellFormed) (hb : b.WellFormed) :
    LinedUp a b (alignTracks a b) where
  fst := a.extends_cover b.freqs
  snd := b.extends_cover a.freqs
  same := by
    refine ((a.extends_cover _).ordered ha).freqs_eq ((b.extends_cover _).ordered hb) fun f => ?_
    show f ∈ (a.cover b.freqs).freqs ↔ f ∈ (b.cover a.freqs).freqs
    rw [mem_freqs_cover, mem_freqs_cover, or_comm]
  only _ hf := mem_freqs_cover.mp hf

/-- **Two tables are lined up in one way only.** -/
theorem LinedUp.eq {a b : PStateTrack τ} (ha : a.WellFormed) (hb : b.WellFormed)
    {r r' : PStateTrack τ × PStateTrack τ} (h : LinedUp a b r) (h' : LinedUp a b r') : r = r' := by
  have hsame : r.1.SameFreqs r'.1 := fun f => by rw [h.mem_freqs_iff, h'.mem_freqs_iff]
  refine Prod.ext (h.fst.eq_of_sameFreqs ha h'.fst hsame) (h.snd.eq_of_sameFreqs hb h'.snd fun f => ?_)
  rw [← h.same, ← h'.same]
  exact hsame f

/-- **The walk does what covering each other does.** -/
theorem WellFormed.alignFrom_zero {a b : PStateTrack τ} (ha : a.WellFormed) (hb : b.WellFormed) :
    alignFrom 0 a b = alignTracks a b :=
  LinedUp.eq ha hb (ha.alignFrom_spec hb (by simp)) (linedUp_alignTracks ha hb)

/-- Tables with the same frequencies are lined up already. -/
theorem alignTracks_of_freqs_eq {a b : PStateTrack τ} (h : a.freqs = b.freqs) :
    alignTracks a b = (a, b) := by
  rw [alignTracks, h, cover_of_subset (by simp [h]), cover_of_subset (by simp)]

end PStateTrack

/-! ### What nobody can tell apart -/

variable {τ : Type} [TimeValue τ]

/-- Two books that say the same of every frequency, except that one may know of more of them. -/
structure FrequencyBook.Agrees (b c : FrequencyBook τ) : Prop where
  stats : ∀ f, b.stats f = c.stats f
  selected : b.selected = c.selected
  idle : b.idle = c.idle
  dwellStart : b.dwellStart = c.dwellStart

namespace FrequencyBook

/-- That a frequency was seen says nothing of it. -/
@[simp] theorem stats_know (b : FrequencyBook τ) (f g : ℕ) : (b.know f).stats g = b.stats g := by
  rw [stats, lookup_know, stats]
  split
  · next h =>
    obtain ⟨rfl, hnew⟩ := h
    simp [Finmap.lookup_eq_none.mpr hnew]
  · rfl

theorem stats_endDwell (b : FrequencyBook τ) (time : τ) (g : ℕ) :
    (b.endDwell time).stats g =
      if b.selected = some g ∧ PStateTrack.counts (span b.dwellStart time) = true then
        (b.stats g).record (span b.dwellStart time)
      else b.stats g := by
  rw [stats, lookup_endDwell]
  split <;> rfl

variable {b c : FrequencyBook τ}

theorem Agrees.know (h : b.Agrees c) (f : ℕ) : (b.know f).Agrees (c.know f) :=
  ⟨by simp [h.stats], h.selected, h.idle, h.dwellStart⟩

theorem Agrees.endDwell (h : b.Agrees c) (time : τ) : (b.endDwell time).Agrees (c.endDwell time) where
  stats f := by simp [stats_endDwell, h.stats, h.selected, h.dwellStart]
  selected := by simp [h.selected]
  idle := by simp [h.idle]
  dwellStart := by simp [h.dwellStart]

theorem Agrees.select (h : b.Agrees c) (time : τ) (f : ℕ) :
    (b.select time f).Agrees (c.select time f) := by
  have hend := h.endDwell time
  unfold FrequencyBook.select
  rw [h.selected]
  split
  · exact h
  · exact ⟨hend.stats, rfl, hend.idle, rfl⟩

/-- **Books that agree go on doing so**, whatever happens to both. -/
theorem Agrees.perform (h : b.Agrees c) (op : FrequencyOp τ) : (b.perform op).Agrees (c.perform op) := by
  cases op with
  | slot f => exact h.know f
  | change time f =>
    have hknow := h.know f
    simp only [FrequencyBook.perform, h.idle]
    split
    · exact ⟨hknow.stats, rfl, hknow.idle, hknow.dwellStart⟩
    · exact hknow.select time f
  | group time f =>
    have hend := h.endDwell time
    simp only [FrequencyBook.perform]
    split
    · exact ⟨hend.stats, rfl, hend.idle, hend.dwellStart⟩
    · exact (h.know f).select time f
  | enterIdle time =>
    have hend := h.endDwell time
    simp only [FrequencyBook.perform, h.idle]
    split
    · exact ⟨h.stats, h.selected, rfl, h.dwellStart⟩
    · exact ⟨hend.stats, hend.selected, rfl, hend.dwellStart⟩
  | exitIdle time =>
    simp only [FrequencyBook.perform, h.idle, h.selected, h.dwellStart]
    split
    · exact ⟨h.stats, rfl, rfl, rfl⟩
    · exact h

theorem Agrees.performAll (h : b.Agrees c) (ops : List (FrequencyOp τ)) :
    (b.performAll ops).Agrees (c.performAll ops) := by
  induction ops generalizing b c with
  | nil => exact h
  | cons op ops ih => exact ih (h.perform op)

theorem agrees_performAll_slot (b : FrequencyBook τ) (fs : List ℕ) :
    (b.performAll (fs.map .slot)).Agrees b := by
  induction fs generalizing b with
  | nil => exact ⟨fun _ => rfl, rfl, rfl, rfl⟩
  | cons f fs ih =>
    have hrest := ih (b.know f)
    exact ⟨fun g => (hrest.stats g).trans (b.stats_know f g), hrest.selected, hrest.idle,
      hrest.dwellStart⟩

end FrequencyBook

namespace PStateTrack

/-- What a track has recorded at a frequency, nothing if it has no slot for it. -/
def statsAt (t : PStateTrack τ) (f : ℕ) : DurationStats τ :=
  ((t.slots.find? (·.freq == f)).map (·.stats)).getD .empty

/-- Two tracks that say the same of every frequency, and the same of what runs now. -/
structure TellsAs (t u : PStateTrack τ) : Prop where
  stats : ∀ f, t.statsAt f = u.statsAt f
  currentFreq : t.currentFreq = u.currentFreq
  idle : t.idle = u.idle
  dwellSince : t.dwellSince = u.dwellSince

variable {t u : PStateTrack τ} {b c : FrequencyBook τ}

theorem Represents.statsAt (h : t.Represents b) (f : ℕ) : t.statsAt f = b.stats f := by
  cases hfind : t.slots.find? (·.freq == f) with
  | none =>
    have hnone : f ∉ b.entries := by
      rw [← h.mem_freqs_iff, freqs, List.mem_map]
      rintro ⟨p, hp, rfl⟩
      simpa using List.find?_eq_none.mp hfind p hp
    simp [PStateTrack.statsAt, hfind, FrequencyBook.stats, Finmap.lookup_eq_none.mpr hnone]
  | some p =>
    obtain rfl : p.freq = f := by simpa using List.find?_some hfind
    have hentry := (h.entries p.freq p.stats).mp (List.mem_of_find?_eq_some hfind)
    simp [PStateTrack.statsAt, hfind, FrequencyBook.stats, hentry]

omit [TimeValue τ] in
theorem WellFormed.isSome_current (hw : t.WellFormed) : t.current.isSome = t.currentFreq.isSome := by
  cases hc : t.current with
  | none => simp [PStateTrack.currentFreq, currentSlot, hc]
  | some i =>
    obtain ⟨p, -, hf⟩ := hw.slot_of_current hc
    simp [hf]

/-- Tracks that hold what books that agree say. -/
theorem Represents.tellsAs (ht : t.Represents b) (hu : u.Represents c) (h : b.Agrees c) :
    t.TellsAs u where
  stats f := by rw [ht.statsAt, hu.statsAt, h.stats]
  currentFreq := by rw [ht.selected, hu.selected, h.selected]
  idle := by rw [ht.idle, hu.idle, h.idle]
  dwellSince := by
    simp only [PStateTrack.dwellSince, ht.ordered.isSome_current, hu.ordered.isSome_current,
      ht.selected, hu.selected, ht.idle, hu.idle, ht.dwellStart, hu.dwellStart, h.selected, h.idle,
      h.dwellStart]

/-- Covering frequencies is asking for their slots. -/
theorem cover_eq_performAll (t : PStateTrack τ) (fs : List ℕ) :
    t.cover fs = t.performAll (fs.map .slot) := by
  rw [cover, performAll, List.foldl_map]
  rfl

/-- **Covering frequencies makes no difference**, neither at once nor for what happens later. -/
theorem Represents.tellsAs_cover (h : t.Represents b) (fs : List ℕ) (ops : List (FrequencyOp τ)) :
    ((t.cover fs).performAll ops).TellsAs (t.performAll ops) := by
  rw [cover_eq_performAll]
  exact ((h.performAll _).performAll ops).tellsAs (h.performAll ops)
    ((b.agrees_performAll_slot fs).performAll ops)

/-- **Two tracks are lined up in one walk.**  For all that can have happened to either of two tracks, the
walk by rank ends with the tables of both covering the other.  They then have the same frequencies, in
strictly ascending order: those of either track.  Each has its slots as they were, every slot that is new
is unused, and what is selected, whether it is idle and when its dwell began are what they were.  A
second walk changes nothing.  And whatever happens to either track later, it says of every frequency,
and of what runs, what it would have said had it never been lined up. -/
theorem walk_lines_up (opsA opsB : List (FrequencyOp τ)) :
    let a := (empty : PStateTrack τ).performAll opsA
    let b := (empty : PStateTrack τ).performAll opsB
    let m := alignFrom 0 a b
    m = alignTracks a b ∧
    m.1.freqs = m.2.freqs ∧ m.1.freqs.Pairwise (· < ·) ∧
    (∀ f, f ∈ m.1.freqs ↔ f ∈ a.freqs ∨ f ∈ b.freqs) ∧
    a.Extends m.1 ∧ b.Extends m.2 ∧
    alignFrom 0 m.1 m.2 = m ∧
    ∀ ops, (m.1.performAll ops).TellsAs (a.performAll ops) ∧
      (m.2.performAll ops).TellsAs (b.performAll ops) := by
  intro a b m
  have hra : a.Represents _ := represents_empty.performAll opsA
  have hrb : b.Represents _ := represents_empty.performAll opsB
  have hm : m = alignTracks a b := hra.ordered.alignFrom_zero hrb.ordered
  have hlined : LinedUp a b m := hra.ordered.alignFrom_spec hrb.ordered (by simp)
  have hw := hlined.fst.ordered hra.ordered
  refine ⟨hm, hlined.same, hw.sorted, fun f => hlined.mem_freqs_iff, hlined.fst, hlined.snd, ?_,
    fun ops => ?_⟩
  · rw [hw.alignFrom_zero (hlined.snd.ordered hrb.ordered), alignTracks_of_freqs_eq hlined.same]
  · rw [hm]
    exact ⟨hra.tellsAs_cover b.freqs ops, hrb.tellsAs_cover a.freqs ops⟩

end PStateTrack

end PowerTrace
