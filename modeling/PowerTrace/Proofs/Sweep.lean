import Mathlib.Data.List.Sort
import Mathlib.Data.Prod.Lex
import PowerTrace.Interval
import PowerTrace.Proofs.TimeOrder

/-!
# The sweep over two interval sets

Sets are intersected by one pass over both.  On sets whose intervals follow each other the pass
misses no common piece and makes none twice, and what it makes is such a set again.

* `Interval.Precedes`, `IntervalSet.Ordered`: proper intervals, each over before the next starts;
* `IntervalSet.mem_intersect`: the pieces of an intersection are the proper meets;
* `IntervalSet.Ordered.intersect`: an intersection is ordered again;
* `IntervalSet.Covers`, `covers_foldl_intersect`: what lies inside an interval of every set of a
  list lies inside a piece of their intersection;
* `IntervalSet.total_eq_of_covers`: ordered sets that cover the same stretches have the same total,
  to the last digit;
* `IntervalSet.total_foldl_intersect_congr`: so an intersection of several sets does not depend on
  their order, nor on repetitions.
-/

namespace PowerTrace

open TimeValue OrderedTime

variable {τ R : Type} [TimeValue τ] [LinearOrder R] [OrderedTime τ R]

namespace Interval

variable {i j x y : Interval τ}

/-- The ends of a proper interval are numbers in this order. -/
theorem isNumber_of_isProper (h : i.isProper = true) :
    IsNumber i.start ∧ IsNumber i.stop ∧ rank i.start < rank i.stop := by
  obtain ⟨hstart, hstop⟩ := isNumber_of_lt h
  exact ⟨hstart, hstop, (lt_iff hstart hstop).mp h⟩

/-- Whether an interval is over before another one starts. -/
def Precedes (i j : Interval τ) : Prop := rank i.stop ≤ rank j.start

theorem rank_start_meet (hx : x.isProper = true) (hy : y.isProper = true) :
    rank (x.meet y).start = max (rank x.start) (rank y.start) :=
  rank_upper (isNumber_of_isProper hx).1 (isNumber_of_isProper hy).1

theorem rank_stop_meet (hx : x.isProper = true) (hy : y.isProper = true) :
    rank (x.meet y).stop = min (rank x.stop) (rank y.stop) :=
  rank_lower (isNumber_of_isProper hx).2.1 (isNumber_of_isProper hy).2.1

/-- Two intervals have a piece in common if both start before either stops. -/
theorem isProper_meet_iff (hx : x.isProper = true) (hy : y.isProper = true) :
    (x.meet y).isProper = true ↔
      max (rank x.start) (rank y.start) < min (rank x.stop) (rank y.stop) := by
  obtain ⟨hxs, hxe, -⟩ := isNumber_of_isProper hx
  obtain ⟨hys, hye, -⟩ := isNumber_of_isProper hy
  rw [← rank_start_meet hx hy, ← rank_stop_meet hx hy]
  exact lt_iff (isNumber_upper hxs hys) (isNumber_lower hxe hye)

/-- Intervals that follow each other have nothing in common. -/
theorem not_isProper_meet_of_le (hx : x.isProper = true) (hy : y.isProper = true)
    (h : rank x.stop ≤ rank y.start ∨ rank y.stop ≤ rank x.start) :
    ¬(x.meet y).isProper = true := by
  rw [isProper_meet_iff hx hy, not_lt]
  rcases h with h | h
  · exact (min_le_left _ _).trans (h.trans (le_max_right _ _))
  · exact (min_le_right _ _).trans (h.trans (le_max_left _ _))

/-- The place of an interval: where it starts, and where it stops. -/
def place (i : Interval τ) : R ×ₗ R := toLex (rank i.start, rank i.stop)

/-- The length of a proper interval can be told from its place. -/
theorem duration_congr (hi : i.isProper = true) (hj : j.isProper = true) (h : j.place = i.place) :
    j.duration = i.duration := by
  obtain ⟨hstart, hstop⟩ := Prod.mk.inj (toLex.injective h)
  obtain ⟨hjs, hje, -⟩ := isNumber_of_isProper hj
  exact span_congr hi hjs hje hstart hstop

end Interval

namespace IntervalSet

/-- Proper intervals, each over before the next one starts. -/
structure Ordered (s : IntervalSet τ) : Prop where
  proper : ∀ i ∈ s, i.isProper = true
  apart : s.Pairwise Interval.Precedes

variable {s t : IntervalSet τ} {i x y : Interval τ} {xs ys : List (Interval τ)}

theorem Ordered.head (h : Ordered (x :: xs)) : x.isProper = true :=
  h.proper x List.mem_cons_self

theorem Ordered.tail (h : Ordered (x :: xs)) : Ordered xs :=
  ⟨fun i hi => h.proper i (List.mem_cons_of_mem x hi), (List.pairwise_cons.mp h.apart).2⟩

theorem Ordered.stop_le_start (h : Ordered (x :: xs)) (hi : i ∈ xs) : rank x.stop ≤ rank i.start :=
  (List.pairwise_cons.mp h.apart).1 i hi

/-! ### The pieces that the sweep makes -/

omit [LinearOrder R] [OrderedTime τ R] in
/-- One step of the sweep: a piece, if there is one, and the rest past the interval that ends
first. -/
theorem mem_intersect_cons :
    i ∈ intersect (x :: xs) (y :: ys) ↔
      (i.isProper = true ∧ i = x.meet y) ∨
        i ∈ if TimeValue.lt x.stop y.stop then intersect xs (y :: ys) else intersect (x :: xs) ys := by
  rw [intersect]
  by_cases h : (x.meet y).isProper = true
  · rw [if_pos h, List.mem_cons]
    refine or_congr_left ⟨?_, And.right⟩
    rintro rfl
    exact ⟨h, rfl⟩
  · rw [if_neg h]
    refine ⟨Or.inr, ?_⟩
    rintro (⟨hi, rfl⟩ | hi)
    · exact absurd hi h
    · exact hi

omit [LinearOrder R] [OrderedTime τ R] in
@[simp] theorem nil_intersect : intersect [] t = [] := by
  rw [intersect]

omit [LinearOrder R] [OrderedTime τ R] in
@[simp] theorem intersect_nil : intersect s [] = [] := by
  cases s <;> rw [intersect]

omit [LinearOrder R] [OrderedTime τ R] in
/-- What holds when one set is used up, and before a step of the sweep if after it, holds. -/
theorem sweep_induction {motive : IntervalSet τ → IntervalSet τ → Prop}
    (nil_left : ∀ t, motive [] t) (nil_right : ∀ s, motive s [])
    (step : ∀ x xs y ys, motive xs (y :: ys) → motive (x :: xs) ys → motive (x :: xs) (y :: ys))
    (s t : IntervalSet τ) : motive s t := by
  induction s, t using intersect.induct with
  | case1 t => exact nil_left t
  | case2 x xs => exact nil_right (x :: xs)
  | case3 x xs y ys _ ihx ihy => exact step x xs y ys ihx ihy
  | case4 x xs y ys _ ihx ihy => exact step x xs y ys ihx ihy

omit [LinearOrder R] [OrderedTime τ R] in
/-- Every piece is the proper meet of two intervals. -/
theorem exists_of_mem_intersect (h : i ∈ intersect s t) :
    i.isProper = true ∧ ∃ x ∈ s, ∃ y ∈ t, i = x.meet y := by
  induction s, t using sweep_induction with
  | nil_left t => rw [nil_intersect] at h; exact absurd h List.not_mem_nil
  | nil_right s => rw [intersect_nil] at h; exact absurd h List.not_mem_nil
  | step x xs y ys ihx ihy =>
    rcases mem_intersect_cons.mp h with ⟨hp, rfl⟩ | h
    · exact ⟨hp, x, List.mem_cons_self, y, List.mem_cons_self, rfl⟩
    · split at h
      · obtain ⟨hp, x', hx', y', hy', rfl⟩ := ihx h
        exact ⟨hp, x', List.mem_cons_of_mem x hx', y', hy', rfl⟩
      · obtain ⟨hp, x', hx', y', hy', rfl⟩ := ihy h
        exact ⟨hp, x', hx', y', List.mem_cons_of_mem y hy', rfl⟩

/-- The sweep misses no proper meet: what it goes past is over before the other set's next interval
starts. -/
theorem mem_intersect_of_isProper (hs : Ordered s) (ht : Ordered t) (hx : x ∈ s) (hy : y ∈ t)
    (h : (x.meet y).isProper = true) : x.meet y ∈ intersect s t := by
  induction s, t using sweep_induction with
  | nil_left t => exact absurd hx List.not_mem_nil
  | nil_right s => exact absurd hy List.not_mem_nil
  | step x₀ xs y₀ ys ihx ihy =>
    rw [mem_intersect_cons]
    have hlt := lt_iff (Interval.isNumber_of_isProper hs.head).2.1
      (Interval.isNumber_of_isProper ht.head).2.1
    by_cases hstop : TimeValue.lt x₀.stop y₀.stop = true
    · rw [if_pos hstop]
      rcases List.mem_cons.mp hx with rfl | hx'
      · rcases List.mem_cons.mp hy with rfl | hy'
        · exact .inl ⟨h, rfl⟩
        · -- `y` starts when `y₀` is over, and `x` is over before
          have hle := (hlt.mp hstop).le.trans (ht.stop_le_start hy')
          exact absurd h (Interval.not_isProper_meet_of_le hs.head (ht.proper y hy) (.inl hle))
      · exact .inr (ihx hs.tail ht hx' hy)
    · rw [if_neg hstop]
      rcases List.mem_cons.mp hy with rfl | hy'
      · rcases List.mem_cons.mp hx with rfl | hx'
        · exact .inl ⟨h, rfl⟩
        · -- `x` starts when `x₀` is over, and `y` is over by then
          have hle := (not_lt.mp fun hr => hstop (hlt.mpr hr)).trans (hs.stop_le_start hx')
          exact absurd h (Interval.not_isProper_meet_of_le (hs.proper x hx) ht.head (.inr hle))
      · exact .inr (ihy hs ht.tail hx hy')

/-- **The pieces common to two ordered sets** are the proper meets of their intervals. -/
theorem mem_intersect (hs : Ordered s) (ht : Ordered t) :
    i ∈ intersect s t ↔ i.isProper = true ∧ ∃ x ∈ s, ∃ y ∈ t, i = x.meet y := by
  refine ⟨exists_of_mem_intersect, ?_⟩
  rintro ⟨hp, x, hx, y, hy, rfl⟩
  exact mem_intersect_of_isProper hs ht hx hy hp

omit [LinearOrder R] [OrderedTime τ R] in
/-- Pieces are related as they come if each one is to what the sweep can still make after it, out of
what is left of both sets. -/
theorem pairwise_intersect {p : IntervalSet τ → Prop} {r : Interval τ → Interval τ → Prop}
    (tail : ∀ {x xs}, p (x :: xs) → p xs)
    (later : ∀ {x xs y ys x' y'}, p (x :: xs) → p (y :: ys) →
      (if TimeValue.lt x.stop y.stop then x' ∈ xs ∧ y' ∈ y :: ys else x' ∈ x :: xs ∧ y' ∈ ys) →
        r (x.meet y) (x'.meet y'))
    (hs : p s) (ht : p t) : (intersect s t).Pairwise r := by
  induction s, t using sweep_induction with
  | nil_left t => rw [nil_intersect]; exact .nil
  | nil_right s => rw [intersect_nil]; exact .nil
  | step x xs y ys ihx ihy =>
    rw [intersect]
    have hrest : List.Pairwise r
        (if TimeValue.lt x.stop y.stop then intersect xs (y :: ys) else intersect (x :: xs) ys) := by
      split
      · exact ihx (tail hs) ht
      · exact ihy hs (tail ht)
    split
    · refine List.pairwise_cons.mpr ⟨fun i hi => ?_, hrest⟩
      split at hi
      · next hstop =>
        obtain ⟨-, x', hx', y', hy', rfl⟩ := exists_of_mem_intersect hi
        exact later hs ht (by rw [if_pos hstop]; exact ⟨hx', hy'⟩)
      · next hstop =>
        obtain ⟨-, x', hx', y', hy', rfl⟩ := exists_of_mem_intersect hi
        exact later hs ht (by rw [if_neg hstop]; exact ⟨hx', hy'⟩)
    · exact hrest

/-- **The pieces that a sweep makes follow each other.** -/
theorem Ordered.intersect (hs : Ordered s) (ht : Ordered t) : Ordered (s.intersect t) := by
  refine ⟨fun i hi => (exists_of_mem_intersect hi).1, pairwise_intersect Ordered.tail ?_ hs ht⟩
  intro x xs y ys x' y' hs ht hleft
  -- a later piece lies past the interval that the sweep went past
  show rank (x.meet y).stop ≤ rank (x'.meet y').start
  rw [Interval.rank_stop_meet hs.head ht.head]
  split at hleft
  · obtain ⟨hx', hy'⟩ := hleft
    rw [Interval.rank_start_meet (hs.tail.proper x' hx') (ht.proper y' hy')]
    exact (min_le_left _ _).trans ((hs.stop_le_start hx').trans (le_max_left _ _))
  · obtain ⟨hx', hy'⟩ := hleft
    rw [Interval.rank_start_meet (hs.proper x' hx') (ht.tail.proper y' hy')]
    exact (min_le_right _ _).trans ((ht.stop_le_start hy').trans (le_max_right _ _))

/-- Intersecting a set with several others, one after the other. -/
theorem Ordered.foldl_intersect (hs : Ordered s) {ts : List (IntervalSet τ)}
    (hts : ∀ t ∈ ts, Ordered t) : Ordered (ts.foldl IntervalSet.intersect s) := by
  induction ts generalizing s with
  | nil => exact hs
  | cons t ts ih =>
    exact ih (hs.intersect (hts t List.mem_cons_self)) fun t' ht' =>
      hts t' (List.mem_cons_of_mem t ht')

/-! ### What a set covers -/

/-- Whether the stretch from `a` to `b` lies inside one interval of a set. -/
def Covers (s : IntervalSet τ) (a b : R) : Prop := ∃ i ∈ s, rank i.start ≤ a ∧ b ≤ rank i.stop

/-- A stretch lies inside a common piece if it lies inside an interval of both sets. -/
theorem covers_intersect (hs : Ordered s) (ht : Ordered t) {a b : R} (hab : a < b) :
    (intersect s t).Covers a b ↔ s.Covers a b ∧ t.Covers a b := by
  constructor
  · rintro ⟨i, hi, ha, hb⟩
    obtain ⟨-, x, hx, y, hy, rfl⟩ := exists_of_mem_intersect hi
    rw [Interval.rank_start_meet (hs.proper x hx) (ht.proper y hy), max_le_iff] at ha
    rw [Interval.rank_stop_meet (hs.proper x hx) (ht.proper y hy), le_min_iff] at hb
    exact ⟨⟨x, hx, ha.1, hb.1⟩, ⟨y, hy, ha.2, hb.2⟩⟩
  · rintro ⟨⟨x, hx, hxa, hxb⟩, ⟨y, hy, hya, hyb⟩⟩
    have hstart : max (rank x.start) (rank y.start) ≤ a := max_le hxa hya
    have hstop : b ≤ min (rank x.stop) (rank y.stop) := le_min hxb hyb
    have hp : (x.meet y).isProper = true :=
      (Interval.isProper_meet_iff (hs.proper x hx) (ht.proper y hy)).mpr
        (hstart.trans_lt (hab.trans_le hstop))
    refine ⟨x.meet y, (mem_intersect hs ht).mpr ⟨hp, x, hx, y, hy, rfl⟩, ?_, ?_⟩
    · rwa [Interval.rank_start_meet (hs.proper x hx) (ht.proper y hy)]
    · rwa [Interval.rank_stop_meet (hs.proper x hx) (ht.proper y hy)]

/-- A stretch lies inside a piece common to several sets if it lies inside an interval of each. -/
theorem covers_foldl_intersect (hs : Ordered s) {ts : List (IntervalSet τ)}
    (hts : ∀ t ∈ ts, Ordered t) {a b : R} (hab : a < b) :
    (ts.foldl intersect s).Covers a b ↔ ∀ t ∈ s :: ts, t.Covers a b := by
  induction ts generalizing s with
  | nil => rw [List.foldl_nil, List.forall_mem_singleton]
  | cons t ts ih =>
    obtain ⟨ht, hts⟩ := List.forall_mem_cons.mp hts
    rw [List.foldl_cons, ih (hs.intersect ht) hts, List.forall_mem_cons, List.forall_mem_cons,
      List.forall_mem_cons, covers_intersect hs ht hab, and_assoc]

/-- In an ordered set an interval inside another one is that one. -/
theorem Ordered.eq_of_subset (hs : Ordered s) {i j : Interval τ} (hi : i ∈ s) (hj : j ∈ s)
    (hstart : rank j.start ≤ rank i.start) (hstop : rank i.stop ≤ rank j.stop) : i = j := by
  have hlt := (Interval.isNumber_of_isProper (hs.proper i hi)).2.2
  induction s with
  | nil => exact absurd hi List.not_mem_nil
  | cons x xs ih =>
    -- of two intervals, one stops before the other starts, unless they are one
    rcases List.mem_cons.mp hi with rfl | hi'
    · rcases List.mem_cons.mp hj with rfl | hj'
      · rfl
      · exact absurd (hs.stop_le_start hj') (not_le.mpr (hstart.trans_lt hlt))
    · rcases List.mem_cons.mp hj with rfl | hj'
      · exact absurd (hs.stop_le_start hi') (not_le.mpr (hlt.trans_le hstop))
      · exact ih hs.tail hi' hj'

/-- An ordered set has an interval wherever a set that covers the same has one. -/
theorem exists_place_of_covers (hs : Ordered s) (ht : Ordered t)
    (h : ∀ a b : R, a < b → (s.Covers a b ↔ t.Covers a b)) (hi : i ∈ s) :
    ∃ j ∈ t, j.place = i.place := by
  have hlt := (Interval.isNumber_of_isProper (hs.proper i hi)).2.2
  obtain ⟨j, hj, hji, hij⟩ := (h _ _ hlt).mp ⟨i, hi, le_rfl, le_rfl⟩
  have hlt' := (Interval.isNumber_of_isProper (ht.proper j hj)).2.2
  -- `i` lies inside `j`, which lies inside an interval of the same set as `i`, so inside `i`
  obtain ⟨i', hi', hi'j, hji'⟩ := (h _ _ hlt').mpr ⟨j, hj, le_rfl, le_rfl⟩
  obtain rfl := hs.eq_of_subset hi hi' (hi'j.trans hji) (hij.trans hji')
  refine ⟨j, hj, ?_⟩
  rw [Interval.place, Interval.place, le_antisymm hji hi'j, le_antisymm hji' hij]

/-- The places of an ordered set are strictly ascending. -/
theorem Ordered.sortedLT_places (hs : Ordered s) : (s.map Interval.place).SortedLT := by
  refine (List.pairwise_map.mpr (hs.apart.imp_of_mem ?_)).sortedLT
  intro i j hi _ hij
  refine Prod.Lex.toLex_lt_toLex.mpr (.inl ?_)
  exact (Interval.isNumber_of_isProper (hs.proper i hi)).2.2.trans_le hij

/-- Ordered sets that cover the same stretches have their intervals at the same places. -/
theorem places_eq_of_covers (hs : Ordered s) (ht : Ordered t)
    (h : ∀ a b : R, a < b → (s.Covers a b ↔ t.Covers a b)) :
    s.map Interval.place = t.map Interval.place := by
  refine hs.sortedLT_places.eq_of_mem_iff ht.sortedLT_places fun p => ?_
  rw [List.mem_map, List.mem_map]
  constructor
  · rintro ⟨i, hi, rfl⟩
    exact exists_place_of_covers hs ht h hi
  · rintro ⟨i, hi, rfl⟩
    exact exists_place_of_covers ht hs (fun a b hab => (h a b hab).symm) hi

theorem total_eq_of_places (hs : Ordered s) (ht : Ordered t)
    (h : s.map Interval.place = t.map Interval.place) : s.total = t.total := by
  have hdur : s.map Interval.duration = t.map Interval.duration := by
    induction s generalizing t with
    | nil =>
      cases t with
      | nil => rfl
      | cons j js => cases h
    | cons i is ih =>
      cases t with
      | nil => cases h
      | cons j js =>
        obtain ⟨hij, htail⟩ := List.cons.inj h
        rw [List.map_cons, List.map_cons, ih hs.tail ht.tail htail,
          Interval.duration_congr ht.head hs.head hij]
  have hfold : ∀ u : IntervalSet τ, u.total = (u.map Interval.duration).foldl (· + ·) zero :=
    fun u => List.foldl_map.symm
  rw [hfold, hfold, hdur]

/-- **Ordered sets that cover the same stretches have the same total**, also where adding up
rounds. -/
theorem total_eq_of_covers (hs : Ordered s) (ht : Ordered t)
    (h : ∀ a b : R, a < b → (s.Covers a b ↔ t.Covers a b)) : s.total = t.total :=
  total_eq_of_places hs ht (places_eq_of_covers hs ht h)

/-- **The total of an intersection depends on which sets it is of**, not on their order, nor on how
often they come. -/
theorem total_foldl_intersect_congr {s' : IntervalSet τ} {ts ts' : List (IntervalSet τ)}
    (h : ∀ u ∈ s :: ts, Ordered u) (hmem : ∀ u, u ∈ s' :: ts' ↔ u ∈ s :: ts) :
    (ts'.foldl intersect s').total = (ts.foldl intersect s).total := by
  have h' : ∀ u ∈ s' :: ts', Ordered u := fun u hu => h u ((hmem u).mp hu)
  obtain ⟨hs, hts⟩ := List.forall_mem_cons.mp h
  obtain ⟨hs', hts'⟩ := List.forall_mem_cons.mp h'
  refine total_eq_of_covers (hs'.foldl_intersect hts') (hs.foldl_intersect hts) fun a b hab => ?_
  rw [covers_foldl_intersect hs' hts' hab, covers_foldl_intersect hs hts hab]
  exact forall_congr' fun u => imp_congr_left (hmem u)

end IntervalSet

end PowerTrace
