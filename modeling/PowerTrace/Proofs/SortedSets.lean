import PowerTrace.Proofs.Sweep

/-!
# Sets in the order of starts

A set that is filled or intersected keeps its intervals by start, but nothing keeps them apart: an
interval may overlap the next one, or lie inside it.  The sweep is exact on such sets as well.

* `Interval.Holds`, `IntervalSet.Holds`: the instants of an interval, and of a set;
* `IntervalSet.Sorted`: proper intervals, none of which starts before one that is listed earlier;
* `IntervalSet.Sorted.insert`, `Sorted.intersect`: adding to a set and intersecting keep the order;
* `IntervalSet.ofPushed_concat`: adding intervals one by one sorts them by start, and is stable;
* `IntervalSet.Sorted.holds_intersect`: an intersection holds the instants that both sets hold;
* `IntervalSet.Sorted.ordered_iff`: sorted intervals are apart if no instant is in two of them;
* `IntervalSet.same_intersect_comm`: of such sets either way round gives the same intersection.
-/

namespace PowerTrace

open TimeValue OrderedTime

/-! ### Lists sorted by a key -/

section Keys

variable {α R : Type} [LinearOrder R] (key : α → R) {l l' : List α}

theorem mem_iff_of_filter_key_eq
    (h : ∀ r, l.filter (fun a => key a = r) = l'.filter fun a => key a = r) {a : α} :
    a ∈ l ↔ a ∈ l' := by
  have ha : a ∈ l.filter (fun b => key b = key a) ↔ a ∈ l'.filter fun b => key b = key a := by
    rw [h]
  simpa only [List.mem_filter, decide_true, and_true] using ha

/-- Lists sorted by a key are equal if they list the same under every key. -/
theorem eq_of_filter_key_eq (hl : l.Pairwise fun a b => key a ≤ key b)
    (hl' : l'.Pairwise fun a b => key a ≤ key b)
    (h : ∀ r, l.filter (fun a => key a = r) = l'.filter fun a => key a = r) : l = l' := by
  have hmem : ∀ a, a ∈ l ↔ a ∈ l' := fun a => mem_iff_of_filter_key_eq key h
  induction l generalizing l' with
  | nil =>
    refine (List.eq_nil_iff_forall_not_mem.mpr fun a ha => ?_).symm
    exact absurd ((hmem a).mpr ha) List.not_mem_nil
  | cons a l ih =>
    cases l' with
    | nil => exact absurd ((hmem a).mp List.mem_cons_self) List.not_mem_nil
    | cons b l' =>
      obtain ⟨ha, htl⟩ := List.pairwise_cons.mp hl
      obtain ⟨hb, htl'⟩ := List.pairwise_cons.mp hl'
      -- each head is listed in the other list too, so neither has the lower key
      have hle : key a ≤ key b := by
        rcases List.mem_cons.mp ((hmem b).mpr List.mem_cons_self) with rfl | hmem'
        · exact le_rfl
        · exact ha b hmem'
      have hge : key b ≤ key a := by
        rcases List.mem_cons.mp ((hmem a).mp List.mem_cons_self) with rfl | hmem'
        · exact le_rfl
        · exact hb a hmem'
      have hkey : key b = key a := le_antisymm hge hle
      have hhead : a :: l.filter (fun c => key c = key a) =
          b :: l'.filter fun c => key c = key a := by
        simpa only [List.filter_cons, hkey, decide_true, if_true] using h (key a)
      obtain ⟨rfl, htail⟩ := List.cons.inj hhead
      have hrest : ∀ r, l.filter (fun c => key c = r) = l'.filter fun c => key c = r := by
        intro r
        by_cases hr : key a = r
        · rw [← hr]
          exact htail
        · simpa only [List.filter_cons, hr, decide_false, Bool.false_eq_true, if_false] using h r
      exact congrArg (a :: ·) (ih htl htl' hrest fun c => mem_iff_of_filter_key_eq key hrest)

/-- By key: whether one element may come before another. -/
abbrev keyLE (a b : α) : Bool := decide (key a ≤ key b)

theorem keyLE_trans (a b c : α) (hab : keyLE key a b = true) (hbc : keyLE key b c = true) :
    keyLE key a c = true :=
  decide_eq_true ((of_decide_eq_true hab).trans (of_decide_eq_true hbc))

theorem keyLE_total (a b : α) : (keyLE key a b || keyLE key b a) = true := by
  rw [Bool.or_eq_true, decide_eq_true_iff, decide_eq_true_iff]
  exact le_total _ _

theorem pairwise_mergeSort_key (l : List α) :
    (l.mergeSort (keyLE key)).Pairwise fun a b => key a ≤ key b :=
  (List.pairwise_mergeSort (keyLE_trans key) (keyLE_total key) l).imp of_decide_eq_true

/-- Sorting by a key leaves those under one key in their order. -/
theorem filter_mergeSort_key (l : List α) (r : R) :
    (l.mergeSort (keyLE key)).filter (fun a => key a = r) = l.filter fun a => key a = r := by
  have htogether : (l.filter fun a => key a = r).Pairwise fun a b => keyLE key a b = true := by
    refine List.pairwise_of_forall_mem_list fun a ha b hb => decide_eq_true ?_
    rw [of_decide_eq_true (List.mem_filter.mp ha).2, of_decide_eq_true (List.mem_filter.mp hb).2]
  have hsub : (l.filter fun a => key a = r).Sublist (l.mergeSort (keyLE key)) :=
    List.sublist_mergeSort (keyLE_trans key) (keyLE_total key) htogether List.filter_sublist
  have hsub' : (l.filter fun a => key a = r).Sublist
      ((l.mergeSort (keyLE key)).filter fun a => key a = r) := by
    simpa only [List.filter_filter, Bool.and_self] using hsub.filter fun a => key a = r
  exact (hsub'.eq_of_length ((List.mergeSort_perm l _).filter _).length_eq.symm).symm

end Keys

variable {τ R : Type} [TimeValue τ]

/-! ### Instants of an interval and of a set -/

namespace Interval

variable {i j x y : Interval τ} {a : τ}

/-- Whether an instant lies in an interval: from its start on, and before its end. -/
def Holds (i : Interval τ) (a : τ) : Prop := le i.start a = true ∧ lt a i.stop = true

/-- Whether two intervals start and end at instants that compare equal.  Both zeros of the doubles do. -/
structure Same (i j : Interval τ) : Prop where
  start : le i.start j.start = true ∧ le j.start i.start = true
  stop : le i.stop j.stop = true ∧ le j.stop i.stop = true

variable [LinearOrder R] [OrderedTime τ R]

include R

theorem holds_iff (hi : i.isProper = true) :
    i.Holds a ↔ IsNumber a ∧ rank i.start ≤ rank a ∧ rank a < rank i.stop := by
  obtain ⟨hstart, hstop, -⟩ := isNumber_of_isProper hi
  constructor
  · rintro ⟨hle, hlt⟩
    have ha := (isNumber_of_lt hlt).1
    exact ⟨ha, (le_iff hstart ha).mp hle, (lt_iff ha hstop).mp hlt⟩
  · rintro ⟨ha, hle, hlt⟩
    exact ⟨(le_iff hstart ha).mpr hle, (lt_iff ha hstop).mpr hlt⟩

/-- An instant that two intervals hold makes their common piece a proper one. -/
theorem isProper_meet_of_holds (hx : x.isProper = true) (hy : y.isProper = true) (hxa : x.Holds a)
    (hya : y.Holds a) : (x.meet y).isProper = true := by
  obtain ⟨-, hxstart, hxstop⟩ := (holds_iff hx).mp hxa
  obtain ⟨-, hystart, hystop⟩ := (holds_iff hy).mp hya
  exact (isProper_meet_iff hx hy).mpr
    ((max_le hxstart hystart).trans_lt (lt_min hxstop hystop))

/-- The piece common to two intervals holds what both hold. -/
theorem holds_meet_iff (hx : x.isProper = true) (hy : y.isProper = true)
    (hmeet : (x.meet y).isProper = true) : (x.meet y).Holds a ↔ x.Holds a ∧ y.Holds a := by
  rw [holds_iff hmeet, holds_iff hx, holds_iff hy, rank_start_meet hx hy, rank_stop_meet hx hy,
    max_le_iff, lt_min_iff]
  tauto

theorem same_of_place (hi : i.isProper = true) (hj : j.isProper = true) (h : i.place = j.place) :
    i.Same j := by
  obtain ⟨his, hie, -⟩ := isNumber_of_isProper hi
  obtain ⟨hjs, hje, -⟩ := isNumber_of_isProper hj
  obtain ⟨hstart, hstop⟩ := Prod.mk.inj (toLex.injective h)
  exact ⟨⟨(le_iff his hjs).mpr hstart.le, (le_iff hjs his).mpr hstart.ge⟩,
    ⟨(le_iff hie hje).mpr hstop.le, (le_iff hje hie).mpr hstop.ge⟩⟩

end Interval

namespace IntervalSet

/-- Whether an instant lies in some interval of a set. -/
def Holds (s : IntervalSet τ) (a : τ) : Prop := ∃ i ∈ s, i.Holds a

/-- Whether no instant lies in two intervals of a set. -/
def NoOverlap (s : IntervalSet τ) : Prop := s.Pairwise fun i j => ∀ a, ¬(i.Holds a ∧ j.Holds a)

/-- Proper intervals, none of which starts before one that is listed earlier. -/
structure Sorted (s : IntervalSet τ) : Prop where
  proper : ∀ i ∈ s, i.isProper = true
  ascending : s.Pairwise fun i j => le i.start j.start = true

/-- What a set holds after some intervals were added to it, which was empty before: the proper ones, by
start; of those that start together, the one added earlier comes first. -/
def ofPushed (is : List (Interval τ)) : IntervalSet τ :=
  (is.filter (·.isProper)).mergeSort fun i j => le i.start j.start

variable {s t : IntervalSet τ} {i x y : Interval τ} {xs ys is : List (Interval τ)} {a : τ}

theorem Sorted.tail (h : Sorted (x :: xs)) : Sorted xs :=
  ⟨fun i hi => h.proper i (List.mem_cons_of_mem x hi), (List.pairwise_cons.mp h.ascending).2⟩

theorem ofPushed_nil : ofPushed ([] : List (Interval τ)) = [] := by
  rw [ofPushed, List.filter_nil, List.mergeSort_nil]

theorem mem_ofPushed : i ∈ ofPushed is ↔ i ∈ is ∧ i.isProper = true := by
  rw [ofPushed, List.mem_mergeSort, List.mem_filter]

/-- A sorted set is what adding its intervals makes. -/
theorem Sorted.ofPushed_eq (h : s.Sorted) : ofPushed s = s := by
  rw [ofPushed, List.filter_eq_self.mpr h.proper]
  exact List.mergeSort_of_pairwise h.ascending

/-! ### Sorted by start -/

variable [LinearOrder R] [OrderedTime τ R]

include R

theorem le_start_iff (hx : x.isProper = true) (hy : y.isProper = true) :
    le x.start y.start = true ↔ rank x.start ≤ rank y.start :=
  le_iff (Interval.isNumber_of_isProper hx).1 (Interval.isNumber_of_isProper hy).1

theorem sorted_of_ranks (hproper : ∀ i ∈ s, i.isProper = true)
    (h : s.Pairwise fun i j => rank i.start ≤ rank j.start) : s.Sorted := by
  refine ⟨hproper, h.imp_of_mem fun hi hj hle => ?_⟩
  exact (le_start_iff (hproper _ hi) (hproper _ hj)).mpr hle

theorem Sorted.ranks (h : s.Sorted) : s.Pairwise fun i j => rank i.start ≤ rank j.start :=
  h.ascending.imp_of_mem fun hi hj hle => (le_start_iff (h.proper _ hi) (h.proper _ hj)).mp hle

/-- The first interval starts no later than any. -/
theorem Sorted.start_le (h : Sorted (x :: xs)) (hi : i ∈ x :: xs) : rank x.start ≤ rank i.start := by
  rcases List.mem_cons.mp hi with rfl | hi
  · exact le_rfl
  · exact (List.pairwise_cons.mp h.ranks).1 i hi

/-! ### Adding an interval -/

theorem ranks_insert (hs : s.Pairwise fun i j => rank i.start ≤ rank j.start)
    (hproper : ∀ j ∈ s, j.isProper = true) (hi : i.isProper = true) :
    (s.insert i).Pairwise fun i j => rank i.start ≤ rank j.start := by
  induction s with
  | nil => exact List.pairwise_singleton _ _
  | cons j rest ih =>
    obtain ⟨hj, hrest⟩ := List.pairwise_cons.mp hs
    obtain ⟨hpj, hprest⟩ := List.forall_mem_cons.mp hproper
    unfold insert
    split
    · next hle =>
      refine List.pairwise_cons.mpr ⟨fun k hk => ?_, ih hrest hprest⟩
      rcases mem_insert.mp hk with rfl | hk
      · exact (le_start_iff hpj hi).mp hle
      · exact hj k hk
    · next hlt =>
      rw [le_start_iff hpj hi, not_le] at hlt
      refine List.pairwise_cons.mpr ⟨fun k hk => ?_, hs⟩
      rcases List.mem_cons.mp hk with rfl | hk
      · exact hlt.le
      · exact hlt.le.trans (hj k hk)

/-- **Adding a proper interval keeps a set sorted.** -/
theorem Sorted.insert (hs : s.Sorted) (hi : i.isProper = true) : (s.insert i).Sorted := by
  refine sorted_of_ranks (fun j hj => ?_) (ranks_insert hs.ranks hs.proper hi)
  rcases mem_insert.mp hj with rfl | hj
  · exact hi
  · exact hs.proper j hj

/-- An interval that is added comes last of those that start with it. -/
theorem Sorted.filter_insert (hs : s.Sorted) (hi : i.isProper = true) (r : R) :
    (s.insert i).filter (fun j => rank j.start = r) =
      (s ++ [i]).filter fun j => rank j.start = r := by
  induction s with
  | nil => rfl
  | cons j rest ih =>
    unfold IntervalSet.insert
    split
    · rw [List.cons_append, List.filter_cons, List.filter_cons, ih hs.tail]
    · next hlt =>
      rw [le_start_iff (hs.proper j List.mem_cons_self) hi, not_le] at hlt
      rw [List.filter_append]
      by_cases hr : rank i.start = r
      · -- nothing in the set starts with it: it starts before all of them
        have hnone : (j :: rest).filter (fun k => rank k.start = r) = [] := by
          refine List.filter_eq_nil_iff.mpr fun k hk => ?_
          rw [decide_eq_true_iff, ← hr]
          exact (hlt.trans_le (hs.start_le hk)).ne'
        rw [hnone, List.nil_append, List.filter_cons, hnone, decide_eq_true hr, if_pos rfl,
          List.filter_singleton, decide_eq_true hr, cond_true]
      · have hnot : [i].filter (fun k => rank k.start = r) = [] := by
          rw [List.filter_singleton, decide_eq_false hr]
          rfl
        rw [hnot, List.append_nil, List.filter_cons, decide_eq_false hr]
        rfl

/-! ### Adding intervals one by one -/

/-- Proper intervals are sorted by the place of their start. -/
theorem ofPushed_eq_mergeSort (is : List (Interval τ)) :
    ofPushed is = (is.filter (·.isProper)).mergeSort (keyLE fun i => rank i.start) := by
  have hsame : ∀ i ∈ is.filter (·.isProper), ∀ j ∈ is.filter (·.isProper),
      le i.start j.start = keyLE (fun i => rank i.start) i j := by
    intro i hi j hj
    rw [Bool.eq_iff_iff, decide_eq_true_iff]
    exact le_start_iff (List.mem_filter.mp hi).2 (List.mem_filter.mp hj).2
  have hsort := List.map_mergeSort (f := id) hsame
  rwa [List.map_id, List.map_id] at hsort

theorem sorted_ofPushed (is : List (Interval τ)) : (ofPushed is).Sorted := by
  refine sorted_of_ranks (fun i hi => (mem_ofPushed.mp hi).2) ?_
  rw [ofPushed_eq_mergeSort]
  exact pairwise_mergeSort_key _ _

/-- **One more interval takes its place among those added before**: after all that start no later. -/
theorem ofPushed_concat (is : List (Interval τ)) (i : Interval τ) :
    ofPushed (is ++ [i]) = if i.isProper then (ofPushed is).insert i else ofPushed is := by
  by_cases hi : i.isProper = true
  · rw [if_pos hi]
    have hs := sorted_ofPushed is
    refine eq_of_filter_key_eq (fun i => rank i.start) (sorted_ofPushed _).ranks
      (hs.insert hi).ranks fun r => ?_
    rw [hs.filter_insert hi, List.filter_append, ofPushed_eq_mergeSort, ofPushed_eq_mergeSort,
      filter_mergeSort_key, filter_mergeSort_key, List.filter_append, List.filter_append,
      List.filter_singleton, hi]
    rfl
  · rw [if_neg hi, ofPushed, ofPushed, List.filter_append, List.filter_singleton,
      Bool.eq_false_iff.mpr hi]
    exact congrArg (List.mergeSort · _) (List.append_nil _)

/-! ### Intersecting -/

/-- **Intersecting keeps sets sorted.** -/
theorem Sorted.intersect (hs : s.Sorted) (ht : t.Sorted) : (s.intersect t).Sorted := by
  refine sorted_of_ranks (fun i hi => (exists_of_mem_intersect hi).1)
    (pairwise_intersect Sorted.tail ?_ hs ht)
  intro x xs y ys x' y' hs ht hleft
  -- a later piece is common to intervals none of which starts before these two
  have hleft' : x' ∈ x :: xs ∧ y' ∈ y :: ys := by
    split at hleft
    · exact ⟨List.mem_cons_of_mem x hleft.1, hleft.2⟩
    · exact ⟨hleft.1, List.mem_cons_of_mem y hleft.2⟩
  obtain ⟨hx', hy'⟩ := hleft'
  rw [Interval.rank_start_meet (hs.proper x List.mem_cons_self) (ht.proper y List.mem_cons_self),
    Interval.rank_start_meet (hs.proper x' hx') (ht.proper y' hy')]
  exact max_le_max (hs.start_le hx') (ht.start_le hy')

/-- An interval that ends after an instant holds it if one that is listed later does. -/
theorem Sorted.holds_head (h : Sorted (x :: xs)) (hi : i ∈ x :: xs) (hia : i.Holds a)
    (hstop : rank a < rank x.stop) : x.Holds a := by
  obtain ⟨ha, hstart, -⟩ := (Interval.holds_iff (h.proper i hi)).mp hia
  exact (Interval.holds_iff (h.proper x List.mem_cons_self)).mpr
    ⟨ha, (h.start_le hi).trans hstart, hstop⟩

/-- **The sweep is exact**, also where intervals of one set overlap: an intersection holds the instants
that both sets hold. -/
theorem Sorted.holds_intersect (hs : s.Sorted) (ht : t.Sorted) :
    (s.intersect t).Holds a ↔ s.Holds a ∧ t.Holds a := by
  constructor
  · rintro ⟨i, hi, hia⟩
    obtain ⟨hp, x, hx, y, hy, rfl⟩ := exists_of_mem_intersect hi
    obtain ⟨hxa, hya⟩ := (Interval.holds_meet_iff (hs.proper x hx) (ht.proper y hy) hp).mp hia
    exact ⟨⟨x, hx, hxa⟩, ⟨y, hy, hya⟩⟩
  · rintro ⟨⟨x, hx, hxa⟩, ⟨y, hy, hya⟩⟩
    induction s, t using sweep_induction with
    | nil_left t => exact absurd hx List.not_mem_nil
    | nil_right s => exact absurd hy List.not_mem_nil
    | step x₀ xs y₀ ys ihx ihy =>
      have hpx := hs.proper x₀ List.mem_cons_self
      have hpy := ht.proper y₀ List.mem_cons_self
      have hboth : x₀.Holds a → y₀.Holds a →
          (IntervalSet.intersect (x₀ :: xs) (y₀ :: ys)).Holds a := by
        intro hxa₀ hya₀
        have hp := Interval.isProper_meet_of_holds hpx hpy hxa₀ hya₀
        exact ⟨x₀.meet y₀, mem_intersect_cons.mpr (.inl ⟨hp, rfl⟩),
          (Interval.holds_meet_iff hpx hpy hp).mpr ⟨hxa₀, hya₀⟩⟩
      have hlt := lt_iff (Interval.isNumber_of_isProper hpx).2.1
        (Interval.isNumber_of_isProper hpy).2.1
      -- what the sweep goes past ends first, so an instant in it lies before the other one's end
      by_cases hstop : lt x₀.stop y₀.stop = true
      · rcases List.mem_cons.mp hx with rfl | hx'
        · have hbefore := ((Interval.holds_iff hpx).mp hxa).2.2.trans (hlt.mp hstop)
          exact hboth hxa (ht.holds_head hy hya hbefore)
        · obtain ⟨i, hi, hia⟩ := ihx hs.tail ht hx' hy
          exact ⟨i, mem_intersect_cons.mpr (.inr (by rwa [if_pos hstop])), hia⟩
      · rcases List.mem_cons.mp hy with rfl | hy'
        · have hbefore := ((Interval.holds_iff hpy).mp hya).2.2.trans_le
            (not_lt.mp (mt hlt.mpr hstop))
          exact hboth (hs.holds_head hx hxa hbefore) hya
        · obtain ⟨i, hi, hia⟩ := ihy hs ht.tail hx hy'
          exact ⟨i, mem_intersect_cons.mpr (.inr (by rwa [if_neg hstop])), hia⟩

/-! ### Intervals that are apart -/

/-- Sorted intervals are over one after the other if no instant lies in two of them. -/
theorem Sorted.ordered_iff (hs : s.Sorted) : s.Ordered ↔ s.NoOverlap := by
  constructor
  · intro h
    refine h.apart.imp_of_mem fun {i j} hi hj hij a => ?_
    rintro ⟨hia, hja⟩
    obtain ⟨-, -, hstop⟩ := (Interval.holds_iff (hs.proper i hi)).mp hia
    obtain ⟨-, hstart, -⟩ := (Interval.holds_iff (hs.proper j hj)).mp hja
    exact absurd (hstop.trans_le hij) (not_lt.mpr hstart)
  · intro h
    refine ⟨hs.proper, (hs.ranks.and h).imp_of_mem fun {i j} hi hj hij => ?_⟩
    obtain ⟨hle, hapart⟩ := hij
    by_contra hstop
    -- the later interval starts in the earlier one
    obtain ⟨hnum, -, hlt⟩ := Interval.isNumber_of_isProper (hs.proper j hj)
    exact hapart j.start
      ⟨(Interval.holds_iff (hs.proper i hi)).mpr ⟨hnum, hle, not_le.mp hstop⟩,
        (Interval.holds_iff (hs.proper j hj)).mpr ⟨hnum, le_rfl, hlt⟩⟩

/-- **Ordered sets have the same intersection either way round.** -/
theorem same_intersect_comm (hs : s.Ordered) (ht : t.Ordered) :
    List.Forall₂ Interval.Same (s.intersect t) (t.intersect s) := by
  have hplaces : (s.intersect t).map Interval.place = (t.intersect s).map Interval.place := by
    refine places_eq_of_covers (hs.intersect ht) (ht.intersect hs) fun a b hab => ?_
    rw [covers_intersect hs ht hab, covers_intersect ht hs hab, and_comm]
  have hpairs : List.Forall₂ (fun i j : Interval τ => i.place = j.place) (s.intersect t)
      (t.intersect s) := by
    refine (List.forall₂_map_left_iff.mp (List.forall₂_map_right_iff.mp ?_) :
      List.Forall₂ (fun i j : Interval τ => i.place = j.place) _ _)
    rw [List.forall₂_eq_eq_eq]
    exact hplaces
  refine List.forall₂_iff_zip.mpr ⟨hpairs.length_eq, fun {i j} hij => ?_⟩
  obtain ⟨hi, hj⟩ := List.of_mem_zip hij
  exact Interval.same_of_place ((hs.intersect ht).proper i hi) ((ht.intersect hs).proper j hj)
    ((List.forall₂_iff_zip.mp hpairs).2 hij)

end IntervalSet

end PowerTrace
