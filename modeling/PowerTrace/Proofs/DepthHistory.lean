import Mathlib.Data.List.Destutter
import PowerTrace.Proofs.Attribution
import PowerTrace.Proofs.Composite
import PowerTrace.Proofs.Stays

/-!
# Idle intervals read off a history

A track sees one call after the other and keeps no history.  What it should have found can be read off
the history as a whole: readings of the same depth in a row are one stay, a stay ends when the next one
begins, and how it compares is decided by how long it lasted and by the depths of the stays before it.

* `DepthCall`, `CStateTrack.callAll`: what can happen to an idle track;
* `runStarts`: the first of all readings of the same depth in a row;
* `endedStays`: the stays at a depth that a later reading ended;
* `Stay.outcome`: how a stay compares, given the stays before it;
* `closedIntervals`: what should have been reported of a history;
* `CStateTrack.Follows`, `CStateTrack.Follows.call`: a track is where its history says, and stays there;
* `CStateTrack.agrees_with_history`: what all this says of every track.
-/

namespace PowerTrace

open TimeValue

/-! ### What can happen -/

/-- A call that tells an idle track something. -/
inductive DepthCall (τ : Type) where
  /-- The entity is at a depth, or runs, from an instant on. -/
  | record (time : τ) (depth : Option Depth)
  /-- The open interval is given up. -/
  | abandon
  deriving Repr

/-- What a call says: the depth from then on, and when that was. -/
structure Reading (τ : Type) where
  /-- The depth, `none` while the entity runs. -/
  depth : Option Depth
  /-- The instant, unknown where an interval was given up. -/
  time : Option τ
  deriving Repr

section History

variable {τ : Type}

/-- An entity whose open interval is given up runs, and it is not known since when. -/
def DepthCall.reading : DepthCall τ → Reading τ
  | record time depth => ⟨depth, some time⟩
  | abandon => ⟨none, none⟩

/-- What is known before the first call. -/
def Reading.initial : Reading τ := ⟨none, none⟩

/-- The first of all readings of the same depth in a row. -/
def runStarts (calls : List (DepthCall τ)) : List (Reading τ) :=
  (calls.map (·.reading)).destutter' (fun a b => a.depth ≠ b.depth) .initial

/-- The stay that one reading begins and the next one of another depth ends.  Where the interval was
given up it ended when it began. -/
def Reading.stayUntil (a b : Reading τ) : Option (Stay Depth τ) :=
  a.depth.bind fun d => a.time.map fun start => ⟨d, start, b.time.getD start⟩

/-- The stays that end in a list of readings that no two in a row are alike. -/
def staysBetween (rs : List (Reading τ)) : List (Stay Depth τ) :=
  (rs.zip rs.tail).filterMap fun (a, b) => a.stayUntil b

/-- The stays of a history that ended, in order. -/
def endedStays (calls : List (DepthCall τ)) : List (Stay Depth τ) := staysBetween (runStarts calls)

/-- The target residency of a depth, if it is described and known. -/
def targetOf (infos : Depth → Option StateInfo) (d : Depth) : Option UInt32 :=
  (infos d).bind (·.target)

variable [TimeValue τ]

/-- Whether a stay lasted long enough for the next depth: the entity had been that deep by then, and the
target of that depth is known, positive and reached. -/
def Stay.overstays (infos : Depth → Option StateInfo) (earlier : List (Stay Depth τ))
    (s : Stay Depth τ) : Bool :=
  match s.place.next? with
  | some next => ((s :: earlier).any fun e => decide (next ≤ e.place)) &&
      (targetOf infos next).any fun target =>
        decide (0 < target) && le (TimeValue.ofNat target.toNat) s.duration
  | none => false

/-- How a stay that counts compares, given the stays before it. -/
def Stay.idleClass (infos : Depth → Option StateInfo) (earlier : List (Stay Depth τ))
    (s : Stay Depth τ) : IdleClass :=
  if (targetOf infos s.place).any fun target => lt s.duration (TimeValue.ofNat target.toNat) then
    .tooShort
  else if s.overstays infos earlier then .tooLong
  else .asExpected

/-- How a stay compares, `none` where it is discarded because it took no time. -/
def Stay.outcome (infos : Depth → Option StateInfo) (earlier : List (Stay Depth τ))
    (s : Stay Depth τ) : Option IdleClass :=
  if le s.duration zero then none else some (s.idleClass infos earlier)

/-- A stay as it is reported, given the stays before it. -/
def Stay.closed (infos : Depth → Option StateInfo) (earlier : List (Stay Depth τ))
    (s : Stay Depth τ) : ClosedInterval τ where
  depth := s.place
  start := s.start
  stop := s.stop
  duration := s.duration
  outcome := s.outcome infos earlier

/-- Stays as they are reported, one after the other. -/
def closedAfter (infos : Depth → Option StateInfo) (earlier : List (Stay Depth τ)) :
    List (Stay Depth τ) → List (ClosedInterval τ)
  | [] => []
  | s :: later => s.closed infos earlier :: closedAfter infos (earlier ++ [s]) later

/-- What should have been reported of a history. -/
def closedIntervals (infos : Depth → Option StateInfo) (calls : List (DepthCall τ)) :
    List (ClosedInterval τ) := closedAfter infos [] (endedStays calls)

/-! ### One call more -/

omit [TimeValue τ] in
/-- The last reading that was kept decides whether the next one is. -/
theorem destutter'_concat {α : Type} {R : α → α → Prop} [DecidableRel R] (a : α) (l : List α)
    (b : α) : ∃ last, (l.destutter' R a).getLast? = some last ∧
      (l ++ [b]).destutter' R a = l.destutter' R a ++ if R last b then [b] else [] := by
  induction l generalizing a with
  | nil =>
    refine ⟨a, rfl, ?_⟩
    by_cases h : R a b <;> simp [h]
  | cons c l ih =>
    by_cases h : R a c
    · obtain ⟨last, hlast, hconcat⟩ := ih c
      refine ⟨last, ?_, ?_⟩
      · rw [List.destutter'_cons_pos (h := h), List.getLast?_cons, hlast]
        rfl
      · rw [List.cons_append, List.destutter'_cons_pos (h := h), List.destutter'_cons_pos (h := h),
          hconcat, List.cons_append]
    · obtain ⟨last, hlast, hconcat⟩ := ih a
      refine ⟨last, ?_, ?_⟩
      · rw [List.destutter'_cons_neg (h := h), hlast]
      · rw [List.cons_append, List.destutter'_cons_neg (h := h), List.destutter'_cons_neg (h := h),
          hconcat]

omit [TimeValue τ] in
theorem runStarts_concat (calls : List (DepthCall τ)) (c : DepthCall τ) :
    ∃ last, (runStarts calls).getLast? = some last ∧
      runStarts (calls ++ [c]) =
        runStarts calls ++ if last.depth ≠ c.reading.depth then [c.reading] else [] := by
  unfold runStarts
  rw [List.map_append]
  exact destutter'_concat _ _ _

omit [TimeValue τ] in
theorem zip_tail_concat {α : Type} {l : List α} {last : α} (h : l.getLast? = some last) (a : α) :
    (l ++ [a]).zip (l ++ [a]).tail = l.zip l.tail ++ [(last, a)] := by
  induction l with
  | nil => cases h
  | cons b l ih =>
    cases l with
    | nil =>
      cases h
      rfl
    | cons c l =>
      rw [List.getLast?_cons_cons] at h
      have htail := ih h
      simp only [List.cons_append, List.tail_cons, List.zip_cons_cons] at htail ⊢
      rw [htail]

omit [TimeValue τ] in
/-- A reading of another depth ends the stay that the last one began. -/
theorem staysBetween_concat {rs : List (Reading τ)} {last : Reading τ} (h : rs.getLast? = some last)
    (r : Reading τ) : staysBetween (rs ++ [r]) = staysBetween rs ++ (last.stayUntil r).toList := by
  unfold staysBetween
  rw [zip_tail_concat h, List.filterMap_append]
  cases hstay : last.stayUntil r <;> simp [hstay]

theorem closedAfter_concat (infos : Depth → Option StateInfo) (earlier stays : List (Stay Depth τ))
    (s : Stay Depth τ) :
    closedAfter infos earlier (stays ++ [s]) =
      closedAfter infos earlier stays ++ [s.closed infos (earlier ++ stays)] := by
  induction stays generalizing earlier with
  | nil => rw [List.append_nil]; rfl
  | cons s' stays ih =>
    rw [List.cons_append, closedAfter, ih, closedAfter, List.cons_append, List.append_assoc,
      List.singleton_append]

/-! ### What the intervals add up to -/

/-- Count an interval, unless it was discarded. -/
def CState.tally (s : CState τ) (i : ClosedInterval τ) : CState τ :=
  i.outcome.elim s fun c => s.record c i.duration

/-- What a depth holds after some intervals: those at that depth, counted one after the other. -/
def CState.after (infos : Depth → Option StateInfo) (d : Depth) (is : List (ClosedInterval τ)) :
    CState τ := (is.filter (·.depth = d)).foldl tally (.ofInfo? (infos d))

/-- The intervals at a depth that count. -/
def countedAt (d : Depth) (is : List (ClosedInterval τ)) : List (ClosedInterval τ) :=
  is.filter fun i => decide (i.depth = d) && !i.isDiscarded

/-- How many intervals at a depth are of a class. -/
def countAt (d : Depth) (c : IdleClass) (is : List (ClosedInterval τ)) : ℕ :=
  is.countP fun i => decide (i.depth = d) && i.outcome == some c

theorem CState.after_concat (infos : Depth → Option StateInfo) (d : Depth)
    (is : List (ClosedInterval τ)) (i : ClosedInterval τ) :
    CState.after infos d (is ++ [i]) =
      if i.depth = d then (CState.after infos d is).tally i else CState.after infos d is := by
  unfold CState.after
  by_cases h : i.depth = d <;> simp [h]

/-- **What a depth holds of some intervals**: the aggregate of the durations of those at that depth that
count, and how many of them were of each class. -/
theorem CState.after_eq (infos : Depth → Option StateInfo) (d : Depth)
    (is : List (ClosedInterval τ)) :
    (CState.after infos d is).stats = DurationStats.empty.recordAll ((countedAt d is).map (·.duration)) ∧
      (CState.after infos d is).early = countAt d .tooShort is ∧
      (CState.after infos d is).late = countAt d .tooLong is ∧
      (CState.after infos d is).asExpected = countAt d .asExpected is ∧
      (CState.after infos d is).target = targetOf infos d := by
  induction is using List.reverseRecOn with
  | nil =>
    unfold CState.after targetOf
    cases infos d <;> exact ⟨rfl, rfl, rfl, rfl, rfl⟩
  | append_singleton is i ih =>
    obtain ⟨hstats, hearly, hlate, hexpected, htarget⟩ := ih
    have hcount : ∀ c, countAt d c (is ++ [i]) =
        countAt d c is + if i.depth = d ∧ i.outcome = some c then 1 else 0 := by
      intro c
      simp [countAt, List.countP_append, List.countP_singleton]
    have hcounted : countedAt d (is ++ [i]) =
        countedAt d is ++ if i.depth = d ∧ i.outcome ≠ none then [i] else [] := by
      unfold countedAt
      rw [List.filter_append]
      cases hout : i.outcome <;> by_cases hd : i.depth = d <;>
        simp [ClosedInterval.isDiscarded, hout, hd]
    rw [CState.after_concat]
    simp only [hcount, hcounted]
    by_cases hd : i.depth = d
    · cases hout : i.outcome with
      | none => simp [hd, CState.tally, hout, hstats, hearly, hlate, hexpected, htarget]
      | some c =>
        cases c <;>
          simp [hd, CState.tally, hout, CState.record, DurationStats.recordAll, hstats, hearly, hlate,
            hexpected, htarget]
    · simp [hd, hstats, hearly, hlate, hexpected, htarget]

end History

/-! ### A track and its history -/

namespace CStateTrack

variable {τ : Type} [TimeValue τ] {infos : Depth → Option StateInfo} {t : CStateTrack τ}
  {rs : List (Reading τ)}

/-- What a call does to a track, and the interval it reports. -/
def call (t : CStateTrack τ) : DepthCall τ → CStateTrack τ × Option (ClosedInterval τ)
  | .record time depth => t.record time depth
  | .abandon => t.abandon

/-- What becomes of a track, first to last. -/
def callAll (t : CStateTrack τ) (calls : List (DepthCall τ)) : CStateTrack τ :=
  calls.foldl (fun t c => (t.call c).1) t

/-- A track with depths as described is where a list of readings says, no two of them in a row alike. -/
structure Follows (infos : Depth → Option StateInfo) (t : CStateTrack τ) (rs : List (Reading τ)) :
    Prop where
  /-- It is where the last reading says, since then. -/
  last : ∃ r, rs.getLast? = some r ∧ r.depth = t.current ∧
    ∀ d, t.current = some d → r.time = some t.since
  /-- The deepest depth so far is that of a stay, or the one it is at. -/
  highest : ∀ d : Depth, some d ≤ t.highest ↔
    (∃ s ∈ staysBetween rs, d ≤ s.place) ∨ some d ≤ t.current
  /-- Each depth holds the stays that ended. -/
  slots : ∀ d, t.slot d = .after infos d (closedAfter infos [] (staysBetween rs))
  /-- The class kept is that of the last stay that ended. -/
  lastClass : t.lastClass =
    ((closedAfter infos [] (staysBetween rs)).getLast?.bind (·.outcome)).getD .asExpected

theorem follows_ofInfos (infos : Depth → Option StateInfo) :
    Follows infos (ofInfos infos : CStateTrack τ) [.initial] where
  last := ⟨_, rfl, rfl, fun _ hd => nomatch hd⟩
  highest d := by
    refine iff_of_false (fun h => nomatch h) ?_
    rintro (⟨s, hs, -⟩ | h)
    · exact absurd hs List.not_mem_nil
    · exact nomatch h
  slots d := slot_ofInfos infos d
  lastClass := rfl

/-- The interval that closing reports. -/
theorem snd_close (t : CStateTrack τ) (d : Depth) (time : τ) :
    (t.close d time).2 = {
      depth := d, start := t.since, stop := time, duration := span t.since time
      outcome := if le (span t.since time) zero then none
        else some (t.classify d (span t.since time)) } := by
  unfold close
  dsimp only
  split <;> rfl

/-- **Closing the open interval reports the stay that ended**, with the class that its history gives
it. -/
theorem Follows.close_eq (h : t.Follows infos rs) {d : Depth} (hd : t.current = some d) (time : τ) :
    (t.close d time).2 = Stay.closed infos (staysBetween rs) ⟨d, t.since, time⟩ := by
  have htarget : ∀ e, (t.slot e).target = targetOf infos e := by
    intro e
    rw [h.slots]
    exact (CState.after_eq infos e _).2.2.2.2
  have hreach : t.reachesNext d (span t.since time) =
      Stay.overstays infos (staysBetween rs) ⟨d, t.since, time⟩ := by
    unfold reachesNext Stay.overstays
    have hopen : some d ≤ t.highest := (h.highest d).mpr (.inr (hd ▸ depth_le_refl _))
    cases hhigh : t.highest with
    | none =>
      rw [hhigh] at hopen
      cases hopen
    | some highest =>
      dsimp only
      cases d.next? with
      | none => rfl
      | some next =>
        have hdeep : decide (next ≤ highest) = ((⟨d, t.since, time⟩ :: staysBetween rs).any
            fun e : Stay Depth τ => decide (next ≤ e.place)) := by
          have hnext := h.highest next
          rw [hhigh, hd, Option.some_le_some, Option.some_le_some] at hnext
          rw [Bool.eq_iff_iff, decide_eq_true_eq, hnext, List.any_cons, Bool.or_eq_true,
            decide_eq_true_eq, List.any_eq_true, or_comm]
          simp only [decide_eq_true_eq]
        dsimp only
        rw [hdeep, htarget]
        rfl
  have hclass : t.classify d (span t.since time) =
      Stay.idleClass infos (staysBetween rs) ⟨d, t.since, time⟩ := by
    rw [classify, htarget, hreach]
    rfl
  rw [snd_close, Stay.closed, Stay.outcome, ← hclass]
  rfl

/-- What closing an interval does to the depths: the interval is tallied at its depth. -/
theorem slot_close_eq_tally (t : CStateTrack τ) (d : Depth) (time : τ) (e : Depth) :
    (t.close d time).1.slot e =
      if (t.close d time).2.depth = e then (t.slot e).tally (t.close d time).2 else t.slot e := by
  rw [slot_close, snd_close]
  by_cases hd : e = d
  · subst hd
    rw [if_pos rfl, CState.tally]
    cases le (span t.since time) zero <;> simp
  · rw [if_neg fun h => hd h.1, if_neg fun h => hd h.symm]

omit [TimeValue τ] in
/-- The deepest depth once another one is entered. -/
theorem le_highest_enter_iff (t : CStateTrack τ) (d : Depth) (time : τ) (e : Depth) :
    some e ≤ (t.enter d time).highest ↔ some e ≤ t.highest ∨ e ≤ d := by
  show some e ≤ some (t.highest.elim d (Depth.deeper d)) ↔ _
  rw [Option.some_le_some]
  cases t.highest with
  | none => exact (or_iff_right fun h => nomatch h).symm
  | some highest =>
    rw [Option.some_le_some]
    show e ≤ (if d ≤ highest then highest else d) ↔ _
    simp only [Fin.le_def]
    split <;> omega

/-- **A track whose open interval is closed has tallied all stays** up to the reading that ended it. -/
theorem Follows.closeOpen (h : t.Follows infos rs) (r : Reading τ) :
    let u := t.closeOpen (r.time.getD t.since)
    let stays := staysBetween (rs ++ [r])
    closedAfter infos [] stays = closedAfter infos [] (staysBetween rs) ++ u.2.toList ∧
      (∀ d, some d ≤ u.1.highest ↔ ∃ s ∈ stays, d ≤ s.place) ∧
      (∀ d, u.1.slot d = .after infos d (closedAfter infos [] stays)) ∧
      u.1.lastClass = ((closedAfter infos [] stays).getLast?.bind (·.outcome)).getD .asExpected := by
  intro u stays
  obtain ⟨last, hlast, hdepth, htime⟩ := h.last
  have hstays : stays = staysBetween rs ++ (last.stayUntil r).toList := staysBetween_concat hlast r
  cases hc : t.current with
  | none =>
    have hu : u = (t, none) := closeOpen_of_none hc _
    have hnone : last.stayUntil r = none := by rw [Reading.stayUntil, hdepth, hc]; rfl
    rw [hnone, Option.toList_none, List.append_nil] at hstays
    rw [hu, hstays]
    refine ⟨(List.append_nil _).symm, fun d => ?_, h.slots, h.lastClass⟩
    rw [h.highest, hc]
    exact or_iff_left fun hd => nomatch hd
  | some d =>
    have hu : u = ((t.close d (r.time.getD t.since)).1, some (t.close d (r.time.getD t.since)).2) :=
      closeOpen_of_some hc _
    have hstay : last.stayUntil r = some ⟨d, t.since, r.time.getD t.since⟩ := by
      rw [Reading.stayUntil, hdepth, hc, htime d hc]
      rfl
    rw [hstay, Option.toList_some] at hstays
    have hclosed : closedAfter infos [] stays = closedAfter infos [] (staysBetween rs) ++
        [(t.close d (r.time.getD t.since)).2] := by
      rw [hstays, closedAfter_concat, List.nil_append, h.close_eq hc]
    rw [hu, hclosed]
    refine ⟨rfl, fun e => ?_, fun e => ?_, ?_⟩
    · rw [highest_close, h.highest, hc, hstays, Option.some_le_some]
      simp only [List.mem_append, List.mem_singleton, or_and_right, exists_or, exists_eq_left]
    · rw [CState.after_concat, slot_close_eq_tally, h.slots]
    · rw [lastClass_close, List.getLast?_concat]
      rfl

/-- What a call does, in terms of what it says. -/
theorem call_eq (t : CStateTrack τ) (c : DepthCall τ) :
    t.call c =
      if c.reading.depth = t.current then (t, none)
      else ((t.closeOpen (c.reading.time.getD t.since)).1.enter? c.reading.depth
          (c.reading.time.getD t.since), (t.closeOpen (c.reading.time.getD t.since)).2) := by
  cases c with
  | record time depth => rfl
  | abandon =>
    show t.closeOpen t.since = if none = t.current then (t, none) else _
    split
    · next hc => exact closeOpen_of_none hc.symm _
    · rfl

/-- **A call keeps a track where its history says**, and reports the stay that it ends, if it ends
one. -/
theorem Follows.call (h : t.Follows infos rs) {last : Reading τ} (hlast : rs.getLast? = some last)
    (c : DepthCall τ) :
    let rs' := rs ++ if last.depth ≠ c.reading.depth then [c.reading] else []
    (t.call c).1.Follows infos rs' ∧
      closedAfter infos [] (staysBetween rs') =
        closedAfter infos [] (staysBetween rs) ++ (t.call c).2.toList := by
  intro rs'
  have hcurrent : last.depth = t.current := by
    obtain ⟨r, hr, hdepth, -⟩ := h.last
    rw [Option.some.inj (hlast.symm.trans hr), hdepth]
  rw [call_eq]
  by_cases hc : c.reading.depth = t.current
  · have hrs : rs' = rs := by
      show rs ++ _ = rs
      rw [if_neg fun hne => hne (hcurrent.trans hc.symm), List.append_nil]
    rw [if_pos hc, hrs]
    exact ⟨h, (List.append_nil _).symm⟩
  · have hrs : rs' = rs ++ [c.reading] := by
      show rs ++ _ = _
      rw [if_pos fun he => hc (he.symm.trans hcurrent)]
    obtain ⟨hclosed, hhighest, hslots, hclass⟩ := h.closeOpen c.reading
    have hnone : ∀ (time : τ) {o : Option τ} (d : Depth),
        (t.closeOpen time).1.current = some d → o = some (t.closeOpen time).1.since :=
      fun time _ d hd => nomatch (t.current_closeOpen time).symm.trans hd
    rw [if_neg hc, hrs]
    refine ⟨⟨⟨c.reading, List.getLast?_concat, ?_⟩, fun d => ?_, fun d => ?_, ?_⟩, hclosed⟩
    · cases c with
      | abandon => exact ⟨(t.current_closeOpen _).symm, hnone _⟩
      | record time depth =>
        cases depth with
        | none => exact ⟨(t.current_closeOpen _).symm, hnone _⟩
        | some d => exact ⟨rfl, fun _ _ => rfl⟩
    · cases c.reading.depth with
      | none =>
        show some d ≤ (t.closeOpen _).1.highest ↔ _ ∨ some d ≤ (t.closeOpen _).1.current
        rw [hhighest, t.current_closeOpen]
        exact (or_iff_left fun hd => nomatch hd).symm
      | some e =>
        show some d ≤ ((t.closeOpen _).1.enter e _).highest ↔ _ ∨ some d ≤ some e
        rw [le_highest_enter_iff, hhighest, Option.some_le_some]
    · rw [← hslots]
      cases c.reading.depth <;> rfl
    · rw [← hclass]
      cases c.reading.depth <;> rfl

/-- **A track is where its history says**, whatever the history. -/
theorem follows_callAll (infos : Depth → Option StateInfo) (calls : List (DepthCall τ)) :
    ((ofInfos infos : CStateTrack τ).callAll calls).Follows infos (runStarts calls) := by
  induction calls using List.reverseRecOn with
  | nil => exact follows_ofInfos infos
  | append_singleton calls c ih =>
    obtain ⟨last, hlast, hconcat⟩ := runStarts_concat calls c
    rw [callAll, List.foldl_append, hconcat]
    exact (ih.call hlast c).1

/-- **An idle track agrees with its history.**  After any calls, in any order and at any instants, the
next call reports the stay that it ends, if it ends one, so that all intervals reported so far are those
of the history; the open interval is the last reading, if that is of a depth; each depth holds the
durations of the stays at it that count and how many of them were too short, too long or neither; and the
class kept is that of the last stay, or as expected if that was discarded or there was none. -/
theorem agrees_with_history (infos : Depth → Option StateInfo) (calls : List (DepthCall τ))
    (next : DepthCall τ) :
    let t := (ofInfos infos : CStateTrack τ).callAll calls
    let is := closedIntervals infos calls
    closedIntervals infos (calls ++ [next]) = is ++ (t.call next).2.toList ∧
      (∃ last, (runStarts calls).getLast? = some last ∧ t.current = last.depth ∧
        t.openSince = if last.depth.isSome then last.time else none) ∧
      (∀ d, (t.slot d).stats = DurationStats.empty.recordAll ((countedAt d is).map (·.duration)) ∧
        (t.slot d).early = countAt d .tooShort is ∧ (t.slot d).late = countAt d .tooLong is ∧
        (t.slot d).asExpected = countAt d .asExpected is) ∧
      t.lastClass = (is.getLast?.bind (·.outcome)).getD .asExpected := by
  intro t is
  have h : t.Follows infos (runStarts calls) := follows_callAll infos calls
  obtain ⟨last, hlast, hdepth, htime⟩ := h.last
  refine ⟨?_, ⟨last, hlast, hdepth.symm, ?_⟩, fun d => ?_, h.lastClass⟩
  · obtain ⟨last', hlast', hconcat⟩ := runStarts_concat calls next
    rw [closedIntervals, endedStays, hconcat]
    exact (h.call hlast' next).2
  · rw [hdepth, openSince]
    cases hc : t.current with
    | none => rfl
    | some d => exact (htime d hc).symm
  · rw [h.slots]
    obtain ⟨hstats, hearly, hlate, hexpected, -⟩ := CState.after_eq infos d is
    exact ⟨hstats, hearly, hlate, hexpected⟩

end CStateTrack

end PowerTrace
