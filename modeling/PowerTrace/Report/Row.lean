import PowerTrace.Topology

/-!
# The rows of a report

What a table shows of one group: a row for every idle state, or every frequency, that was used by
the run or by its baseline.

* `cstateRows`: by depth;
* `pstateRows`: by ascending frequency, whether or not the two tables were lined up before.
-/

namespace PowerTrace

/-- One idle state in a table. -/
structure CStateRow (τ : Type) where
  /-- Its depth. -/
  depth : Depth
  /-- Its name, or `C` and the depth if it has none. -/
  name : String
  /-- The statistics of the run, if the state was used. -/
  current : Option (CState τ)
  /-- The statistics of the baseline, if the state was used there. -/
  baseline : Option (CState τ)
  deriving Repr

/-- One frequency in a table. -/
structure PStateRow (τ : Type) where
  /-- The frequency, in Hz. -/
  freq : Nat
  /-- The statistics of the run, if the frequency was used. -/
  current : Option (PState τ)
  /-- The statistics of the baseline, if the frequency was used there. -/
  baseline : Option (PState τ)
  deriving Repr

variable {τ : Type}

/-- The idle state at a depth, if it was used. -/
def CStateTrack.used? (t : CStateTrack τ) (d : Depth) : Option (CState τ) :=
  if (t.slot d).stats.isEmpty then none else some (t.slot d)

/-- The slot of a frequency, if it was used. -/
def PStateTrack.used? (t : PStateTrack τ) (freq : Nat) : Option (PState τ) :=
  (t.slots.find? (·.freq == freq)).filter (!·.stats.isEmpty)

/-- The name under which a state is shown. -/
def CState.shownName (s : CState τ) (d : Depth) : String := s.name.getD ("C" ++ toString d.val)

/-- The row of a depth, if it was used by the run or by the baseline.  A state that the run did not
use is shown under the name the baseline has for it. -/
def cstateRow? (current : CStateTrack τ) (baseline : Option (CStateTrack τ)) (d : Depth) :
    Option (CStateRow τ) :=
  let cur := current.used? d
  let base := baseline.bind (·.used? d)
  (cur.or base).map fun s => { depth := d, name := s.shownName d, current := cur, baseline := base }

/-- The rows of the idle states of a group. -/
def cstateRows (current : CStateTrack τ) (baseline : Option (CStateTrack τ)) :
    List (CStateRow τ) :=
  (List.finRange depthCount).filterMap (cstateRow? current baseline)

/-- The ascending list of what is in either of two ascending lists. -/
def ascendingUnion : List Nat → List Nat → List Nat
  | [], ys => ys
  | x :: xs, [] => x :: xs
  | x :: xs, y :: ys =>
    if x < y then x :: ascendingUnion xs (y :: ys)
    else if y < x then y :: ascendingUnion (x :: xs) ys
    else x :: ascendingUnion xs ys
termination_by xs ys => xs.length + ys.length

/-- The row of a frequency, if it was used by the run or by the baseline. -/
def pstateRow? (current : PStateTrack τ) (baseline : Option (PStateTrack τ)) (freq : Nat) :
    Option (PStateRow τ) :=
  let cur := current.used? freq
  let base := baseline.bind (·.used? freq)
  (cur.or base).map fun _ => { freq, current := cur, baseline := base }

/-- The rows of the frequencies of a group. -/
def pstateRows (current : PStateTrack τ) (baseline : Option (PStateTrack τ)) :
    List (PStateRow τ) :=
  (ascendingUnion current.freqs ((baseline.map (·.freqs)).getD [])).filterMap
    (pstateRow? current baseline)

end PowerTrace
