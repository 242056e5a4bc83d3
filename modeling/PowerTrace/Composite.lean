import PowerTrace.Options
import PowerTrace.Topology

/-!
# The composite state of a group

What a core or a cluster is doing is a function of what its CPUs are doing, and of nothing else.

* `leastDepth`, `compositeDepth`: a group is idle when all its members are, at the shallowest of
  their depths;
* `runningFreqs`, `compositeFreq`: the frequency of a group is the lowest, or the highest, among
  the members that run at a known frequency.
-/

namespace PowerTrace

/-- The lesser of two depths, where running lies below every depth. -/
def lesserDepth : Option Depth → Option Depth → Option Depth
  | some a, some b => some (a.shallower b)
  | _, _ => none

/-- The least of a list of depths, running if the list is empty. -/
def leastDepth : List (Option Depth) → Option Depth
  | [] => none
  | [d] => d
  | d :: rest => lesserDepth d (leastDepth rest)

variable {τ : Type}

/-- The depth of a group: the least depth of its members. -/
def compositeDepth (members : List (Cpu τ)) : Option Depth :=
  leastDepth (members.map (·.cstates.current))

/-- The known frequencies of the members that run. -/
def runningFreqs (members : List (Cpu τ)) : List Nat :=
  (members.filter (!·.isIdle)).filterMap (·.pstates.currentFreq)

/-- The lowest or the highest of a list of frequencies, if there is one. -/
def Extremum.of? (x : Extremum) (freqs : List Nat) : Option Nat :=
  match x with
  | .min => freqs.min?
  | .max => freqs.max?

/-- The frequency of a group, zero if no member runs at a known frequency. -/
def compositeFreq (x : Extremum) (members : List (Cpu τ)) : Nat :=
  (x.of? (runningFreqs members)).getD 0

theorem leastDepth_cons (d : Option Depth) {rest : List (Option Depth)} (h : rest ≠ []) :
    leastDepth (d :: rest) = lesserDepth d (leastDepth rest) := by
  cases rest with
  | nil => exact absurd rfl h
  | cons _ _ => rfl

end PowerTrace
