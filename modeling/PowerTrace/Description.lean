import PowerTrace.CState
import PowerTrace.Layout

/-!
# The description of a machine

A layout together with the idle states of its CPUs, as read from a trace or from the host.  Where
a state is described twice the last description stands.
-/

namespace PowerTrace

/-- The description of one idle state of one CPU. -/
structure StateDescriptor where
  /-- The CPU. -/
  cpu : CpuId
  /-- The depth; one that no track has is passed over with a warning. -/
  depth : Nat
  /-- Name of the state. -/
  name : String
  /-- Target residency in microseconds, if known. -/
  target : Option UInt32
  deriving DecidableEq, Repr

/-- A machine and the idle states of its CPUs. -/
structure Description where
  /-- Which CPUs there are and how they are grouped. -/
  layout : Layout
  /-- The idle states. -/
  states : List StateDescriptor
  deriving DecidableEq, Repr, Inhabited

namespace StateDescriptor

/-- Whether this describes a given depth of a given CPU. -/
def isFor (s : StateDescriptor) (cpu : CpuId) (depth : Nat) : Bool :=
  s.cpu == cpu && s.depth == depth

/-- The description without the place it is for. -/
def info (s : StateDescriptor) : StateInfo := ⟨s.name, s.target⟩

end StateDescriptor

namespace Description

/-- The machine with the given placements and idle states. -/
def ofPlacements (ps : List Placement) (states : List StateDescriptor) : Description :=
  ⟨.ofPlacements ps, states⟩

/-- What is said last about a depth of a CPU. -/
def info? (d : Description) (cpu : CpuId) (depth : Depth) : Option StateInfo :=
  ((d.states.filter (·.isFor cpu depth.val)).getLast?).map (·.info)

/-- The states described for a CPU at depths that no track has. -/
def outOfRange (d : Description) (cpu : CpuId) : List StateDescriptor :=
  d.states.filter fun s => s.cpu == cpu && decide (depthCount ≤ s.depth)

end Description

end PowerTrace
