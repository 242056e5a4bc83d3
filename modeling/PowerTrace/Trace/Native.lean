import PowerTrace.Trace.Header
import PowerTrace.Trace.Record

/-!
# Traces

A trace is the description of a machine and a list of events.  A *native* trace holds both: a
header, then event lines.

* `Trace`;
* `nativeTrace`: read a native trace.
-/

namespace PowerTrace

open Text

/-- A trace. -/
structure Trace where
  /-- The machine it was recorded on. -/
  description : Description
  /-- Its events, in the order of the trace. -/
  events : List (Event Float)
  /-- How many lines with an event could not be read. -/
  skipped : Nat
  deriving Repr

/-- The layout of a header; a flat one if it lists no cluster. -/
def MachineHeader.layoutOrFlat (h : MachineHeader) : Layout :=
  if h.layout.clusters.isEmpty then .flat h.cpuCount else h.layout

/-- What is remarked on the layout of a header. -/
def MachineHeader.messages {τ : Type} (h : MachineHeader) : List (Message τ) :=
  if h.layout.clusters.isEmpty then [.missingTopology]
  else if h.layout.cpuCount ≠ h.cpuCount.toNat then
    [.cpuCountMismatch h.cpuCount.toNat h.layout.cpuCount]
  else []

/-- Read a native trace. -/
def nativeTrace (lines : List FileLine) : Logged Float Trace := do
  let (h, lines) ← Logged.ofExcept (MachineHeader.read lines)
  Logged.remarks h.messages
  let (events, skipped) ← readEvents lines
  pure ⟨⟨h.layoutOrFlat, h.states⟩, events, skipped⟩

end PowerTrace
