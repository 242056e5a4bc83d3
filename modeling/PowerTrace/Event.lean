import PowerTrace.CState
import PowerTrace.Error

/-!
# Events

A trace of any format is a list of events, each at an instant on one CPU.

* `Event`: an event as a trace states it; the depth of an idle entry may be any number;
* `Action`: what an event does to its CPU, once its depth is known to exist;
* `EventKind.action`: from the one to the other.
-/

namespace PowerTrace

/-- What happened. -/
inductive EventKind where
  /-- The CPU went idle at a depth. -/
  | idleEnter (depth : Nat)
  /-- The CPU resumed running. -/
  | idleExit
  /-- The frequency of the CPU changed, in Hz. -/
  | freqChange (freq : Nat)
  /-- An interrupt was handled; inter-processor interrupts have no number. -/
  | wakeup (id : Option Int) (name : String)
  deriving DecidableEq, Repr

/-- An event of a trace. -/
structure Event (τ : Type) where
  /-- When it happened, in seconds. -/
  time : τ
  /-- The CPU it happened on. -/
  cpu : CpuId
  /-- What happened. -/
  kind : EventKind
  deriving Repr

/-- Whether this is an entry to idle or an exit from it. -/
def EventKind.isIdle : EventKind → Bool
  | idleEnter _ | idleExit => true
  | freqChange _ | wakeup _ _ => false

/-- What an event does to its CPU. -/
inductive Action where
  /-- It takes the CPU to a depth, or to running. -/
  | setDepth (depth : Option Depth)
  /-- It changes the frequency. -/
  | changeFreq (freq : Nat)
  /-- It is a wake-up to be charged. -/
  | wake (id : Option Int) (name : String)
  deriving DecidableEq, Repr

/-- Whether an action can change what the groups of the CPU are doing.  A wake-up cannot. -/
def Action.movesGroups : Action → Bool
  | setDepth _ | changeFreq _ => true
  | wake _ _ => false

/-- What an event does to a given CPU, or an error if it names a depth that does not exist. -/
def EventKind.action (cpu : CpuId) : EventKind → Except Error Action
  | idleEnter depth =>
    match Depth.ofNat? depth with
    | some d => .ok (.setDepth (some d))
    | none => .error (.unknownDepth cpu depth)
  | idleExit => .ok (.setDepth none)
  | freqChange freq => .ok (.changeFreq freq)
  | wakeup id name => .ok (.wake id name)

end PowerTrace
