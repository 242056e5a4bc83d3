import PowerTrace.Composite
import PowerTrace.Event
import PowerTrace.Message
import PowerTrace.Retained

/-!
# Replaying a trace

Each event changes one CPU; then the core and the cluster of that CPU are fed their composite state
as if it were an event of their own.  Nothing else changes.

* `Cpu.apply`, `Core.apply`, `Cluster.apply`, `Topology.apply`: what an action does to the tree;
* `Replay.apply`: what an event does, or why it does not;
* `Replay.process`: the same, where an event without a CPU or a depth is dropped and counted;
* `Replay.messages`: what is remarked on an event.
-/

namespace PowerTrace

variable {τ : Type} [TimeValue τ]

/-! ### What an action does to the tree -/

/-- What an action does to its CPU.  Going idle ends the dwell at the selected frequency, and
resuming begins one. -/
def Cpu.apply (c : Cpu τ) (time : τ) : Action → Cpu τ
  | .setDepth d =>
    { c with
      cstates := (c.cstates.record time d).1
      pstates := if d.isSome then c.pstates.enterIdle time else c.pstates.exitIdle time }
  | .changeFreq freq => { c with pstates := c.pstates.changeFreq time freq }
  | .wake id name =>
    { c with
      cstates := (c.wakeups.charge c.cstates id name).2
      wakeups := (c.wakeups.charge c.cstates id name).1 }

/-- The idle interval that an action closes on its CPU, if any. -/
def Cpu.closedBy (c : Cpu τ) (time : τ) : Action → Option (ClosedInterval τ)
  | .setDepth d => (c.cstates.record time d).2
  | .changeFreq _ | .wake _ _ => none

/-- Apply an action to the CPU with a given number, among others. -/
def applyToCpu (cpu : CpuId) (time : τ) (action : Action) (cpus : List (Cpu τ)) : List (Cpu τ) :=
  cpus.map fun c => if c.id = cpu then c.apply time action else c

/-- Feed a core the composite state of its CPUs. -/
def Core.refresh (x : Extremum) (time : τ) (k : Core τ) : Core τ :=
  { k with
    cstates := (k.cstates.record time (compositeDepth k.cpus)).1
    pstates := k.pstates.groupFreq time (compositeFreq x k.cpus) }

/-- Feed a cluster the composite state of its CPUs. -/
def Cluster.refresh (x : Extremum) (time : τ) (c : Cluster τ) : Cluster τ :=
  { c with
    cstates := (c.cstates.record time (compositeDepth c.cpus)).1
    pstates := c.pstates.groupFreq time (compositeFreq x c.cpus) }

/-- Apply an action to the CPU of a core, leaving the composite state as it is. -/
def Core.applyToMember (cpu : CpuId) (time : τ) (action : Action) (k : Core τ) : Core τ :=
  { k with cpus := applyToCpu cpu time action k.cpus }

/-- What an action on one of its CPUs does to a core.  A core without that CPU stays as it is. -/
def Core.apply (x : Extremum) (cpu : CpuId) (time : τ) (action : Action) (k : Core τ) : Core τ :=
  if k.owns cpu then
    let k := k.applyToMember cpu time action
    if action.movesGroups then k.refresh x time else k
  else k

/-- Apply an action to the core of a cluster, leaving the composite state as it is. -/
def Cluster.applyToMember (x : Extremum) (cpu : CpuId) (time : τ) (action : Action)
    (c : Cluster τ) : Cluster τ :=
  { c with cores := c.cores.map (·.apply x cpu time action) }

/-- What an action on one of its CPUs does to a cluster.  A cluster without that CPU stays as it
is. -/
def Cluster.apply (x : Extremum) (cpu : CpuId) (time : τ) (action : Action) (c : Cluster τ) :
    Cluster τ :=
  if c.owns cpu then
    let c := c.applyToMember x cpu time action
    if action.movesGroups then c.refresh x time else c
  else c

/-- What an action on one CPU does to the machine. -/
def Topology.apply (x : Extremum) (cpu : CpuId) (time : τ) (action : Action) (t : Topology τ) :
    Topology τ :=
  ⟨t.clusters.map (·.apply x cpu time action)⟩

/-! ### The replay -/

/-- What a replay saw. -/
structure Summary (τ : Type) where
  /-- When the first idle event happened. -/
  start : Option τ
  /-- When the last idle event happened. -/
  stop : Option τ
  /-- How many events were applied. -/
  events : Nat
  /-- How many events were dropped. -/
  dropped : Nat
  deriving Repr

namespace Summary

omit [TimeValue τ] in
/-- Nothing seen yet. -/
def empty : Summary τ := ⟨none, none, 0, 0⟩

instance : Inhabited (Summary τ) := ⟨empty⟩

/-- The seconds from the first idle event to the last. -/
def duration (s : Summary τ) : τ :=
  match s.start, s.stop with
  | some start, some stop => stop - start
  | _, _ => TimeValue.zero

omit [TimeValue τ] in
/-- One more event was applied. -/
def count (s : Summary τ) (e : Event τ) : Summary τ :=
  { s with
    events := s.events + 1
    start := if e.kind.isIdle then s.start.or (some e.time) else s.start
    stop := if e.kind.isIdle then some e.time else s.stop }

omit [TimeValue τ] in
/-- One more event was dropped. -/
def drop (s : Summary τ) : Summary τ := { s with dropped := s.dropped + 1 }

end Summary

/-- A replay under way. -/
structure Replay (τ : Type) where
  /-- Its options. -/
  options : ReplayOptions
  /-- The machine so far. -/
  topology : Topology τ
  /-- What was seen so far. -/
  summary : Summary τ
  /-- The idle intervals so far, if they are kept. -/
  retained : Option (RetainedIntervals τ)
  deriving Repr

/-- What is remarked while the machine of a description is built. -/
def Description.messages (d : Description) : List (Message τ) :=
  d.layout.soundCpus.flatMap fun cpu => (d.outOfRange cpu).map .ignoredState

/-- What is remarked when a track of a group goes to its composite depth. -/
def groupMessages (label : String) (track : CStateTrack τ) (time : τ) (depth : Option Depth) :
    List (Message τ) :=
  match (track.record time depth).2 with
  | some i => if i.isDiscarded then [.discardedGroupInterval label i.depth i.stop] else []
  | none => []

/-- What is remarked when an action is applied to a CPU. -/
def Cpu.messages (c : Cpu τ) (time : τ) (action : Action) : List (Message τ) :=
  match action with
  | .wake _ name => if c.cstates.claimed then [.unchargedWakeup c.id name time] else []
  | _ =>
    match c.closedBy time action with
    | some i => if i.isDiscarded then [.discardedInterval c.id i.depth i.duration i.stop] else []
    | none => []

/-- What is remarked when an action on one of its CPUs moves a core. -/
def Core.messages (cpu : CpuId) (time : τ) (action : Action) (k : Core τ) : List (Message τ) :=
  if k.owns cpu && action.movesGroups then
    groupMessages k.label k.cstates time (compositeDepth (k.applyToMember cpu time action).cpus)
  else []

/-- What is remarked when an action on one of its CPUs moves a cluster. -/
def Cluster.messages (x : Extremum) (cpu : CpuId) (time : τ) (action : Action) (c : Cluster τ) :
    List (Message τ) :=
  if c.owns cpu && action.movesGroups then
    groupMessages c.label c.cstates time (compositeDepth (c.applyToMember x cpu time action).cpus)
  else []

/-- What is remarked when an action on one CPU is applied: first on the CPU, then on its core, then
on its cluster. -/
def Topology.messages (x : Extremum) (cpu : CpuId) (time : τ) (action : Action) (t : Topology τ) :
    List (Message τ) :=
  (t.cpu? cpu).toList.flatMap (·.messages time action) ++
    t.cores.flatMap (·.messages cpu time action) ++
    t.clusters.flatMap (·.messages x cpu time action)

namespace Replay

/-- A replay of a machine before its first event. -/
def start (d : Description) (o : ReplayOptions) : Except Error (Replay τ) := do
  let topology ← Topology.build d
  .ok { options := o, topology, summary := .empty,
        retained := if o.retainIntervals then some .empty else none }

omit [TimeValue τ] in
/-- What an event asks for, or why it cannot be applied: its CPU or its depth does not exist. -/
def action (r : Replay τ) (e : Event τ) : Except Error Action := do
  let _ ← r.topology.locate e.cpu
  e.kind.action e.cpu

/-- The intervals kept after an action: one more if the action closes one that counts. -/
def retain (r : Replay τ) (cpu : CpuId) (time : τ) (action : Action) :
    Except Error (Option (RetainedIntervals τ)) :=
  match r.retained, (r.topology.cpu? cpu).bind (·.closedBy time action) with
  | some kept, some i => if i.isDiscarded then .ok kept else (kept.record cpu i).map some
  | kept, _ => .ok kept

/-- Apply an event. -/
def apply (r : Replay τ) (e : Event τ) : Except Error (Replay τ) := do
  let action ← r.action e
  let retained ← r.retain e.cpu e.time action
  .ok { r with
    topology := r.topology.apply r.options.compositeFrequency e.cpu e.time action
    retained }

/-- Apply an event and count it.  One whose CPU or depth does not exist is dropped and counted as
such; any other error ends the replay. -/
def process (r : Replay τ) (e : Event τ) : Except Error (Replay τ) :=
  match r.apply e with
  | .ok next => .ok { next with summary := next.summary.count e }
  | .error err =>
    if err.isRecoverable then .ok { r with summary := r.summary.drop } else .error err

/-- Apply the events of a list, first to last. -/
def processAll (r : Replay τ) (es : List (Event τ)) : Except Error (Replay τ) := es.foldlM process r

/-- What is remarked on an event: that it is dropped, or, by a replay that says everything, what
becomes of the intervals it closes. -/
def messages (r : Replay τ) (e : Event τ) : List (Message τ) :=
  match r.action e with
  | .error err => if err.isRecoverable then [.droppedEvent e.time err] else []
  | .ok action =>
    if r.options.verbosity.isVerbose then
      r.topology.messages r.options.compositeFrequency e.cpu e.time action
    else []

/-- Begin a replay, with what is remarked on the machine. -/
def startLogged (d : Description) (o : ReplayOptions) : Logged τ (Replay τ) :=
  ⟨d.messages, start d o⟩

/-- Process an event, with what is remarked on it. -/
def processLogged (r : Replay τ) (e : Event τ) : Logged τ (Replay τ) :=
  ⟨r.messages e, r.process e⟩

@[simp] theorem processAll_nil (r : Replay τ) : r.processAll [] = .ok r := rfl

@[simp] theorem processAll_cons (r : Replay τ) (e : Event τ) (es : List (Event τ)) :
    r.processAll (e :: es) = r.process e >>= (·.processAll es) := rfl

end Replay

end PowerTrace
