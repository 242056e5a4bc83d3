import PowerTrace.Stats

/-!
# Idle states of one entity

A CPU, a core or a cluster is at every moment either running or idle at some *depth*.  This file
holds the state machine that follows it and the statistics per depth.

* `IdleClass`: how an idle interval compares with the target residencies;
* `CState`: one depth, its description and its statistics;
* `CStateTrack`: all sixteen depths, the open interval and the deepest depth opened so far;
* `CStateTrack.record`: a transition; it closes the open interval, if any, and opens the next;
* `CStateTrack.abandon`: closes the open interval with no length at all.

An interval whose duration is not positive is *discarded*: it is counted nowhere, and the entity
forgets how its previous interval compared.
-/

namespace PowerTrace

/-- How many depths an entity has. -/
abbrev depthCount : Nat := 16

/-- An idle depth. -/
abbrev Depth := Fin depthCount

/-- The depth with a given number, if there is one. -/
def Depth.ofNat? (n : Nat) : Option Depth := if h : n < depthCount then some ⟨n, h⟩ else none

/-- The next deeper depth, if there is one. -/
def Depth.next? (d : Depth) : Option Depth := Depth.ofNat? (d.val + 1)

/-- The deeper of two depths. -/
def Depth.deeper (a b : Depth) : Depth := if a ≤ b then b else a

/-- The shallower of two depths. -/
def Depth.shallower (a b : Depth) : Depth := if a ≤ b then a else b

/-- How an idle interval compares with the target residencies of its depth and of the next. -/
inductive IdleClass where
  /-- At least the target of its own depth and short of the next one's. -/
  | asExpected
  /-- Shorter than the target of its own depth: the wake-up came early. -/
  | tooShort
  /-- Long enough for the next deeper depth: the wake-up came late. -/
  | tooLong
  deriving DecidableEq, Repr, Inhabited

/-- The static description of one depth. -/
structure StateInfo where
  /-- Name of the state, such as `WFI`. -/
  name : String
  /-- Target residency in microseconds, if known. -/
  target : Option UInt32
  deriving DecidableEq, Repr

/-- One depth of an entity. -/
structure CState (τ : Type) where
  /-- Name of the state, `none` where the depth is not supported. -/
  name : Option String
  /-- Target residency in microseconds, if known. -/
  target : Option UInt32
  /-- The intervals closed at this depth. -/
  stats : DurationStats τ
  /-- How many of them were too short. -/
  early : Nat
  /-- How many of them were too long. -/
  late : Nat
  /-- How many of them were neither. -/
  asExpected : Nat
  deriving Repr

/-- An interval closed by a transition. -/
structure ClosedInterval (τ : Type) where
  /-- The depth that was left. -/
  depth : Depth
  /-- When it was entered. -/
  start : τ
  /-- When it was left. -/
  stop : τ
  /-- How long it lasted, in microseconds. -/
  duration : τ
  /-- How it compares, `none` where it was discarded. -/
  outcome : Option IdleClass
  deriving Repr

/-- Whether the interval was left out of the statistics. -/
def ClosedInterval.isDiscarded {τ : Type} (i : ClosedInterval τ) : Bool := i.outcome.isNone

/-- The idle states of one entity. -/
structure CStateTrack (τ : Type) where
  /-- The depths, supported or not. -/
  slots : Vector (CState τ) depthCount
  /-- The depth it is idle at, `none` while it runs. -/
  current : Option Depth
  /-- The deepest depth it was ever idle at. -/
  highest : Option Depth
  /-- When the interval opened last began. -/
  since : τ
  /-- How the interval closed last compares. -/
  lastClass : IdleClass
  /-- Whether a wake-up was already charged since the interval opened last. -/
  claimed : Bool
  deriving Repr

namespace CState

variable {τ : Type} [TimeValue τ]

/-- A depth with a given description and empty statistics. -/
def described (name : Option String) (target : Option UInt32) : CState τ where
  name := name
  target := target
  stats := .empty
  early := 0
  late := 0
  asExpected := 0

/-- A depth that the entity does not support. -/
def unsupported : CState τ := described none none

instance : Inhabited (CState τ) := ⟨unsupported⟩

/-- A depth as described, unsupported without a description. -/
def ofInfo? : Option StateInfo → CState τ
  | some info => described (some info.name) info.target
  | none => unsupported

/-- Count one more interval of a given class. -/
def record (s : CState τ) (c : IdleClass) (duration : τ) : CState τ :=
  { s with
    stats := s.stats.record duration
    early := if c = .tooShort then s.early + 1 else s.early
    late := if c = .tooLong then s.late + 1 else s.late
    asExpected := if c = .asExpected then s.asExpected + 1 else s.asExpected }

end CState

namespace CStateTrack

variable {τ : Type} [TimeValue τ]

/-- A running entity with given depths and no history. -/
def ofSlots (slots : Vector (CState τ) depthCount) : CStateTrack τ where
  slots := slots
  current := none
  highest := none
  since := TimeValue.zero
  lastClass := .asExpected
  claimed := false

/-- A running entity with the depths as described. -/
def ofInfos (infos : Depth → Option StateInfo) : CStateTrack τ :=
  ofSlots (Vector.ofFn fun d => CState.ofInfo? (infos d))

/-- A running entity that takes the descriptions of its depths, and nothing else, from another. -/
def ofTemplate (t : CStateTrack τ) : CStateTrack τ :=
  ofSlots (t.slots.map fun s => .described s.name s.target)

omit [TimeValue τ] in
/-- The depth with a given number. -/
def slot (t : CStateTrack τ) (d : Depth) : CState τ := t.slots[d]

omit [TimeValue τ] in
/-- Whether the entity is idle. -/
def isIdle (t : CStateTrack τ) : Bool := t.current.isSome

omit [TimeValue τ] in
/-- When the open interval began, if one is open. -/
def openSince (t : CStateTrack τ) : Option τ := t.current.map fun _ => t.since

/-- Whether an interval at this depth was long enough for the next one.  The next depth counts only
if the entity was ever that deep and its target residency is known and positive. -/
def reachesNext (t : CStateTrack τ) (d : Depth) (duration : τ) : Bool :=
  match t.highest, d.next? with
  | some highest, some next =>
    decide (next ≤ highest) && (t.slot next).target.any fun target =>
      decide (0 < target) && TimeValue.le (TimeValue.ofNat target.toNat) duration
  | _, _ => false

/-- How an interval of a given duration at a given depth compares. -/
def classify (t : CStateTrack τ) (d : Depth) (duration : τ) : IdleClass :=
  if (t.slot d).target.any fun target => TimeValue.lt duration (TimeValue.ofNat target.toNat) then
    .tooShort
  else if t.reachesNext d duration then .tooLong
  else .asExpected

/-- Leave depth `d` at an instant.  The interval counts unless its duration is at most zero. -/
def close (t : CStateTrack τ) (d : Depth) (time : τ) : CStateTrack τ × ClosedInterval τ :=
  let duration := TimeValue.span t.since time
  let closed := fun outcome => { depth := d, start := t.since, stop := time, duration, outcome }
  if TimeValue.le duration TimeValue.zero then
    ({ t with current := none, lastClass := .asExpected }, closed none)
  else
    let c := t.classify d duration
    ({ t with
        current := none
        slots := t.slots.set d ((t.slot d).record c duration)
        lastClass := c },
      closed (some c))

omit [TimeValue τ] in
/-- Enter depth `d` at an instant.  The next wake-up may be charged again. -/
def enter (t : CStateTrack τ) (d : Depth) (time : τ) : CStateTrack τ :=
  { t with
    current := some d
    since := time
    claimed := false
    highest := some (t.highest.elim d (Depth.deeper d)) }

/-- Close the open interval, if there is one. -/
def closeOpen (t : CStateTrack τ) (time : τ) : CStateTrack τ × Option (ClosedInterval τ) :=
  match t.current with
  | none => (t, none)
  | some d => ((t.close d time).1, some (t.close d time).2)

omit [TimeValue τ] in
/-- Open an interval at a depth, or none when the entity runs. -/
def enter? (t : CStateTrack τ) (new : Option Depth) (time : τ) : CStateTrack τ :=
  match new with
  | none => t
  | some d => t.enter d time

/-- A transition to a depth, or to running, at an instant.  Staying where it is is no transition;
any other closes the open interval and opens the next, also between two depths. -/
def record (t : CStateTrack τ) (time : τ) (new : Option Depth) :
    CStateTrack τ × Option (ClosedInterval τ) :=
  if new = t.current then (t, none)
  else ((t.closeOpen time).1.enter? new time, (t.closeOpen time).2)

/-- Close the open interval, if any, at the instant it began. -/
def abandon (t : CStateTrack τ) : CStateTrack τ × Option (ClosedInterval τ) := t.closeOpen t.since

omit [TimeValue τ] in
/-- Charge a wake-up to the interval closed last. -/
def claim (t : CStateTrack τ) : CStateTrack τ := { t with claimed := true }

/-! ### Transitions and the open depth -/

@[simp] theorem current_close (t : CStateTrack τ) (d : Depth) (time : τ) :
    (t.close d time).1.current = none := by
  simp only [close]; split <;> rfl

@[simp] theorem current_closeOpen (t : CStateTrack τ) (time : τ) :
    (t.closeOpen time).1.current = none := by
  unfold closeOpen; split
  · assumption
  · exact current_close _ _ _

@[simp] theorem current_record (t : CStateTrack τ) (time : τ) (new : Option Depth) :
    (t.record time new).1.current = new := by
  unfold record
  split
  · next h => exact h.symm
  · cases new with
    | none => exact current_closeOpen t time
    | some d => rfl

end CStateTrack

end PowerTrace
