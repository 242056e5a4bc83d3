import PowerTrace.Stats

/-!
# Frequencies of one entity

An entity has one *slot* for every frequency it was ever seen at, in ascending order, and selects
at most one of them.  While it runs at a selected frequency a *dwell* is open; the dwell closes
when the entity goes idle or the selection moves.

* `PStateTrack.find?`, `PStateTrack.slotFor`: the slot of a frequency, opened on first sight;
* `PStateTrack.changeFreq`: the frequency of a CPU changed;
* `PStateTrack.groupFreq`: the frequency of a group changed, where zero means that it is unknown;
* `PStateTrack.enterIdle`, `PStateTrack.exitIdle`: the entity stopped and resumed running.

Opening a slot below the selected one moves the selected one up by a place.
-/

namespace PowerTrace

/-- One frequency of an entity. -/
structure PState (τ : Type) where
  /-- The frequency, in Hz. -/
  freq : Nat
  /-- The dwells closed at this frequency. -/
  stats : DurationStats τ
  deriving Repr

/-- The frequencies of one entity. -/
structure PStateTrack (τ : Type) where
  /-- One slot for every frequency seen, in ascending order. -/
  slots : List (PState τ)
  /-- Position of the selected slot, `none` while the frequency is unknown. -/
  current : Option Nat
  /-- Whether the entity is idle, so that no dwell is open. -/
  idle : Bool
  /-- When the dwell opened last began. -/
  dwellStart : τ
  deriving Repr

/-- A frequency at which nothing dwelled yet. -/
def PState.unused {τ : Type} [TimeValue τ] (freq : Nat) : PState τ := { freq, stats := .empty }

/-- Count one more dwell. -/
def PState.record {τ : Type} [TimeValue τ] (p : PState τ) (duration : τ) : PState τ :=
  { p with stats := p.stats.record duration }

namespace PStateTrack

variable {τ : Type}

/-- No frequency seen yet. -/
def empty [TimeValue τ] : PStateTrack τ where
  slots := []
  current := none
  idle := false
  dwellStart := TimeValue.zero

instance [TimeValue τ] : Inhabited (PStateTrack τ) := ⟨empty⟩

/-- The frequencies seen, in ascending order. -/
def freqs (t : PStateTrack τ) : List Nat := t.slots.map (·.freq)

/-- The selected slot. -/
def currentSlot (t : PStateTrack τ) : Option (PState τ) := t.current.bind (t.slots[·]?)

/-- The selected frequency. -/
def currentFreq (t : PStateTrack τ) : Option Nat := t.currentSlot.map (·.freq)

/-- Whether no frequency was ever seen. -/
def isEmpty (t : PStateTrack τ) : Bool := t.slots.isEmpty

/-- When the open dwell began, if one is open. -/
def dwellSince (t : PStateTrack τ) : Option τ :=
  if t.current.isSome && !t.idle then some t.dwellStart else none

/-- The position of the slot of a frequency. -/
def find? (t : PStateTrack τ) (freq : Nat) : Option Nat := t.slots.findIdx? (·.freq == freq)

/-- How many frequencies below a given one were seen: where its slot belongs. -/
def rank (t : PStateTrack τ) (freq : Nat) : Nat := (t.slots.takeWhile (·.freq < freq)).length

variable [TimeValue τ]

/-- Open the slot of a frequency not seen before; the selection stays on its slot. -/
def openSlot (t : PStateTrack τ) (freq : Nat) : PStateTrack τ :=
  { t with
    slots := t.slots.insertIdx (t.rank freq) (.unused freq)
    current := t.current.map fun i => if t.rank freq ≤ i then i + 1 else i }

/-- The slot of a frequency, opened if need be: the track and the position of the slot. -/
def slotFor (t : PStateTrack τ) (freq : Nat) : PStateTrack τ × Nat :=
  match t.find? freq with
  | some i => (t, i)
  | none => (t.openSlot freq, t.rank freq)

/-- Close the open dwell at an instant.  It counts only if it lasted longer than zero. -/
def closeDwell (t : PStateTrack τ) (time : τ) : PStateTrack τ :=
  match t.current with
  | none => t
  | some i =>
    let elapsed := TimeValue.span t.dwellStart time
    if TimeValue.lt TimeValue.zero elapsed then
      { t with slots := t.slots.modify i (·.record elapsed) }
    else t

/-- Move the selection to a slot; the dwell on the old one ends and one on the new one begins. -/
def switchTo (t : PStateTrack τ) (time : τ) (next : Nat) : PStateTrack τ :=
  if t.current = some next then t
  else { t.closeDwell time with current := some next, dwellStart := time }

/-- The frequency of a CPU changed.  While the CPU is idle only the selection moves; its dwell
begins when the CPU resumes. -/
def changeFreq (t : PStateTrack τ) (time : τ) (freq : Nat) : PStateTrack τ :=
  let (t, next) := t.slotFor freq
  if t.idle then { t with current := some next } else t.switchTo time next

/-- The frequency of a group changed.  Zero says that no member runs at a known frequency: the dwell
ends and nothing is selected. -/
def groupFreq (t : PStateTrack τ) (time : τ) (freq : Nat) : PStateTrack τ :=
  if freq = 0 then { t.closeDwell time with current := none }
  else (t.slotFor freq).1.switchTo time (t.slotFor freq).2

/-- The entity went idle: its dwell ends. -/
def enterIdle (t : PStateTrack τ) (time : τ) : PStateTrack τ :=
  { (if t.idle then t else t.closeDwell time) with idle := true }

/-- The entity resumed running: a dwell begins at the selected frequency. -/
def exitIdle (t : PStateTrack τ) (time : τ) : PStateTrack τ :=
  if t.idle then
    { t with idle := false, dwellStart := if t.current.isSome then time else t.dwellStart }
  else t

/-- Open the slots of all given frequencies. -/
def cover (t : PStateTrack τ) (freqs : List Nat) : PStateTrack τ :=
  freqs.foldl (fun t freq => (t.slotFor freq).1) t

/-! ### What an operation leaves alone -/

@[simp] theorem current_closeDwell (t : PStateTrack τ) (time : τ) :
    (t.closeDwell time).current = t.current := by
  unfold closeDwell; split
  · rfl
  · dsimp only; split <;> rfl

@[simp] theorem idle_closeDwell (t : PStateTrack τ) (time : τ) :
    (t.closeDwell time).idle = t.idle := by
  unfold closeDwell; split
  · rfl
  · dsimp only; split <;> rfl

@[simp] theorem idle_slotFor (t : PStateTrack τ) (freq : Nat) :
    (t.slotFor freq).1.idle = t.idle := by
  unfold slotFor; split <;> rfl

@[simp] theorem cover_nil (t : PStateTrack τ) : t.cover [] = t := rfl

@[simp] theorem cover_cons (t : PStateTrack τ) (f : Nat) (fs : List Nat) :
    t.cover (f :: fs) = (t.slotFor f).1.cover fs := rfl

end PStateTrack

end PowerTrace
