import PowerTrace.CState

/-!
# Wake-up sources of one CPU

Every interrupt that wakes a CPU is counted, together with how often the idle interval it ended
was too short or too long.  A source is told apart by its number and its name; inter-processor
interrupts have no number.

* `WakeupTable.credit`: one more wake-up by a source;
* `WakeupTable.charge`: a wake-up is charged to the idle interval closed last, at most one to
  each interval.
-/

namespace PowerTrace

/-- The counters of one wake-up source. -/
structure WakeupSource where
  /-- Interrupt number, `none` for an inter-processor interrupt. -/
  id : Option Int
  /-- Interrupt name. -/
  name : String
  /-- How often it woke the CPU. -/
  count : Nat
  /-- How often it ended an interval that was too short. -/
  early : Nat
  /-- How often it ended an interval that was too long. -/
  late : Nat
  deriving DecidableEq, Repr

namespace WakeupSource

/-- Whether this is an inter-processor interrupt. -/
def isIpi (s : WakeupSource) : Bool := s.id.isNone

/-- Whether the source has this number and this name. -/
def isNamed (s : WakeupSource) (id : Option Int) (name : String) : Bool :=
  s.id == id && s.name == name

/-- A source that woke nothing yet. -/
def unused (id : Option Int) (name : String) : WakeupSource :=
  { id, name, count := 0, early := 0, late := 0 }

/-- Count one wake-up that ended an interval of a given class. -/
def record (s : WakeupSource) (c : IdleClass) : WakeupSource :=
  { s with
    count := s.count + 1
    early := if c = .tooShort then s.early + 1 else s.early
    late := if c = .tooLong then s.late + 1 else s.late }

end WakeupSource

/-- The wake-up sources of one CPU, in the order they first woke it. -/
structure WakeupTable where
  /-- The sources. -/
  sources : List WakeupSource
  deriving DecidableEq, Repr

/-- Count a wake-up in a list of sources; one not listed yet is added at the end. -/
def creditSource (id : Option Int) (name : String) (c : IdleClass) :
    List WakeupSource → List WakeupSource
  | [] => [(WakeupSource.unused id name).record c]
  | s :: rest =>
    if s.isNamed id name then s.record c :: rest else s :: creditSource id name c rest

/-- How many wake-ups a list of sources counts. -/
def countAll : List WakeupSource → Nat
  | [] => 0
  | s :: rest => s.count + countAll rest

namespace WakeupTable

/-- No source seen yet. -/
def empty : WakeupTable := ⟨[]⟩

instance : Inhabited WakeupTable := ⟨empty⟩

/-- Whether no source was seen yet. -/
def isEmpty (t : WakeupTable) : Bool := t.sources.isEmpty

/-- How many wake-ups were counted. -/
def total (t : WakeupTable) : Nat := countAll t.sources

/-- The source with a given number and name. -/
def get? (t : WakeupTable) (id : Option Int) (name : String) : Option WakeupSource :=
  t.sources.find? (·.isNamed id name)

/-- Count a wake-up that ended an interval of a given class. -/
def credit (t : WakeupTable) (id : Option Int) (name : String) (c : IdleClass) : WakeupTable :=
  ⟨creditSource id name c t.sources⟩

/-- Charge a wake-up to the idle interval that a track closed last.  Nothing happens if one was
already charged since the track opened its last interval. -/
def charge {τ : Type} (t : WakeupTable) (track : CStateTrack τ) (id : Option Int)
    (name : String) : WakeupTable × CStateTrack τ :=
  if track.claimed then (t, track) else (t.credit id name track.lastClass, track.claim)

@[simp] theorem total_empty : empty.total = 0 := rfl

theorem countAll_creditSource (id : Option Int) (name : String) (c : IdleClass)
    (l : List WakeupSource) : countAll (creditSource id name c l) = countAll l + 1 := by
  induction l with
  | nil => rfl
  | cons s rest ih =>
    unfold creditSource
    split
    · show s.count + 1 + countAll rest = s.count + countAll rest + 1
      omega
    · show s.count + countAll (creditSource id name c rest) = s.count + countAll rest + 1
      rw [ih]
      omega

@[simp] theorem total_credit (t : WakeupTable) (id : Option Int) (name : String) (c : IdleClass) :
    (t.credit id name c).total = t.total + 1 :=
  countAll_creditSource id name c t.sources

end WakeupTable

end PowerTrace
