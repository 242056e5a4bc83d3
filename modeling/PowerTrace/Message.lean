import PowerTrace.Description
import PowerTrace.Text.Decimal
import PowerTrace.Text.Terminal

/-!
# Messages

What the library remarks on while it goes on with its work: events it drops, records it passes
over, a machine it has to guess.  A computation that remarks carries its messages beside its
result, oldest first, also when the result is an error.

* `Message`, `Message.severity`, `Message.text`;
* `Message.shownText`: the wording as a log on a terminal has it;
* `Logged`: a result and the messages on the way to it.
-/

namespace PowerTrace

/-- How grave a message is. -/
inductive Severity where
  /-- Something was passed over. -/
  | warn
  /-- A summary. -/
  | info
  /-- A detail. -/
  | debug
  deriving DecidableEq, Repr

/-- A remark, with what it is about. -/
inductive Message (τ : Type) where
  /-- An event was dropped. -/
  | droppedEvent (time : τ) (cause : Error)
  /-- An idle interval of a CPU was not counted. -/
  | discardedInterval (cpu : CpuId) (depth : Depth) (duration stop : τ)
  /-- An idle interval of a group was not counted. -/
  | discardedGroupInterval (group : String) (depth : Depth) (stop : τ)
  /-- A wake-up was not charged, because one was already. -/
  | unchargedWakeup (cpu : CpuId) (name : String) (time : τ)
  /-- A CPU was still idle at the end. -/
  | danglingInterval (cpu : CpuId) (depth : Depth) (start : τ)
  /-- A replay is over: its length in seconds and how many events it applied. -/
  | replayed (length : τ) (events : Nat)
  /-- An idle state has a depth that does not exist. -/
  | ignoredState (state : StateDescriptor)
  /-- A record cannot be read. -/
  | skippedRecord (cause : Error) (line : String)
  /-- A trace does not say which CPUs share a core. -/
  | missingTopology
  /-- A trace declares another number of CPUs than it describes. -/
  | cpuCountMismatch (declared described : Nat)
  /-- The host has another number of CPUs than the trace. -/
  | hostMismatch (host trace : Nat)
  /-- The host does not describe itself. -/
  | hostUnreadable (cause : Error)
  /-- A file is about to be read in a format. -/
  | loading (path format : String)
  deriving Repr

namespace Message

/-- How grave a message is. -/
def severity {τ : Type} : Message τ → Severity
  | discardedInterval .. | discardedGroupInterval .. | unchargedWakeup .. | danglingInterval ..
  | loading .. => .debug
  | replayed .. => .info
  | droppedEvent .. | ignoredState .. | skippedRecord .. | missingTopology | cpuCountMismatch ..
  | hostMismatch .. | hostUnreadable .. => .warn

/-- An instant or a length in seconds, to the microsecond. -/
def seconds (time : Float) : String := Text.fixed 6 time

/-- The wording of a message. -/
def text : Message Float → String
  | droppedEvent time cause => "Dropping event at " ++ seconds time ++ ": " ++ cause.message
  | discardedInterval cpu depth duration stop =>
    "cpu" ++ toString cpu.toNat ++ ": discarding C-state " ++ toString depth.val ++
      " interval of " ++ Text.fixed 3 duration ++ "us at " ++ seconds stop
  | discardedGroupInterval group depth stop =>
    group ++ ": discarding C-state " ++ toString depth.val ++ " interval at " ++ seconds stop
  | unchargedWakeup cpu name time =>
    "cpu" ++ toString cpu.toNat ++ ": " ++ name ++ " at " ++ seconds time ++
      " not attributed, wake-up already counted"
  | danglingInterval cpu depth start =>
    "cpu" ++ toString cpu.toNat ++ ": closing dangling C-state " ++ toString depth.val ++
      " opened at " ++ seconds start
  | replayed length events =>
    "trace is " ++ seconds length ++ " secs long with " ++ toString events ++ " events"
  | ignoredState state =>
    "Ignoring C-state " ++ toString state.depth ++ " (" ++ state.name ++ ") of cpu" ++
      toString state.cpu.toNat ++ ": depth out of range"
  | skippedRecord cause line => "Skipping unrecognized record (" ++ cause.message ++ "): " ++ line
  | missingTopology => "Trace has no topology; using a flat topology"
  | cpuCountMismatch declared described =>
    "Trace declares " ++ toString declared ++ " cpus but its topology holds " ++ toString described
  | hostMismatch host trace =>
    "Host has " ++ toString host ++ " cpus, trace has " ++ toString trace ++
      "; using a flat topology"
  | hostUnreadable cause =>
    "Cannot read host topology (" ++ cause.message ++ "); using a flat topology"
  | loading path format => "Loading " ++ path ++ " as " ++ format ++ " trace"

/-- The wording of a message without what a terminal would take as commands. -/
def shownText (m : Message Float) : String := String.ofList (Text.shown m.text.toList)

end Message

/-! ### Results with messages -/

/-- A result, and the messages on the way to it. -/
structure Logged (τ α : Type) where
  /-- The messages, oldest first. -/
  messages : List (Message τ)
  /-- The result, or what stopped the computation. -/
  result : Except Error α

namespace Logged

variable {τ α β : Type}

/-- Only a remark. -/
def remark (m : Message τ) : Logged τ Unit := ⟨[m], .ok ()⟩

/-- Several remarks. -/
def remarks (ms : List (Message τ)) : Logged τ Unit := ⟨ms, .ok ()⟩

/-- A result without remarks. -/
def ofExcept (r : Except Error α) : Logged τ α := ⟨[], r⟩

/-- Stop with an error. -/
def fail (e : Error) : Logged τ α := ⟨[], .error e⟩

/-- Go on with a result, unless it is an error; the messages follow one another. -/
def bind (x : Logged τ α) (f : α → Logged τ β) : Logged τ β :=
  match x.result with
  | .ok a => ⟨x.messages ++ (f a).messages, (f a).result⟩
  | .error e => ⟨x.messages, .error e⟩

instance : Monad (Logged τ) where
  pure a := ⟨[], .ok a⟩
  bind := bind

/-- The result does not depend on what is remarked on the way. -/
theorem result_bind (x : Logged τ α) (f : α → Logged τ β) :
    (x >>= f).result = x.result >>= fun a => (f a).result := by
  show (Logged.bind x f).result = _
  unfold Logged.bind
  cases x.result <;> rfl

/-- After a result the computation goes on with it. -/
theorem result_bind_ok {x : Logged τ α} {a : α} (h : x.result = .ok a) (f : α → Logged τ β) :
    (x >>= f).result = (f a).result := by
  rw [result_bind, h]
  rfl

theorem result_bind_error {x : Logged τ α} {e : Error} (h : x.result = .error e)
    (f : α → Logged τ β) : (x >>= f).result = .error e := by
  rw [result_bind, h]
  rfl

end Logged

end PowerTrace
