/-!
# Errors

One type for everything that can stop an operation, with the wording of each in `Error.message`.
Only two of them let a replay go on: an event for a CPU that is not there, and an event for a depth
that does not exist.
-/

namespace PowerTrace

/-- A CPU, core or cluster number, and any other quantity that is 32 bits wide. -/
abbrev CpuId := UInt32

/-- Why a file or directory could not be read or written. -/
inductive IoError where
  /-- Nothing has this path. -/
  | notFound
  /-- A step on the way is a file. -/
  | notDirectory
  /-- A directory where a file is wanted. -/
  | isDirectory
  /-- The bytes read are not UTF-8. -/
  | invalidText
  /-- Any other reason, in words. -/
  | other (text : String)
  deriving DecidableEq, Repr

namespace IoError

/-- The reason in words. -/
def text : IoError → String
  | notFound => "No such file or directory (os error 2)"
  | notDirectory => "Not a directory (os error 20)"
  | isDirectory => "Is a directory (os error 21)"
  | invalidText => "stream did not contain valid UTF-8"
  | other t => t

end IoError

/-- What can stop an operation. -/
inductive Error where
  /-- An event names a CPU that is not part of the topology. -/
  | unknownCpu (cpu : CpuId)
  /-- An idle event carries a depth that does not exist. -/
  | unknownDepth (cpu : CpuId) (depth : Nat)
  /-- A table could not grow. -/
  | allocation (detail : String)
  /-- A layout declares a group without members, or a CPU twice. -/
  | malformedTopology (detail : String)
  /-- A baseline does not line up with the run it is attached to. -/
  | inconsistentBaseline (detail : String)
  /-- A file could not be read or written. -/
  | io (cause : IoError)
  /-- A document does not hold what is asked of it. -/
  | json (detail : String)
  /-- A trace cannot be decoded. -/
  | parse (detail : String)
  /-- A setting is missing or wrong. -/
  | config (detail : String)
  /-- No trace format has this name. -/
  | unknownTraceFormat (name : String)
  /-- No report format has this name. -/
  | unknownReportFormat (name : String)
  /-- No trace format recognises this file. -/
  | unrecognizedTrace (what : String)
  /-- Anything else. -/
  | other (text : String)
  deriving DecidableEq, Repr

namespace Error

/-- The wording of an error. -/
def message : Error → String
  | unknownCpu cpu => "CPU " ++ toString cpu.toNat ++ " is not part of the topology"
  | unknownDepth cpu depth =>
    "C-state depth " ++ toString depth ++ " on CPU " ++ toString cpu.toNat ++ " is out of range"
  | allocation d => "Allocation failure: " ++ d
  | malformedTopology d => "Malformed topology: " ++ d
  | inconsistentBaseline d => "Inconsistent baseline: " ++ d
  | io cause => "I/O error: " ++ cause.text
  | json d => "JSON error: " ++ d
  | parse d => "Parse error: " ++ d
  | config d => "Configuration error: " ++ d
  | unknownTraceFormat name => "Unknown trace format: " ++ name
  | unknownReportFormat name => "Unknown report format: " ++ name
  | unrecognizedTrace what => "Unrecognized trace file: " ++ what
  | other text => text

/-- Whether a replay may drop the offending event and go on.  Any other error would leave the
statistics incomplete without saying so. -/
def isRecoverable : Error → Bool
  | unknownCpu _ => true
  | unknownDepth _ _ => true
  | _ => false

end Error

/-- What goes on to a result has a result to go on with. -/
theorem exists_of_bind_eq_ok {α β : Type} {x : Except Error α} {f : α → Except Error β} {b : β}
    (h : x >>= f = .ok b) : ∃ a, x = .ok a ∧ f a = .ok b := by
  cases x with
  | error e => cases h
  | ok a => exact ⟨a, rfl, h⟩

end PowerTrace
