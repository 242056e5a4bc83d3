import PowerTrace.Event
import PowerTrace.Message
import PowerTrace.Text.Blank
import PowerTrace.Text.Lines
import PowerTrace.Text.Number

/-!
# Event lines

A line of a trace is an event if it holds the tag of one of four kinds of event.  The instant is the
last word before the tag; what follows the tag are fields `key=value`, or for an inter-processor
interrupt a name in parentheses.  Interrupts are told their CPU by a column in brackets.

* `EventTag`: the kinds of event;
* `event?`: the event of a line, an error if it has a tag and cannot be read, nothing without a tag;
* `readEvents`: the events of many lines, the ones that cannot be read counted.
-/

namespace PowerTrace

open Text

/-- The kinds of event that a line can be tagged with. -/
inductive EventTag where
  /-- A CPU enters or leaves an idle state. -/
  | idle
  /-- The frequency of a CPU changes. -/
  | frequency
  /-- An interrupt is handled. -/
  | interrupt
  /-- An inter-processor interrupt is handled. -/
  | ipi
  deriving DecidableEq, Repr

namespace EventTag

/-- The text of a tag. -/
def text : EventTag → List Char
  | idle => "cpu_idle:".toList
  | frequency => "cpu_frequency:".toList
  | interrupt => "irq_handler_entry:".toList
  | ipi => "ipi_entry:".toList

/-- What a line with this tag is called. -/
def recordName : EventTag → String
  | idle => "cpuidle"
  | frequency => "cpufreq"
  | interrupt => "irq_handler_entry"
  | ipi => "ipi_entry"

/-- The error for a line with this tag that cannot be read. -/
def malformed (t : EventTag) : Error := .parse ("malformed " ++ t.recordName ++ " record")

/-- All tags, in the order they are looked for. -/
def all : List EventTag := [idle, frequency, interrupt, ipi]

end EventTag

/-- A line that has a tag, split at its first occurrence. -/
structure TaggedLine where
  /-- The tag. -/
  tag : EventTag
  /-- What stands before it. -/
  lead : List Char
  /-- What follows it. -/
  payload : List Char
  deriving Repr

/-- Split a line at the first tag of the list that it holds. -/
def TaggedLine.ofLine? (line : List Char) : List EventTag → Option TaggedLine
  | [] => none
  | tag :: rest =>
    match splitAt? tag.text line with
    | some (lead, payload) => some ⟨tag, lead, payload⟩
    | none => ofLine? line rest

/-- The instant of an event: the last word before the tag, without the colons at its end. -/
def instant? (lead : List Char) : Option Float :=
  (words lead).getLast?.bind fun w => float? (dropEndWhile (· == ':') w)

/-- The CPU of a line: the number in the first brackets. -/
def bracketCpu? (line : List Char) : Option CpuId := do
  let (_, rest) ← splitAt? ['['] line
  let (inside, _) ← splitAt? [']'] rest
  word32? (trim inside)

/-- The value of the first word that has the form `key=value`. -/
def field? (key : String) (payload : List Char) : Option (List Char) :=
  (words payload).findSome? (after? (key ++ "=").toList)

/-- The text between the first opening parenthesis and the last closing one. -/
def parenthesized? (payload : List Char) : Option (List Char) := do
  let (_, rest) ← splitAt? ['('] payload
  (beforeLast? ')' rest).map trim

/-- The state number that stands for leaving idle. -/
def idleExitState : Int := 4294967295

/-- The event of an idle line.  A negative state stands for leaving idle too. -/
def idleKind (state : Int) : EventKind :=
  if state = idleExitState || state < 0 then .idleExit else .idleEnter state.toNat

/-- The CPU and the event of a tagged line.  Frequencies are given in kHz. -/
def TaggedLine.kind? (t : TaggedLine) (line : List Char) : Option (CpuId × EventKind) :=
  match t.tag with
  | .idle => do
    let state ← (field? "state" t.payload).bind int64?
    let cpu ← (field? "cpu_id" t.payload).bind word32?
    some (cpu, idleKind state)
  | .frequency => do
    let khz ← (field? "state" t.payload).bind word64?
    let cpu ← (field? "cpu_id" t.payload).bind word32?
    if khz * 1000 < UInt64.size then some (cpu, .freqChange (khz * 1000)) else none
  | .interrupt => do
    let cpu ← bracketCpu? line
    let id ← (field? "irq" t.payload).bind int32?
    let name ← field? "name" t.payload
    some (cpu, .wakeup (some id) (String.ofList name))
  | .ipi => do
    let cpu ← bracketCpu? line
    let name ← parenthesized? t.payload
    some (cpu, .wakeup none (String.ofList name))

/-- The event of a line, if it has a tag. -/
def event? (line : List Char) : Option (Except Error (Event Float)) :=
  (TaggedLine.ofLine? line EventTag.all).map fun t =>
    match instant? t.lead, t.kind? line with
    | some time, some (cpu, kind) => .ok ⟨time, cpu, kind⟩
    | _, _ => .error t.tag.malformed

/-- The events of a list of lines and how many lines with a tag cannot be read.  Each of these is
remarked on; a line that is no text ends the trace. -/
def readEvents : List FileLine → Logged Float (List (Event Float) × Nat)
  | [] => pure ([], 0)
  | .error e :: _ => .fail (.io e)
  | .ok line :: rest =>
    match event? line with
    | none => readEvents rest
    | some (.ok event) => do
      let (events, skipped) ← readEvents rest
      pure (event :: events, skipped)
    | some (.error err) => do
      Logged.remark (.skippedRecord err (String.ofList (trim line)))
      let (events, skipped) ← readEvents rest
      pure (events, skipped + 1)

end PowerTrace
