import PowerTrace.Host
import PowerTrace.Trace.Native

/-!
# Kernel traces

The text that the kernel's tracer writes: comment lines, one of which may tell the number of CPUs,
then event lines.  The machine is the host that the trace is read on.

* `commentCpus?`: the number of CPUs in a comment;
* `ftraceTrace`: read such a trace.
-/

namespace PowerTrace

open Text

/-- Whether a line is a comment. -/
def isComment (line : List Char) : Bool := line.head? == some '#'

/-- The number of CPUs in a comment: the digits after `#P:`. -/
def commentCpus? (line : List Char) : Option CpuId := do
  let (_, rest) ← splitAt? "#P:".toList line
  word32? (rest.takeWhile Char.isDigit)

/-- The number of CPUs that the comments at the front tell last, starting from `n`, and the lines
that follow them. -/
def readComments (n : CpuId) : List FileLine → Except Error (CpuId × List FileLine)
  | [] => .ok (n, [])
  | .error e :: _ => .error (.io e)
  | .ok line :: rest =>
    if isComment line then readComments ((commentCpus? line).getD n) rest
    else .ok (n, .ok line :: rest)

/-- Whether a trace with this first line is a kernel trace. -/
def isKernelTrace (firstLine : List Char) : Bool := (after? "# tracer".toList firstLine).isSome

/-- Read a kernel trace on a host. -/
def ftraceTrace (host : Host) (lines : List FileLine) : Logged Float Trace := do
  let (n, lines) ← Logged.ofExcept (readComments 0 lines)
  if n = 0 then Logged.fail (.parse "Cannot load trace file (nrcpus == 0)")
  else
    Logged.remarks (host.messages n)
    let (events, skipped) ← readEvents lines
    pure ⟨host.describeOrFlat n, events, skipped⟩

end PowerTrace
