import PowerTrace.Trace.Ftrace

/-!
# Trace formats

The formats that a trace file can have, told apart by its first line.

* `TraceFormat`: one format;
* `TraceFormats`: the formats that are known, looked up by name or by file.
-/

namespace PowerTrace

open Text

/-- A format of trace files. -/
structure TraceFormat where
  /-- The name it is asked for by. -/
  name : String
  /-- Whether a file with this first line is in this format. -/
  recognizes : List Char → Bool
  /-- Read a file of this format. -/
  read : List FileLine → Logged Float Trace

/-- Traces that hold the description of their machine. -/
def nativeFormat : TraceFormat where
  name := "idlestat"
  recognizes := hasHeader
  read := nativeTrace

/-- Traces of the kernel, recorded on a given host. -/
def ftraceFormat (host : Host) : TraceFormat where
  name := "ftrace"
  recognizes := isKernelTrace
  read := ftraceTrace host

/-- The formats that are known, in the order they are tried. -/
abbrev TraceFormats := List TraceFormat

namespace TraceFormats

/-- All formats, for traces read on a given host. -/
def all (host : Host) : TraceFormats := [nativeFormat, ftraceFormat host]

/-- Add a format at the end, in the place of any that has its name. -/
def register (fs : TraceFormats) (f : TraceFormat) : TraceFormats :=
  fs.filter (·.name != f.name) ++ [f]

/-- The names of the formats. -/
def names (fs : TraceFormats) : List String := fs.map (·.name)

/-- The format with a given name. -/
def named (fs : TraceFormats) (name : String) : Except Error TraceFormat :=
  match fs.find? (·.name == name) with
  | some f => .ok f
  | none => .error (.unknownTraceFormat name)

/-- The first format that recognises a file. -/
def detect (fs : TraceFormats) (files : FileTree) (path : String) : Except Error TraceFormat :=
  if fs.isEmpty then .error (.unrecognizedTrace path)
  else match files.read path with
    | .error e => .error (.io e)
    | .ok bytes =>
      match firstLine bytes with
      | .error e => .error (.io e)
      | .ok line =>
        match fs.find? (·.recognizes line) with
        | some f => .ok f
        | none => .error (.unrecognizedTrace path)

/-- Read a file in the format that recognises it. -/
def load (fs : TraceFormats) (files : FileTree) (path : String) : Logged Float Trace := do
  let f ← Logged.ofExcept (fs.detect files path)
  Logged.remark (.loading path f.name)
  match files.read path with
  | .error e => Logged.fail (.io e)
  | .ok bytes => f.read (fileLines bytes)

end TraceFormats

end PowerTrace
