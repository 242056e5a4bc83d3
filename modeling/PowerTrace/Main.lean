import PowerTrace.CommandLine.Run

/-!
# The program

Reads the files that a command line names and the description of the host, runs the command on them,
and writes what it leaves behind.
-/

namespace PowerTrace

/-- The directory in which the host describes its CPUs. -/
def hostRoot : String := "/sys/devices/system/cpu"

/-- How many CPUs a host is looked through for. -/
def hostCpuBound : Nat := 1024

/-- The tree with a file of the host added, if there is one.  What cannot be read as a file counts
as a directory. -/
def addHostFile (t : FileTree) (path : String) : IO FileTree := do
  try
    let bytes ← IO.FS.readBinFile path
    return t.withFile path bytes
  catch
    | .noFileOrDirectory .. => return t
    | _ => return t.withDir path

/-- The files that describe a CPU, apart from its idle states. -/
def cpuFiles (cpu : Nat) : List String :=
  ["uevent", "online", "topology/physical_package_id", "topology/core_id"].map fun name =>
    hostRoot ++ "/cpu" ++ toString cpu ++ "/" ++ name

/-- The files that describe the idle states of a CPU. -/
def stateFiles (cpu : Nat) : List String :=
  (List.range depthCount).flatMap fun depth => ["name", "residency"].map fun name =>
    hostRoot ++ "/cpu" ++ toString cpu ++ "/cpuidle/state" ++ toString depth ++ "/" ++ name

/-- The tree with the description of a CPU added, if the host has it. -/
def addHostCpu (t : FileTree) (cpu : Nat) : IO FileTree := do
  let found ← (cpuFiles cpu).foldlM addHostFile t
  if found.contains (hostRoot ++ "/cpu" ++ toString cpu) then
    (stateFiles cpu).foldlM addHostFile found
  else return t

/-- The directory that a path leads into, if it names one. -/
def parent? (path : String) : Option String :=
  (Text.beforeLast? '/' path.toList).map String.ofList

/-- The files that an analysis may look at. -/
def Arguments.paths (a : Arguments) (home : Option String) : List String :=
  [a.trace, a.settings.getD (Settings.path home)] ++ a.baseline.toList ++ a.output.toList

/-- The host with all files that an analysis may look at. -/
def hostFor (a : Arguments) (home : Option String) : IO Host := do
  let start := match a.output.bind parent? with
    | some dir => (FileTree.dir []).withDir dir
    | none => .dir []
  let files ← (a.paths home).foldlM addHostFile start
  let files ← (List.range hostCpuBound).foldlM addHostCpu files
  return ⟨files, hostRoot⟩

/-- The name of a severity. -/
def Severity.name : Severity → String
  | warn => "WARN"
  | info => "INFO"
  | debug => "DEBUG"

/-- A failure in words. -/
def Failure.message : Failure → String
  | error e => e.message
  | output e => e.text

/-- Write what a run leaves behind, and give the code that the program ends with. -/
def finishRun (a : Arguments) (o : Outcome) : IO UInt32 := do
  for m in o.messages do
    IO.eprintln ("[" ++ m.severity.name ++ "] " ++ m.shownText)
  IO.print o.output
  if let some path := a.output then
    if let .ok bytes := o.files.read path then
      if o.failure.isNone || bytes.isEmpty then IO.FS.writeBinFile path bytes
  match o.failure with
  | some f =>
    IO.eprintln ("Error: " ++ f.message)
    return 1
  | none => return 0

/-- Run the command that the words of a command line give. -/
def runWords (words : List String) : IO UInt32 := do
  match Command.ofWords? words with
  | none =>
    IO.eprint usage
    return 2
  | some .version =>
    IO.print versionLine
    return 0
  | some .help =>
    IO.print usage
    return 0
  | some (.analyze a) =>
    let home ← IO.getEnv "HOME"
    finishRun a (a.run (← hostFor a home) home)

end PowerTrace

/-- The program: its code is 0, 1 after a failure and 2 for a command line that cannot be read. -/
def main (args : List String) : IO UInt32 := PowerTrace.runWords args
