import PowerTrace.CommandLine.Arguments
import PowerTrace.Document.Statistics
import PowerTrace.Report.Formats
import PowerTrace.Trace.Format

/-!
# Running a command

What a command does to the files it can see, and what it says.

* `Arguments.chosen`: the settings as the command line changes them;
* `Arguments.analysis`: the analysis that is asked for;
* `Arguments.run`, `Command.run`: all of it.

The output file is made when the analysis is done, before its contents are.
-/

namespace PowerTrace

/-- Why a run failed. -/
inductive Failure where
  /-- An operation of the library failed. -/
  | error (e : Error)
  /-- The output file could not be made. -/
  | output (e : IoError)
  deriving Repr

/-- What a run leaves behind. -/
structure Outcome where
  /-- Why it failed, if it did. -/
  failure : Option Failure
  /-- What it wrote to its standard output. -/
  output : String
  /-- What it remarked. -/
  messages : List (Message Float)
  /-- The files afterwards. -/
  files : FileTree

/-- Whether a message of a given severity is shown. -/
def Verbosity.shows : Verbosity → Severity → Bool
  | _, .warn => true
  | v, .info => v.isAboveQuiet
  | v, .debug => v.isVerbose

namespace Arguments

/-- Whether a flag was given. -/
def has (a : Arguments) (f : Flag) : Bool := a.flags.contains f

/-- The settings as the command line changes them.  A table flag hides the tables without one. -/
def chosen (a : Arguments) (s : Settings) : Settings :=
  let verbosity :=
    if a.has .verbose then .verbose else if a.has .quiet then .quiet else s.replay.verbosity
  let report := { s.report with format := a.format.getD s.report.format }
  { replay := { s.replay with verbosity }
    report :=
      if a.has .idle || a.has .frequency || a.has .wakeup then
        { report with
          idle := a.has .idle
          frequency := a.has .frequency
          wakeup := a.has .wakeup }
      else report }

/-- The settings in the file that is named, or in the default one. -/
def loadSettings (a : Arguments) (files : FileTree) (home : Option String) :
    Except Error Settings := do
  let s ← match a.settings with
    | some path => Settings.loadFrom files path
    | none => Settings.load files home
  .ok (a.chosen s)

/-- Read and replay a trace. -/
def replay (host : Host) (o : ReplayOptions) (path : String) : Logged Float (Analysis Float) := do
  let trace ← TraceFormats.load (TraceFormats.all host) host.files path
  analyzeLogged trace.description trace.events o

/-- The analysis of the trace, compared with the baseline if there is one. -/
def analysis (a : Arguments) (host : Host) (o : ReplayOptions) :
    Logged Float (Analysis Float) := do
  let run ← replay host o a.trace
  match a.baseline with
  | none => pure run
  | some path => do
    let baseline ← replay host o path
    Logged.ofExcept (run.attachBaseline baseline)

/-- What is written: the report, or the statistics as JSON. -/
def content (a : Arguments) (f : Format) (o : ReportOptions) (run : Analysis Float) :
    Except Error String :=
  if a.has .json then .ok run.json else f.render o run

/-- The files after the output file is made, still empty. -/
def makeOutput (a : Arguments) (files : FileTree) : Except IoError FileTree :=
  match a.output with
  | some path => files.write path .empty
  | none => .ok files

/-- Write text to the output file, or to the standard output without one. -/
def deliver (a : Arguments) (files : FileTree) (messages : List (Message Float)) (text : String) :
    Outcome :=
  match a.output with
  | none => ⟨none, text, messages, files⟩
  | some path =>
    match files.write path text.toUTF8 with
    | .ok files => ⟨none, "", messages, files⟩
    | .error e => ⟨some (.output e), "", messages, files⟩

/-- Run an analysis on a host whose files can be seen. -/
def run (a : Arguments) (host : Host) (home : Option String) : Outcome :=
  let files := host.files
  match a.loadSettings files home with
  | .error e => ⟨some (.error e), "", [], files⟩
  | .ok s =>
    match Report.formatNamed s.report.format with
    | .error e => ⟨some (.error e), "", [], files⟩
    | .ok f =>
      let logged := a.analysis host s.replay
      let messages := logged.messages.filter fun m => s.replay.verbosity.shows m.severity
      match logged.result with
      | .error e => ⟨some (.error e), "", messages, files⟩
      | .ok analysis =>
        match a.makeOutput files with
        | .error e => ⟨some (.output e), "", messages, files⟩
        | .ok files =>
          match a.content f s.report analysis with
          | .error e => ⟨some (.error e), "", messages, files⟩
          | .ok text => a.deliver files messages text

end Arguments

/-- The line that tells the version. -/
def versionLine : String := programName ++ " " ++ programVersion ++ "\n"

/-- The lines that tell how the program is used. -/
def usage : String :=
  "Usage: " ++ programName ++ " [OPTIONS] --trace-file <TRACE>\n"

/-- Run a command. -/
def Command.run (host : Host) (home : Option String) : Command → Outcome
  | .version => ⟨none, versionLine, [], host.files⟩
  | .help => ⟨none, usage, [], host.files⟩
  | .analyze a => a.run host home

end PowerTrace
