import PowerTrace.SettingsFile
import PowerTrace.Text.Blank

/-!
# Command lines

What is asked for on a command line.  There are *flags*, which stand alone, and *options*, which
take a value.  Each has a long name after two hyphens and most have a letter after one; letters may
stand together, and the value of an option is the rest of its word or the next word.

* `Command.ofWords?`: the command that the words of a line give, nothing if they are misused.
-/

namespace PowerTrace

/-- What may stand alone. -/
inductive Flag where
  /-- Show idle states. -/
  | idle
  /-- Show frequencies. -/
  | frequency
  /-- Show wake-up sources. -/
  | wakeup
  /-- Write JSON instead of a report. -/
  | json
  /-- Say everything. -/
  | verbose
  /-- Say only what is wrong. -/
  | quiet
  /-- Tell the version. -/
  | version
  /-- Tell how the program is used. -/
  | help
  deriving DecidableEq, Repr

/-- What takes a value. -/
inductive Key where
  /-- The trace to analyse. -/
  | trace
  /-- The trace to compare it with. -/
  | baseline
  /-- The format of the report. -/
  | format
  /-- The file to write to. -/
  | output
  /-- The settings file. -/
  | settings
  deriving DecidableEq, Repr

/-- Whether the value is a path, which is never empty. -/
def Key.isPath : Key → Bool
  | format => false
  | trace | baseline | output | settings => true

/-- What a word of a command line can name. -/
inductive Name where
  /-- A flag. -/
  | flag (f : Flag)
  /-- An option. -/
  | key (k : Key)
  deriving DecidableEq, Repr

/-- The long names. -/
def longNames : List (String × Name) := [
  ("trace-file", .key .trace), ("baseline", .key .baseline), ("report-format", .key .format),
  ("output-file", .key .output), ("config", .key .settings), ("idle", .flag .idle),
  ("frequency", .flag .frequency), ("wakeup", .flag .wakeup), ("json", .flag .json),
  ("verbose", .flag .verbose), ("quiet", .flag .quiet), ("version", .flag .version),
  ("help", .flag .help)]

/-- The letters. -/
def letters : List (Char × Name) := [
  ('f', .key .trace), ('b', .key .baseline), ('r', .key .format), ('o', .key .output),
  ('c', .flag .idle), ('p', .flag .frequency), ('w', .flag .wakeup), ('v', .flag .verbose),
  ('q', .flag .quiet), ('V', .flag .version), ('h', .flag .help)]

/-- What an analysis is asked to do. -/
structure Arguments where
  /-- The trace to analyse. -/
  trace : String
  /-- The trace to compare it with. -/
  baseline : Option String
  /-- The format of the report. -/
  format : Option String
  /-- The file to write to. -/
  output : Option String
  /-- The settings file. -/
  settings : Option String
  /-- The flags. -/
  flags : List Flag
  deriving Repr

/-- What a command line asks for. -/
inductive Command where
  /-- Tell the version. -/
  | version
  /-- Tell how the program is used. -/
  | help
  /-- Analyse a trace. -/
  | analyze (args : Arguments)
  deriving Repr

/-- What was given on a command line so far. -/
structure Given where
  /-- The flags. -/
  flags : List Flag
  /-- The options with their values. -/
  values : List (Key × String)

namespace Given

/-- Nothing yet. -/
def empty : Given := ⟨[], []⟩

/-- Add a flag, unless it was given before. -/
def addFlag (g : Given) (f : Flag) : Option Given :=
  if f ∈ g.flags then none else some { g with flags := g.flags ++ [f] }

/-- Add an option, unless it was given before.  A path must not be empty. -/
def addValue (g : Given) (k : Key) (value : String) : Option Given :=
  if (g.values.lookup k).isSome || (k.isPath && value.isEmpty) then none
  else some { g with values := g.values ++ [(k, value)] }

/-- The analysis that is asked for.  It needs a trace, and cannot be both verbose and quiet. -/
def finish (g : Given) : Option Command := do
  let trace ← g.values.lookup .trace
  if .verbose ∈ g.flags && .quiet ∈ g.flags then none
  else some (.analyze {
    trace := trace
    baseline := g.values.lookup .baseline
    format := g.values.lookup .format
    output := g.values.lookup .output
    settings := g.values.lookup .settings
    flags := g.flags })

end Given

/-- Where a command line stands after a word. -/
inductive Progress where
  /-- It may go on. -/
  | ready (g : Given)
  /-- The next word is the value of an option. -/
  | awaiting (g : Given) (k : Key)
  /-- It is settled, whatever follows. -/
  | settled (c : Command)

/-- Go on with a flag.  The version and the usage are told as soon as they are asked for. -/
def Given.takeFlag (g : Given) : Flag → Option Progress
  | .version => some (.settled .version)
  | .help => some (.settled .help)
  | f => (g.addFlag f).map .ready

/-- Go on with letters that stand together. -/
def Given.takeLetters (g : Given) : List Char → Option Progress
  | [] => some (.ready g)
  | c :: rest =>
    match letters.lookup c with
    | none => none
    | some (.key k) =>
      match rest with
      | [] => some (.awaiting g k)
      | '=' :: value => (g.addValue k (String.ofList value)).map .ready
      | value => (g.addValue k (String.ofList value)).map .ready
    | some (.flag f) =>
      match g.takeFlag f with
      | some (.ready g) => takeLetters g rest
      | other => other

/-- Go on with a long name and the value that is joined to it, if any. -/
def Given.takeLong (g : Given) (name : String) (value : Option String) : Option Progress :=
  match longNames.lookup name, value with
  | some (.flag f), none => g.takeFlag f
  | some (.key k), some value => (g.addValue k value).map .ready
  | some (.key k), none => some (.awaiting g k)
  | _, _ => none

/-- Go on with a word that begins with a hyphen and is longer than that. -/
def Given.takeWord (g : Given) (word : List Char) : Option Progress :=
  match word with
  | '-' :: '-' :: long =>
    match Text.splitAt? ['='] long with
    | some (name, value) => g.takeLong (String.ofList name) (some (String.ofList value))
    | none => g.takeLong (String.ofList long) none
  | '-' :: c :: rest => g.takeLetters (c :: rest)
  | _ => none

/-- Whether a word cannot be the value of the option before it. -/
def looksLikeOption (word : List Char) : Bool :=
  match word with
  | '-' :: _ :: _ => true
  | _ => false

/-- Go on with the words of a command line.  Two hyphens alone end the options, and nothing else may
follow. -/
def Given.takeWords (g : Given) : List String → Option Command
  | [] => g.finish
  | "--" :: rest => if rest.isEmpty then g.finish else none
  | word :: rest =>
    match g.takeWord word.toList with
    | none => none
    | some (.settled c) => some c
    | some (.ready g) => takeWords g rest
    | some (.awaiting g k) =>
      match rest with
      | [] => none
      | value :: rest =>
        if looksLikeOption value.toList then none
        else match g.addValue k value with
          | some g => takeWords g rest
          | none => none

/-- The command that the words of a command line give. -/
def Command.ofWords? (words : List String) : Option Command := Given.empty.takeWords words

end PowerTrace
