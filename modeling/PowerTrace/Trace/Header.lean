import PowerTrace.Description
import PowerTrace.Text.Blank
import PowerTrace.Text.Lines
import PowerTrace.Text.Number

/-!
# Machine headers

The lines by which a trace describes the machine it was recorded on: the number of CPUs, the
clusters with their cores and CPUs, and for every CPU a table with two lines for each idle depth,
its name and its target residency.

* `headerLines`: the lines of a description;
* `MachineHeader.read`: what lines say, and the lines that follow.
-/

namespace PowerTrace

open Text

/-- The text that a trace with a header begins with. -/
def headerMagic : String := "idlestat version"

/-- The version of the format that is written. -/
def formatVersion : String := "0.1.0"

/-- What stands for the name of a depth that is not supported. -/
def noStateName : List Char := "(null)".toList

/-! ### Writing -/

/-- The digits of a number. -/
def decimal (n : Nat) : List Char := Nat.toDigits 10 n

/-- The lines of a core and its CPUs. -/
def CoreLayout.lines (k : CoreLayout) : List (List Char) :=
  ("\tcore".toList ++ decimal k.id.toNat) ::
    k.cpus.map fun cpu => "\t\tcpu".toList ++ decimal cpu.toNat

/-- The lines of a cluster.  Only the first 26 numbers have a letter. -/
def ClusterLayout.lines (c : ClusterLayout) : Except Error (List (List Char)) :=
  if c.id < 26 then
    let letter := Char.ofNat ('A'.toNat + c.id.toNat)
    .ok (("cluster".toList ++ [letter, ':']) :: c.cores.flatMap (·.lines))
  else
    .error (.malformedTopology ("cluster id " ++ toString c.id.toNat ++ " cannot be written"))

/-- The two lines of a depth. -/
def stateLines (s : Option StateInfo) : List (List Char) :=
  match s with
  | some s =>
    let target := match s.target with
      | some t => decimal t.toNat
      | none => "-1".toList
    ['\t' :: s.name.toList, '\t' :: target]
  | none => ['\t' :: noStateName, "\t-1".toList]

/-- What is said first about a depth of a CPU. -/
def Description.firstInfo? (d : Description) (cpu : CpuId) (depth : Nat) : Option StateInfo :=
  (d.states.find? (·.isFor cpu depth)).map (·.info)

/-- The table of a CPU. -/
def Description.tableLines (d : Description) (cpu : CpuId) : List (List Char) :=
  ("cpuid ".toList ++ decimal cpu.toNat ++ [':']) ::
    (List.range depthCount).flatMap fun depth => stateLines (d.firstInfo? cpu depth)

/-- The header of a description.  Tables are in the order of the CPU numbers. -/
def headerLines (d : Description) : Except Error (List (List Char)) := do
  let clusters ← d.layout.clusters.mapM (·.lines)
  .ok (((headerMagic ++ " = " ++ formatVersion).toList ::
      ("cpus=".toList ++ decimal d.layout.cpuCount) :: clusters.flatten) ++
    d.layout.cpuIds.mergeSort.flatMap d.tableLines)

/-- The text of a header. -/
def header (d : Description) : Except Error String := do
  .ok (String.ofList (unlines (← headerLines d)))

/-! ### Reading -/

/-- What a header says. -/
structure MachineHeader where
  /-- The number of CPUs it declares. -/
  cpuCount : CpuId
  /-- The clusters it lists. -/
  layout : Layout
  /-- The idle states it lists. -/
  states : List StateDescriptor
  deriving Repr

/-- Whether a trace with this first line has a header. -/
def hasHeader (firstLine : List Char) : Bool := (after? headerMagic.toList firstLine).isSome

/-- The first line and those after it, if there is one. -/
def nextLine : List FileLine → Except Error (Option (List Char) × List FileLine)
  | [] => .ok (none, [])
  | .ok line :: rest => .ok (some line, rest)
  | .error e :: _ => .error (.io e)

/-- The letters of the clusters. -/
def isUpperLetter (c : Char) : Bool := decide ('A' ≤ c) && decide (c ≤ 'Z')

/-- Change the last item of a list, if there is one. -/
def modifyLast {α : Type} (f : α → α) (xs : List α) : List α :=
  match xs.getLast? with
  | some x => xs.dropLast ++ [f x]
  | none => xs

/-- Add a core to the last cluster. -/
def Layout.addCore (l : Layout) (k : CoreLayout) : Layout :=
  ⟨modifyLast (fun c => { c with cores := c.cores ++ [k] }) l.clusters⟩

/-- Add a CPU to the last core of the last cluster. -/
def Layout.addCpu (l : Layout) (cpu : CpuId) : Layout :=
  ⟨modifyLast (fun c =>
    { c with cores := modifyLast (fun k => { k with cpus := k.cpus ++ [cpu] }) c.cores })
    l.clusters⟩

/-- The number at the end of a line. -/
def lineNumber (line digits : List Char) : Except Error CpuId :=
  match word32? (trim digits) with
  | some n => .ok n
  | none => .error (.parse ("bad topology line: " ++ String.ofList line))

/-- What a line adds to a layout, nothing if it is not about the layout.  A CPU may stand right
under its cluster, where it has a core of its own. -/
def Layout.addLine (l : Layout) (line : List Char) : Except Error (Option Layout) :=
  match after? "cluster".toList line with
  | some rest =>
    match rest.head?.filter isUpperLetter with
    | some letter =>
      let id : CpuId := .ofNat (letter.toNat - 'A'.toNat)
      .ok (some ⟨l.clusters ++ [⟨id, []⟩]⟩)
    | none => .error (.parse ("bad cluster line: " ++ String.ofList line))
  | none =>
    match l.clusters.getLast? with
    | none => .ok none
    | some cluster =>
      match after? "\t\tcpu".toList line with
      | some cpu => do
        if cluster.cores.isEmpty then
          .error (.malformedTopology ("cpu outside of a core: " ++ String.ofList (trim line)))
        else .ok (some (l.addCpu (← lineNumber line cpu)))
      | none =>
        match after? "\tcore".toList line with
        | some core => do .ok (some (l.addCore ⟨← lineNumber line core, true, []⟩))
        | none =>
          match after? "\tcpu".toList line with
          | some cpu => do
            let id ← lineNumber line cpu
            .ok (some (l.addCore ⟨id, false, [id]⟩))
          | none => .ok none

/-- The layout that lines add to one, and the lines from the first that adds nothing. -/
def readLayout (l : Layout) : List FileLine → Except Error (Layout × List FileLine)
  | [] => .ok (l, [])
  | .error e :: _ => .error (.io e)
  | .ok line :: rest => do
    match ← l.addLine line with
    | some l => readLayout l rest
    | none => .ok (l, .ok line :: rest)

/-- The CPU that a table begins with this line for. -/
def tableCpu? (line : List Char) : Option CpuId := do
  let rest ← after? "cpuid".toList line
  word32? (dropEndWhile (· == ':') (trim rest))

/-- The state that the two lines of a depth describe, if the depth is supported.  A target residency
that is negative, or too long, is unknown. -/
def readState (cpu : CpuId) (depth : Nat) (name residency : List Char) :
    Except Error (Option StateDescriptor) :=
  let name := trim name
  if name = noStateName then .ok none
  else match int64? (trim residency) with
    | some n => .ok (some ⟨cpu, depth, String.ofList name, toWord32? n⟩)
    | none =>
      .error (.parse ("bad residency for " ++ String.ofList name ++ " on cpu" ++
        toString cpu.toNat))

/-- A line of the table of a CPU. -/
def tableLine (cpu : CpuId) (lines : List FileLine) : Except Error (List Char × List FileLine) := do
  match ← nextLine lines with
  | (some line, rest) => .ok (line, rest)
  | (none, _) => .error (.parse ("truncated C-state table of cpu" ++ toString cpu.toNat))

/-- The states of `n` depths of a CPU, from a given depth on. -/
def readTable (cpu : CpuId) : (n depth : Nat) → List FileLine → Except Error (List StateDescriptor)
  | 0, _, _ => .ok []
  | n + 1, depth, lines => do
    let (name, lines) ← tableLine cpu lines
    let (residency, lines) ← tableLine cpu lines
    let state ← readState cpu depth name residency
    let states ← readTable cpu n (depth + 1) lines
    .ok (state.toList ++ states)

/-- The states of all tables, and the lines after the last one.  A table has two lines for each
depth. -/
def readTables : List FileLine → Except Error (List StateDescriptor × List FileLine)
  | .ok line :: rest =>
    match tableCpu? line with
    | some cpu => do
      let table ← readTable cpu depthCount 0 (rest.take (2 * depthCount))
      let (states, rest) ← readTables (rest.drop (2 * depthCount))
      .ok (table ++ states, rest)
    | none => .ok ([], .ok line :: rest)
  | .error e :: _ => .error (.io e)
  | [] => .ok ([], [])
termination_by lines => lines.length
decreasing_by
  rw [List.length_drop, List.length_cons]
  omega

/-- The number of CPUs that the second line declares. -/
def declaredCpus? (line : List Char) : Option CpuId :=
  ((after? "cpus=".toList (trim line)).bind word32?).filter (0 < ·)

/-- Read a header, and give the lines that follow it. -/
def MachineHeader.read (lines : List FileLine) : Except Error (MachineHeader × List FileLine) := do
  let (version, lines) ← nextLine lines
  let version := version.getD []
  if !hasHeader version then .error (.unrecognizedTrace (String.ofList version))
  else
    let (count, lines) ← nextLine lines
    match count.bind declaredCpus? with
    | none => .error (.parse "Cannot load trace file (nrcpus == 0)")
    | some cpuCount =>
      let (layout, lines) ← readLayout ⟨[]⟩ lines
      let (states, lines) ← readTables lines
      .ok (⟨cpuCount, layout, states⟩, lines)

end PowerTrace
