import PowerTrace.Description
import PowerTrace.FileTree
import PowerTrace.Message
import PowerTrace.Text.Blank
import PowerTrace.Text.Number

/-!
# The description of a host

A host describes its CPUs in a directory with an entry `cpu0`, `cpu1` and so on for each.  An entry
may say whether the CPU is online, which package and core it is part of, and which idle states it
has.  What it does not say has a default.

* `Host.cpuIds`, `placements`, `states`: the parts of the description;
* `Host.describe`: all of it;
* `Host.describeOrFlat`: all of it if it fits a number of CPUs, else one cluster of single CPUs.
-/

namespace PowerTrace

/-- A directory with the CPUs of a host. -/
structure Host where
  /-- The files that can be seen. -/
  files : FileTree
  /-- The path of the directory. -/
  root : String

namespace Host

/-- The path of something in the directory. -/
def path (h : Host) (steps : List String) : String := "/".intercalate (h.root :: steps)

/-- The text of a file, without blanks at its ends, if it can be read. -/
def value? (h : Host) (steps : List String) : Option (List Char) :=
  (h.files.readText (h.path steps)).toOption.map fun s => Text.trim s.toList

/-- The number in a name such as `cpu3`. -/
def numberAfter? {α : Type} (lead : String) (number? : List Char → Option α) (name : String) :
    Option α :=
  (Text.after? lead.toList name.toList).bind number?

/-- The name of the directory of a CPU. -/
def cpuDir (cpu : CpuId) : String := "cpu" ++ toString cpu.toNat

/-- Whether the CPU with an entry of this name is online; it is if the entry does not say. -/
def isOnline (h : Host) (name : String) : Bool :=
  match h.value? [name, "online"] with
  | some s => s = ['1']
  | none => true

/-- The numbers of the CPUs online, ascending. -/
def cpuIds (h : Host) : Except Error (List CpuId) :=
  match h.files.list h.root with
  | .error e => .error (.io e)
  | .ok names =>
    .ok <| List.mergeSort <| names.filterMap fun name =>
      (numberAfter? "cpu" Text.word32? name).filter fun _ => h.isOnline name

/-- The place of a CPU.  Its cluster is zero if it has no number that a cluster can have, its core
has its own number if it has none. -/
def placement (h : Host) (cpu : CpuId) : Placement where
  cluster :=
    let number := (h.value? [cpuDir cpu, "topology", "physical_package_id"]).bind Text.int64?
    (number.bind Text.toWord32?).getD 0
  core := ((h.value? [cpuDir cpu, "topology", "core_id"]).bind Text.word32?).getD cpu
  cpu := cpu
  multiCpu := false

/-- The places of the CPUs online. -/
def placements (h : Host) : Except Error (List Placement) := do
  .ok ((← h.cpuIds).map h.placement)

/-- The idle state of a CPU in a directory of a given name and depth. -/
def state (h : Host) (cpu : CpuId) (dir : String) (depth : Nat) : StateDescriptor where
  cpu := cpu
  depth := depth
  name := ((h.value? [cpuDir cpu, "cpuidle", dir, "name"]).map String.ofList).getD dir
  target := (h.value? [cpuDir cpu, "cpuidle", dir, "residency"]).bind Text.word32?

/-- The idle states of a CPU by depth, none if it has no directory of them. -/
def states (h : Host) (cpu : CpuId) : Except Error (List StateDescriptor) :=
  let dir := h.path [cpuDir cpu, "cpuidle"]
  if !h.files.contains dir then .ok []
  else match h.files.list dir with
    | .error e => .error (.io e)
    | .ok names =>
      let found := names.filterMap fun name =>
        (numberAfter? "state" Text.word64? name).map (h.state cpu name)
      .ok (found.mergeSort fun a b => decide (a.depth ≤ b.depth))

/-- The description of the host.  A directory without CPUs is none. -/
def describe (h : Host) : Except Error Description := do
  let placements ← h.placements
  if placements.isEmpty then
    .error (.malformedTopology ("no cpu found under " ++ h.root))
  else
    let states ← placements.mapM fun p => h.states p.cpu
    .ok (.ofPlacements placements states.flatten)

/-- The description of the host if it has `n` CPUs; else one cluster of `n` CPUs, with the idle
states of the host if it could be read. -/
def describeOrFlat (h : Host) (n : CpuId) : Description :=
  match h.describe with
  | .ok d => if d.layout.cpuCount = n.toNat then d else ⟨.flat n, d.states⟩
  | .error _ => ⟨.flat n, []⟩

/-- What is remarked when the host is asked to fit `n` CPUs. -/
def messages {τ : Type} (h : Host) (n : CpuId) : List (Message τ) :=
  match h.describe with
  | .ok d => if d.layout.cpuCount = n.toNat then [] else [.hostMismatch d.layout.cpuCount n.toNat]
  | .error e => [.hostUnreadable e]

end Host

end PowerTrace
