import Mathlib.Data.List.Induction
import PowerTrace.Proofs.Places
import PowerTrace.Proofs.Transition

/-!
# One traversal builds the machine and its index

A machine can be built in one traversal of its layout that also writes down where every CPU sits, in an
ordered map from CPU numbers to places.  The traversal ends at the first group without members and at the
first number that is in the map already.

* `Topology.buildIndexed`: the machine and its index in one traversal;
* `Description.stateTable`: the idle states of a CPU, written one after the other into a table;
* `Agrees`: what a part of the traversal does, told by the layout items met there;
* `Topology.buildIndexed_eq`: the traversal builds the same machine, or fails for the same reason, and its
  index lists the places of that machine;
* `Topology.Resolves`: an index leads to the CPUs of a tree, and the searches end where it leads;
* `Topology.Populates`: what stands in the nodes of a machine that was just built;
* `Topology.build_indexes`: when a machine can be built, and what it is then;
* `Replay.resolves_index`: its index leads to its CPUs at every point of a replay.
-/

namespace PowerTrace

variable {τ : Type}

/-- Where every CPU sits, by CPU number. -/
abbrev CpuIndex := Std.TreeMap CpuId CpuPath

/-! ### The traversal -/

section Walk

variable {α β : Type}

/-- Build something of every item of a list, given its position, and hand the index on.  The first error
ends it. -/
def walkIndexed (f : Nat → α → CpuIndex → Except Error (β × CpuIndex)) :
    Nat → List α → CpuIndex → Except Error (List β × CpuIndex)
  | _, [], index => .ok ([], index)
  | i, a :: rest, index => do
    let (b, index) ← f i a index
    let (bs, index) ← walkIndexed f (i + 1) rest index
    .ok (b :: bs, index)

end Walk

/-- Write a state into the table of its CPU; one at a depth that no track has is passed over. -/
def StateDescriptor.write (table : Vector (Option StateInfo) depthCount) (s : StateDescriptor) :
    Vector (Option StateInfo) depthCount :=
  if h : s.depth < depthCount then table.set s.depth (some s.info) h else table

section Groups

variable [TimeValue τ]

/-- A core with given CPUs, which takes its idle states from the first of them, and no history. -/
def CoreLayout.core (k : CoreLayout) (cpus : List (Cpu τ)) : Core τ where
  id := k.id
  multiCpu := k.multiCpu || decide (1 < cpus.length)
  cpus := cpus
  cstates := groupCStates (cpus.map (·.cstates))
  pstates := .empty

/-- A cluster with given cores, which takes its idle states from the first of them, and no history. -/
def ClusterLayout.cluster (c : ClusterLayout) (cores : List (Core τ)) : Cluster τ where
  id := c.id
  cores := cores
  cstates := groupCStates (cores.map (·.cstates))
  pstates := .empty

end Groups

namespace Description

variable [TimeValue τ] (d : Description)

/-- The idle states of a CPU, written one after the other into a table that is empty at first. -/
def stateTable (cpu : CpuId) : Vector (Option StateInfo) depthCount :=
  (d.states.filter (·.cpu == cpu)).foldl StateDescriptor.write (.replicate depthCount none)

/-- A CPU at a given place, unless its number is in the index already. -/
def addCpu (cluster core cpu : Nat) (id : CpuId) (index : CpuIndex) : Except Error (Cpu τ × CpuIndex) :=
  let (seen, index) := index.containsThenInsert id ⟨cluster, core, cpu⟩
  if seen then .error (LayoutFault.duplicateCpu id).error
  else .ok (⟨id, .ofInfos (d.stateTable id).get, .empty, .empty⟩, index)

/-- A core at a given place in the cluster with a given number. -/
def addCore (id : CpuId) (cluster core : Nat) (k : CoreLayout) (index : CpuIndex) :
    Except Error (Core τ × CpuIndex) :=
  if k.cpus.isEmpty then .error (LayoutFault.emptyCore k.id id).error
  else do
    let (cpus, index) ← walkIndexed (d.addCpu cluster core) 0 k.cpus index
    .ok (k.core cpus, index)

/-- A cluster at a given place. -/
def addCluster (cluster : Nat) (c : ClusterLayout) (index : CpuIndex) : Except Error (Cluster τ × CpuIndex) :=
  if c.cores.isEmpty then .error (LayoutFault.emptyCluster c.id).error
  else do
    let (cores, index) ← walkIndexed (d.addCore c.id cluster) 0 c.cores index
    .ok (c.cluster cores, index)

end Description

/-- The machine of a description and the index of its CPUs, in one traversal. -/
def Topology.buildIndexed [TimeValue τ] (d : Description) : Except Error (Topology τ × CpuIndex) := do
  let (clusters, index) ← walkIndexed d.addCluster 0 d.layout.clusters ∅
  .ok (⟨clusters⟩, index)

/-! ### Tables of states -/

/-- The state that a table shows at a depth is the one written there last. -/
theorem get_foldl_write (states : List StateDescriptor) (depth : Depth) :
    (states.foldl StateDescriptor.write (.replicate depthCount none)).get depth =
      ((states.filter (·.depth == depth.val)).getLast?).map (·.info) := by
  induction states using List.reverseRecOn with
  | nil => exact Vector.getElem_replicate _
  | append_singleton states s ih =>
    rw [List.foldl_concat, List.filter_append, List.filter_singleton, StateDescriptor.write]
    cases hs : s.depth == depth.val with
    | true =>
      have hdepth := beq_iff_eq.mp hs
      have hlt : s.depth < depthCount := hdepth ▸ depth.isLt
      rw [dif_pos hlt, cond_true, List.getLast?_concat]
      have heq : depth = ⟨s.depth, hlt⟩ := Fin.ext hdepth.symm
      rw [heq]
      exact Vector.getElem_set_self _
    | false =>
      have hdepth := beq_eq_false_iff_ne.mp hs
      rw [cond_false, List.append_nil, ← ih]
      split
      · exact Vector.getElem_set_ne _ _ hdepth
      · rfl

/-- **The table of a CPU shows at every depth what is said last about it.** -/
theorem Description.get_stateTable (d : Description) (cpu : CpuId) (depth : Depth) :
    (d.stateTable cpu).get depth = d.info? cpu depth := by
  rw [stateTable, get_foldl_write, List.filter_filter, info?]
  simp only [StateDescriptor.isFor, Bool.and_comm]

/-! ### Reading in parts -/

section Reading

variable {seen seen' : List CpuId} {items : List LayoutItem} {id : CpuId}

theorem readItems_cpu_of_mem (rest : List LayoutItem) (h : id ∈ seen) :
    readItems seen (.cpu id :: rest) = ([], some (.duplicateCpu id)) := if_pos h

theorem readItems_cpu_of_not_mem (rest : List LayoutItem) (h : id ∉ seen) :
    readItems seen (.cpu id :: rest) =
      (id :: (readItems (id :: seen) rest).1, (readItems (id :: seen) rest).2) := if_neg h

/-- Which CPUs were seen matters, not in which order. -/
theorem readItems_congr (h : ∀ id, id ∈ seen ↔ id ∈ seen') (items : List LayoutItem) :
    readItems seen items = readItems seen' items := by
  induction items generalizing seen seen' with
  | nil => rfl
  | cons i rest ih =>
    cases i with
    | emptyCluster _ => rfl
    | emptyCore _ _ => rfl
    | cpu id =>
      have hmore : ∀ other, other ∈ id :: seen ↔ other ∈ id :: seen' := fun other => by
        rw [List.mem_cons, List.mem_cons, h]
      simp only [readItems, h, ih hmore]

/-- What comes after a fault is not read. -/
theorem readItems_append_of_fault {fault : LayoutFault} (rest : List LayoutItem)
    (h : (readItems seen items).2 = some fault) : (readItems seen (items ++ rest)).2 = some fault := by
  induction items generalizing seen with
  | nil => cases h
  | cons i items ih =>
    cases i with
    | emptyCluster _ => exact h
    | emptyCore _ _ => exact h
    | cpu id =>
      rw [List.cons_append]
      by_cases hs : id ∈ seen
      · rw [readItems_cpu_of_mem _ hs] at h ⊢
        exact h
      · rw [readItems_cpu_of_not_mem _ hs] at h ⊢
        exact ih h

/-- Without a fault reading goes on, with the CPUs read so far among those seen. -/
theorem readItems_append_of_none (rest : List LayoutItem) (h : (readItems seen items).2 = none)
    (hseen : ∀ id, id ∈ seen' ↔ id ∈ seen ∨ id ∈ (readItems seen items).1) :
    readItems seen (items ++ rest) =
      ((readItems seen items).1 ++ (readItems seen' rest).1, (readItems seen' rest).2) := by
  induction items generalizing seen with
  | nil => exact readItems_congr (fun id => by rw [hseen, readItems]; simp) rest
  | cons i items ih =>
    cases i with
    | emptyCluster _ => cases h
    | emptyCore _ _ => cases h
    | cpu id =>
      rw [List.cons_append]
      by_cases hs : id ∈ seen
      · rw [readItems_cpu_of_mem _ hs] at h
        cases h
      · rw [readItems_cpu_of_not_mem _ hs] at h hseen
        rw [readItems_cpu_of_not_mem _ hs, readItems_cpu_of_not_mem _ hs, ih h]
        · rfl
        · intro other
          rw [hseen, List.mem_cons, List.mem_cons, or_left_comm, or_assoc]

end Reading

/-! ### The traversal and the layout -/

/-- A part of the traversal does what reading the layout items met there says: it stops at the fault that
they lead to, and else it builds something and writes places into the index, one for every CPU read. -/
structure Agrees {β : Type} (items : List LayoutItem) (b : β) (places : List (CpuId × CpuPath))
    (f : CpuIndex → Except Error (β × CpuIndex)) : Prop where
  /-- Where it stops. -/
  stops : ∀ (index : CpuIndex) (fault : LayoutFault), (readItems index.keys items).2 = some fault →
    f index = .error fault.error
  /-- What it does where it does not stop. -/
  builds : ∀ index : CpuIndex, (readItems index.keys items).2 = none →
    f index = .ok (b, index.insertMany places) ∧ (readItems index.keys items).1 = places.map Prod.fst

namespace Agrees

variable {α β γ : Type}

/-- What is made of the result afterwards changes nothing else. -/
theorem map {items : List LayoutItem} {b : β} {places : List (CpuId × CpuPath)}
    {f : CpuIndex → Except Error (β × CpuIndex)} (h : Agrees items b places f) (make : β → γ) :
    Agrees items (make b) places fun index => do
      let (b, index) ← f index
      .ok (make b, index) where
  stops index fault hfault := by rw [h.stops index fault hfault]; rfl
  builds index hnone := by
    obtain ⟨hf, hids⟩ := h.builds index hnone
    exact ⟨by rw [hf]; rfl, hids⟩

/-- Behind a part that does not stop reading goes on with the CPUs of the index that this part leaves. -/
theorem readItems_append {items : List LayoutItem} {b : β} {places : List (CpuId × CpuPath)}
    {f : CpuIndex → Except Error (β × CpuIndex)} (h : Agrees items b places f) (rest : List LayoutItem)
    {index : CpuIndex} (hnone : (readItems index.keys items).2 = none) :
    readItems index.keys (items ++ rest) =
      (places.map Prod.fst ++ (readItems (index.insertMany places).keys rest).1,
        (readItems (index.insertMany places).keys rest).2) := by
  have hids := (h.builds index hnone).2
  rw [← hids]
  refine readItems_append_of_none _ hnone fun id => ?_
  rw [hids, Std.TreeMap.mem_keys, Std.TreeMap.mem_keys, Std.TreeMap.mem_insertMany_list,
    List.contains_iff_mem]

/-- Two parts, of which the second goes on with the index of the first, agree with the items of both,
whatever is made of what they build. -/
theorem andThen {δ : Type} {items items' : List LayoutItem} {b : β} {b' : γ}
    {places places' : List (CpuId × CpuPath)} {f : CpuIndex → Except Error (β × CpuIndex)}
    {g : CpuIndex → Except Error (γ × CpuIndex)} (h : Agrees items b places f)
    (h' : Agrees items' b' places' g) (make : β → γ → δ) :
    Agrees (items ++ items') (make b b') (places ++ places') fun index => do
      let (b, index) ← f index
      let (b', index) ← g index
      .ok (make b b', index) where
  stops index fault hfault := by
    cases hfirst : (readItems index.keys items).2 with
    | some first =>
      rw [readItems_append_of_fault _ hfirst] at hfault
      rw [h.stops index first hfirst, Option.some.inj hfault]
      rfl
    | none =>
      rw [h.readItems_append _ hfirst] at hfault
      rw [(h.builds index hfirst).1]
      show (g _ >>= _) = _
      rw [h'.stops _ fault hfault]
      rfl
  builds index hnone := by
    cases hfirst : (readItems index.keys items).2 with
    | some first =>
      rw [readItems_append_of_fault _ hfirst] at hnone
      cases hnone
    | none =>
      rw [h.readItems_append _ hfirst] at hnone ⊢
      obtain ⟨hg, hids⟩ := h'.builds _ hnone
      refine ⟨?_, by rw [List.map_append, ← hids]⟩
      rw [(h.builds index hfirst).1]
      show (g _ >>= _) = _
      rw [hg, Std.TreeMap.insertMany_append]
      rfl

/-- **Where every step agrees with its items, the walk agrees with all of them together.** -/
theorem walk {items : α → List LayoutItem} (build : α → β) (places : β → Nat → List (CpuId × CpuPath))
    {f : Nat → α → CpuIndex → Except Error (β × CpuIndex)}
    (h : ∀ i a, Agrees (items a) (build a) (places (build a) i) (f i a)) (l : List α) (i : Nat) :
    Agrees (l.flatMap items) (l.map build) (((l.map build).zipIdx i).flatMap fun (b, n) => places b n)
      (walkIndexed f i l) := by
  induction l generalizing i with
  | nil =>
    refine ⟨fun _ _ hfault => ?_, fun _ _ => ⟨rfl, rfl⟩⟩
    cases hfault
  | cons a rest ih =>
    rw [List.flatMap_cons, List.map_cons, List.zipIdx_cons, List.flatMap_cons]
    exact (h i a).andThen (ih (i + 1)) List.cons

/-- A group without members ends the traversal, and any other does what its members do. -/
theorem group {β : Type} {empty : Bool} {fault : LayoutFault} {items : List LayoutItem} {b : β}
    {places : List (CpuId × CpuPath)} {f : CpuIndex → Except Error (β × CpuIndex)} {i : LayoutItem}
    (hi : ∀ seen, (readItems seen [i]).2 = some fault) (h : Agrees items b places f) :
    Agrees (if empty then [i] else items) b places fun index =>
      if empty then .error fault.error else f index := by
  cases empty with
  | true =>
    refine ⟨fun index other hother => ?_, fun index hnone => ?_⟩
    · have hsame : fault = other := Option.some.inj ((hi index.keys).symm.trans hother)
      rw [hsame]
      rfl
    · exact absurd ((hi index.keys).symm.trans hnone) (Option.some_ne_none _)
  | false => exact h

end Agrees

/-! ### Every level of the traversal -/

namespace Description

variable [TimeValue τ] (d : Description)

theorem agrees_addCpu (cluster core cpu : Nat) (id : CpuId) :
    Agrees [.cpu id] (d.cpu id : Cpu τ) [(id, ⟨cluster, core, cpu⟩)] (d.addCpu cluster core cpu id) := by
  have hadd : ∀ index : CpuIndex, (d.addCpu cluster core cpu id index : Except Error (Cpu τ × CpuIndex)) =
      if id ∈ index.keys then .error (LayoutFault.duplicateCpu id).error
      else .ok (d.cpu id, index.insert id ⟨cluster, core, cpu⟩) := by
    intro index
    show (if (index.containsThenInsert id ⟨cluster, core, cpu⟩).1 = true then _
      else Except.ok (_, (index.containsThenInsert id ⟨cluster, core, cpu⟩).2)) = _
    rw [Std.TreeMap.containsThenInsert_fst, Std.TreeMap.containsThenInsert_snd, Description.cpu]
    rw [funext (d.get_stateTable id)]
    simp only [Std.TreeMap.mem_keys, Std.TreeMap.mem_iff_contains]
  constructor
  · intro index fault hfault
    rw [hadd]
    by_cases hs : id ∈ index.keys
    · rw [readItems_cpu_of_mem _ hs] at hfault
      rw [if_pos hs, ← Option.some.inj hfault]
    · rw [readItems_cpu_of_not_mem _ hs] at hfault
      cases hfault
  · intro index hnone
    by_cases hs : id ∈ index.keys
    · rw [readItems_cpu_of_mem _ hs] at hnone
      cases hnone
    · rw [hadd, if_neg hs, readItems_cpu_of_not_mem _ hs]
      exact ⟨rfl, rfl⟩

theorem agrees_addCore (id : CpuId) (cluster core : Nat) (k : CoreLayout) :
    Agrees (k.items id) (d.core k : Core τ) ((d.core k : Core τ).places cluster core)
      (d.addCore id cluster core k) := by
  have hcpus : Agrees (k.cpus.map .cpu) (k.cpus.map d.cpu : List (Cpu τ))
      ((d.core k : Core τ).places cluster core) (walkIndexed (d.addCpu cluster core) 0 k.cpus) := by
    have h := Agrees.walk (d.cpu : CpuId → Cpu τ) (fun c cpu => [(c.id, ⟨cluster, core, cpu⟩)])
      (fun cpu id => d.agrees_addCpu cluster core cpu id) k.cpus 0
    rwa [← List.map_eq_flatMap, ← List.map_eq_flatMap] at h
  have hcore : (d.core k : Core τ) = k.core (k.cpus.map d.cpu) := by
    rw [CoreLayout.core, List.length_map]
    rfl
  rw [hcore]
  exact Agrees.group (fun _ => rfl) (hcpus.map k.core)

theorem agrees_addCluster (cluster : Nat) (c : ClusterLayout) :
    Agrees c.items (d.cluster c : Cluster τ) ((d.cluster c : Cluster τ).places cluster)
      (d.addCluster cluster c) := by
  have hcores := Agrees.walk (d.core : CoreLayout → Core τ) (fun k core => k.places cluster core)
    (fun core k => d.agrees_addCore c.id cluster core k) c.cores 0
  exact Agrees.group (fun _ => rfl) (hcores.map c.cluster)

end Description

namespace Topology

variable {t : Topology τ}

/-- Where every CPU of a machine sits, by CPU number. -/
def index (t : Topology τ) : CpuIndex := .ofList t.places

/-- **One traversal builds the same machine, or fails for the same reason**, and its index lists the places
of that machine. -/
theorem buildIndexed_eq [TimeValue τ] (d : Description) :
    (buildIndexed d : Except Error (Topology τ × CpuIndex)) = (build d).map fun t => (t, t.index) := by
  have hwalk := Agrees.walk (d.cluster : ClusterLayout → Cluster τ) (fun u cluster => u.places cluster)
    d.agrees_addCluster d.layout.clusters 0
  have hfault : (readItems (∅ : CpuIndex).keys (d.layout.clusters.flatMap (·.items))).2 = d.layout.fault? := rfl
  rw [buildIndexed, build]
  cases hf : d.layout.fault? with
  | some fault =>
    rw [hwalk.stops ∅ fault (hfault.trans hf)]
    rfl
  | none =>
    rw [(hwalk.builds ∅ (hfault.trans hf)).1]
    rfl

/-! ### The index and the tree -/

/-- An index leads to the CPUs of a tree, and the searches for a CPU and its owners end where it leads. -/
structure Resolves (t : Topology τ) (index : CpuIndex) : Prop where
  /-- It lists as many CPUs as there are. -/
  size_eq : index.size = t.cpuCount
  /-- What is located is what it lists. -/
  locate_eq : ∀ id, t.locate id = (index[id]?).elim (.error (.unknownCpu id)) .ok
  /-- A number is located at a place exactly when the CPU there has it. -/
  locate_iff : ∀ id p, t.locate id = .ok p ↔ ∃ c, t.cpuAt? p = some c ∧ c.id = id
  /-- What stands along the way to a place is what the searches find. -/
  owners : ∀ id p, t.locate id = .ok p →
    ∃ u k c, t.clusters[p.cluster]? = some u ∧ u.cores[p.core]? = some k ∧ k.cpus[p.cpu]? = some c ∧
      c.id = id ∧ t.clusterOf? id = some u ∧ t.coreOf? id = some k ∧ t.cpu? id = some c
  /-- For a number that it does not list they find nothing. -/
  unknown : ∀ id, index[id]? = none → t.clusterOf? id = none ∧ t.coreOf? id = none ∧ t.cpu? id = none

/-- No two entries of a machine are for the same number. -/
theorem WellShaped.distinct_places (h : t.WellShaped) :
    t.places.Pairwise fun a b => ¬compare a.1 b.1 = .eq := by
  have hnd : (t.places.map Prod.fst).Nodup := t.map_fst_places ▸ h.nodup
  exact (List.pairwise_map.mp hnd).imp fun hne heq => hne (Std.LawfulEqCmp.compare_eq_iff_eq.mp heq)

/-- **The index lists every number with the place where the search ends.** -/
theorem WellShaped.getElem?_index (h : t.WellShaped) (id : CpuId) : t.index[id]? = t.path? id := by
  cases hp : t.path? id with
  | some p =>
    have hmem : (id, p) ∈ t.places := mem_places.mpr (h.path?_eq_some_iff.mp hp)
    exact Std.TreeMap.getElem?_ofList_of_mem (Std.LawfulEqCmp.compare_eq_iff_eq.mpr rfl) h.distinct_places hmem
  | none =>
    refine Std.TreeMap.getElem?_ofList_of_contains_eq_false ?_
    rw [map_fst_places, List.contains_eq_mem, decide_eq_false_iff_not, ← isSome_path?, hp]
    exact Bool.false_ne_true

theorem WellShaped.size_index (h : t.WellShaped) : t.index.size = t.cpuCount := by
  rw [index, Std.TreeMap.size_ofList h.distinct_places, ← List.length_map Prod.fst, map_fst_places, cpuIds,
    List.length_map, cpuCount]

/-- **The index of a machine leads to its CPUs.** -/
theorem WellShaped.resolves (h : t.WellShaped) : t.Resolves t.index where
  size_eq := h.size_index
  locate_eq id := by
    rw [h.getElem?_index, locate]
    cases t.path? id <;> rfl
  locate_iff _ _ := h.locate_eq_ok_iff
  owners _ _ := h.owners_of_locate
  unknown id hid := by
    rw [h.getElem?_index] at hid
    have hmem : id ∉ t.cpuIds := by
      rw [← isSome_path?, hid]
      exact Bool.false_ne_true
    exact (owners_of_not_mem hmem).2

/-- **Events leave the index as it is**: the one made with the machine leads to its CPUs after any of them. -/
theorem WellShaped.resolves_run [TimeValue τ] (h : t.WellShaped) (x : Extremum) (es : List (Event τ)) :
    (t.run x es).Resolves t.index := by
  have hindex : (t.run x es).index = t.index := by rw [index, places_run, index]
  exact hindex ▸ (h.run x es).resolves

/-! ### What stands in the nodes -/

/-- What stands in the nodes of a machine that was just built from a description. -/
structure Populates [TimeValue τ] (d : Description) (t : Topology τ) : Prop where
  /-- The CPUs are those of the layout, in the same order. -/
  cpus_eq : t.cpus.map (·.id) = d.layout.cpuIds
  /-- Every depth of a CPU shows the state described last for it, and is not supported without one. -/
  slot_eq : ∀ c ∈ t.cpus, ∀ depth : Depth, c.cstates.slot depth =
    match (d.states.filter fun s => s.cpu == c.id && s.depth == depth.val).getLast? with
    | some s => .described (some s.name) s.target
    | none => .unsupported
  /-- No CPU has a history. -/
  fresh : ∀ c ∈ t.cpus, c.cstates = .ofSlots c.cstates.slots ∧ c.pstates = .empty ∧ c.wakeups = .empty
  /-- A core carries the table of its first CPU and no frequencies. -/
  cores : ∀ k ∈ t.cores, ∃ c, k.cpus.head? = some c ∧ k.cstates = c.cstates ∧ k.pstates = .empty
  /-- A cluster carries the table of its first CPU and no frequencies. -/
  clusters : ∀ u ∈ t.clusters, ∃ c, u.cpus.head? = some c ∧ u.cstates = c.cstates ∧ u.pstates = .empty

end Topology

section Members

variable [TimeValue τ] (d : Description)

theorem Description.head?_cpus_core {k : CoreLayout} (h : k.cpus ≠ []) :
    ∃ id, (d.core k : Core τ).cpus.head? = some (d.cpu id) ∧
      (d.core k : Core τ).cstates = (d.cpu id : Cpu τ).cstates := by
  obtain ⟨id, rest, hcpus⟩ := List.exists_cons_of_ne_nil h
  refine ⟨id, ?_, ?_⟩
  · rw [core, hcpus]
    rfl
  · rw [core, hcpus]
    exact CStateTrack.ofTemplate_ofInfos _

theorem Description.head?_cpus_cluster {c : ClusterLayout} (hc : c.cores ≠ [])
    (hk : ∀ k ∈ c.cores, k.cpus ≠ []) :
    ∃ id, (d.cluster c : Cluster τ).cpus.head? = some (d.cpu id) ∧
      (d.cluster c : Cluster τ).cstates = (d.cpu id : Cpu τ).cstates := by
  obtain ⟨k, ks, hcores⟩ := List.exists_cons_of_ne_nil hc
  obtain ⟨id, hhead, hfirst⟩ :=
    d.head?_cpus_core (τ := τ) (hk k (hcores ▸ List.mem_cons_self))
  refine ⟨id, ?_, ?_⟩
  · rw [Cluster.cpus, cluster, hcores, List.map_cons, List.flatMap_cons, List.head?_append, hhead]
    rfl
  · rw [cluster, hcores]
    show CStateTrack.ofTemplate (d.core k : Core τ).cstates = _
    rw [hfirst]
    exact CStateTrack.ofTemplate_ofInfos _

end Members

/-- **A machine that was built is populated as described.** -/
theorem Topology.populates_of_build [TimeValue τ] {d : Description} {t : Topology τ} (h : build d = .ok t) :
    t.Populates d where
  cpus_eq := cpuIds_of_build h
  slot_eq c hc depth := by
    rw [cpus_of_build h] at hc
    obtain ⟨id, -, rfl⟩ := List.mem_map.mp hc
    rw [Description.cpu, CStateTrack.slot_ofInfos, Description.info?]
    show CState.ofInfo? (Option.map _ (List.filter _ _).getLast?) = _
    unfold StateDescriptor.isFor
    cases (d.states.filter fun s => s.cpu == id && s.depth == depth.val).getLast? <;> rfl
  fresh c hc := by
    rw [cpus_of_build h] at hc
    obtain ⟨id, -, rfl⟩ := List.mem_map.mp hc
    exact ⟨rfl, rfl, rfl⟩
  cores k hk := by
    obtain ⟨hfault, rfl⟩ := build_eq_ok_iff.mp h
    obtain ⟨-, hcpus, -⟩ := d.layout.fault?_eq_none_iff.mp hfault
    obtain ⟨u, hu, hk⟩ := List.mem_flatMap.mp hk
    obtain ⟨c, hc, rfl⟩ := List.mem_map.mp hu
    obtain ⟨k, hkm, rfl⟩ := List.mem_map.mp hk
    obtain ⟨id, hhead, hfirst⟩ := d.head?_cpus_core (τ := τ) (hcpus c hc k hkm)
    exact ⟨d.cpu id, hhead, hfirst, rfl⟩
  clusters u hu := by
    obtain ⟨hfault, rfl⟩ := build_eq_ok_iff.mp h
    obtain ⟨hcores, hcpus, -⟩ := d.layout.fault?_eq_none_iff.mp hfault
    obtain ⟨c, hc, rfl⟩ := List.mem_map.mp hu
    obtain ⟨id, hhead, hfirst⟩ := d.head?_cpus_cluster (τ := τ) (hcores c hc) (hcpus c hc)
    exact ⟨d.cpu id, hhead, hfirst, rfl⟩

/-- **Building a machine.**  It succeeds exactly when every cluster has a core, every core has a CPU and
no number occurs twice in the layout.  The machine is then populated as described; one traversal of the
layout builds it as well, and the index that this writes down leads to its CPUs. -/
theorem Topology.build_indexes [TimeValue τ] (d : Description) :
    ((∃ t : Topology τ, build d = .ok t) ↔ (∀ c ∈ d.layout.clusters, c.cores ≠ []) ∧
      (∀ c ∈ d.layout.clusters, ∀ k ∈ c.cores, k.cpus ≠ []) ∧ d.layout.cpuIds.Nodup) ∧
    (∀ t : Topology τ, build d = .ok t → t.Populates d ∧
      ∃ index, buildIndexed d = .ok (t, index) ∧ t.Resolves index) ∧
    ∀ e : Error, build d = (.error e : Except Error (Topology τ)) →
      buildIndexed d = (.error e : Except Error (Topology τ × CpuIndex)) := by
  refine ⟨?_, fun t h => ⟨populates_of_build h, t.index, ?_, ?_⟩, fun e h => ?_⟩
  · rw [← Layout.fault?_eq_none_iff]
    simp only [build_eq_ok_iff, exists_and_left, exists_eq, and_true]
  · rw [buildIndexed_eq, h]
    rfl
  · exact (wellShaped_of_build h).resolves
  · rw [buildIndexed_eq, h]
    rfl

/-- **The index holds through a replay.**  Whatever the machine, the options and the events, the index that
was written down when the machine was built leads to its CPUs at every point of a replay, and the searches
for a CPU and its owners end where it leads. -/
theorem Replay.resolves_index [TimeValue τ] {d : Description} {t : Topology τ} (h : Topology.build d = .ok t)
    (o : ReplayOptions) (es : List (Event τ)) :
    ∃ index r₀ r, Topology.buildIndexed d = .ok (t, index) ∧ start d o = .ok r₀ ∧
      r₀.processAll es = .ok r ∧ r.topology.Resolves index := by
  obtain ⟨r₀, r, h₀, hr, -, htop⟩ := exists_run h o es
  refine ⟨t.index, r₀, r, ?_, h₀, hr, ?_⟩
  · rw [Topology.buildIndexed_eq, h]
    rfl
  · rw [htop]
    exact (Topology.wellShaped_of_build h).resolves_run _ es

end PowerTrace
