import PowerTrace.Proofs.Shape
import PowerTrace.Proofs.TraceRoundTrip
import PowerTrace.Proofs.Transition

/-!
# The machine that a header describes

A header holds less than the description it is written for: it lists every core as one of several
CPUs, and for every depth of a CPU what is said first about it, where the machine has what is said
last.

* `Topology.layout`: the layout of a machine, with the flags that building it sets;
* `Topology.eq_iff_of_build`: when two descriptions are of the same machine;
* `Description.written`: the description that is read back from a header;
* `isWritable_written`, `headerLines_written`: it can be held without loss, by the same header;
* `nativeTrace_written`: reading a header gives it back;
* `header_machine_iff`: the machine that is read back, and when it is the same.
-/

namespace PowerTrace

open Text

variable {τ : Type}

/-! ### Layouts up to flags -/

/-- The core with the flag that building it sets. -/
def CoreLayout.settle (k : CoreLayout) : CoreLayout :=
  { k with multiCpu := k.multiCpu || decide (1 < k.cpus.length) }

/-- The core as one of several CPUs. -/
def CoreLayout.share (k : CoreLayout) : CoreLayout := { k with multiCpu := true }

theorem CoreLayout.cpus_settle (k : CoreLayout) : k.settle.cpus = k.cpus := rfl

theorem CoreLayout.cpus_share (k : CoreLayout) : k.share.cpus = k.cpus := rfl

theorem CoreLayout.share_settle_eq_iff {k : CoreLayout} :
    k.settle.share = k.settle ↔ k.multiCpu = true ∨ 1 < k.cpus.length := by
  have hiff : k.settle.share = k.settle ↔ true = (k.multiCpu || decide (1 < k.cpus.length)) := by
    rw [share, settle, CoreLayout.mk.injEq]
    exact ⟨fun h => h.2.1, fun h => ⟨rfl, h, rfl⟩⟩
  rw [hiff, eq_comm, Bool.or_eq_true, decide_eq_true_iff]

/-- The cluster with its cores changed. -/
def ClusterLayout.mapCores (f : CoreLayout → CoreLayout) (c : ClusterLayout) : ClusterLayout :=
  { c with cores := c.cores.map f }

namespace Layout

/-- The layout with its cores changed. -/
def mapCores (f : CoreLayout → CoreLayout) (l : Layout) : Layout := ⟨l.clusters.map (·.mapCores f)⟩

variable {f g : CoreLayout → CoreLayout}

theorem mapCores_mapCores (l : Layout) : (l.mapCores f).mapCores g = l.mapCores (g ∘ f) := by
  simp only [mapCores, ClusterLayout.mapCores, List.map_map, Function.comp_def]

theorem mapCores_eq_iff {l : Layout} :
    l.mapCores f = l.mapCores g ↔ ∀ c ∈ l.clusters, ∀ k ∈ c.cores, f k = g k := by
  simp only [mapCores, ClusterLayout.mapCores, Layout.mk.injEq, List.map_inj_left,
    ClusterLayout.mk.injEq, true_and]

/-- The CPUs do not change when those of no core do. -/
theorem cpuIds_mapCores (hf : ∀ k, (f k).cpus = k.cpus) (l : Layout) :
    (l.mapCores f).cpuIds = l.cpuIds := by
  simp only [cpuIds, mapCores, ClusterLayout.mapCores, List.flatMap_map, hf]

/-- Whether there is a fault depends on the CPUs of the cores alone. -/
theorem fault?_mapCores (hf : ∀ k, (f k).cpus = k.cpus) {l : Layout} (h : l.fault? = none) :
    (l.mapCores f).fault? = none := by
  obtain ⟨hcores, hcpus, hnodup⟩ := l.fault?_eq_none_iff.mp h
  refine (fault?_eq_none_iff _).mpr ⟨?_, ?_, by rwa [cpuIds_mapCores hf]⟩
  · intro c' hc'
    obtain ⟨c, hc, rfl⟩ := List.mem_map.mp hc'
    exact fun hnil => hcores c hc (List.map_eq_nil_iff.mp hnil)
  · intro c' hc' k' hk'
    obtain ⟨c, hc, rfl⟩ := List.mem_map.mp hc'
    obtain ⟨k, hk, rfl⟩ := List.mem_map.mp hk'
    rw [hf]
    exact hcpus c hc k hk

end Layout

/-! ### When two descriptions are of the same machine -/

/-- The core without its statistics. -/
def Core.layout (k : Core τ) : CoreLayout := ⟨k.id, k.multiCpu, k.cpus.map (·.id)⟩

/-- The cluster without its statistics. -/
def Cluster.layout (c : Cluster τ) : ClusterLayout := ⟨c.id, c.cores.map (·.layout)⟩

/-- The machine without its statistics. -/
def Topology.layout (t : Topology τ) : Layout := ⟨t.clusters.map (·.layout)⟩

section Build

variable [TimeValue τ] {d d' : Description} {t t' : Topology τ}

theorem CState.eq_of_ofInfo?_eq {i i' : Option StateInfo}
    (h : (CState.ofInfo? i : CState τ) = CState.ofInfo? i') : i = i' := by
  have hname := congrArg CState.name h
  have htarget := congrArg CState.target h
  cases i with
  | none =>
    cases i' with
    | none => rfl
    | some i' => cases hname
  | some i =>
    cases i' with
    | none => cases hname
    | some i' =>
      cases i; cases i'; cases hname; cases htarget
      rfl

/-- A track tells what it was described with. -/
theorem CStateTrack.ofInfos_inj {infos infos' : Depth → Option StateInfo} :
    (ofInfos infos : CStateTrack τ) = ofInfos infos' ↔ infos = infos' := by
  refine ⟨fun h => funext fun depth => ?_, fun h => h ▸ rfl⟩
  refine CState.eq_of_ofInfo?_eq (τ := τ) ?_
  rw [← slot_ofInfos, ← slot_ofInfos, h]

theorem Description.cpu_eq_iff {id : CpuId} :
    (d.cpu id : Cpu τ) = d'.cpu id ↔ d.info? id = d'.info? id := by
  rw [← CStateTrack.ofInfos_inj (τ := τ)]
  refine ⟨fun h => congrArg Cpu.cstates h, fun h => ?_⟩
  rw [Description.cpu, h]
  rfl

theorem Description.core_settle (d : Description) (k : CoreLayout) :
    (d.core k.settle : Core τ) = d.core k := by
  show (⟨k.id, k.multiCpu || decide (1 < k.cpus.length) || decide (1 < k.cpus.length), _, _, _⟩ :
    Core τ) = _
  rw [Bool.or_assoc, Bool.or_self]
  rfl

theorem Description.cluster_settle (d : Description) (c : ClusterLayout) :
    (d.cluster (c.mapCores .settle) : Cluster τ) = d.cluster c := by
  have hcores : ((c.cores.map .settle).map d.core : List (Core τ)) = c.cores.map d.core := by
    rw [List.map_map]
    exact List.map_congr_left fun k _ => d.core_settle k
  rw [Description.cluster, Description.cluster, ClusterLayout.mapCores, hcores]

theorem Description.core_congr {k : CoreLayout} (h : ∀ id ∈ k.cpus, d.info? id = d'.info? id) :
    (d.core k : Core τ) = d'.core k := by
  have hcpus : (k.cpus.map d.cpu : List (Cpu τ)) = k.cpus.map d'.cpu :=
    List.map_congr_left fun id hid => Description.cpu_eq_iff.mpr (h id hid)
  rw [Description.core, Description.core, hcpus]

theorem Description.cluster_congr {c : ClusterLayout}
    (h : ∀ k ∈ c.cores, (d.core k : Core τ) = d'.core k) : (d.cluster c : Cluster τ) = d'.cluster c := by
  rw [Description.cluster, Description.cluster, List.map_congr_left h]

namespace Topology

/-- The layout of a machine is the one it was described with, but for the flags that building it
sets. -/
theorem layout_of_build (h : Topology.build d = .ok t) : t.layout = d.layout.mapCores .settle := by
  obtain ⟨-, rfl⟩ := build_eq_ok_iff.mp h
  have hcore : ∀ k : CoreLayout, (d.core k : Core τ).layout = k.settle := by
    intro k
    have hids : ((k.cpus.map d.cpu : List (Cpu τ)).map (·.id)) = k.cpus := by
      rw [List.map_map]
      exact List.map_id _
    rw [Core.layout, Description.core, hids]
    rfl
  simp only [layout, Layout.mapCores, ClusterLayout.mapCores, Cluster.layout, Description.cluster,
    List.map_map, Function.comp_def, hcore]

/-- A machine is made of its layout. -/
theorem eq_of_layout (h : Topology.build d = .ok t) : t = ⟨t.layout.clusters.map d.cluster⟩ := by
  have hlayout := layout_of_build h
  obtain ⟨-, rfl⟩ := build_eq_ok_iff.mp h
  rw [hlayout, Layout.mapCores, List.map_map]
  exact congrArg Topology.mk (List.map_congr_left fun c _ => (d.cluster_settle c).symm)

/-- **Two descriptions are of the same machine** exactly when its layout is the same and the same is
said last about every depth of its CPUs. -/
theorem eq_iff_of_build (h : Topology.build d = .ok t) (h' : Topology.build d' = .ok t') :
    t = t' ↔ t.layout = t'.layout ∧ ∀ id ∈ d.layout.cpuIds, d.info? id = d'.info? id := by
  constructor
  · rintro rfl
    refine ⟨rfl, fun id hid => ?_⟩
    have hcpus : (d.layout.cpuIds.map d.cpu : List (Cpu τ)) = d.layout.cpuIds.map d'.cpu := by
      rw [← cpus_of_build h, cpus_of_build h', ← cpuIds_of_build h, ← cpuIds_of_build h']
    exact Description.cpu_eq_iff.mp (List.map_inj_left.mp hcpus id hid)
  · rintro ⟨hlayout, hinfo⟩
    have hids : t.layout.cpuIds = d.layout.cpuIds := by
      rw [layout_of_build h]
      exact Layout.cpuIds_mapCores CoreLayout.cpus_settle _
    have hclusters : (t.layout.clusters.map d.cluster : List (Cluster τ)) =
        t.layout.clusters.map d'.cluster := by
      refine List.map_congr_left fun c hc => Description.cluster_congr fun k hk => ?_
      refine Description.core_congr fun id hid => hinfo id (hids ▸ ?_)
      exact List.mem_flatMap.mpr ⟨c, hc, List.mem_flatMap.mpr ⟨k, hk, hid⟩⟩
    rw [eq_of_layout h, eq_of_layout h', ← hlayout, hclusters]

end Topology

end Build

/-! ### What a header holds of a description -/

namespace Description

/-- What is left of a description in its header: the layout without the flags of its cores, and what
is said first about every depth of its CPUs. -/
def written (d : Description) : Description where
  layout := d.layout.mapCores .share
  states := d.layout.cpuIds.mergeSort.flatMap d.tableStates

variable {d : Description}

theorem cpuIds_written (d : Description) : d.written.layout.cpuIds = d.layout.cpuIds :=
  Layout.cpuIds_mapCores CoreLayout.cpus_share _

theorem mem_written_states {s : StateDescriptor} :
    s ∈ d.written.states ↔ s.cpu ∈ d.layout.cpuIds ∧ s.depth < depthCount ∧
      d.firstInfo? s.cpu s.depth = some s.info := by
  rw [written, List.mem_flatMap]
  constructor
  · rintro ⟨cpu, hcpu, hs⟩
    obtain ⟨rfl, hdepth, hinfo⟩ := mem_tableStates.mp hs
    exact ⟨List.mem_mergeSort.mp hcpu, hdepth, hinfo⟩
  · rintro ⟨hcpu, hdepth, hinfo⟩
    exact ⟨s.cpu, List.mem_mergeSort.mpr hcpu, mem_tableStates.mpr ⟨rfl, hdepth, hinfo⟩⟩

/-- **What a header holds of a description it holds without loss.** -/
theorem isWritable_written (hfault : d.layout.fault? = none) (hne : d.layout.cpuIds ≠ [])
    (hletters : ∀ c ∈ d.layout.clusters, c.id < 26)
    (hnames : ∀ s ∈ d.states, s.info.HasPlainName) : d.written.IsWritable where
  cpuIds_ne_nil := by rwa [cpuIds_written]
  nodup := by
    rw [cpuIds_written]
    exact (d.layout.fault?_eq_none_iff.mp hfault).2.2
  letters c' hc' := by
    obtain ⟨c, hc, rfl⟩ := List.mem_map.mp hc'
    exact hletters c hc
  multiCpu c' hc' k' hk' := by
    obtain ⟨c, -, rfl⟩ := List.mem_map.mp hc'
    obtain ⟨k, -, rfl⟩ := List.mem_map.mp hk'
    rfl
  ascending := d.pairwise_tableStates (d.layout.fault?_eq_none_iff.mp hfault).2.2
  states s hs := by
    obtain ⟨hcpu, hdepth, hinfo⟩ := mem_written_states.mp hs
    refine ⟨by rwa [cpuIds_written], hdepth, ?_⟩
    exact hnames _ (exists_of_firstInfo? hinfo)

/-- Where states can be held without loss, what is said about a depth is one of them. -/
theorem IsWritable.firstInfo?_eq_some_iff (h : d.IsWritable) {cpu : CpuId} {depth : Nat}
    {i : StateInfo} : d.firstInfo? cpu depth = some i ↔ .ofInfo cpu depth i ∈ d.states :=
  ⟨exists_of_firstInfo?, h.firstInfo?_eq⟩

/-- There is one thing said about a depth, first and last. -/
theorem IsWritable.info?_eq (h : d.IsWritable) (cpu : CpuId) (depth : Depth) :
    d.info? cpu depth = d.firstInfo? cpu depth := by
  cases hlast : (d.states.filter (·.isFor cpu depth.val)).getLast? with
  | none =>
    have hnil : d.states.filter (·.isFor cpu depth.val) = [] := List.getLast?_eq_none_iff.mp hlast
    rw [info?, firstInfo?, ← List.head?_filter, hnil]
    rfl
  | some s =>
    obtain ⟨hs, hfor⟩ := List.mem_filter.mp (List.mem_of_getLast? hlast)
    rw [StateDescriptor.isFor, Bool.and_eq_true, beq_iff_eq, beq_iff_eq] at hfor
    obtain ⟨rfl, hdepth⟩ := hfor
    rw [info?, hlast, ← hdepth, h.firstInfo?_eq hs]
    rfl

/-- What is said first stays so. -/
theorem firstInfo?_written (h : d.written.IsWritable) {cpu : CpuId} (hcpu : cpu ∈ d.layout.cpuIds)
    {depth : Nat} (hdepth : depth < depthCount) :
    d.written.firstInfo? cpu depth = d.firstInfo? cpu depth := by
  refine Option.ext fun i => ?_
  rw [h.firstInfo?_eq_some_iff, mem_written_states]
  exact ⟨fun hi => hi.2.2, fun hi => ⟨hcpu, hdepth, hi⟩⟩

/-- **The header is the same.** -/
theorem headerLines_written (h : d.written.IsWritable) : headerLines d.written = headerLines d := by
  have hclusters : d.written.layout.clusters.mapM (·.lines) = d.layout.clusters.mapM (·.lines) := by
    have hlines : ∀ c : ClusterLayout, (c.mapCores .share).lines = c.lines := by
      intro c
      have hcores : (c.mapCores .share).cores.flatMap (·.lines) = c.cores.flatMap (·.lines) :=
        List.flatMap_map ..
      rw [ClusterLayout.lines, ClusterLayout.lines, hcores]
      rfl
    show (d.layout.clusters.map (·.mapCores .share)).mapM (·.lines) = _
    rw [List.mapM_map]
    exact congrArg (d.layout.clusters.mapM ·) (funext hlines)
  have htables : ∀ cpu ∈ d.layout.cpuIds.mergeSort, d.written.tableLines cpu = d.tableLines cpu := by
    intro cpu hcpu
    rw [tableLines, tableLines, List.flatMap_def, List.flatMap_def,
      List.map_congr_left fun depth hdepth => congrArg stateLines
        (firstInfo?_written h (List.mem_mergeSort.mp hcpu) (List.mem_range.mp hdepth))]
  rw [headerLines, headerLines, hclusters, Layout.cpuCount, Layout.cpuCount, cpuIds_written,
    List.flatMap_def, List.flatMap_def, List.map_congr_left htables]

end Description

/-! ### The machine that is read back -/

section Machine

variable {d : Description} {text : String}

/-- Clusters that are written have a letter each. -/
theorem letters_of_mapM_lines {cs : List ClusterLayout} {lss : List (List (List Char))}
    (h : cs.mapM (·.lines) = .ok lss) : ∀ c ∈ cs, c.id < 26 := by
  induction cs generalizing lss with
  | nil => exact fun c hc => absurd hc List.not_mem_nil
  | cons c cs ih =>
    rw [List.mapM_cons] at h
    by_cases hc : c.id < 26
    · rw [ClusterLayout.lines, if_pos hc] at h
      cases hcs : cs.mapM (·.lines) with
      | error e => rw [hcs] at h; cases h
      | ok rest => exact List.forall_mem_cons.mpr ⟨hc, ih hcs⟩
    · rw [ClusterLayout.lines, if_neg hc] at h
      cases h

theorem letters_of_header (h : header d = .ok text) : ∀ c ∈ d.layout.clusters, c.id < 26 := by
  cases hlss : d.layout.clusters.mapM (·.lines) with
  | error e =>
    rw [header, headerLines, hlss] at h
    cases h
  | ok lss => exact letters_of_mapM_lines hlss

/-- **What is read back from a header.** -/
theorem nativeTrace_written (hfault : d.layout.fault? = none) (hne : d.layout.cpuIds ≠ [])
    (hletters : ∀ c ∈ d.layout.clusters, c.id < 26)
    (hnames : ∀ s ∈ d.states, s.info.HasPlainName) :
    ∃ text, header d = .ok text ∧
      (nativeTrace (fileLines text.toUTF8)).result =
        if d.layout.cpuCount < UInt32.size then .ok ⟨d.written, [], 0⟩ else .error countError := by
  have hwritten := Description.isWritable_written hfault hne hletters hnames
  have hcount : d.written.layout.cpuCount = d.layout.cpuCount :=
    congrArg List.length d.cpuIds_written
  obtain ⟨text, htext, hread⟩ := hwritten.exists_header
  rw [hcount] at hread
  refine ⟨text, ?_, hread⟩
  rw [← htext, header, header, Description.headerLines_written hwritten]

variable [TimeValue τ] {t : Topology τ}

/-- The machine that is read back has the layout of the machine, with every core as one of several
CPUs. -/
theorem exists_build_written (h : Topology.build d = .ok t) :
    ∃ t' : Topology τ, Topology.build d.written = .ok t' ∧ t'.layout = t.layout.mapCores .share := by
  have hfault := (Topology.build_eq_ok_iff.mp h).1
  have hbuild : (Topology.build d.written : Except Error (Topology τ)) = .ok _ :=
    Topology.build_eq_ok_iff.mpr ⟨Layout.fault?_mapCores CoreLayout.cpus_share hfault, rfl⟩
  refine ⟨_, hbuild, ?_⟩
  rw [Topology.layout_of_build hbuild, Topology.layout_of_build h, Description.written,
    Layout.mapCores_mapCores, Layout.mapCores_mapCores]
  rfl

/-- What a description loses in its header does not matter to its machine. -/
structure Description.IsReadBack (d : Description) : Prop where
  /-- Every core holds, or is declared to hold, several CPUs. -/
  multiCpu : ∀ c ∈ d.layout.clusters, ∀ k ∈ c.cores, k.multiCpu = true ∨ 1 < k.cpus.length
  /-- What is said first about a depth of a CPU is said last. -/
  states : ∀ id ∈ d.layout.cpuIds, ∀ depth : Depth, d.firstInfo? id depth = d.info? id depth

/-- **A header read back, as a machine.**  Take a description that a machine can be built of and that
a header can be written for, with a CPU at least, and with names that are read back from their lines.
Unless it names every number of 32 bits, the text of its header is read as a description without
events.  That one describes a machine with the same clusters, cores and CPUs in the same order.  Every
core of it is flagged as one of several CPUs, and every depth of a CPU is described as it was first.
So it is the same machine exactly when every core was flagged and no depth was described in one way
first and in another way last. -/
theorem header_machine_iff (hbuild : Topology.build d = .ok t) (hheader : header d = .ok text)
    (hne : d.layout.cpuIds ≠ []) (hnames : ∀ s ∈ d.states, s.info.HasPlainName) :
    ∃ (d' : Description) (t' : Topology τ),
      (nativeTrace (fileLines text.toUTF8)).result =
        (if d.layout.cpuCount < UInt32.size then .ok ⟨d', [], 0⟩ else .error countError) ∧
      Topology.build d' = .ok t' ∧ t'.layout = t.layout.mapCores .share ∧
      (∀ id ∈ d.layout.cpuIds, ∀ depth : Depth, d'.info? id depth = d.firstInfo? id depth) ∧
      (t' = t ↔ d.IsReadBack) := by
  have hfault := (Topology.build_eq_ok_iff.mp hbuild).1
  have hletters := letters_of_header hheader
  obtain ⟨text', htext', hread⟩ := nativeTrace_written hfault hne hletters hnames
  obtain rfl : text' = text := Except.ok.inj (htext'.symm.trans hheader)
  obtain ⟨t', hbuild', hlayout⟩ := exists_build_written hbuild
  have hwritten := Description.isWritable_written hfault hne hletters hnames
  have hinfo : ∀ id ∈ d.layout.cpuIds, ∀ depth : Depth,
      d.written.info? id depth = d.firstInfo? id depth := fun id hid depth =>
    (hwritten.info?_eq id depth).trans (Description.firstInfo?_written hwritten hid depth.isLt)
  refine ⟨d.written, t', hread, hbuild', hlayout, hinfo, ?_⟩
  -- the layouts differ in flags, and the states in what is said first and last
  have hflags : t'.layout = t.layout ↔
      ∀ c ∈ d.layout.clusters, ∀ k ∈ c.cores, k.multiCpu = true ∨ 1 < k.cpus.length := by
    rw [hlayout, Topology.layout_of_build hbuild, Layout.mapCores_mapCores, Layout.mapCores_eq_iff]
    simp only [Function.comp_apply, CoreLayout.share_settle_eq_iff]
  have hstates : (∀ id ∈ d.written.layout.cpuIds, d.written.info? id = d.info? id) ↔
      ∀ id ∈ d.layout.cpuIds, ∀ depth : Depth, d.firstInfo? id depth = d.info? id depth := by
    rw [d.cpuIds_written]
    refine forall₂_congr fun id hid => funext_iff.trans (forall_congr' fun depth => ?_)
    rw [hinfo id hid]
  rw [Topology.eq_iff_of_build hbuild' hbuild, hflags, hstates]
  exact ⟨fun h => ⟨h.1, h.2⟩, fun h => ⟨h.1, h.2⟩⟩

/-- A pair of CPUs and a core that is declared to hold several, with states in no order, of which one
is described twice and two belong to no depth of the machine. -/
def Description.pairAndDeclared : Description where
  layout := ⟨[⟨1, [⟨0, false, [3, 1]⟩, ⟨7, true, [0]⟩]⟩]⟩
  states := [⟨3, 1, "C1", some 20⟩, ⟨0, 0, "WFI", none⟩, ⟨3, 1, "C1", some 20⟩, ⟨9, 2, "C2", some 8⟩,
    ⟨0, 16, "C6", none⟩]

/-- It is read back as the same machine. -/
theorem header_machine_iff_pairAndDeclared :
    ∃ (text : String) (d' : Description) (t : Topology Float),
      header .pairAndDeclared = .ok text ∧
      (nativeTrace (fileLines text.toUTF8)).result = .ok ⟨d', [], 0⟩ ∧
      Topology.build .pairAndDeclared = .ok t ∧ Topology.build d' = .ok t := by
  have hnames : ∀ s ∈ Description.pairAndDeclared.states, s.info.HasPlainName := by decide
  have hne : Description.pairAndDeclared.layout.cpuIds ≠ [] := List.cons_ne_nil _ _
  have hbuild : Topology.build .pairAndDeclared =
      .ok (⟨[Description.pairAndDeclared.cluster _]⟩ : Topology Float) := rfl
  obtain ⟨text, htext, -⟩ := nativeTrace_written (Topology.build_eq_ok_iff.mp hbuild).1 hne
    (List.forall_mem_singleton.mpr (by decide)) hnames
  have hback : Description.pairAndDeclared.IsReadBack := by
    refine ⟨List.forall_mem_singleton.mpr ?_, ?_⟩
    · exact List.forall_mem_cons.mpr ⟨.inr (by decide), List.forall_mem_singleton.mpr (.inl rfl)⟩
    · exact List.forall_mem_cons.mpr ⟨by decide, List.forall_mem_cons.mpr ⟨by decide,
        List.forall_mem_singleton.mpr (by decide)⟩⟩
  obtain ⟨d', t', hread, hbuild', -, -, hsame⟩ := header_machine_iff hbuild htext hne hnames
  rw [if_pos (by decide)] at hread
  exact ⟨text, d', _, htext, hread, hbuild, hsame.mpr hback ▸ hbuild'⟩

/-- A single CPU with a core of its own, and a depth that is described twice. -/
def Description.loneCpu : Description where
  layout := ⟨[⟨0, [⟨0, false, [0]⟩]⟩]⟩
  states := [⟨0, 1, "C1", some 1⟩, ⟨0, 1, "C1E", some 20⟩]

/-- Its header is read back as another machine: the core is flagged as one of several CPUs, and the
depth is the one described first, not the one described last. -/
theorem loneCpu_read_back_differs :
    ∃ (text : String) (d' : Description) (t t' : Topology Float),
      Description.loneCpu.layout.cpuIds ≠ [] ∧
      (∀ s ∈ Description.loneCpu.states, s.info.HasPlainName) ∧
      header .loneCpu = .ok text ∧ Topology.build .loneCpu = .ok t ∧
      (nativeTrace (fileLines text.toUTF8)).result = .ok ⟨d', [], 0⟩ ∧
      Topology.build d' = .ok t' ∧
      t.layout = ⟨[⟨0, [⟨0, false, [0]⟩]⟩]⟩ ∧ t'.layout = ⟨[⟨0, [⟨0, true, [0]⟩]⟩]⟩ ∧
      (t.cpus.map fun c => ((c.cstates.slot 1).name, (c.cstates.slot 1).target)) =
        [(some "C1E", some 20)] ∧
      (t'.cpus.map fun c => ((c.cstates.slot 1).name, (c.cstates.slot 1).target)) =
        [(some "C1", some 1)] := by
  have hnames : ∀ s ∈ Description.loneCpu.states, s.info.HasPlainName := by decide
  have hne : Description.loneCpu.layout.cpuIds ≠ [] := List.cons_ne_nil _ _
  obtain ⟨text, htext, hread⟩ := nativeTrace_written (d := .loneCpu) rfl hne
    (List.forall_mem_singleton.mpr (by decide)) hnames
  rw [if_pos (by decide)] at hread
  have hwritten : Description.loneCpu.written =
      ⟨⟨[⟨0, [⟨0, true, [0]⟩]⟩]⟩, [⟨0, 1, "C1", some 1⟩]⟩ := by
    rw [Description.written, show Description.loneCpu.layout.cpuIds = [0] from rfl,
      List.mergeSort_singleton]
    rfl
  rw [hwritten] at hread
  exact ⟨text, _, _, _, hne, hnames, htext, rfl, hread, rfl, rfl, rfl, rfl, rfl⟩

end Machine

end PowerTrace
