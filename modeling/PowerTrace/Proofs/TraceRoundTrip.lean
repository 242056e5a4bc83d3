import Mathlib.Data.List.Sort
import PowerTrace.Proofs.HeaderLines
import PowerTrace.Trace.Native

/-!
# A native trace, read back

A trace that begins with the header of a machine describes that machine, and what follows the header
is read as the events of the trace, no line more and no line less.

* `StateDescriptor.Before`: states in ascending order of CPU and depth;
* `Description.IsWritable`: the descriptions that a header can hold without loss;
* `flatMap_tableStates`: the tables of all CPUs together list every state once, in order;
* `readEvents_lines`: what event lines are read as;
* `Description.IsWritable.exists_trace`: what the lines of a header and those after it are read as;
* `Description.IsWritable.exists_header`: what the text of a header alone is read as;
* `nativeTrace_header`: reading what was written;
* `numbered_size_refused`: the one number of CPUs that can be written and not be read.
-/

namespace PowerTrace

open Text

/-! ### What a header can hold -/

/-- Whether a state comes first: it is of a lower CPU, or of the same CPU at a lower depth. -/
def StateDescriptor.Before (s s' : StateDescriptor) : Prop :=
  s.cpu < s'.cpu ∨ s.cpu = s'.cpu ∧ s.depth < s'.depth

instance : DecidableRel StateDescriptor.Before := fun _ _ => inferInstanceAs (Decidable (_ ∨ _))

theorem StateDescriptor.Before.asymm {s s' : StateDescriptor} (h : s.Before s') : ¬s'.Before s := by
  rintro (h' | ⟨h', hd'⟩)
  · rcases h with h | ⟨h, -⟩
    · exact UInt32.lt_asymm h h'
    · exact absurd h' (h ▸ UInt32.lt_irrefl _)
  · rcases h with h | ⟨-, hd⟩
    · exact absurd h (h' ▸ UInt32.lt_irrefl _)
    · exact absurd (hd.trans hd') (lt_irrefl _)

instance : Std.Irrefl StateDescriptor.Before := ⟨fun _ h => h.asymm h⟩

instance : Std.Antisymm StateDescriptor.Before := ⟨fun _ _ h h' => absurd h' h.asymm⟩

instance (s : StateInfo) : Decidable s.HasPlainName := inferInstanceAs (Decidable (_ ∧ _ ∧ _))

/-- A description that a header can hold without loss. -/
structure Description.IsWritable (d : Description) : Prop where
  /-- There is a CPU. -/
  cpuIds_ne_nil : d.layout.cpuIds ≠ []
  /-- No CPU number occurs twice. -/
  nodup : d.layout.cpuIds.Nodup
  /-- Every cluster has a letter. -/
  letters : ∀ c ∈ d.layout.clusters, c.id < 26
  /-- Every core may hold several CPUs. -/
  multiCpu : ∀ c ∈ d.layout.clusters, ∀ k ∈ c.cores, k.multiCpu = true
  /-- The states are in ascending order. -/
  ascending : d.states.Pairwise StateDescriptor.Before
  /-- Every state is of a CPU of the layout, at a depth that a track has, and its name is read back
  from its line. -/
  states : ∀ s ∈ d.states, s.cpu ∈ d.layout.cpuIds ∧ s.depth < depthCount ∧ s.info.HasPlainName

/-! ### The states of all tables -/

variable {d : Description}

/-- What is said first about a depth is said by one of the states. -/
theorem exists_of_firstInfo? {cpu : CpuId} {depth : Nat} {i : StateInfo}
    (h : d.firstInfo? cpu depth = some i) : .ofInfo cpu depth i ∈ d.states := by
  obtain ⟨s, hs, rfl⟩ := Option.map_eq_some_iff.mp h
  have hfor := List.find?_some hs
  rw [StateDescriptor.isFor, Bool.and_eq_true, beq_iff_eq, beq_iff_eq] at hfor
  obtain ⟨rfl, rfl⟩ := hfor
  exact List.mem_of_find?_eq_some hs

theorem mem_tableStates {cpu : CpuId} {s : StateDescriptor} :
    s ∈ d.tableStates cpu ↔
      s.cpu = cpu ∧ s.depth < depthCount ∧ d.firstInfo? cpu s.depth = some s.info := by
  rw [Description.tableStates, List.mem_flatMap]
  constructor
  · rintro ⟨depth, hdepth, hs⟩
    rw [Option.mem_toList] at hs
    obtain ⟨i, hi, rfl⟩ := Option.map_eq_some_iff.mp hs
    exact ⟨rfl, List.mem_range.mp hdepth, hi⟩
  · rintro ⟨rfl, hdepth, hinfo⟩
    refine ⟨s.depth, List.mem_range.mpr hdepth, ?_⟩
    rw [Option.mem_toList, hinfo]
    rfl

/-- The tables come in ascending order of CPUs. -/
theorem Layout.pairwise_mergeSort {l : Layout} (h : l.cpuIds.Nodup) :
    l.cpuIds.mergeSort.Pairwise (· < ·) := by
  have htrans : ∀ a b c : CpuId, decide (a ≤ b) = true → decide (b ≤ c) = true →
      decide (a ≤ c) = true := fun a b c hab hbc =>
    decide_eq_true (UInt32.le_trans (of_decide_eq_true hab) (of_decide_eq_true hbc))
  have htotal : ∀ a b : CpuId, (decide (a ≤ b) || decide (b ≤ a)) = true := by
    intro a b
    rw [Bool.or_eq_true, decide_eq_true_iff, decide_eq_true_iff]
    exact UInt32.le_total a b
  have hsorted := List.pairwise_mergeSort htrans htotal l.cpuIds
  have hnodup : l.cpuIds.mergeSort.Nodup := (List.mergeSort_perm _ _).nodup_iff.mpr h
  exact (hsorted.and hnodup).imp fun hab => UInt32.lt_of_le_of_ne (of_decide_eq_true hab.1) hab.2

/-- The tables of all CPUs list states in ascending order. -/
theorem Description.pairwise_tableStates (d : Description) (h : d.layout.cpuIds.Nodup) :
    (d.layout.cpuIds.mergeSort.flatMap d.tableStates).Pairwise StateDescriptor.Before := by
  rw [List.pairwise_flatMap]
  refine ⟨fun cpu _ => ?_,
    (Layout.pairwise_mergeSort h).imp fun {cpu cpu'} hlt s hs s' hs' => ?_⟩
  · rw [Description.tableStates, List.pairwise_flatMap]
    refine ⟨fun depth _ => ?_, List.pairwise_lt_range.imp fun {depth depth'} hlt s hs s' hs' => ?_⟩
    · cases d.firstInfo? cpu depth with
      | none => exact .nil
      | some i => exact List.pairwise_singleton _ _
    · rw [Option.mem_toList] at hs hs'
      obtain ⟨i, -, rfl⟩ := Option.map_eq_some_iff.mp hs
      obtain ⟨i', -, rfl⟩ := Option.map_eq_some_iff.mp hs'
      exact .inr ⟨rfl, hlt⟩
  · obtain ⟨rfl, -⟩ := mem_tableStates.mp hs
    obtain ⟨rfl, -⟩ := mem_tableStates.mp hs'
    exact .inl hlt

namespace Description.IsWritable

/-- No two states are for the same depth of a CPU. -/
theorem nodup_places (h : d.IsWritable) : (d.states.map fun s => (s.cpu, s.depth)).Nodup := by
  refine List.pairwise_map.mpr (h.ascending.imp fun {s s'} hs heq => ?_)
  obtain ⟨hcpu, hdepth⟩ := Prod.mk.inj heq
  rcases hs with hlt | ⟨-, hlt⟩
  · exact absurd hlt (hcpu ▸ UInt32.lt_irrefl _)
  · exact absurd hlt (hdepth ▸ lt_irrefl _)

/-- Every state is what is said first about its depth. -/
theorem firstInfo?_eq (h : d.IsWritable) {s : StateDescriptor} (hs : s ∈ d.states) :
    d.firstInfo? s.cpu s.depth = some s.info := by
  have hsome : (d.states.find? (·.isFor s.cpu s.depth)).isSome = true := by
    rw [List.find?_isSome]
    exact ⟨s, hs, by rw [StateDescriptor.isFor, beq_self_eq_true, beq_self_eq_true, Bool.and_true]⟩
  obtain ⟨s', hs'⟩ := Option.isSome_iff_exists.mp hsome
  have hfor := List.find?_some hs'
  rw [StateDescriptor.isFor, Bool.and_eq_true, beq_iff_eq, beq_iff_eq] at hfor
  have heq : s' = s :=
    List.inj_on_of_nodup_map h.nodup_places (List.mem_of_find?_eq_some hs') hs
      (Prod.ext hfor.1 hfor.2)
  rw [firstInfo?, hs', heq]
  rfl

theorem hasPlainName (h : d.IsWritable) (cpu : CpuId) (depth : Nat) :
    ∀ i ∈ d.firstInfo? cpu depth, i.HasPlainName := by
  intro i hi
  exact (h.states _ (exists_of_firstInfo? hi)).2.2

/-- **The tables of all CPUs list every state once, in order.** -/
theorem flatMap_tableStates (h : d.IsWritable) :
    d.layout.cpuIds.mergeSort.flatMap d.tableStates = d.states := by
  -- both lists are ascending, so it is enough that they hold the same states
  refine List.Pairwise.eq_of_mem_iff (r := StateDescriptor.Before)
    (d.pairwise_tableStates h.nodup) h.ascending fun s => ?_
  rw [List.mem_flatMap]
  constructor
  · rintro ⟨cpu, -, hs⟩
    obtain ⟨rfl, -, hinfo⟩ := mem_tableStates.mp hs
    exact exists_of_firstInfo? hinfo
  · intro hs
    obtain ⟨hcpu, hdepth, -⟩ := h.states s hs
    exact ⟨s.cpu, List.mem_mergeSort.mpr hcpu,
      mem_tableStates.mpr ⟨rfl, hdepth, h.firstInfo?_eq hs⟩⟩

end Description.IsWritable

/-! ### Event lines -/

/-- The event that a line is read as, if any. -/
def decodedEvent? (line : List Char) : Option (Event Float) := (event? line).bind (·.toOption)

/-- Whether a line is tagged as an event but cannot be read. -/
def isRejected (line : List Char) : Bool :=
  match event? line with
  | some (.error _) => true
  | some (.ok _) | none => false

/-- Event lines are read one by one. -/
theorem readEvents_lines (ls : List (List Char)) :
    (readEvents (ls.map .ok)).result = .ok (ls.filterMap decodedEvent?, ls.countP isRejected) := by
  induction ls with
  | nil => rfl
  | cons l ls ih =>
    rw [List.map_cons, readEvents]
    cases he : event? l with
    | none =>
      have hdecoded : decodedEvent? l = none := by rw [decodedEvent?, he]; rfl
      have hrejected : isRejected l = false := by rw [isRejected, he]
      rw [List.filterMap_cons_none hdecoded, List.countP_cons_of_neg (by rw [hrejected]; decide)]
      exact ih
    | some r =>
      cases r with
      | ok e =>
        have hdecoded : decodedEvent? l = some e := by rw [decodedEvent?, he]; rfl
        have hrejected : isRejected l = false := by rw [isRejected, he]
        rw [List.filterMap_cons_some hdecoded, List.countP_cons_of_neg (by rw [hrejected]; decide)]
        exact Logged.result_bind_ok ih _
      | error err =>
        have hdecoded : decodedEvent? l = none := by rw [decodedEvent?, he]; rfl
        have hrejected : isRejected l = true := by rw [isRejected, he]
        rw [List.filterMap_cons_none hdecoded, List.countP_cons_of_pos hrejected]
        exact Logged.result_bind_ok ih _

/-! ### The whole trace -/

/-- What comes of a header that declares more CPUs than a number of 32 bits can hold. -/
def countError : Error := .parse "Cannot load trace file (nrcpus == 0)"

theorem MachineHeader.read_cons_cons {version : List Char} (h : hasHeader version = true)
    (count : List Char) (rest : List FileLine) :
    MachineHeader.read (.ok version :: .ok count :: rest) =
      match declaredCpus? count with
      | none => .error countError
      | some cpuCount => (do
        let (layout, lines) ← readLayout ⟨[]⟩ rest
        let (states, lines) ← readTables lines
        (.ok (⟨cpuCount, layout, states⟩, lines) : Except Error (MachineHeader × List FileLine))) := by
  unfold MachineHeader.read
  simp only [nextLine, bind, Except.bind, Option.getD_some, h, Bool.not_true]
  rfl

/-- **A written header is read back**, and the lines that follow it are left, unless they go on with
another table. -/
theorem Description.IsWritable.exists_headerLines (h : d.IsWritable) :
    ∃ A, headerLines d = .ok A ∧ (∀ l ∈ A, IsLine l) ∧
      ∀ ls : List (List Char), (∀ l ∈ ls.head?, tableCpu? l = none) →
        MachineHeader.read ((A ++ ls).map .ok) =
          if d.layout.cpuCount < UInt32.size then
            .ok (⟨.ofNat d.layout.cpuCount, d.layout, d.states⟩, ls.map .ok)
          else .error countError := by
  obtain ⟨lss, hlss, hlines, hread⟩ :=
    exists_clusterLines fun c hc => ⟨h.letters c hc, h.multiCpu c hc⟩
  refine ⟨(headerMagic ++ " = " ++ formatVersion).toList ::
      ("cpus=".toList ++ decimal d.layout.cpuCount) ::
        (lss.flatten ++ d.layout.cpuIds.mergeSort.flatMap d.tableLines), ?_, ?_, ?_⟩
  · rw [headerLines, hlss]
    rfl
  · refine List.forall_mem_cons.mpr ⟨by decide, List.forall_mem_cons.mpr ⟨?_, ?_⟩⟩
    · exact isLine_append_decimal (by decide) _
    · refine List.forall_mem_append.mpr ⟨hlines, fun l hl => ?_⟩
      obtain ⟨cpu, -, hl⟩ := List.mem_flatMap.mp hl
      exact isLine_tableLines h.hasPlainName cpu l hl
  · intro ls hfirst
    have hpos : 0 < d.layout.cpuCount := List.length_pos_iff.mpr h.cpuIds_ne_nil
    have hlayout : readLayout ⟨[]⟩
        ((lss.flatten ++ d.layout.cpuIds.mergeSort.flatMap d.tableLines ++ ls).map .ok) =
          .ok (d.layout, (d.layout.cpuIds.mergeSort.flatMap d.tableLines).map .ok ++ ls.map .ok) := by
      have hne : d.layout.cpuIds.mergeSort ≠ [] := fun hnil =>
        h.cpuIds_ne_nil (hnil ▸ List.mergeSort_perm d.layout.cpuIds _).symm.eq_nil
      obtain ⟨cpu, cpus, hcpus⟩ := List.exists_cons_of_ne_nil hne
      rw [List.append_assoc, List.map_append, hread, hcpus, List.map_append, List.flatMap_cons,
        Description.tableLines, List.append_assoc "cpuid ".toList]
      exact readLayout_table _ _ _
    rw [List.cons_append, List.cons_append, List.map_cons, List.map_cons,
      MachineHeader.read_cons_cons rfl, declaredCpus?_line hpos]
    by_cases hfits : d.layout.cpuCount < UInt32.size
    · rw [if_pos hfits, if_pos hfits]
      dsimp only
      rw [hlayout]
      simp only [bind, Except.bind]
      rw [readTables_lines h.hasPlainName _ hfirst, h.flatMap_tableStates]
    · rw [if_neg hfits, if_neg hfits]

/-- A trace whose header and event lines are read. -/
theorem result_nativeTrace {lines : List FileLine} {m : MachineHeader} {ls : List (List Char)}
    (h : MachineHeader.read lines = .ok (m, ls.map .ok)) :
    (nativeTrace lines).result =
      .ok ⟨⟨m.layoutOrFlat, m.states⟩, ls.filterMap decodedEvent?, ls.countP isRejected⟩ := by
  have hread : (Logged.ofExcept (MachineHeader.read lines) : Logged Float _).result =
      .ok (m, ls.map .ok) := h
  unfold nativeTrace
  rw [Logged.result_bind_ok hread]
  dsimp only
  rw [Logged.result_bind_ok rfl, Logged.result_bind_ok (readEvents_lines ls)]
  rfl

theorem result_nativeTrace_error {lines : List FileLine} {e : Error}
    (h : MachineHeader.read lines = .error e) : (nativeTrace lines).result = .error e := by
  have hread : (Logged.ofExcept (MachineHeader.read lines) : Logged Float _).result = .error e := h
  unfold nativeTrace
  exact Logged.result_bind_error hread _

/-- **A written header and the lines that follow it are read as a trace** of the description that was
written, unless the first of them goes on with another table. -/
theorem Description.IsWritable.exists_trace (h : d.IsWritable) :
    ∃ A, headerLines d = .ok A ∧ (∀ l ∈ A, IsLine l) ∧
      ∀ ls : List (List Char), (∀ l ∈ ls.head?, tableCpu? l = none) →
        (nativeTrace ((A ++ ls).map .ok)).result =
          if d.layout.cpuCount < UInt32.size then
            .ok ⟨d, ls.filterMap decodedEvent?, ls.countP isRejected⟩
          else .error countError := by
  obtain ⟨A, hA, hAlines, hread⟩ := h.exists_headerLines
  refine ⟨A, hA, hAlines, fun ls hfirst => ?_⟩
  have hread := hread ls hfirst
  split
  · next hfits =>
    rw [if_pos hfits] at hread
    have hflat : MachineHeader.layoutOrFlat
        ⟨.ofNat d.layout.cpuCount, d.layout, d.states⟩ = d.layout := by
      have hne : d.layout.clusters ≠ [] := by
        intro hnil
        refine h.cpuIds_ne_nil ?_
        rw [Layout.cpuIds, hnil]
        rfl
      exact if_neg (fun hnil => hne (List.isEmpty_iff.mp hnil))
    rw [result_nativeTrace hread, hflat]
  · next hfits =>
    rw [if_neg hfits] at hread
    exact result_nativeTrace_error hread

/-- The text of a header alone is a trace without events. -/
theorem Description.IsWritable.exists_header (h : d.IsWritable) :
    ∃ text, header d = .ok text ∧ (nativeTrace (fileLines text.toUTF8)).result =
      if d.layout.cpuCount < UInt32.size then .ok ⟨d, [], 0⟩ else .error countError := by
  obtain ⟨A, hA, hAlines, hread⟩ := h.exists_trace
  refine ⟨String.ofList (unlines A), by rw [header, hA]; rfl, ?_⟩
  have hfile : fileLines (String.ofList (unlines A)).toUTF8 = (A ++ []).map .ok := by
    rw [← List.append_nil (unlines A)]
    exact fileLines_text hAlines (by decide)
  rw [hfile]
  exact hread [] fun _ hl => nomatch hl

/-- Lines that are written, the last one with or without its line feed, are read as they are, but for
an empty last line without one. -/
theorem exists_fileLines {A ls : List (List Char)} (hA : ∀ l ∈ A, IsLine l) (hls : ∀ l ∈ ls, IsLine l)
    {body : List Char} (hbody : body = unlines ls ∨ body ++ ['\n'] = unlines ls) :
    ∃ ls', (ls = ls' ∨ ls = ls' ++ [[]]) ∧
      fileLines (String.ofList (unlines A) ++ String.ofList body).toUTF8 = (A ++ ls').map .ok := by
  have happend : ∀ xs ys : List (List Char), unlines (xs ++ ys) = unlines xs ++ unlines ys :=
    fun _ _ => List.flatMap_append
  rcases hbody with rfl | hbody
  · refine ⟨ls, .inl rfl, ?_⟩
    rw [← String.ofList_append, ← happend, ← List.append_nil (unlines (A ++ ls)),
      fileLines_text (List.forall_mem_append.mpr ⟨hA, hls⟩) (by decide)]
    exact congrArg _ (List.append_nil _)
  · obtain rfl | ⟨init, last, rfl⟩ := ls.eq_nil_or_concat
    · exact absurd hbody (List.append_ne_nil_of_right_ne_nil body (List.cons_ne_nil _ _))
    · rw [List.concat_eq_append] at hls hbody ⊢
      obtain ⟨hinit, hlast⟩ := List.forall_mem_append.mp hls
      have hlines : unlines (init ++ [last]) = unlines init ++ last ++ ['\n'] := by
        rw [happend, List.append_assoc]
        exact congrArg _ (List.append_nil _)
      have hbody : body = unlines init ++ last := List.append_cancel_right (hbody.trans hlines)
      refine ⟨init ++ [last].filter (!·.isEmpty), ?_, ?_⟩
      · cases last with
        | nil => exact .inr (congrArg (· ++ [[]]) (List.append_nil init).symm)
        | cons c cs => exact .inl rfl
      · rw [← String.ofList_append, hbody, ← List.append_assoc, ← happend,
          fileLines_text (List.forall_mem_append.mpr ⟨hA, hinit⟩)
            (hlast last List.mem_cons_self), List.append_assoc]

/-- **Reading a written trace gives back what was written.**  Take a description that a header can
hold without loss, and lines of which the first does not begin a table.  The text of the header and
the lines, the last of them with or without its line feed, is read as the same description, with the
events that the lines are read as, in order, and as many lines skipped as cannot be read.  A layout
that names every number of 32 bits has one CPU too many to be counted, and its text is refused. -/
theorem nativeTrace_header (h : d.IsWritable) {ls : List (List Char)} (hls : ∀ l ∈ ls, IsLine l)
    (hfirst : ∀ l ∈ ls.head?, tableCpu? l = none) {body : List Char}
    (hbody : body = unlines ls ∨ body ++ ['\n'] = unlines ls) :
    ∃ text, header d = .ok text ∧
      (nativeTrace (fileLines (text ++ String.ofList body).toUTF8)).result =
        if d.layout.cpuCount < UInt32.size then
          .ok ⟨d, ls.filterMap decodedEvent?, ls.countP isRejected⟩
        else .error countError := by
  obtain ⟨A, hA, hAlines, hread⟩ := h.exists_trace
  refine ⟨String.ofList (unlines A), by rw [header, hA]; rfl, ?_⟩
  obtain ⟨ls', hls', hfile⟩ := exists_fileLines hAlines hls hbody
  -- an empty last line holds no event and begins no table
  have hfirst' : ∀ l ∈ ls'.head?, tableCpu? l = none := by
    rcases hls' with rfl | rfl
    · exact hfirst
    · intro l hl
      refine hfirst l ?_
      rw [List.head?_append, Option.mem_def.mp hl]
      rfl
  have hsame : ls.filterMap decodedEvent? = ls'.filterMap decodedEvent? ∧
      ls.countP isRejected = ls'.countP isRejected := by
    rcases hls' with rfl | rfl
    · exact ⟨rfl, rfl⟩
    · rw [List.filterMap_append, List.countP_append]
      exact ⟨List.append_nil _, Nat.add_zero _⟩
  rw [hfile, hsame.1, hsame.2]
  exact hread ls' hfirst'

/-- Two clusters with three cores, and states with a target residency, without one, and without a
name. -/
def Description.twoClusters : Description where
  layout := ⟨[⟨0, [⟨0, true, [1, 0]⟩, ⟨1, true, [5]⟩]⟩, ⟨2, [⟨0, true, [3]⟩]⟩]⟩
  states := [⟨0, 0, "WFI", some 1⟩, ⟨0, 15, "C9 deep", none⟩, ⟨5, 1, "", some 4294967295⟩]

/-- A remark, an event, a line with a tag that cannot be read, and one that looks like the name of a
state. -/
def recordedLines : List (List Char) :=
  ["# recorded".toList, "a [000] 5.5: cpu_idle: state=1 cpu_id=5".toList,
    "b cpu_idle: state=x".toList, "\tWFI".toList]

/-- They are read back with one event and one line skipped. -/
theorem nativeTrace_header_twoClusters :
    ∃ text, header .twoClusters = .ok text ∧
      (nativeTrace (fileLines (text ++ String.ofList (unlines recordedLines)).toUTF8)).result =
        .ok ⟨.twoClusters, [⟨5.5, 5, .idleEnter 1⟩], 1⟩ := by
  have hd : Description.twoClusters.IsWritable :=
    ⟨by decide, by decide, by decide, by decide, by decide, by decide⟩
  obtain ⟨text, htext, hread⟩ := nativeTrace_header hd
    (show ∀ l ∈ recordedLines, IsLine l by decide)
    (show ∀ l ∈ recordedLines.head?, tableCpu? l = none by decide) (.inl rfl)
  refine ⟨text, htext, ?_⟩
  rw [if_pos (by decide)] at hread
  exact hread

/-! ### One CPU too many -/

/-- The lowest numbers of 32 bits are distinct, up to all of them. -/
theorem nodup_map_ofNat_range {n : ℕ} (hn : n ≤ UInt32.size) : ((List.range n).map UInt32.ofNat).Nodup := by
  refine List.Nodup.map_on ?_ List.nodup_range
  intro i hi j hj heq
  have hi : i < UInt32.size := (List.mem_range.mp hi).trans_le hn
  have hj : j < UInt32.size := (List.mem_range.mp hj).trans_le hn
  have hnat := congrArg UInt32.toNat heq
  rwa [UInt32.toNat_ofNat_of_lt' hi, UInt32.toNat_ofNat_of_lt' hj] at hnat

/-- One core with the CPUs of the lowest numbers, as many as asked for. -/
def Description.numbered (n : ℕ) : Description where
  layout := ⟨[⟨0, [⟨0, true, (List.range n).map .ofNat⟩]⟩]⟩
  states := []

theorem Description.cpuIds_numbered (n : ℕ) :
    (numbered n).layout.cpuIds = (List.range n).map .ofNat := by
  simp only [Layout.cpuIds, numbered, List.flatMap_cons, List.flatMap_nil, List.append_nil]

/-- A header can hold it up to the highest number of 32 bits. -/
theorem Description.isWritable_numbered {n : ℕ} (hpos : 0 < n) (hn : n ≤ UInt32.size) :
    (numbered n).IsWritable where
  cpuIds_ne_nil := by
    rw [cpuIds_numbered, Ne, List.map_eq_nil_iff, List.range_eq_nil]
    exact hpos.ne'
  nodup := by
    rw [cpuIds_numbered]
    exact nodup_map_ofNat_range hn
  letters := List.forall_mem_singleton.mpr (show (0 : CpuId) < 26 by decide)
  multiCpu := List.forall_mem_singleton.mpr (List.forall_mem_singleton.mpr rfl)
  ascending := .nil
  states := fun _ hs => absurd hs List.not_mem_nil

/-- **The header of all numbers of 32 bits is not read back.**  It can be written, but it declares one CPU
more than can be counted. -/
theorem numbered_size_refused :
    (Description.numbered UInt32.size).IsWritable ∧
      ∃ text, header (.numbered UInt32.size) = .ok text ∧
        (nativeTrace (fileLines text.toUTF8)).result = .error countError := by
  have h : (Description.numbered UInt32.size).IsWritable :=
    Description.isWritable_numbered (by decide) (Nat.le_refl _)
  have hcount : (Description.numbered UInt32.size).layout.cpuCount = UInt32.size := by
    rw [Layout.cpuCount, Description.cpuIds_numbered, List.length_map, List.length_range]
  obtain ⟨text, htext, hread⟩ := h.exists_header
  rw [hcount, if_neg (Nat.lt_irrefl _)] at hread
  exact ⟨h, text, htext, hread⟩

end PowerTrace
