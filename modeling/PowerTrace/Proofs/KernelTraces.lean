import PowerTrace.Analysis
import PowerTrace.Proofs.Gathering
import PowerTrace.Proofs.Run
import PowerTrace.Proofs.TraceRoundTrip
import PowerTrace.Trace.Ftrace

/-!
# The machine of a kernel trace

Of its machine a kernel trace tells no more than the number of CPUs, and the host tells the rest.  The
directory of a host can hold anything: what it says of a CPU has a default, a CPU that it names twice has
one place, and where it cannot be read or has another number of CPUs there is a flat layout.  So there
always is a machine, with as many CPUs as the trace tells.

* `Layout.fault?_flat`, `Layout.cpuCount_flat`: a flat layout;
* `Host.fault?_of_describe`: the layout that a host describes has no fault;
* `Host.fits_describeOrFlat`: neither has the one that a trace is read with, and it has the CPUs asked for;
* `frontCpus?`, `result_ftraceTrace`: what a text is read as;
* `Host.usable_machine`: hence every text that tells a number of CPUs is a trace that can be replayed.
-/

namespace PowerTrace

open Text

/-! ### Flat layouts -/

namespace Layout

theorem cpuIds_flat (n : CpuId) : (flat n).cpuIds = (List.range n.toNat).map .ofNat := by
  simp only [cpuIds, flat, List.flatMap_cons, List.flatMap_nil, List.append_nil, List.flatMap_map,
    ← List.map_eq_flatMap]

theorem cpuCount_flat (n : CpuId) : (flat n).cpuCount = n.toNat := by
  rw [cpuCount, cpuIds_flat, List.length_map, List.length_range]

theorem nodup_cpuIds_flat (n : CpuId) : (flat n).cpuIds.Nodup := by
  rw [cpuIds_flat]
  exact nodup_map_ofNat_range n.toNat_lt.le

/-- **A flat layout has no fault**, unless it has no CPU. -/
theorem fault?_flat {n : CpuId} (hn : n ≠ 0) : (flat n).fault? = none := by
  refine (fault?_eq_none_iff _).mpr ⟨?_, ?_, nodup_cpuIds_flat n⟩
  · intro c hc
    rw [List.mem_singleton.mp hc, Ne, List.map_eq_nil_iff, List.range_eq_nil]
    exact fun h => hn (UInt32.toNat_inj.mp h)
  · intro c hc k hk
    rw [List.mem_singleton.mp hc] at hk
    obtain ⟨i, -, rfl⟩ := List.mem_map.mp hk
    exact List.cons_ne_nil _ _

end Layout

/-! ### The machine of a host -/

namespace Host

variable {h : Host} {d : Description} {n : CpuId}

/-- A host that can be described puts every CPU that it names in one place. -/
theorem layout_of_describe (hd : h.describe = .ok d) :
    ∃ ids : List CpuId, d.layout = .ofPlacements (ids.map h.placement) := by
  unfold describe at hd
  obtain ⟨ps, hps, hd⟩ := exists_of_bind_eq_ok hd
  obtain ⟨ids, -, hids⟩ := exists_of_bind_eq_ok hps
  refine ⟨ids, ?_⟩
  split at hd
  · cases hd
  · obtain ⟨states, -, hd⟩ := exists_of_bind_eq_ok hd
    obtain rfl := Except.ok.inj hd
    obtain rfl := Except.ok.inj hids
    rfl

/-- **The layout that a host describes has no fault**, also where it names a CPU twice. -/
theorem fault?_of_describe (hd : h.describe = .ok d) : d.layout.fault? = none := by
  obtain ⟨ids, hlayout⟩ := layout_of_describe hd
  rw [hlayout, Layout.fault?_ofPlacements_eq_none_iff]
  intro p hp q hq hcpu
  obtain ⟨i, -, rfl⟩ := List.mem_map.mp hp
  obtain ⟨j, -, rfl⟩ := List.mem_map.mp hq
  obtain rfl : i = j := hcpu
  exact ⟨rfl, rfl⟩

/-- **A trace is read with a layout that has no fault and as many CPUs as asked for.** -/
theorem fits_describeOrFlat (h : Host) (hn : n ≠ 0) :
    (h.describeOrFlat n).layout.cpuCount = n.toNat ∧ (h.describeOrFlat n).layout.fault? = none := by
  have hflat : ∀ states, (Description.mk (.flat n) states).layout.cpuCount = n.toNat ∧
      (Description.mk (.flat n) states).layout.fault? = none :=
    fun _ => ⟨Layout.cpuCount_flat n, Layout.fault?_flat hn⟩
  unfold describeOrFlat
  split
  · next d hd =>
    split
    · next hcount => exact ⟨hcount, fault?_of_describe hd⟩
    · exact hflat d.states
  · exact hflat []

theorem exists_build_describeOrFlat {τ : Type} [TimeValue τ] (h : Host) (hn : n ≠ 0) :
    ∃ t : Topology τ, Topology.build (h.describeOrFlat n) = .ok t :=
  ⟨_, Topology.build_eq_ok_iff.mpr ⟨(h.fits_describeOrFlat hn).2, rfl⟩⟩

end Host

/-! ### The lines of a kernel trace -/

/-- The number of CPUs that the comments at the front tell last. -/
def frontCpus? (ls : List (List Char)) : Option CpuId :=
  ((ls.takeWhile isComment).filterMap commentCpus?).getLast?

/-- The comments at the front are read one by one. -/
theorem readComments_lines (n : CpuId) (ls : List (List Char)) :
    readComments n (ls.map .ok) = .ok ((frontCpus? ls).getD n, (ls.dropWhile isComment).map .ok) := by
  unfold frontCpus?
  induction ls generalizing n with
  | nil => rfl
  | cons l ls ih =>
    rw [List.map_cons, readComments]
    by_cases hl : isComment l = true
    · rw [if_pos hl, ih, List.takeWhile_cons_of_pos hl, List.dropWhile_cons_of_pos hl]
      cases hcount : commentCpus? l with
      | none => rw [List.filterMap_cons_none hcount, Option.getD_none]
      | some m => rw [List.filterMap_cons_some hcount, List.getLast?_cons, Option.getD_some, Option.getD_some]
    · rw [if_neg hl, List.takeWhile_cons_of_neg hl, List.dropWhile_cons_of_neg hl]
      rfl

/-- **A text that tells a number of CPUs is a trace**: its machine is read off the host, its events are
read line by line after the comments.  Any other text is refused. -/
theorem result_ftraceTrace (h : Host) (ls : List (List Char)) :
    (ftraceTrace h (ls.map .ok)).result =
      if (frontCpus? ls).getD 0 = 0 then .error countError
      else .ok ⟨h.describeOrFlat ((frontCpus? ls).getD 0), (ls.dropWhile isComment).filterMap decodedEvent?,
        (ls.dropWhile isComment).countP isRejected⟩ := by
  have hread : (Logged.ofExcept (readComments 0 (ls.map .ok)) : Logged Float _).result =
      .ok ((frontCpus? ls).getD 0, (ls.dropWhile isComment).map .ok) := readComments_lines 0 ls
  unfold ftraceTrace
  rw [Logged.result_bind_ok hread]
  dsimp only
  split
  · rfl
  · rw [Logged.result_bind_ok rfl, Logged.result_bind_ok (readEvents_lines _)]
    rfl

/-- A machine that can be built can be replayed to the end, whatever the events. -/
theorem exists_analyze {τ : Type} [TimeValue τ] {d : Description} {t : Topology τ}
    (h : Topology.build d = .ok t) (es : List (Event τ)) (o : ReplayOptions) :
    ∃ a : Analysis τ, analyze d es o = .ok a := by
  obtain ⟨r₀, r, h₀, hr, -, -⟩ := Replay.exists_run h o es
  exact ⟨r.finish, analyze_of_run h₀ hr⟩

/-- **There always is a machine to replay on.**  Whatever is in the directory of a host, a trace of one CPU
or more is read with a layout of as many, and this layout can be built.  So every text whose comments tell
such a number last is a trace, and replaying it never fails.  A file that cannot be read counts here as one
whose bytes are no text, a directory that cannot be listed as a file in its place. -/
theorem Host.usable_machine (h : Host) {n : CpuId} (hn : 1 ≤ n) :
    (h.describeOrFlat n).layout.cpuCount = n.toNat ∧
    (∃ t : Topology Float, Topology.build (h.describeOrFlat n) = .ok t) ∧
    ∀ text : String, frontCpus? (lines text.toList) = some n →
      ∃ trace : Trace, (ftraceTrace h (fileLines text.toUTF8)).result = .ok trace ∧
        trace.description = h.describeOrFlat n ∧
        trace.events = ((lines text.toList).dropWhile isComment).filterMap decodedEvent? ∧
        trace.skipped = ((lines text.toList).dropWhile isComment).countP isRejected ∧
        ∀ o, ∃ a : Analysis Float, analyze trace.description trace.events o = .ok a := by
  have hn : n ≠ 0 := by
    rintro rfl
    exact absurd hn (by decide)
  obtain ⟨t, ht⟩ := h.exists_build_describeOrFlat (τ := Float) hn
  refine ⟨(h.fits_describeOrFlat hn).1, ⟨t, ht⟩, ?_⟩
  intro text htext
  have hresult : (ftraceTrace h (fileLines text.toUTF8)).result =
      .ok ⟨h.describeOrFlat n, ((lines text.toList).dropWhile isComment).filterMap decodedEvent?,
        ((lines text.toList).dropWhile isComment).countP isRejected⟩ := by
    rw [fileLines_toUTF8, result_ftraceTrace, htext, Option.getD_some, if_neg hn]
  exact ⟨_, hresult, rfl, rfl, rfl, exists_analyze ht _⟩

/-- A host that names one of its CPUs twice, has no package for another and has switched a third off. -/
def Host.numberedTwice : Host where
  files := .dir [("sysfs", .dir
    [("cpu1", .file "".toUTF8), ("cpu01", .dir []),
      ("cpu0", .dir [("topology", .dir [("physical_package_id", .file "-1\n".toUTF8)])]),
      ("cpu2", .dir [("online", .file "0\n".toUTF8)]), ("cpuidle", .dir [])])]
  root := "sysfs"

/-- A trace of two CPUs, of which the second says when it falls idle. -/
def pairText : String :=
  "# tracer: nop\n# entries-in-buffer/entries-written: 1/1   #P:2\n" ++
    "<idle>-0 [001] d..2 1.5: cpu_idle: state=1 cpu_id=1\n"

theorem Host.usable_machine_numberedTwice :
    1 ≤ (2 : CpuId) ∧ frontCpus? (lines pairText.toList) = some 2 ∧
    (Host.numberedTwice.describeOrFlat 2).layout.cpuCount = 2 ∧
    (∃ t : Topology Float, Topology.build (Host.numberedTwice.describeOrFlat 2) = .ok t) ∧
    ∃ trace : Trace, (ftraceTrace Host.numberedTwice (fileLines pairText.toUTF8)).result = .ok trace ∧
      ∀ o, ∃ a : Analysis Float, analyze trace.description trace.events o = .ok a := by
  have hn : 1 ≤ (2 : CpuId) := by decide
  have htext : frontCpus? (lines pairText.toList) = some 2 := by decide +kernel
  obtain ⟨hcount, hbuild, hread⟩ := Host.usable_machine .numberedTwice hn
  obtain ⟨trace, htrace, -, -, -, hanalyze⟩ := hread pairText htext
  exact ⟨hn, htext, hcount, hbuild, trace, htrace, hanalyze⟩

end PowerTrace
