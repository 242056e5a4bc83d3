import PowerTrace.Proofs.FileLines
import PowerTrace.Trace.Header

/-!
# The lines of a header, read back

Every line that a header is written with is read back for what it says, by the reader whose turn it
is.

* `Text.nat?_of_digits?` and its companions: what digits are read as, by the width of the number;
* `trim_decimal`, `word32?_decimal`, `int64?_decimal`: numbers that are written;
* `declaredCpus?_line`: the number of CPUs;
* `exists_clusterLines`, `readLayout_table`: the lines of clusters, cores and CPUs, up to the first
  table;
* `readState_stateLines`, `readTable_lines`: the two lines of a depth, and all lines of a table;
* `readTables_lines`: the tables, up to the first line that does not begin one.
-/

namespace PowerTrace

open Text

/-! ### Numbers -/

namespace Text

theorem isDigit_of_digits? {cs : List Char} {n : Nat} (h : digits? cs = some n) :
    cs ≠ [] ∧ ∀ c ∈ cs, c.isDigit = true := by
  unfold digits? at h
  split at h
  · cases h
  · next hcs =>
    rw [Bool.or_eq_true, not_or, Bool.not_eq_true, Bool.not_eq_true, Bool.not_eq_false',
      List.all_eq_true, List.isEmpty_eq_false_iff] at hcs
    exact hcs

/-- Digits alone are a number without sign. -/
theorem nat?_of_digits? {cs : List Char} {n : Nat} (h : digits? cs = some n) :
    nat? cs = some n ∧ int? cs = some (n : Int) := by
  have hsign : ∀ {c : Char} {rest : List Char}, c.isDigit = false → cs ≠ c :: rest := by
    rintro c rest hc rfl
    rw [(isDigit_of_digits? h).2 c List.mem_cons_self] at hc
    cases hc
  have hnat : nat? cs = some n := by
    unfold nat?
    split
    · exact absurd rfl (hsign (by decide))
    · exact h
  refine ⟨hnat, ?_⟩
  unfold int?
  split
  · exact absurd rfl (hsign (by decide))
  · rw [hnat]
    rfl

/-- A number that fits is read; another one is none. -/
theorem word32?_of_digits? {cs : List Char} {n : Nat} (h : digits? cs = some n) :
    word32? cs = if n < UInt32.size then some (.ofNat n) else none := by
  rw [word32?, (nat?_of_digits? h).1]
  rfl

theorem word32?_of_digits_toNat {cs : List Char} {n : UInt32} (h : digits? cs = some n.toNat) :
    word32? cs = some n := by
  rw [word32?_of_digits? h, if_pos n.toNat_lt_size, UInt32.ofNat_toNat]

theorem word64?_of_digits? {cs : List Char} {n : Nat} (h : digits? cs = some n) :
    word64? cs = if n < UInt64.size then some n else none := by
  rw [word64?, (nat?_of_digits? h).1, Option.filter_some]
  simp only [decide_eq_true_eq]

theorem int64?_of_digits? {cs : List Char} {n : Nat} (h : digits? cs = some n) :
    int64? cs = if n < UInt64.size / 2 then some (n : Int) else none := by
  have hfits : fitsSigned UInt64.size (n : Int) = decide (n < UInt64.size / 2) := by
    rw [fitsSigned, Bool.eq_iff_iff, Bool.and_eq_true, decide_eq_true_iff, decide_eq_true_iff,
      decide_eq_true_iff]
    show -((UInt64.size / 2 : Nat) : Int) ≤ (n : Int) ∧ (n : Int) < ((UInt64.size / 2 : Nat) : Int) ↔
      n < UInt64.size / 2
    omega
  rw [int64?, (nat?_of_digits? h).2, Option.filter_some, hfits]
  simp only [decide_eq_true_eq]

end Text

theorem isDigit_of_mem_decimal {n : Nat} {c : Char} (h : c ∈ decimal n) : c.isDigit = true :=
  Nat.isDigit_of_mem_toDigits (by decide) (by decide) h

theorem decimal_ne_nil (n : Nat) : decimal n ≠ [] := Nat.toDigits_ne_nil

theorem word32?_decimal_eq (n : Nat) :
    word32? (decimal n) = if n < UInt32.size then some (.ofNat n) else none :=
  word32?_of_digits? (digits?_toDigits n)

theorem word32?_decimal (n : UInt32) : word32? (decimal n.toNat) = some n :=
  word32?_of_digits_toNat (digits?_toDigits _)

theorem int64?_decimal (n : UInt32) : int64? (decimal n.toNat) = some (n.toNat : Int) := by
  have hlt : n.toNat < UInt32.size := n.toNat_lt_size
  have hsize : UInt32.size ≤ UInt64.size / 2 := by decide
  exact (int64?_of_digits? (digits?_toDigits _)).trans (if_pos (by omega))

theorem toWord32?_natCast (n : UInt32) : toWord32? (n.toNat : Int) = some n := by
  have hfits : (decide (0 ≤ (n.toNat : Int)) && decide ((n.toNat : Int) < Int.ofNat UInt32.size)) =
      true := by
    have hlt : n.toNat < UInt32.size := n.toNat_lt_size
    rw [Bool.and_eq_true, decide_eq_true_iff, decide_eq_true_iff]
    exact ⟨Int.natCast_nonneg _, Int.ofNat_lt.mpr hlt⟩
  rw [toWord32?, if_pos hfits, Int.toNat_natCast, UInt32.ofNat_toNat]

/-! ### Blanks -/

theorem isBlank_of_isDigit {c : Char} (h : c.isDigit = true) : isBlank c = false := by
  have hrange : 48 ≤ c.toNat ∧ c.toNat ≤ 57 := by
    rw [Char.isDigit, Bool.and_eq_true, decide_eq_true_iff, decide_eq_true_iff] at h
    exact ⟨UInt32.le_iff_toNat_le.mp h.1, UInt32.le_iff_toNat_le.mp h.2⟩
  rw [Bool.eq_false_iff]
  intro hblank
  simp only [isBlank, Bool.or_eq_true, Bool.and_eq_true, decide_eq_true_eq, beq_iff_eq] at hblank
  omega

theorem dropWhile_of_forall {p : Char → Bool} {cs : List Char} (h : ∀ c ∈ cs, p c = false) :
    cs.dropWhile p = cs := by
  cases cs with
  | nil => rfl
  | cons c cs => rw [List.dropWhile_cons_of_neg]; exact Bool.eq_false_iff.mp (h c List.mem_cons_self)

theorem dropEndWhile_of_forall {p : Char → Bool} {cs : List Char} (h : ∀ c ∈ cs, p c = false) :
    dropEndWhile p cs = cs := by
  rw [dropEndWhile, dropWhile_of_forall fun c hc => h c (List.mem_reverse.mp hc),
    List.reverse_reverse]

/-- A text without blanks is trimmed. -/
theorem trim_of_forall {cs : List Char} (h : ∀ c ∈ cs, isBlank c = false) : trim cs = cs := by
  rw [trim, dropWhile_of_forall h, dropEndWhile_of_forall h]

/-- A blank in front is dropped. -/
theorem trim_cons {c : Char} (h : isBlank c = true) (cs : List Char) : trim (c :: cs) = trim cs := by
  rw [trim, trim, List.dropWhile_cons_of_pos h]

theorem trim_decimal (n : Nat) : trim (decimal n) = decimal n :=
  trim_of_forall fun _ hc => isBlank_of_isDigit (isDigit_of_mem_decimal hc)

/-- Characters at the end are dropped one by one. -/
theorem dropEndWhile_concat {p : Char → Bool} {c : Char} (h : p c = true) (cs : List Char) :
    dropEndWhile p (cs ++ [c]) = dropEndWhile p cs := by
  rw [dropEndWhile, dropEndWhile, List.reverse_append, List.reverse_singleton,
    List.singleton_append, List.dropWhile_cons_of_pos h]

/-- What is trimmed does not end with a blank. -/
theorem getLast?_trim_ne {c : Char} (h : isBlank c = true) (cs : List Char) :
    (trim cs).getLast? ≠ some c := by
  intro hlast
  rw [trim, dropEndWhile, List.getLast?_reverse] at hlast
  have hhead := List.head?_dropWhile_not isBlank (cs.dropWhile isBlank).reverse
  rw [hlast] at hhead
  have hfalse : isBlank c = false := hhead
  rw [h] at hfalse
  cases hfalse

/-! ### Lines -/

/-- A line that ends with a number. -/
theorem isLine_append_decimal {lead : List Char} (h : '\n' ∉ lead) (n : Nat) :
    IsLine (lead ++ decimal n) := by
  refine ⟨fun hmem => ?_, fun hlast => ?_⟩
  · rcases List.mem_append.mp hmem with hmem | hmem
    · exact h hmem
    · exact absurd (isDigit_of_mem_decimal hmem) (by decide)
  · rw [List.getLast?_append, List.getLast?_eq_some_getLast (decimal_ne_nil n), Option.some_or]
      at hlast
    have hmem : '\r' ∈ decimal n := Option.some.inj hlast ▸ List.getLast_mem _
    exact absurd (isDigit_of_mem_decimal hmem) (by decide)

/-- A line that ends with a colon. -/
theorem isLine_concat_colon {lead : List Char} (h : '\n' ∉ lead) : IsLine (lead ++ [':']) := by
  refine ⟨fun hmem => ?_, fun hlast => ?_⟩
  · rcases List.mem_append.mp hmem with hmem | hmem
    · exact h hmem
    · exact absurd hmem (by decide)
  · rw [List.getLast?_concat] at hlast
    cases hlast

/-- The number of CPUs is read back, if it fits and there are any. -/
theorem declaredCpus?_line {n : Nat} (hpos : 0 < n) :
    declaredCpus? ("cpus=".toList ++ decimal n) =
      if n < UInt32.size then some (.ofNat n) else none := by
  have hlead : "cpus=".toList.all (isBlank · == false) = true := by decide
  have hblank : ∀ c ∈ "cpus=".toList ++ decimal n, isBlank c = false := by
    intro c hc
    rcases List.mem_append.mp hc with hc | hc
    · exact beq_iff_eq.mp (List.all_eq_true.mp hlead c hc)
    · exact isBlank_of_isDigit (isDigit_of_mem_decimal hc)
  rw [declaredCpus?, trim_of_forall hblank, after?_append, Option.bind_some, word32?_decimal_eq]
  split
  · next hfits =>
    have hlt : (0 : UInt32) < .ofNat n := by
      rw [UInt32.lt_iff_toNat_lt, UInt32.toNat_ofNat_of_lt' hfits]
      exact hpos
    exact Option.filter_some_pos (decide_eq_true hlt)
  · rfl

theorem lineNumber_decimal (line : List Char) (n : CpuId) :
    lineNumber line (decimal n.toNat) = .ok n := by
  rw [lineNumber, trim_decimal, word32?_decimal]

/-! ### Clusters, cores and CPUs -/

theorem modifyLast_concat {α : Type} (f : α → α) (xs : List α) (x : α) :
    modifyLast f (xs ++ [x]) = xs ++ [f x] := by
  rw [modifyLast, List.getLast?_concat, List.dropLast_concat]

theorem readLayout_cons {l l' : Layout} {line : List Char} (h : l.addLine line = .ok (some l'))
    (rest : List FileLine) : readLayout l (.ok line :: rest) = readLayout l' rest := by
  rw [readLayout, h]
  rfl

/-- The letter of a cluster. -/
def ClusterLayout.letter (c : ClusterLayout) : Char := Char.ofNat ('A'.toNat + c.id.toNat)

/-- Every number below 26 is read back from its letter. -/
theorem ClusterLayout.letter_spec {c : ClusterLayout} (h : c.id < 26) :
    isUpperLetter c.letter = true ∧ UInt32.ofNat (c.letter.toNat - 'A'.toNat) = c.id ∧
      c.letter ≠ '\n' := by
  have hall : ∀ n : Fin 26, isUpperLetter (Char.ofNat ('A'.toNat + n.val)) = true ∧
      (Char.ofNat ('A'.toNat + n.val)).toNat - 'A'.toNat = n.val ∧
      Char.ofNat ('A'.toNat + n.val) ≠ '\n' := by decide
  obtain ⟨hupper, hnat, hne⟩ := hall ⟨c.id.toNat, UInt32.lt_iff_toNat_lt.mp h⟩
  exact ⟨hupper, by rw [letter, hnat, UInt32.ofNat_toNat], hne⟩

theorem addLine_cluster (done : List ClusterLayout) {c : ClusterLayout} (h : c.id < 26) :
    Layout.addLine ⟨done⟩ ("cluster".toList ++ [c.letter, ':']) =
      .ok (some ⟨done ++ [⟨c.id, []⟩]⟩) := by
  obtain ⟨hupper, hid, -⟩ := ClusterLayout.letter_spec h
  rw [Layout.addLine, after?_append]
  dsimp only
  rw [List.head?_cons, Option.filter_some_pos hupper]
  dsimp only
  rw [hid]

theorem addLine_core (done : List ClusterLayout) (c : ClusterLayout) (k : CpuId) :
    Layout.addLine ⟨done ++ [c]⟩ ("\tcore".toList ++ decimal k.toNat) =
      .ok (some ⟨done ++ [{ c with cores := c.cores ++ [⟨k, true, []⟩] }]⟩) := by
  unfold Layout.addLine
  rw [show after? "cluster".toList ("\tcore".toList ++ decimal k.toNat) = none from rfl]
  dsimp only
  rw [List.getLast?_concat, show after? "\t\tcpu".toList ("\tcore".toList ++ decimal k.toNat) = none
    from rfl]
  dsimp only
  rw [after?_append]
  dsimp only
  rw [lineNumber_decimal]
  show Except.ok (some (Layout.addCore _ _)) = _
  rw [Layout.addCore, modifyLast_concat]

theorem addLine_cpu (done : List ClusterLayout) (id : CpuId) (ks : List CoreLayout) (k : CoreLayout)
    (cpu : CpuId) :
    Layout.addLine ⟨done ++ [⟨id, ks ++ [k]⟩]⟩ ("\t\tcpu".toList ++ decimal cpu.toNat) =
      .ok (some ⟨done ++ [⟨id, ks ++ [{ k with cpus := k.cpus ++ [cpu] }]⟩]⟩) := by
  unfold Layout.addLine
  rw [show after? "cluster".toList ("\t\tcpu".toList ++ decimal cpu.toNat) = none from rfl]
  dsimp only
  rw [List.getLast?_concat, after?_append]
  dsimp only
  have hcores : (ks ++ [k]).isEmpty = false := by
    rw [List.isEmpty_eq_false_iff]
    exact List.append_ne_nil_of_right_ne_nil ks (List.cons_ne_nil k [])
  rw [hcores, lineNumber_decimal]
  show Except.ok (some (Layout.addCpu _ _)) = _
  rw [Layout.addCpu, modifyLast_concat, modifyLast_concat]

/-- A line that begins a table is not about the layout. -/
theorem addLine_table (l : Layout) (rest : List Char) :
    l.addLine ("cpuid ".toList ++ rest) = .ok none := by
  unfold Layout.addLine
  rw [show after? "cluster".toList ("cpuid ".toList ++ rest) = none from rfl]
  dsimp only
  cases l.clusters.getLast? with
  | none => rfl
  | some c => rfl

theorem readLayout_table (l : Layout) (rest : List Char) (more : List FileLine) :
    readLayout l (.ok ("cpuid ".toList ++ rest) :: more) =
      .ok (l, .ok ("cpuid ".toList ++ rest) :: more) := by
  rw [readLayout, addLine_table]
  rfl

/-- The CPUs of a core are read back. -/
theorem readLayout_cpus (done : List ClusterLayout) (id : CpuId) (ks : List CoreLayout)
    (k : CoreLayout) (cpus : List CpuId) (rest : List FileLine) :
    readLayout ⟨done ++ [⟨id, ks ++ [k]⟩]⟩
        ((cpus.map fun cpu => "\t\tcpu".toList ++ decimal cpu.toNat).map .ok ++ rest) =
      readLayout ⟨done ++ [⟨id, ks ++ [{ k with cpus := k.cpus ++ cpus }]⟩]⟩ rest := by
  induction cpus generalizing k with
  | nil => rw [List.append_nil]; rfl
  | cons cpu cpus ih =>
    -- the core that was begun last grows by one CPU
    refine (readLayout_cons (addLine_cpu done id ks k cpu) _).trans ((ih _).trans ?_)
    rw [List.append_assoc, List.singleton_append]

/-- The cores of a cluster are read back. -/
theorem readLayout_cores (done : List ClusterLayout) (c : ClusterLayout) {ks : List CoreLayout}
    (h : ∀ k ∈ ks, k.multiCpu = true) (rest : List FileLine) :
    readLayout ⟨done ++ [c]⟩ ((ks.flatMap (·.lines)).map .ok ++ rest) =
      readLayout ⟨done ++ [{ c with cores := c.cores ++ ks }]⟩ rest := by
  induction ks generalizing c with
  | nil => rw [List.append_nil]; rfl
  | cons k ks ih =>
    obtain ⟨hk, hks⟩ := List.forall_mem_cons.mp h
    -- its line begins a core without CPUs, which they are then added to
    have hcore : (⟨k.id, true, [] ++ k.cpus⟩ : CoreLayout) = k := by
      rw [← hk, List.nil_append]
    rw [List.flatMap_cons, CoreLayout.lines, List.cons_append, List.map_cons, List.map_append,
      List.cons_append, List.append_assoc, readLayout_cons (addLine_core done c k.id),
      readLayout_cpus done c.id c.cores, hcore, ih _ hks, List.append_assoc, List.singleton_append]

/-- **Clusters are read back**, and what follows them is left. -/
theorem exists_clusterLines {cs : List ClusterLayout}
    (h : ∀ c ∈ cs, c.id < 26 ∧ ∀ k ∈ c.cores, k.multiCpu = true) :
    ∃ lss, cs.mapM (·.lines) = .ok lss ∧ (∀ l ∈ lss.flatten, IsLine l) ∧
      ∀ done rest, readLayout ⟨done⟩ (lss.flatten.map .ok ++ rest) = readLayout ⟨done ++ cs⟩ rest := by
  induction cs with
  | nil =>
    refine ⟨[], rfl, fun l hl => absurd hl List.not_mem_nil, fun done rest => ?_⟩
    rw [List.append_nil]
    rfl
  | cons c cs ih =>
    obtain ⟨⟨hid, hmulti⟩, hcs⟩ := List.forall_mem_cons.mp h
    obtain ⟨lss, hlss, hlines, hread⟩ := ih hcs
    have hc : c.lines = .ok (("cluster".toList ++ [c.letter, ':']) :: c.cores.flatMap (·.lines)) :=
      if_pos hid
    refine ⟨_ :: lss, by rw [List.mapM_cons, hc, hlss]; rfl, ?_, fun done rest => ?_⟩
    · rw [List.flatten_cons]
      refine List.forall_mem_append.mpr ⟨List.forall_mem_cons.mpr ⟨?_, ?_⟩, hlines⟩
      · have hne := (ClusterLayout.letter_spec hid).2.2
        have hlead : '\n' ∉ "cluster".toList ++ [c.letter] := by
          rw [List.mem_append, List.mem_singleton, not_or]
          exact ⟨by decide, hne.symm⟩
        exact isLine_concat_colon hlead
      · intro l hl
        obtain ⟨k, -, hl⟩ := List.mem_flatMap.mp hl
        rcases List.mem_cons.mp hl with rfl | hl
        · exact isLine_append_decimal (by decide) _
        · obtain ⟨cpu, -, rfl⟩ := List.mem_map.mp hl
          exact isLine_append_decimal (by decide) _
    · rw [List.flatten_cons, List.cons_append, List.map_cons, List.map_append, List.cons_append,
        List.append_assoc, readLayout_cons (addLine_cluster done hid), readLayout_cores _ _ hmulti,
        hread, List.append_assoc]
      rfl

/-! ### Tables -/

/-- Whether the name of a state is read back from its line. -/
def StateInfo.HasPlainName (s : StateInfo) : Prop :=
  trim s.name.toList = s.name.toList ∧ '\n' ∉ s.name.toList ∧ s.name.toList ≠ noStateName

/-- A state at a depth of a CPU. -/
def StateDescriptor.ofInfo (cpu : CpuId) (depth : Nat) (s : StateInfo) : StateDescriptor :=
  ⟨cpu, depth, s.name, s.target⟩

/-- The states that the table of a CPU lists. -/
def Description.tableStates (d : Description) (cpu : CpuId) : List StateDescriptor :=
  (List.range depthCount).flatMap fun depth =>
    ((d.firstInfo? cpu depth).map (.ofInfo cpu depth)).toList

/-- **The two lines of a depth are read back.** -/
theorem readState_stateLines (cpu : CpuId) (depth : Nat) {s : Option StateInfo}
    (h : ∀ i ∈ s, i.HasPlainName) :
    ∃ name residency, stateLines s = [name, residency] ∧ IsLine name ∧ IsLine residency ∧
      readState cpu depth name residency = .ok (s.map (.ofInfo cpu depth)) := by
  have htab : isBlank '\t' = true := by decide
  cases s with
  | none => exact ⟨_, _, rfl, by decide, by decide, rfl⟩
  | some i =>
    obtain ⟨htrim, hnewline, hname⟩ := h i rfl
    have hline : IsLine ('\t' :: i.name.toList) := by
      refine ⟨?_, ?_⟩
      · rw [List.mem_cons, not_or]
        exact ⟨by decide, hnewline⟩
      · have hlast := getLast?_trim_ne (show isBlank '\r' = true by decide) i.name.toList
        rw [htrim] at hlast
        rw [List.getLast?_cons]
        intro heq
        cases hl : i.name.toList.getLast? with
        | none => rw [hl] at heq; exact absurd heq (by decide)
        | some c => rw [hl] at heq hlast; exact hlast heq
    refine ⟨_, _, rfl, hline, ?_, ?_⟩
    · cases i.target with
      | none => decide
      | some t =>
        show IsLine (['\t'] ++ decimal t.toNat)
        exact isLine_append_decimal (by decide) _
    · unfold readState
      rw [trim_cons htab, htrim]
      dsimp only
      rw [if_neg hname, trim_cons htab]
      cases ht : i.target with
      | none =>
        show Except.ok (some (StateDescriptor.mk cpu depth (String.ofList i.name.toList) none)) = _
        rw [String.ofList_toList, Option.map_some, StateDescriptor.ofInfo, ht]
      | some t =>
        dsimp only
        rw [trim_decimal, int64?_decimal]
        dsimp only
        rw [toWord32?_natCast, String.ofList_toList, Option.map_some, StateDescriptor.ofInfo, ht]

theorem readTable_succ (cpu : CpuId) (n depth : Nat) (name residency : List Char)
    (rest : List FileLine) :
    readTable cpu (n + 1) depth (.ok name :: .ok residency :: rest) = (do
      let state ← readState cpu depth name residency
      let states ← readTable cpu n (depth + 1) rest
      .ok (state.toList ++ states)) := rfl

/-- The lines of a table are read back. -/
theorem readTable_lines (cpu : CpuId) {f : Nat → Option StateInfo}
    (h : ∀ depth, ∀ i ∈ f depth, i.HasPlainName) (n depth : Nat) (rest : List FileLine) :
    readTable cpu n depth
        (((List.range' depth n).flatMap fun depth => stateLines (f depth)).map .ok ++ rest) =
      .ok ((List.range' depth n).flatMap fun depth =>
        ((f depth).map (.ofInfo cpu depth)).toList) := by
  induction n generalizing depth with
  | zero => rfl
  | succ n ih =>
    obtain ⟨name, residency, hlines, -, -, hstate⟩ := readState_stateLines cpu depth (h depth)
    rw [List.range'_succ, List.flatMap_cons, List.flatMap_cons, hlines, List.cons_append,
      List.singleton_append, List.map_cons, List.map_cons, List.cons_append, List.cons_append,
      readTable_succ, hstate, ih (depth + 1)]
    rfl

/-- A line that begins a table tells the CPU. -/
theorem tableCpu?_line (cpu : CpuId) :
    tableCpu? ("cpuid ".toList ++ decimal cpu.toNat ++ [':']) = some cpu := by
  have hblank : ∀ c ∈ decimal cpu.toNat ++ [':'], isBlank c = false := by
    refine List.forall_mem_append.mpr ⟨fun c hc => ?_, List.forall_mem_singleton.mpr (by decide)⟩
    exact isBlank_of_isDigit (isDigit_of_mem_decimal hc)
  have hcolon : ∀ c ∈ decimal cpu.toNat, (c == ':') = false := by
    intro c hc
    rw [beq_eq_false_iff_ne]
    rintro rfl
    exact absurd (isDigit_of_mem_decimal hc) (by decide)
  rw [tableCpu?, List.append_assoc, show "cpuid ".toList = "cpuid".toList ++ [' '] from rfl,
    List.append_assoc, after?_append]
  show word32? (dropEndWhile (· == ':') (trim (' ' :: (decimal cpu.toNat ++ [':'])))) = some cpu
  rw [trim_cons (by decide), trim_of_forall hblank, dropEndWhile_concat (by decide),
    dropEndWhile_of_forall hcolon, word32?_decimal]

theorem length_stateLines (s : Option StateInfo) : (stateLines s).length = 2 := by
  cases s <;> rfl

/-- The lines of the depths of a table. -/
theorem length_depthLines (f : Nat → Option StateInfo) (n : Nat) :
    ((List.range n).flatMap fun depth => stateLines (f depth)).length = 2 * n := by
  induction n with
  | zero => rfl
  | succ n ih =>
    rw [List.range_succ, List.flatMap_append, List.length_append, ih, List.flatMap_singleton,
      length_stateLines]
    rfl

theorem readTables_cons {line : List Char} {cpu : CpuId} (h : tableCpu? line = some cpu)
    (rest : List FileLine) :
    readTables (.ok line :: rest) = (do
      let table ← readTable cpu depthCount 0 (rest.take (2 * depthCount))
      let (states, rest) ← readTables (rest.drop (2 * depthCount))
      .ok (table ++ states, rest)) := by
  rw [readTables, h]

variable {d : Description}

/-- **Tables are read back**, and the lines from the first that does not begin one are left. -/
theorem readTables_lines (h : ∀ cpu depth, ∀ i ∈ d.firstInfo? cpu depth, i.HasPlainName)
    (cpus : List CpuId) {ls : List (List Char)} (hfirst : ∀ l ∈ ls.head?, tableCpu? l = none) :
    readTables ((cpus.flatMap d.tableLines).map .ok ++ ls.map .ok) =
      .ok (cpus.flatMap d.tableStates, ls.map .ok) := by
  induction cpus with
  | nil =>
    cases ls with
    | nil => rw [List.flatMap_nil, List.map_nil, List.nil_append, readTables]; rfl
    | cons l ls =>
      rw [List.flatMap_nil, List.map_nil, List.nil_append, List.map_cons, readTables,
        hfirst l rfl]
      rfl
  | cons cpu cpus ih =>
    have hlen : (((List.range depthCount).flatMap fun depth =>
        stateLines (d.firstInfo? cpu depth)).map (Except.ok : List Char → FileLine)).length =
          2 * depthCount := by
      rw [List.length_map, length_depthLines]
    have htable := readTable_lines cpu (h cpu) depthCount 0 []
    rw [List.append_nil, ← List.range_eq_range'] at htable
    rw [List.flatMap_cons, Description.tableLines, List.cons_append, List.map_cons, List.map_append,
      List.cons_append, List.append_assoc (List.map _ _), readTables_cons (tableCpu?_line cpu),
      List.take_left' hlen, List.drop_left' hlen, ih, htable]
    rfl

/-- The lines of a table are lines. -/
theorem isLine_tableLines (h : ∀ cpu depth, ∀ i ∈ d.firstInfo? cpu depth, i.HasPlainName)
    (cpu : CpuId) : ∀ l ∈ d.tableLines cpu, IsLine l := by
  intro l hl
  rcases List.mem_cons.mp hl with rfl | hl
  · have hlead : IsLine ("cpuid ".toList ++ decimal cpu.toNat) := isLine_append_decimal (by decide) _
    exact isLine_concat_colon hlead.1
  · obtain ⟨depth, -, hl⟩ := List.mem_flatMap.mp hl
    obtain ⟨name, residency, hlines, hname, hresidency, -⟩ :=
      readState_stateLines cpu depth (h cpu depth)
    rw [hlines, List.mem_cons, List.mem_singleton] at hl
    rcases hl with rfl | rfl
    · exact hname
    · exact hresidency

end PowerTrace
