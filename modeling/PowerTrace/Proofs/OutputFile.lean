import PowerTrace.CommandLine.Run

/-!
# The output file of a failing run

A run that fails should leave the file it was to write as it was.  All that can fail is tried before
that file is made, with one exception: a format that compares is refused only once the file is
there, still empty.  So a comparison without a baseline costs the contents of the output file.

* `FileTree.read_write`: what was written is read back;
* `Report.name_of_needsBaseline`: only one format is ever refused;
* `Arguments.Ready`, `Arguments.run_of_ready`, `Arguments.run_of_not_ready`: when the output file is
  made, and what a run does then;
* `Arguments.IsRefused`, `Arguments.IsRefused.run`: runs that are refused after the file was made;
* `Command.output_kept_iff`: these are the runs that fail and do not leave the output file alone;
* `Command.output_emptied`: one of them.
-/

namespace PowerTrace

/-! ### Reading what was written -/

namespace FileTree

theorem lookup_setEntry_self (name : String) (new : FileTree) (l : List (String × FileTree)) :
    (setEntry name new l).lookup name = some new := by
  induction l with
  | nil => simp [setEntry]
  | cons entry rest ih =>
    obtain ⟨n, t⟩ := entry
    unfold setEntry
    split
    · simp
    · next h => simp [List.lookup_cons, beq_eq_false_iff_ne.mpr (Ne.symm h), ih]

theorem lookup_setEntry_of_ne {name other : String} (h : other ≠ name) (new : FileTree)
    (l : List (String × FileTree)) : (setEntry name new l).lookup other = l.lookup other := by
  have hne : (other == name) = false := beq_eq_false_iff_ne.mpr h
  induction l with
  | nil => simp [setEntry, List.lookup_cons, hne]
  | cons entry rest ih =>
    obtain ⟨n, t⟩ := entry
    unfold setEntry
    split
    · next hn => simp [List.lookup_cons, hn, hne]
    · simp only [List.lookup_cons, ih]

@[simp] theorem node?_dir_cons (entries : List (String × FileTree)) (name : String)
    (rest : List String) :
    (dir entries).node? (name :: rest) = (entries.lookup name).bind (node? · rest) := rfl

@[simp] theorem put_dir_cons (entries : List (String × FileTree)) (name : String)
    (rest : List String) (new : FileTree) :
    (dir entries).put (name :: rest) new =
      dir (setEntry name (((entries.lookup name).getD (dir [])).put rest new) entries) := rfl

/-- On the way to a place a file becomes a directory. -/
@[simp] theorem put_file_cons (bytes : ByteArray) (name : String) (rest : List String)
    (new : FileTree) : (file bytes).put (name :: rest) new = (dir []).put (name :: rest) new := rfl

/-- Whether there is a directory at a place. -/
def IsDirAt (t : FileTree) (place : List String) : Prop := ∃ entries, t.node? place = some (dir entries)

/-- What was put at a place is there. -/
theorem node?_put_self (t : FileTree) (place : List String) (new : FileTree) :
    (t.put place new).node? place = some new := by
  induction place generalizing t with
  | nil => rfl
  | cons name rest ih =>
    cases t <;> simp [lookup_setEntry_self, ih]

/-- What was put where no directory is leaves every directory one. -/
theorem IsDirAt.put {t : FileTree} {place q : List String} (h : t.IsDirAt q)
    (hplace : ¬ t.IsDirAt place) (new : FileTree) : (t.put place new).IsDirAt q := by
  induction place generalizing t q with
  | nil =>
    -- the tree is a file, so it holds no directory
    cases t with
    | file bytes =>
      obtain ⟨entries, hnode⟩ := h
      cases q with
      | nil => cases hnode
      | cons n q => cases hnode
    | dir entries => exact absurd ⟨entries, rfl⟩ hplace
  | cons name rest ih =>
    cases q with
    | nil => exact ⟨_, rfl⟩
    | cons n q =>
      obtain ⟨found, hnode⟩ := h
      cases t with
      | file bytes => cases hnode
      | dir entries =>
        rw [node?_dir_cons, Option.bind_eq_some_iff] at hnode
        obtain ⟨child, hchild, hq⟩ := hnode
        unfold IsDirAt
        rw [put_dir_cons, node?_dir_cons]
        by_cases hn : n = name
        · subst hn
          rw [lookup_setEntry_self, Option.bind_some, hchild, Option.getD_some]
          refine ih ⟨found, hq⟩ ?_
          rintro ⟨other, hrest⟩
          exact hplace ⟨other, by rw [node?_dir_cons, hchild, Option.bind_some, hrest]⟩
        · rw [lookup_setEntry_of_ne hn, hchild, Option.bind_some]
          exact ⟨found, hq⟩

/-- A path still means the same place after something was put where no directory is. -/
theorem walk_put {t : FileTree} {place : List String} (hplace : ¬ t.IsDirAt place) (new : FileTree)
    {here steps there : List String} (h : t.walk here steps = .ok there) :
    (t.put place new).walk here steps = .ok there := by
  induction steps generalizing here with
  | nil => exact h
  | cons name rest ih =>
    unfold walk at h ⊢
    cases hnode : t.node? here with
    | none =>
      rw [hnode] at h
      cases h
    | some node =>
      rw [hnode] at h
      cases node with
      | file bytes => cases h
      | dir entries =>
        obtain ⟨entries', hnode'⟩ := IsDirAt.put ⟨entries, hnode⟩ hplace new
        rw [hnode']
        exact ih h

/-- **What was written to a file is read back.** -/
theorem read_write {t t' : FileTree} {path : String} {bytes : ByteArray}
    (h : t.write path bytes = .ok t') : t'.read path = .ok bytes := by
  unfold write at h
  cases hl : t.locate path with
  | error e =>
    rw [hl] at h
    cases h
  | ok place =>
    rw [hl] at h
    have hplace : ¬ t.IsDirAt place := by
      rintro ⟨entries, hnode⟩
      simp [bind, Except.bind, hnode] at h
    have hput : t.put place (file bytes) = t' := by
      simp only [bind, Except.bind] at h
      split at h
      · next entries hnode => cases h
      · exact Except.ok.inj h
    subst hput
    have hlocate : (t.put place (file bytes)).locate path = .ok place := by
      unfold locate at hl ⊢
      split at hl
      · cases hl
      · next hne =>
        rw [if_neg hne]
        exact walk_put hplace _ hl
    have hfind : (t.put place (file bytes)).find path = .ok (file bytes) := by
      rw [find, hlocate]
      simp only [bind, Except.bind]
      rw [node?_put_self]
    rw [read, hfind]
    rfl

end FileTree

/-! ### Formats that are refused -/

/-- Only the format that compares needs a baseline. -/
theorem Report.name_of_needsBaseline {name : String} {f : Format} (h : formatNamed name = .ok f)
    (hf : f.needsBaseline = true) : f.name = "comparison" := by
  have hmem : f ∈ formats := by
    unfold formatNamed at h
    split at h
    · next g hg =>
      obtain rfl := Except.ok.inj h
      exact List.mem_of_find?_eq_some hg
    · cases h
  simp only [formats, List.mem_cons, List.not_mem_nil, or_false] at hmem
  obtain rfl | rfl | rfl := hmem
  · rfl
  · cases hf
  · cases hf

namespace Arguments

/-- There is something to write unless a report needs a baseline that is not there. -/
theorem content_eq_error_iff {a : Arguments} {f : Format} {o : ReportOptions} {run : Analysis Float}
    {e : Error} :
    a.content f o run = .error e ↔ a.has .json = false ∧ f.needsBaseline = true ∧
      run.baseline = none ∧ e = .config (f.name ++ " report requires a baseline trace") := by
  unfold content Format.render
  cases a.has .json with
  | true => simp
  | false => cases f.needsBaseline <;> cases run.baseline <;> simp [eq_comm]

/-- A replay by itself has no baseline. -/
theorem baseline_of_replay {host : Host} {o : ReplayOptions} {path : String} {run : Analysis Float}
    (h : (replay host o path).result = .ok run) : run.baseline = none := by
  rw [replay, Logged.result_bind] at h
  obtain ⟨trace, -, h⟩ := exists_of_bind_eq_ok h
  rw [result_analyzeLogged, analyze] at h
  obtain ⟨r₀, -, h⟩ := exists_of_bind_eq_ok h
  obtain ⟨r, -, h⟩ := exists_of_bind_eq_ok h
  obtain rfl := Except.ok.inj h
  rfl

/-- An analysis has a baseline exactly if one is asked for. -/
theorem baseline_of_analysis {a : Arguments} {host : Host} {o : ReplayOptions}
    {run : Analysis Float} (h : (a.analysis host o).result = .ok run) :
    run.baseline = none ↔ a.baseline = none := by
  rw [analysis, Logged.result_bind] at h
  obtain ⟨first, hfirst, h⟩ := exists_of_bind_eq_ok h
  cases hb : a.baseline with
  | none =>
    rw [hb] at h
    obtain rfl : first = run := Except.ok.inj h
    exact iff_of_true (baseline_of_replay hfirst) rfl
  | some path =>
    rw [hb] at h
    dsimp only at h
    rw [Logged.result_bind] at h
    obtain ⟨second, -, h⟩ := exists_of_bind_eq_ok h
    have h : first.attachBaseline second = .ok run := h
    obtain ⟨⟨current, baseline⟩, -, h⟩ := exists_of_bind_eq_ok h
    obtain rfl := Except.ok.inj h
    exact iff_of_false (Option.some_ne_none baseline) (Option.some_ne_none path)

/-! ### When the output file is made -/

/-- All is there that is needed before the output file is made: settings, a format and an analysis. -/
structure Ready (a : Arguments) (host : Host) (home : Option String) (s : Settings) (f : Format)
    (run : Analysis Float) : Prop where
  settings : a.loadSettings host.files home = .ok s
  format : Report.formatNamed s.report.format = .ok f
  analysis : (a.analysis host s.replay).result = .ok run

variable {a : Arguments} {host : Host} {home : Option String}

/-- Then the file is made, and only then it turns out what is to be written. -/
theorem run_of_ready {s : Settings} {f : Format} {run : Analysis Float}
    (h : a.Ready host home s f run) :
    ∃ messages, a.run host home =
      match a.makeOutput host.files with
      | .error e => ⟨some (.output e), "", messages, host.files⟩
      | .ok files =>
        match a.content f s.report run with
        | .error e => ⟨some (.error e), "", messages, files⟩
        | .ok text => a.deliver files messages text := by
  rw [Arguments.run, h.settings]
  dsimp only
  rw [h.format]
  dsimp only
  rw [h.analysis]
  exact ⟨_, rfl⟩

/-- Otherwise no file is touched. -/
theorem run_of_not_ready (h : ∀ s f run, ¬ a.Ready host home s f run) :
    (a.run host home).files = host.files := by
  rw [Arguments.run]
  cases hs : a.loadSettings host.files home with
  | error e => rfl
  | ok s =>
    dsimp only
    cases hf : Report.formatNamed s.report.format with
    | error e => rfl
    | ok f =>
      dsimp only
      cases hr : (a.analysis host s.replay).result with
      | error e => rfl
      | ok run => exact absurd ⟨hs, hf, hr⟩ (h s f run)

/-- What is delivered is no error of the library. -/
theorem failure_deliver (a : Arguments) (files : FileTree) (messages : List (Message Float))
    (text : String) (e : Error) :
    (a.deliver files messages text).failure ≠ some (.error e) := by
  unfold deliver
  split
  · exact Option.some_ne_none _ ∘ Eq.symm
  · split
    · exact Option.some_ne_none _ ∘ Eq.symm
    · exact fun h => nomatch h

/-- The output file is made without contents. -/
theorem read_of_makeOutput {files : FileTree} {path : String} (hout : a.output = some path)
    (hmake : a.makeOutput host.files = .ok files) : files.read path = .ok .empty := by
  rw [makeOutput, hout] at hmake
  exact FileTree.read_write hmake

/-! ### Runs that are refused -/

/-- A run that is refused after its output file was made: it gets as far as that, and is to compare
with a baseline that it was not given. -/
def IsRefused (a : Arguments) (host : Host) (home : Option String) : Prop :=
  ∃ s f run, a.Ready host home s f run ∧ f.needsBaseline = true ∧ a.baseline = none ∧
    a.has .json = false

/-- **A refused run leaves the output file behind as it was made.** -/
theorem IsRefused.run (h : a.IsRefused host home) {files : FileTree}
    (hmake : a.makeOutput host.files = .ok files) :
    (a.run host home).failure =
        some (.error (.config "comparison report requires a baseline trace")) ∧
      (a.run host home).files = files := by
  obtain ⟨s, f, run, hready, hneeds, hbase, hjson⟩ := h
  have hnone : run.baseline = none := (baseline_of_analysis hready.analysis).mpr hbase
  have hrefused := content_eq_error_iff (a := a) (o := s.report).mpr ⟨hjson, hneeds, hnone, rfl⟩
  rw [Report.name_of_needsBaseline hready.format hneeds] at hrefused
  obtain ⟨messages, hrun⟩ := run_of_ready hready
  rw [hrun, hmake]
  dsimp only
  rw [hrefused]
  exact ⟨rfl, rfl⟩

/-- **A run fails with an error of the library either before it makes its output file or because it
is refused.** -/
theorem files_of_failure {e : Error} (h : (a.run host home).failure = some (.error e)) :
    (¬ a.IsRefused host home ∧ (a.run host home).files = host.files) ∨
      (a.IsRefused host home ∧ e = .config "comparison report requires a baseline trace" ∧
        a.makeOutput host.files = .ok (a.run host home).files) := by
  by_cases hready : ∃ s f run, a.Ready host home s f run
  · obtain ⟨s, f, run, hready⟩ := hready
    obtain ⟨messages, hrun⟩ := run_of_ready hready
    have hfailed := h
    rw [hrun] at hfailed
    cases hmake : a.makeOutput host.files with
    | error err =>
      rw [hmake] at hfailed
      cases hfailed
    | ok files =>
      rw [hmake] at hfailed
      dsimp only at hfailed
      cases hcontent : a.content f s.report run with
      | ok text =>
        rw [hcontent] at hfailed
        exact absurd hfailed (a.failure_deliver files messages text e)
      | error err =>
        obtain ⟨hjson, hneeds, hnone, -⟩ := content_eq_error_iff.mp hcontent
        have hbase : a.baseline = none := (baseline_of_analysis hready.analysis).mp hnone
        have hrefused : a.IsRefused host home := ⟨s, f, run, hready, hneeds, hbase, hjson⟩
        obtain ⟨hfail, hfiles⟩ := hrefused.run hmake
        exact .inr ⟨hrefused, Failure.error.inj (Option.some.inj (h.symm.trans hfail)), by rw [hfiles]⟩
  · refine .inl ⟨?_, run_of_not_ready fun s f run hr => hready ⟨s, f, run, hr⟩⟩
    rintro ⟨s, f, run, hr, -⟩
    exact hready ⟨s, f, run, hr⟩

end Arguments

/-! ### Every run -/

/-- **A failing run leaves the output file alone unless it is refused.**  Whatever the command, the
files it can see and what the output file held, a run that ends in an error, other than one of
making that file, belongs to an analysis.  Unless the analysis is a comparison without a baseline
that is otherwise in order, no file is touched.  If it is one, the error says so, and what is left of
the output file is an empty file; so the contents are as before just if there were none. -/
theorem Command.output_kept_iff (c : Command) (host : Host) (home : Option String) {e : Error}
    (h : (c.run host home).failure = some (.error e)) :
    ∃ a, c = .analyze a ∧
      (¬ a.IsRefused host home → (c.run host home).files = host.files) ∧
      (a.IsRefused host home → e = .config "comparison report requires a baseline trace" ∧
        a.makeOutput host.files = .ok (c.run host home).files) ∧
      ∀ path, a.output = some path →
        ((c.run host home).files.read path = host.files.read path ↔
          (a.IsRefused host home → host.files.read path = .ok .empty)) := by
  cases c with
  | version => cases h
  | help => cases h
  | analyze a =>
    refine ⟨a, rfl, ?_⟩
    show (¬ a.IsRefused host home → (a.run host home).files = host.files) ∧
      (a.IsRefused host home → _ ∧ a.makeOutput host.files = .ok (a.run host home).files) ∧
      ∀ path, a.output = some path → ((a.run host home).files.read path = _ ↔ _)
    obtain ⟨hnot, hfiles⟩ | ⟨hrefused, he, hmake⟩ := Arguments.files_of_failure h
    · refine ⟨fun _ => hfiles, fun hr => absurd hr hnot, fun path _ => ?_⟩
      rw [hfiles]
      exact iff_of_true rfl fun hr => absurd hr hnot
    · refine ⟨fun hn => absurd hrefused hn, fun _ => ⟨he, hmake⟩, fun path hout => ?_⟩
      rw [Arguments.read_of_makeOutput hout hmake]
      exact ⟨fun heq _ => heq.symm, fun hold => (hold hrefused).symm⟩

/-- A trace without events, and a file that holds something. -/
def Host.oneTrace : Host where
  files := .dir [("trace.txt", .file "idlestat version = 0.1.0\ncpus=1\n".toUTF8),
    ("out.txt", .file "old".toUTF8)]
  root := "cpus"

/-- A report on that trace, over the file that is there. -/
def Arguments.overwriting (format : String) : Arguments where
  trace := "trace.txt"
  baseline := none
  format := some format
  output := some "out.txt"
  settings := none
  flags := []

theorem Arguments.loadSettings_overwriting (format : String) :
    (overwriting format).loadSettings Host.oneTrace.files none =
      .ok { report := { format := format } } := by
  rfl

/-- A report in a format that does not exist fails, and the file holds what it held. -/
theorem Command.output_kept_iff_unknownFormat :
    ((Command.analyze (.overwriting "table")).run .oneTrace none).failure =
        some (.error (.unknownReportFormat "table")) ∧
      ((Command.analyze (.overwriting "table")).run .oneTrace none).files.read "out.txt" =
        .ok "old".toUTF8 := by
  have hfail : ((Command.analyze (.overwriting "table")).run .oneTrace none).failure =
      some (.error (.unknownReportFormat "table")) := by
    rfl
  obtain ⟨a, ha, -, -, hread⟩ := Command.output_kept_iff _ _ _ hfail
  obtain rfl := Command.analyze.inj ha
  refine ⟨hfail, ((hread "out.txt" rfl).mpr ?_).trans rfl⟩
  rintro ⟨s, f, run, hready, -⟩
  have hsettings := Arguments.loadSettings_overwriting "table"
  obtain rfl := Except.ok.inj (hsettings.symm.trans hready.settings)
  exact nomatch hready.format

/-- **The output file of a run that is refused is emptied**: a comparison is asked for without a
baseline, and what the file held is lost. -/
theorem Command.output_emptied :
    ((Command.analyze (.overwriting "comparison")).run .oneTrace none).failure =
        some (.error (.config "comparison report requires a baseline trace")) ∧
      Host.oneTrace.files.read "out.txt" = .ok "old".toUTF8 ∧
      ((Command.analyze (.overwriting "comparison")).run .oneTrace none).files.read "out.txt" =
        .ok .empty := by
  have hrefused : (Arguments.overwriting "comparison").IsRefused .oneTrace none := by
    have hmade : ((Arguments.overwriting "comparison").analysis .oneTrace {}).result.toBool = true := by
      decide +kernel
    cases hrun : ((Arguments.overwriting "comparison").analysis .oneTrace {}).result with
    | error err =>
      rw [hrun] at hmade
      cases hmade
    | ok run =>
      have hsettings := Arguments.loadSettings_overwriting "comparison"
      exact ⟨_, Report.comparison, run, ⟨hsettings, rfl, hrun⟩, rfl, rfl, rfl⟩
  have hmake : (Arguments.overwriting "comparison").makeOutput Host.oneTrace.files =
      .ok (.dir [("trace.txt", .file "idlestat version = 0.1.0\ncpus=1\n".toUTF8),
        ("out.txt", .file .empty)]) := by
    rfl
  obtain ⟨hfail, hfiles⟩ := hrefused.run hmake
  refine ⟨hfail, rfl, ?_⟩
  show ((Arguments.overwriting "comparison").run .oneTrace none).files.read "out.txt" = .ok .empty
  rw [hfiles]
  exact Arguments.read_of_makeOutput rfl hmake

end PowerTrace
