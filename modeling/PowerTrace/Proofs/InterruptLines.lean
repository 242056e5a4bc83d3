import PowerTrace.Proofs.EventWords

/-!
# Lines about interrupts

A line about an interrupt tells its CPU in a column in brackets, after the name of the task.  The column is
found as the first brackets of the line, so a task whose name holds brackets is taken for it.  Apart from
that the line is decoded to exactly what it says.

* `NamesCpu`, `bracketCpu?_eq_some_iff`: the number in the first brackets of a text;
* `interruptPieces`, `ipiPieces`: what stands after the tag;
* `parenthesized?_eq`: a name in parentheses may hold parentheses itself;
* `LineHead`: what stands before the tag, column by column;
* `LineHead.Says.bracketCpu?_eq_some_iff`: when the first brackets of a line are those of its column;
* `not_isIn_of_wakeup`: a line with the tag of an idle state or a frequency is not about an interrupt;
* `LineHead.Says.interrupt_lines_decoded`: when a line is decoded to the interrupt it is about;
* `bracketed_task_misleads`: a task that moves an interrupt to another CPU.
-/

namespace PowerTrace

open Text

/-! ### The first brackets -/

/-- The first brackets of a text hold the number of a CPU. -/
def NamesCpu (cs : List Char) (cpu : CpuId) : Prop :=
  ∃ before inside after, cs = before ++ '[' :: (inside ++ ']' :: after) ∧ '[' ∉ before ∧
    ']' ∉ inside ∧ word32? (trim inside) = some cpu

theorem bracketCpu?_append {before inside : List Char} (hbefore : '[' ∉ before) (hinside : ']' ∉ inside)
    (after : List Char) :
    bracketCpu? (before ++ '[' :: (inside ++ ']' :: after)) = word32? (trim inside) := by
  simp only [bracketCpu?, splitAt?_singleton hbefore, splitAt?_singleton hinside, Option.bind_eq_bind,
    Option.bind_some]

theorem bracketCpu?_of_not_mem {cs : List Char} (h : '[' ∉ cs) : bracketCpu? cs = none := by
  have hnone : splitAt? ['['] cs = none := by
    rwa [splitAt?_eq_none_iff, List.singleton_infix_iff]
  rw [bracketCpu?, hnone]
  rfl

/-- Brackets that are not closed hold nothing. -/
theorem bracketCpu?_of_open {before rest : List Char} (hbefore : '[' ∉ before) (hrest : ']' ∉ rest) :
    bracketCpu? (before ++ '[' :: rest) = none := by
  have hnone : splitAt? [']'] rest = none := by
    rwa [splitAt?_eq_none_iff, List.singleton_infix_iff]
  simp only [bracketCpu?, splitAt?_singleton hbefore, hnone, Option.bind_eq_bind, Option.bind_some,
    Option.bind_none]

theorem bracketCpu?_eq_some_iff {cs : List Char} {cpu : CpuId} :
    bracketCpu? cs = some cpu ↔ NamesCpu cs cpu := by
  constructor
  · intro h
    by_cases hopen : '[' ∈ cs
    · obtain ⟨before, rest, rfl, hbefore⟩ := List.eq_append_cons_of_mem hopen
      by_cases hclose : ']' ∈ rest
      · obtain ⟨inside, after, rfl, hinside⟩ := List.eq_append_cons_of_mem hclose
        rw [bracketCpu?_append hbefore hinside] at h
        exact ⟨before, inside, after, rfl, hbefore, hinside, h⟩
      · rw [bracketCpu?_of_open hbefore hclose] at h
        cases h
    · rw [bracketCpu?_of_not_mem hopen] at h
      cases h
  · rintro ⟨before, inside, after, rfl, hbefore, hinside, hcpu⟩
    rw [bracketCpu?_append hbefore hinside, hcpu]

/-- Trimming keeps every character that is not blank. -/
theorem mem_trim {c : Char} {cs : List Char} (h : c ∈ cs) (hc : isBlank c = false) : c ∈ trim cs := by
  have hdrop : ∀ {l : List Char}, c ∈ l → c ∈ l.dropWhile isBlank := by
    intro l hl
    rw [← List.takeWhile_append_dropWhile (p := isBlank) (l := l), List.mem_append] at hl
    refine hl.resolve_left fun htake => ?_
    have hblank := List.mem_takeWhile_imp htake
    rw [hc] at hblank
    cases hblank
  rw [trim, dropEndWhile, List.mem_reverse]
  exact hdrop (List.mem_reverse.mpr (hdrop h))

/-- A text with a bracket is no number. -/
theorem word32?_trim_of_mem {cs : List Char} (h : '[' ∈ cs) : word32? (trim cs) = none := by
  rw [Option.eq_none_iff_forall_ne_some]
  intro n hn
  exact (isNumberChar_of_word32? hn _ (mem_trim h (by decide))).ne (by decide) rfl

/-! ### What stands after the tag -/

/-- What is said of a numbered interrupt. -/
def interruptPieces (digits name : List Char) : List (List Char) :=
  [Field.text ⟨"irq".toList, digits⟩, Field.text ⟨"name".toList, name⟩]

/-- What is said of an inter-processor interrupt. -/
def ipiPieces (name : List Char) : List (List Char) := ['(' :: (name ++ [')'])]

theorem beforeLast?_concat (c : Char) (cs : List Char) : beforeLast? c (cs ++ [c]) = some cs := by
  induction cs with
  | nil => simp [beforeLast?]
  | cons d cs ih => rw [List.cons_append, beforeLast?, ih]

/-- **A name in parentheses is read as a whole**, with any parentheses of its own. -/
theorem parenthesized?_eq (name : List Char) :
    parenthesized? (spaced (ipiPieces name)) = some (trim name) := by
  have hsplit : splitAt? ['('] (spaced (ipiPieces name)) = some ([' '], name ++ [')']) := by
    have hfirst := splitAt?_singleton (show '(' ∉ [' '] by decide) (name ++ [')'])
    simpa [spaced, ipiPieces] using hfirst
  simp only [parenthesized?, hsplit, beforeLast?_concat, Option.bind_eq_bind, Option.bind_some,
    Option.map_some]

theorem kind?_ipi (name lead line : List Char) :
    TaggedLine.kind? ⟨.ipi, lead, spaced (ipiPieces name)⟩ line =
      (bracketCpu? line).map fun c => (c, .wakeup none (String.ofList (trim name))) := by
  simp only [TaggedLine.kind?, parenthesized?_eq]
  cases bracketCpu? line <;> rfl

theorem kind?_interrupt {digits name : List Char} {id : ℤ} (hdigits : int32? digits = some id)
    (hname : ∀ c ∈ name, isBlank c = false) (lead line : List Char) :
    TaggedLine.kind? ⟨.interrupt, lead, spaced (interruptPieces digits name)⟩ line =
      (bracketCpu? line).map fun c => (c, .wakeup (some id) (String.ofList name)) := by
  have hirqWord : (⟨"irq".toList, digits⟩ : Field).IsWord :=
    Field.isWord_mk (by decide) fun c hc => (isNumberChar_of_int32? hdigits c hc).isBlank
  have hnameWord : (⟨"name".toList, name⟩ : Field).IsWord := Field.isWord_mk (by decide) hname
  have hwords := List.forall_mem_cons.mpr ⟨hirqWord, List.forall_mem_singleton.mpr hnameWord⟩
  have hirq : field? "irq" (spaced (interruptPieces digits name)) = some digits :=
    (field?_fields hwords (by decide)).trans rfl
  have hnamed : field? "name" (spaced (interruptPieces digits name)) = some name :=
    (field?_fields hwords (by decide)).trans rfl
  simp only [TaggedLine.kind?, hirq, hnamed, Option.bind_some, hdigits]
  cases bracketCpu? line <;> rfl

/-- A tag after that of the line is in the name. -/
theorem isIn_interruptPieces_iff {digits name : List Char} {id : ℤ} (hdigits : int32? digits = some id)
    {t : EventTag} : (∃ w ∈ interruptPieces digits name, t.IsIn w) ↔ t.IsIn name := by
  have hnumber : ¬ t.IsIn digits := t.not_isIn_of_not_mem (.inl fun hmem =>
    (isNumberChar_of_int32? hdigits _ hmem).ne (by decide) rfl)
  rw [interruptPieces, List.exists_mem_cons_iff, List.exists_mem_cons_iff,
    EventTag.isIn_field_iff (by decide), EventTag.isIn_field_iff (by decide), or_iff_right hnumber]
  simp

theorem isIn_ipiPieces_iff {name : List Char} {t : EventTag} :
    (∃ w ∈ ipiPieces name, t.IsIn w) ↔ t.IsIn name := by
  have hnil : ¬ t.IsIn [] := t.not_isIn_of_not_mem (.inl List.not_mem_nil)
  have hname : t.IsIn ([] ++ '(' :: (name ++ ')' :: [])) ↔ t.IsIn name := by
    rw [EventTag.isIn_append_cons_iff (by decide), EventTag.isIn_append_cons_iff (by decide),
      or_iff_right hnil, or_iff_left hnil]
  rw [ipiPieces, List.exists_mem_cons_iff, ← hname]
  simp

/-! ### What stands before the tag -/

/-- The columns before the tag of an interrupt. -/
structure LineHead where
  /-- The name of the task. -/
  task : List Char
  /-- Its number. -/
  pid : List Char
  /-- The CPU. -/
  column : List Char
  /-- The flags. -/
  flags : List Char
  /-- The stamp. -/
  stamp : List Char
  deriving DecidableEq, Repr

namespace LineHead

/-- What stands before the stamp. -/
def lead (h : LineHead) : List Char :=
  h.task ++ '-' :: (h.pid ++ ' ' :: '[' :: (h.column ++ ']' :: ' ' :: h.flags))

/-- A line with these columns. -/
def line (h : LineHead) (t : EventTag) (pieces : List (List Char)) : List Char :=
  eventLine h.lead h.stamp t pieces

/-- Columns that tell an instant and a CPU.  The name of the task and the flags may be anything but a tag. -/
structure Says (h : LineHead) (time : Float) (cpu : CpuId) : Prop where
  task : ∀ t : EventTag, ¬ t.IsIn h.task
  pid : ∀ c ∈ h.pid, c.isDigit = true
  column : word32? h.column = some cpu
  flags : ∀ t : EventTag, ¬ t.IsIn h.flags
  stamp : float? h.stamp = some time

variable {h : LineHead} {time : Float} {cpu : CpuId}

/-- No tag stands before the stamp. -/
theorem Says.not_isIn_lead (hs : h.Says time cpu) (t : EventTag) : ¬ t.IsIn h.lead := by
  have hpid : '_' ∉ h.pid := fun hmem => absurd (hs.pid _ hmem) (by decide)
  have hcolumn : '_' ∉ h.column := fun hmem =>
    (isNumberChar_of_word32? hs.column _ hmem).ne (by decide) rfl
  have hnil : ¬ t.IsIn [] := t.not_isIn_of_not_mem (.inl List.not_mem_nil)
  show ¬ t.IsIn
    (h.task ++ '-' :: (h.pid ++ ' ' :: ([] ++ '[' :: (h.column ++ ']' :: ([] ++ ' ' :: h.flags)))))
  iterate 5 rw [EventTag.isIn_append_cons_iff (by decide)]
  rintro (hin | hin | hin | hin | hin | hin)
  · exact hs.task t hin
  · exact t.not_isIn_of_not_mem (.inl hpid) hin
  · exact hnil hin
  · exact t.not_isIn_of_not_mem (.inl hcolumn) hin
  · exact hnil hin
  · exact hs.flags t hin

/-- **When the first brackets are those of the column**, or at least say the same: if the name of the task
holds no bracket, or its own first brackets are closed in it and hold the number of the CPU. -/
theorem Says.bracketCpu?_eq_some_iff (hs : h.Says time cpu) (t : EventTag) (pieces : List (List Char)) :
    bracketCpu? (h.line t pieces) = some cpu ↔ ('[' ∈ h.task → NamesCpu h.task cpu) := by
  obtain ⟨more, hline⟩ : ∃ more, h.line t pieces =
      h.task ++ '-' :: (h.pid ++ ' ' :: '[' :: (h.column ++ ']' :: more)) := by
    refine ⟨' ' :: (h.flags ++ ' ' :: (h.stamp ++ ':' :: ' ' :: (t.text ++ spaced pieces))), ?_⟩
    simp only [line, eventLine, lead, List.append_assoc, List.cons_append]
  have hcolumn : ∀ c ∈ h.column, IsNumberChar c := isNumberChar_of_word32? hs.column
  have hclosed : ']' ∉ h.column := fun hmem => (hcolumn _ hmem).ne (by decide) rfl
  have hpid : '[' ∉ h.pid ∧ ']' ∉ h.pid :=
    ⟨fun hmem => absurd (hs.pid _ hmem) (by decide), fun hmem => absurd (hs.pid _ hmem) (by decide)⟩
  rw [hline, ← PowerTrace.bracketCpu?_eq_some_iff]
  by_cases hopen : '[' ∈ h.task
  · rw [forall_prop_of_true hopen]
    obtain ⟨before, rest, htask, hbefore⟩ := List.eq_append_cons_of_mem hopen
    by_cases hclose : ']' ∈ rest
    · -- the line and the name begin with the same brackets
      obtain ⟨inside, after, rfl, hinside⟩ := List.eq_append_cons_of_mem hclose
      rw [htask, bracketCpu?_append hbefore hinside, List.append_assoc, List.cons_append,
        List.append_assoc, List.cons_append, bracketCpu?_append hbefore hinside]
    · -- the brackets of the name are closed by the column, with another bracket inside
      have hinside : ']' ∉ rest ++ '-' :: (h.pid ++ ' ' :: '[' :: h.column) := by
        simp [hclose, hpid.2, hclosed]
      have hnested : '[' ∈ rest ++ '-' :: (h.pid ++ ' ' :: '[' :: h.column) := by simp
      have hsplit : before ++ '[' :: rest ++ '-' :: (h.pid ++ ' ' :: '[' :: (h.column ++ ']' :: more)) =
          before ++ '[' :: (rest ++ '-' :: (h.pid ++ ' ' :: '[' :: h.column) ++ ']' :: more) := by simp
      rw [htask, bracketCpu?_of_open hbefore hclose, hsplit, bracketCpu?_append hbefore hinside,
        word32?_trim_of_mem hnested]
  · -- the brackets of the column are the first ones
    have hbefore : '[' ∉ h.task ++ '-' :: (h.pid ++ [' ']) := by simp [hopen, hpid.1]
    have hsplit : h.task ++ '-' :: (h.pid ++ ' ' :: '[' :: (h.column ++ ']' :: more)) =
        h.task ++ '-' :: (h.pid ++ [' ']) ++ '[' :: (h.column ++ ']' :: more) := by simp
    refine iff_of_true ?_ fun hmem => absurd hmem hopen
    rw [hsplit, bracketCpu?_append hbefore hclosed,
      trim_of_forall fun c hc => (hcolumn c hc).isBlank, hs.column]

end LineHead

/-! ### The whole line -/

/-- The tag that a line is read by is not looked for after one that the line holds. -/
theorem TaggedLine.tag_mem_of_isIn {line : List Char} {t : EventTag} (hin : t.IsIn line)
    {before later : List EventTag} {found : TaggedLine}
    (h : ofLine? line (before ++ t :: later) = some found) : found.tag ∈ before ++ [t] := by
  have hsome : splitAt? t.text line ≠ none := fun hnone => splitAt?_eq_none_iff.mp hnone hin
  induction before with
  | nil =>
    rw [List.nil_append, ofLine?] at h
    cases hsplit : splitAt? t.text line with
    | none => exact absurd hsplit hsome
    | some split =>
      rw [hsplit] at h
      cases h
      exact List.mem_singleton_self _
  | cons s before ih =>
    rw [List.cons_append, ofLine?] at h
    split at h
    · cases h
      exact List.mem_cons_self
    · exact List.mem_cons_of_mem _ (ih h)

/-- Only the tags of interrupts are read as wake-ups. -/
theorem TaggedLine.tag_of_wakeup {found : TaggedLine} {line : List Char} {cpu : CpuId} {id : Option ℤ}
    {name : String} (h : found.kind? line = some (cpu, .wakeup id name)) :
    found.tag = .interrupt ∨ found.tag = .ipi := by
  unfold TaggedLine.kind? at h
  split at h
  · obtain ⟨state, -, h⟩ := Option.bind_eq_some_iff.mp h
    obtain ⟨number, -, h⟩ := Option.bind_eq_some_iff.mp h
    rw [Option.some.injEq, Prod.mk.injEq, idleKind] at h
    split at h
    · cases h.2
    · cases h.2
  · obtain ⟨khz, -, h⟩ := Option.bind_eq_some_iff.mp h
    obtain ⟨number, -, h⟩ := Option.bind_eq_some_iff.mp h
    split at h
    · cases h
    · cases h
  · next htag => exact .inl htag
  · next htag => exact .inr htag

/-- **A line with the tag of an idle state or a frequency is not about an interrupt**, wherever it has that
tag. -/
theorem not_isIn_of_wakeup {line : List Char} {time : Float} {cpu : CpuId} {id : Option ℤ} {name : String}
    (h : event? line = some (.ok ⟨time, cpu, .wakeup id name⟩)) :
    ¬ EventTag.idle.IsIn line ∧ ¬ EventTag.frequency.IsIn line := by
  obtain ⟨found, hfound, hevent⟩ := Option.map_eq_some_iff.mp h
  have hkind : found.kind? line = some (cpu, .wakeup id name) := by
    split at hevent
    · next heq => cases hevent; exact heq
    · cases hevent
  have hnone : ∀ t : EventTag, .interrupt ∉ t.earlier ++ [t] → .ipi ∉ t.earlier ++ [t] →
      ¬ t.IsIn line := by
    intro t hinterrupt hipi hin
    obtain ⟨later, hall⟩ := t.exists_all_eq
    rw [hall] at hfound
    have hmem := TaggedLine.tag_mem_of_isIn hin hfound
    rcases TaggedLine.tag_of_wakeup hkind with htag | htag
    · exact hinterrupt (htag ▸ hmem)
    · exact hipi (htag ▸ hmem)
  exact ⟨hnone .idle (by decide) (by decide), hnone .frequency (by decide) (by decide)⟩

namespace LineHead.Says

variable {h : LineHead} {time : Float} {cpu : CpuId}

/-- A line that tells its CPU in brackets, and in which no tag that is looked for earlier stands after its
own, is decoded to what it says under the condition on the task alone. -/
theorem event?_line_iff (hs : h.Says time cpu) {t : EventTag} {pieces : List (List Char)}
    {kind : EventKind} (hearlier : ∀ s ∈ t.earlier, ¬ ∃ w ∈ pieces, s.IsIn w)
    (hkind : ∀ lead line, TaggedLine.kind? ⟨t, lead, spaced pieces⟩ line =
      (bracketCpu? line).map fun c => (c, kind)) :
    event? (h.line t pieces) = some (.ok ⟨time, cpu, kind⟩) ↔
      ('[' ∈ h.task → NamesCpu h.task cpu) := by
  have hevent := event?_eventLine hs.stamp (hs.not_isIn_lead t)
    fun s hs' => ⟨hs.not_isIn_lead s, fun w hw hin => hearlier s hs' ⟨w, hw, hin⟩⟩
  rw [line, hevent, hkind, ← hs.bracketCpu?_eq_some_iff t pieces, line]
  cases bracketCpu? (eventLine h.lead h.stamp t pieces) with
  | none => simp
  | some c => simp

/-- **When a line about an interrupt is decoded to what it says.**  Take columns that tell an instant and a
CPU, with any name of a task and any flags without tags.  The line of a numbered interrupt is decoded to its
instant, CPU, number and name if and only if its name holds neither of the tags that are looked for earlier,
and the first brackets of the task, if it has any, hold the CPU.  The line of an inter-processor interrupt
with a trimmed name, which may have parentheses, is decoded to what it says under the latter condition. -/
theorem interrupt_lines_decoded (hs : h.Says time cpu) :
    (∀ (digits : List Char) (id : ℤ) (name : List Char), int32? digits = some id →
      (∀ c ∈ name, isBlank c = false) →
      (event? (h.line .interrupt (interruptPieces digits name)) =
          some (.ok ⟨time, cpu, .wakeup (some id) (String.ofList name)⟩) ↔
        ¬ EventTag.idle.IsIn name ∧ ¬ EventTag.frequency.IsIn name ∧
          ('[' ∈ h.task → NamesCpu h.task cpu))) ∧
    (∀ name : List Char, trim name = name → (∀ t : EventTag, ¬ t.IsIn name) →
      (event? (h.line .ipi (ipiPieces name)) =
          some (.ok ⟨time, cpu, .wakeup none (String.ofList name)⟩) ↔
        ('[' ∈ h.task → NamesCpu h.task cpu))) := by
  constructor
  · intro digits id name hdigits hname
    have hin : ∀ t : EventTag, t.IsIn name → t.IsIn (h.line .interrupt (interruptPieces digits name)) := by
      intro t ht
      rw [line, isIn_eventLine_iff hs.stamp, isIn_interruptPieces_iff hdigits]
      exact .inr (.inr ht)
    have hdecoded : ¬ EventTag.idle.IsIn name → ¬ EventTag.frequency.IsIn name →
        (event? (h.line .interrupt (interruptPieces digits name)) =
            some (.ok ⟨time, cpu, .wakeup (some id) (String.ofList name)⟩) ↔
          ('[' ∈ h.task → NamesCpu h.task cpu)) := by
      intro hidle hfrequency
      refine hs.event?_line_iff (fun s hs' => ?_) (kind?_interrupt hdigits hname)
      rw [isIn_interruptPieces_iff hdigits]
      rcases List.mem_pair.mp hs' with rfl | rfl
      · exact hidle
      · exact hfrequency
    constructor
    · intro hevent
      obtain ⟨hidle, hfrequency⟩ := (not_isIn_of_wakeup hevent).imp (mt (hin _)) (mt (hin _))
      exact ⟨hidle, hfrequency, (hdecoded hidle hfrequency).mp hevent⟩
    · rintro ⟨hidle, hfrequency, htask⟩
      exact (hdecoded hidle hfrequency).mpr htask
  · intro name htrim htags
    refine hs.event?_line_iff (fun s _ => ?_) fun lead line => ?_
    · rw [isIn_ipiPieces_iff]
      exact htags s
    · rw [kind?_ipi, htrim]

end LineHead.Says

/-- The columns of a task whose name ends with the number of its CPU in brackets. -/
def LineHead.worker : LineHead where
  task := "kworker [3]".toList
  pid := "12".toList
  column := "003".toList
  flags := "d.h2".toList
  stamp := "12.5".toList

theorem LineHead.worker_says : LineHead.worker.Says 12.5 3 where
  task t := by cases t <;> decide
  pid := List.all_eq_true.mp (by decide)
  column := rfl
  flags t := by cases t <;> decide
  stamp := rfl

/-- The brackets of the task do no harm where they say the same, and a name in parentheses may hold more. -/
theorem interrupt_lines_decoded_worker :
    event? "kworker [3]-12 [003] d.h2 12.5: irq_handler_entry: irq=30 name=timer".toList =
        some (.ok ⟨12.5, 3, .wakeup (some 30) "timer"⟩) ∧
      event? "kworker [3]-12 [003] d.h2 12.5: ipi_entry: (call (one) of two)".toList =
        some (.ok ⟨12.5, 3, .wakeup none "call (one) of two"⟩) := by
  have htask : '[' ∈ LineHead.worker.task → NamesCpu LineHead.worker.task 3 :=
    fun _ => ⟨"kworker ".toList, ['3'], [], rfl, by decide, by decide, rfl⟩
  constructor
  · exact (LineHead.worker_says.interrupt_lines_decoded.1 "30".toList 30 "timer".toList (by decide)
      (isBlank_of_any (by decide))).mpr ⟨by decide, by decide, htask⟩
  · exact (LineHead.worker_says.interrupt_lines_decoded.2 "call (one) of two".toList rfl
      fun t => by cases t <;> decide).mpr htask

/-- **A task that moves an interrupt to another CPU**: the columns say CPU 3, and no piece of the line holds
a tag, but the name of the task is read for the column. -/
theorem bracketed_task_misleads :
    let h : LineHead := ⟨"a[7]".toList, "12".toList, "003".toList, "d.h2".toList, "12.5".toList⟩
    h.Says 12.5 3 ∧
      h.line .interrupt (interruptPieces "30".toList "timer".toList) =
        "a[7]-12 [003] d.h2 12.5: irq_handler_entry: irq=30 name=timer".toList ∧
      event? "a[7]-12 [003] d.h2 12.5: irq_handler_entry: irq=30 name=timer".toList =
        some (.ok ⟨12.5, 7, .wakeup (some 30) "timer"⟩) :=
  ⟨⟨fun t => by cases t <;> decide, List.all_eq_true.mp (by decide), rfl,
    fun t => by cases t <;> decide, rfl⟩, rfl, rfl⟩

end PowerTrace
