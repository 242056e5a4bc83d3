import PowerTrace.Text.Lines

/-!
# The lines of a file, read back

A file that was written line by line holds these lines.  Its bytes are cut at line feeds before any
of them is taken as text, so this rests on UTF-8: no character but the line feed has that byte in
its encoding, and none but the carriage return ends with that one.

* `IsLine`: what can be written as a line and is still the same when it is read;
* `splitLines_append`: cutting written lines apart;
* `utf8`, `toNat_of_mem_utf8EncodeChar`: the bytes of a text;
* `fileLines_toUTF8`: the lines of a text are those of its bytes;
* `fileLines_text`: the lines of a file are those that were written.
-/

namespace PowerTrace.Text

/-- Characters that reading takes as one line and leaves as they are. -/
def IsLine (l : List Char) : Prop := '\n' ∉ l ∧ l.getLast? ≠ some '\r'

instance (l : List Char) : Decidable (IsLine l) := inferInstanceAs (Decidable (_ ∧ _))

/-! ### Cutting at line feeds -/

section Split

variable {α : Type} [BEq α] [LawfulBEq α] {lf cr : α} {ls : List (List α)} {tail : List α}

theorem dropReturn_of_getLast?_ne {xs : List α} (h : xs.getLast? ≠ some cr) :
    dropReturn cr xs = xs := by
  unfold dropReturn
  split
  · next x hx =>
    rw [if_neg]
    intro heq
    rw [hx, beq_iff_eq.mp heq] at h
    exact h rfl
  · rfl

theorem dropReturn_concat (cr : α) (xs : List α) : dropReturn cr (xs ++ [cr]) = xs := by
  unfold dropReturn
  rw [List.getLast?_concat]
  dsimp only
  rw [if_pos (beq_self_eq_true _), List.dropLast_concat]

/-- Lines that end with line feeds, and what follows the last one, come apart again. -/
theorem splitOn_lines (hls : ∀ l ∈ ls, lf ∉ l) (htail : lf ∉ tail) :
    (ls.flatMap (· ++ [lf]) ++ tail).splitOn lf = ls ++ [tail] := by
  induction ls with
  | nil => exact List.splitOn_eq_singleton htail
  | cons l ls ih =>
    obtain ⟨hl, hls⟩ := List.forall_mem_cons.mp hls
    rw [List.flatMap_cons, List.append_assoc, List.append_assoc, List.singleton_append,
      List.splitOn_append_cons_self_of_not_mem hl, ih hls, List.cons_append]

/-- What holds no line feed comes before the next one. -/
theorem splitOn_append_of_not_mem {xs : List α} (h : lf ∉ xs) (ys : List α) :
    (xs ++ ys).splitOn lf = (ys.splitOn lf).modifyHead (xs ++ ·) := by
  induction xs with
  | nil =>
    rw [List.nil_append]
    cases ys.splitOn lf <;> rfl
  | cons x xs ih =>
    have hx : ¬(x == lf) = true := fun he => h (beq_iff_eq.mp he ▸ List.mem_cons_self)
    rw [List.cons_append, List.splitOn_cons_eq_if_modifyHead, if_neg hx,
      ih fun hm => h (List.mem_cons_of_mem _ hm)]
    cases ys.splitOn lf <;> rfl

/-- **Written lines are read as they are**, and what follows the last of them is a line if it holds
something. -/
theorem splitLines_append (hls : ∀ l ∈ ls, lf ∉ l ∧ l.getLast? ≠ some cr) (htail : lf ∉ tail) :
    splitLines lf cr (ls.flatMap (· ++ [lf]) ++ tail) = ls ++ [tail].filter (!·.isEmpty) := by
  unfold splitLines
  dsimp only
  rw [splitOn_lines (fun l hl => (hls l hl).1) htail, List.dropLast_concat, List.getLast?_concat]
  congr 1
  rw [List.map_congr_left fun l hl => dropReturn_of_getLast?_ne (hls l hl).2]
  exact List.map_id' ls

end Split

/-! ### The bytes of a text -/

/-- The bytes of a text in UTF-8. -/
def utf8 (cs : List Char) : List UInt8 := cs.flatMap String.utf8EncodeChar

theorem utf8_append (cs ds : List Char) : utf8 (cs ++ ds) = utf8 cs ++ utf8 ds :=
  List.flatMap_append

/-- A byte below 128 encodes the character that it is the number of. -/
theorem toNat_of_mem_utf8EncodeChar {c : Char} {b : UInt8} (h : b ∈ String.utf8EncodeChar c)
    (hb : b.toNat < 128) : c.toNat = b.toNat := by
  have hval : c.toNat = c.val.toNat := rfl
  unfold String.utf8EncodeChar at h
  dsimp only at h
  -- all bytes of a longer encoding have their highest bit set
  split at h
  · rw [List.mem_singleton] at h
    rw [hval, h, UInt8.toNat_ofNat']
    omega
  · exfalso
    split at h
    · simp only [List.mem_cons, List.not_mem_nil, or_false] at h
      rcases h with rfl | rfl <;> rw [UInt8.toNat_ofNat'] at hb <;> omega
    · split at h
      · simp only [List.mem_cons, List.not_mem_nil, or_false] at h
        rcases h with rfl | rfl | rfl <;> rw [UInt8.toNat_ofNat'] at hb <;> omega
      · simp only [List.mem_cons, List.not_mem_nil, or_false] at h
        rcases h with rfl | rfl | rfl | rfl <;> rw [UInt8.toNat_ofNat'] at hb <;> omega

theorem lineFeed_not_mem_utf8EncodeChar {c : Char} (h : c ≠ '\n') : 0x0A ∉ String.utf8EncodeChar c :=
  fun hb => h (Char.toNat_inj.mp (toNat_of_mem_utf8EncodeChar hb (by decide)))

theorem getLast?_utf8_ne {cs : List Char} (h : cs.getLast? ≠ some '\r') :
    (utf8 cs).getLast? ≠ some 0x0D := by
  intro hlast
  obtain rfl | ⟨cs, c, rfl⟩ := cs.eq_nil_or_concat
  · cases hlast
  · rw [List.concat_eq_append] at h hlast
    rw [utf8_append, utf8, utf8, List.flatMap_singleton, List.getLast?_append,
      List.getLast?_eq_some_getLast String.utf8EncodeChar_ne_nil, Option.some_or] at hlast
    have hmem : 0x0D ∈ String.utf8EncodeChar c := Option.some.inj hlast ▸ List.getLast_mem _
    have heq : c = '\r' := Char.toNat_inj.mp (toNat_of_mem_utf8EncodeChar hmem (by decide))
    rw [heq, List.getLast?_concat] at h
    exact h rfl

/-- The bytes of a text are that text. -/
theorem decode_utf8 (cs : List Char) : decode (utf8 cs) = .ok cs := by
  have hbytes : (⟨(utf8 cs).toArray⟩ : ByteArray) = cs.utf8Encode :=
    ByteArray.ext (List.toArray_eq_iff.mpr List.toList_data_toByteArray.symm)
  have htext : String.fromUTF8? cs.utf8Encode = some (String.ofList cs) :=
    dif_pos ByteArray.isValidUTF8_utf8Encode
  rw [decode, hbytes, htext]
  exact congrArg Except.ok String.toList_ofList

theorem isEmpty_utf8 (cs : List Char) : (utf8 cs).isEmpty = cs.isEmpty := by
  cases cs with
  | nil => rfl
  | cons c cs =>
    rw [List.isEmpty_cons, List.isEmpty_eq_false_iff]
    exact fun h => String.utf8EncodeChar_ne_nil (List.append_eq_nil_iff.mp h).1

/-! ### The lines of a file -/

/-- The bytes of a text come apart at line feeds where the text does. -/
theorem splitOn_utf8 (cs : List Char) : (utf8 cs).splitOn 0x0A = (cs.splitOn '\n').map utf8 := by
  induction cs with
  | nil => rfl
  | cons c cs ih =>
    rw [utf8, List.flatMap_cons, ← utf8, List.splitOn_cons_eq_if_modifyHead]
    by_cases hc : c = '\n'
    · subst hc
      rw [if_pos (beq_self_eq_true _), List.map_cons, ← ih]
      exact List.splitOn_append_cons_self_of_not_mem List.not_mem_nil (utf8 cs)
    · rw [if_neg (by rwa [beq_iff_eq]), splitOn_append_of_not_mem (lineFeed_not_mem_utf8EncodeChar hc), ih]
      cases cs.splitOn '\n' <;> rfl

theorem dropReturn_utf8 (l : List Char) : dropReturn 0x0D (utf8 l) = utf8 (dropReturn '\r' l) := by
  by_cases h : l.getLast? = some '\r'
  · obtain ⟨init, rfl⟩ := List.getLast?_eq_some_iff.mp h
    have hbytes : utf8 (init ++ ['\r']) = utf8 init ++ [0x0D] := utf8_append init ['\r']
    rw [hbytes, dropReturn_concat, dropReturn_concat]
  · rw [dropReturn_of_getLast?_ne (getLast?_utf8_ne h), dropReturn_of_getLast?_ne h]

/-- **The lines of a text are those of its bytes.** -/
theorem fileLines_toUTF8 (s : String) : fileLines s.toUTF8 = (lines s.toList).map .ok := by
  have hbytes : (String.ofList s.toList).toUTF8.data.toList = utf8 s.toList :=
    List.toList_data_toByteArray
  rw [String.ofList_toList] at hbytes
  have hdrop : dropReturn 0x0D ∘ utf8 = utf8 ∘ dropReturn '\r' := funext dropReturn_utf8
  have hempty : (fun l => !l.isEmpty) ∘ utf8 = fun l => !l.isEmpty :=
    funext fun l => congrArg not (isEmpty_utf8 l)
  have hdecode : decode ∘ utf8 = Except.ok := funext decode_utf8
  have hlines : splitLines 0x0A 0x0D (utf8 s.toList) = (lines s.toList).map utf8 := by
    unfold lines splitLines
    dsimp only
    rw [splitOn_utf8, List.map_append, List.map_map, ← hdrop, ← List.map_map, ← List.map_dropLast,
      List.getLast?_map, Option.toList_map, List.filter_map, hempty]
  rw [fileLines, hbytes, hlines, List.map_map, hdecode]

/-- **The lines of a file are those that were written**, and what follows the last line feed is a
line if it holds something. -/
theorem fileLines_text {ls : List (List Char)} (hls : ∀ l ∈ ls, IsLine l) {tail : List Char}
    (htail : IsLine tail) :
    fileLines (String.ofList (unlines ls ++ tail)).toUTF8 =
      (ls ++ [tail].filter (!·.isEmpty)).map .ok := by
  rw [fileLines_toUTF8, String.toList_ofList, lines, unlines, splitLines_append hls htail.1]

end PowerTrace.Text
