/-!
# Columns of text

A column has a width in characters.  A text that is shorter is filled up with spaces; one that is
longer stays as it is, unless it is cut.
-/

namespace PowerTrace.Text

/-- So many spaces. -/
def spaces (n : Nat) : String := String.ofList (List.replicate n ' ')

/-- Fill up on the right. -/
def padRight (width : Nat) (s : String) : String := s ++ spaces (width - s.length)

/-- Fill up on the left. -/
def padLeft (width : Nat) (s : String) : String := spaces (width - s.length) ++ s

/-- Keep no more than the first `width` characters. -/
def cut (width : Nat) (s : String) : String := String.ofList (s.toList.take width)

@[simp] theorem length_spaces (n : Nat) : (spaces n).length = n := by
  simp [spaces]

theorem length_padRight (width : Nat) (s : String) :
    (padRight width s).length = max width s.length := by
  simp [padRight]; omega

theorem length_padLeft (width : Nat) (s : String) :
    (padLeft width s).length = max width s.length := by
  simp [padLeft]; omega

theorem length_cut_le (width : Nat) (s : String) : (cut width s).length ≤ width := by
  rw [cut, String.length_ofList, List.length_take]
  exact Nat.min_le_left _ _

end PowerTrace.Text
