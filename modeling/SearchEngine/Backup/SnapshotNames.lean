import Mathlib.Algebra.Group.Nat.Defs
import Mathlib.Data.Char
import Mathlib.Data.List.Lex

/-!
# Snapshot names

A snapshot is named by the local time of its run, `%Y%m%d_%H%M%S`, with a
six-digit suffix when that name is taken. Names are compared as strings, so a
time comes before its own suffixes and the suffixes come in numeric order.
-/

namespace SearchEngine.Backup

abbrev Name := List Char

def isDigit (char : Char) : Bool := '0' ≤ char && char ≤ '9'

/-- What `isSnapshotName` accepts after the time: nothing, or a numeric suffix. -/
def isSuffix : Name → Bool
  | [] => true
  | separator :: suffix => separator == '_' && !suffix.isEmpty && suffix.all isDigit

def isSnapshotName (name : Name) : Bool :=
  decide (15 ≤ name.length) && name[8]? == some '_' && (name.take 8).all isDigit &&
    ((name.take 15).drop 9).all isDigit && isSuffix (name.drop 15)

/-- What `getTimeString` returns. -/
abbrev TimeString := { text : Name // text.length = 15 ∧ isSnapshotName text = true }

def digit (number : Nat) : Char := Char.ofNat (48 + number % 10)

/-- `setw(width)` with `setfill('0')` for a number of at most `width` digits. -/
def padded : (width number : Nat) → Name
  | 0, _ => []
  | width + 1, number => padded width (number / 10) ++ [digit number]

/-- The name of a time with a suffix; suffix zero is the time alone. -/
def versionName (time : Name) : Nat → Name
  | 0 => time
  | suffix + 1 => time ++ '_' :: padded 6 (suffix + 1)

/-- The last suffix that `chooseVersionPath` tries. -/
def maxSuffix : Nat := 999999

/-! ## Order -/

theorem digit_lt_digit {left right : Nat} (leftBound : left < 10) (rightBound : right < 10) :
    digit left < digit right ↔ left < right := by
  have each : ∀ a < 10, ∀ b < 10, digit a < digit b ↔ a < b := by decide
  exact each left leftBound right rightBound

theorem isDigit_digit (number : Nat) : isDigit (digit number) = true := by
  have each : ∀ a < 10, isDigit (Char.ofNat (48 + a)) = true := by decide
  exact each (number % 10) (Nat.mod_lt _ (by decide))

@[simp] theorem length_padded (width number : Nat) : (padded width number).length = width := by
  induction width generalizing number with
  | zero => rfl
  | succ width ih => simp [padded, ih]

theorem all_isDigit_padded (width number : Nat) : (padded width number).all isDigit = true := by
  induction width generalizing number with
  | zero => rfl
  | succ width ih => simp [padded, ih, isDigit_digit]

/-- Lists that agree in a prefix compare by what follows. -/
theorem append_lt_append_left_iff (front left right : Name) :
    front ++ left < front ++ right ↔ left < right := by
  induction front with
  | nil => rfl
  | cons char front ih => rw [List.cons_append, List.cons_append, List.cons_lt_cons_iff]; simp [ih]

/-- Lists that differ within an equally long prefix compare by that prefix. -/
theorem append_lt_append_of_lt {left right : Name} (less : left < right)
    (length_eq : left.length = right.length) (leftTail rightTail : Name) :
    left ++ leftTail < right ++ rightTail := by
  induction left generalizing right with
  | nil =>
      cases right with
      | nil => exact absurd less (lt_irrefl _)
      | cons char right => cases length_eq
  | cons first left ih =>
      cases right with
      | nil => cases length_eq
      | cons other right =>
          rw [List.cons_append, List.cons_append, List.cons_lt_cons_iff]
          rw [List.cons_lt_cons_iff] at less
          rcases less with smaller | ⟨same, smaller⟩
          · exact .inl smaller
          · exact .inr ⟨same, ih smaller (Nat.succ.inj length_eq)⟩

theorem digit_mod (number : Nat) : digit (number % 10) = digit number := by
  rw [digit, digit, Nat.mod_mod]

theorem padded_lt_padded {width left right : Nat} (less : left < right) (bound : right < 10 ^ width) :
    padded width left < padded width right := by
  induction width generalizing left right with
  | zero =>
      rw [Nat.pow_zero] at bound
      omega
  | succ width ih =>
      rw [Nat.pow_succ] at bound
      simp only [padded]
      rcases Nat.lt_or_ge (left / 10) (right / 10) with smaller | larger
      · have lengths : (padded width (left / 10)).length = (padded width (right / 10)).length := by
          rw [length_padded, length_padded]
        exact append_lt_append_of_lt (ih smaller (by omega)) lengths _ _
      · have same : left / 10 = right / 10 := by omega
        have last : left % 10 < right % 10 := by omega
        have digits : digit left < digit right := by
          rw [← digit_mod left, ← digit_mod right]
          exact (digit_lt_digit (by omega) (by omega)).mpr last
        rw [same, append_lt_append_left_iff]
        exact List.cons_lt_cons_iff.mpr (.inl digits)

/-- The suffixes of one time come in numeric order. -/
theorem versionName_lt_of_lt (time : Name) {left right : Nat} (less : left < right)
    (bound : right ≤ maxSuffix) : versionName time left < versionName time right := by
  cases right with
  | zero => omega
  | succ right =>
      cases left with
      | zero =>
          simp only [versionName]
          conv_lhs => rw [← List.append_nil time]
          rw [append_lt_append_left_iff]
          exact List.nil_lt_cons _ _
      | succ left =>
          simp only [versionName]
          rw [append_lt_append_left_iff, List.cons_lt_cons_iff]
          refine .inr ⟨rfl, padded_lt_padded less ?_⟩
          rw [maxSuffix] at bound
          omega

/-- An earlier time comes before a later one whatever their suffixes. -/
theorem versionName_lt_of_time_lt {time later : Name} (less : time < later)
    (length_eq : time.length = later.length) (left right : Nat) :
    versionName time left < versionName later right := by
  have split : ∀ (text : Name) (suffix : Nat), ∃ tail, versionName text suffix = text ++ tail := by
    intro text suffix
    cases suffix with
    | zero => exact ⟨[], (List.append_nil text).symm⟩
    | succ suffix => exact ⟨_, rfl⟩
  obtain ⟨leftTail, left_eq⟩ := split time left
  obtain ⟨rightTail, right_eq⟩ := split later right
  rw [left_eq, right_eq]
  exact append_lt_append_of_lt less length_eq leftTail rightTail

/-- A time determines and is determined by the first fifteen characters. -/
theorem take_versionName {time : Name} (length_eq : time.length = 15) (suffix : Nat) :
    (versionName time suffix).take 15 = time := by
  cases suffix with
  | zero => exact List.take_of_length_le length_eq.le
  | succ suffix => rw [versionName, List.take_append_of_le_length length_eq.ge, List.take_of_length_le length_eq.le]

theorem isSnapshotName_versionName (time : TimeString) (suffix : Nat) :
    isSnapshotName (versionName time.1 suffix) = true := by
  obtain ⟨text, length_eq, valid⟩ := time
  cases suffix with
  | zero => exact valid
  | succ suffix =>
      simp only [isSnapshotName, Bool.and_eq_true, decide_eq_true_eq] at valid
      obtain ⟨⟨⟨⟨_, separator⟩, date⟩, clock⟩, _⟩ := valid
      simp only [isSnapshotName, versionName, Bool.and_eq_true]
      refine ⟨⟨⟨⟨?_, ?_⟩, ?_⟩, ?_⟩, ?_⟩
      · simp [length_eq]
      · rw [List.getElem?_append_left (by omega)]
        exact separator
      · rw [List.take_append_of_le_length (by omega)]
        exact date
      · rw [List.take_append_of_le_length (by omega)]
        exact clock
      · have rest : (text ++ '_' :: padded 6 (suffix + 1)).drop 15 = '_' :: padded 6 (suffix + 1) := by
          rw [List.drop_append_of_le_length (by omega), List.drop_of_length_le (by omega)]
          rfl
        have nonempty : (padded 6 (suffix + 1)).isEmpty = false := by
          rw [List.isEmpty_eq_false_iff, ← List.length_pos_iff, length_padded]
          decide
        simp [rest, isSuffix, nonempty, all_isDigit_padded]

end SearchEngine.Backup
