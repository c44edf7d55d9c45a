import Mathlib.Data.List.Basic

/-!
# Folding blocks

Items are taken in blocks of one size; what does not fill a block is left over. Reading
the items in pieces, with the rest of each piece put before the next, comes to the same
as reading them at once.
-/

namespace SearchEngine.Lib

universe u v w

variable {State : Type u} {Item : Type v} {Part : Type w}

/-- The state after all full blocks, and the items after them. -/
def foldBlocks (size : Nat) (absorb : State → List Item → State) (state : State)
    (items : List Item) : State × List Item :=
  if 0 < size ∧ size ≤ items.length then
    foldBlocks size absorb (absorb state (items.take size)) (items.drop size)
  else (state, items)
  termination_by items.length
  decreasing_by
    rw [List.length_drop]
    omega

variable {size : Nat} {absorb : State → List Item → State}

theorem foldBlocks_of_short (state : State) {items : List Item} (short : items.length < size) :
    foldBlocks size absorb state items = (state, items) := by
  rw [foldBlocks, if_neg (by omega)]

theorem foldBlocks_block (state : State) {block : List Item} (full : block.length = size)
    (positive : 0 < size) (rest : List Item) :
    foldBlocks size absorb state (block ++ rest) = foldBlocks size absorb (absorb state block) rest := by
  rw [foldBlocks, if_pos ⟨positive, by rw [List.length_append]; omega⟩]
  subst full
  rw [List.take_left, List.drop_left]

/-- What is left does not fill a block. -/
theorem length_foldBlocks (positive : 0 < size) (state : State) (items : List Item) :
    (foldBlocks size absorb state items).2.length = items.length % size := by
  induction state, items using foldBlocks.induct size absorb with
  | case1 state items full ih =>
      rw [foldBlocks, if_pos full, ih, List.length_drop]
      exact (Nat.mod_eq_sub_mod full.2).symm
  | case2 state items short =>
      rw [foldBlocks, if_neg short]
      have less : items.length < size := by omega
      exact (Nat.mod_eq_of_lt less).symm

/-- The items may come in two pieces. -/
theorem foldBlocks_append (state : State) (first second : List Item) :
    foldBlocks size absorb state (first ++ second) =
      foldBlocks size absorb (foldBlocks size absorb state first).1
        ((foldBlocks size absorb state first).2 ++ second) := by
  induction state, first using foldBlocks.induct size absorb with
  | case1 state items full ih =>
      have whole : items ++ second = items.take size ++ (items.drop size ++ second) := by
        rw [← List.append_assoc, List.take_append_drop]
      have length : (items.take size).length = size := by
        rw [List.length_take]
        omega
      rw [whole, foldBlocks_block state length full.1, ih]
      rw [foldBlocks.eq_def size absorb state items, if_pos full]
  | case2 state items short =>
      rw [foldBlocks.eq_def size absorb state items, if_neg short]

/-- Items that are made of parts may be taken apart first. -/
theorem foldBlocks_flatMap {parts : Item → List Part} {count : Nat}
    (each : ∀ item, (parts item).length = count) (positive : 0 < count)
    {absorbParts : State → List Part → State}
    (agrees : ∀ state block, block.length = size → absorbParts state (block.flatMap parts) =
      absorb state block) (state : State) (items : List Item) :
    foldBlocks (size * count) absorbParts state (items.flatMap parts) =
      ((foldBlocks size absorb state items).1,
        (foldBlocks size absorb state items).2.flatMap parts) := by
  have length (block : List Item) : (block.flatMap parts).length = block.length * count := by
    induction block with
    | nil => simp
    | cons item block ih =>
        rw [List.flatMap_cons, List.length_append, ih, each, List.length_cons, Nat.succ_mul]
        omega
  induction state, items using foldBlocks.induct size absorb with
  | case1 state items full ih =>
      have taken : (items.take size).length = size := by
        rw [List.length_take]
        omega
      have whole : items.flatMap parts =
          (items.take size).flatMap parts ++ (items.drop size).flatMap parts := by
        rw [← List.flatMap_append, List.take_append_drop]
      have block : ((items.take size).flatMap parts).length = size * count := by
        rw [length, taken]
      rw [whole, foldBlocks_block state block (Nat.mul_pos full.1 positive), agrees _ _ taken, ih,
        foldBlocks.eq_def size absorb state items, if_pos full]
  | case2 state items short =>
      have parted : ¬ (0 < size * count ∧ size * count ≤ (items.flatMap parts).length) := by
        rw [length]
        rintro ⟨some, full⟩
        exact short ⟨Nat.pos_of_mul_pos_right some, Nat.le_of_mul_le_mul_right full positive⟩
      rw [foldBlocks.eq_def size absorb state items, if_neg short, foldBlocks, if_neg parted]

end SearchEngine.Lib
