import Mathlib.Data.List.Nodup

/-!
# Tables filled slot by slot

A table of optional values is filled by writing pairs of a slot and its value. With
distinct slots, each pair stands where it was written and nothing else does.
-/

namespace SearchEngine.Lib

universe u

variable {Value : Type u}

/-- Write the pairs into the table, one after the other. -/
def fillSlots (table : List (Option Value)) (pairs : List (Nat × Value)) : List (Option Value) :=
  pairs.foldl (fun table pair => table.set pair.1 (some pair.2)) table

@[simp] theorem length_fillSlots (table : List (Option Value)) (pairs : List (Nat × Value)) :
    (fillSlots table pairs).length = table.length := by
  induction pairs generalizing table with
  | nil => rfl
  | cons pair rest ih => exact (ih _).trans List.length_set

theorem getElem?_fillSlots_of_notMem {table : List (Option Value)} {pairs : List (Nat × Value)} {slot : Nat}
    (free : slot ∉ pairs.map Prod.fst) : (fillSlots table pairs)[slot]? = table[slot]? := by
  induction pairs generalizing table with
  | nil => rfl
  | cons pair rest ih =>
      obtain ⟨different, restFree⟩ := List.ne_and_not_mem_of_not_mem_cons free
      exact (ih restFree).trans (List.getElem?_set_ne (Ne.symm different))

theorem getElem?_fillSlots_of_mem {table : List (Option Value)} {pairs : List (Nat × Value)} {slot : Nat}
    {value : Value} (distinct : (pairs.map Prod.fst).Nodup) (member : (slot, value) ∈ pairs)
    (inside : slot < table.length) : (fillSlots table pairs)[slot]? = some (some value) := by
  induction pairs generalizing table with
  | nil => cases member
  | cons pair rest ih =>
      obtain ⟨fresh, restDistinct⟩ := List.nodup_cons.mp distinct
      rcases List.mem_cons.mp member with rfl | later
      · apply (getElem?_fillSlots_of_notMem fresh).trans
        exact List.getElem?_set_self inside
      · exact ih restDistinct later (by rwa [List.length_set])

/-- What an empty table holds after it was filled. -/
theorem getElem?_fillSlots_replicate {size : Nat} {pairs : List (Nat × Value)}
    (distinct : (pairs.map Prod.fst).Nodup) (inside : ∀ pair ∈ pairs, pair.1 < size) {slot : Nat}
    {value : Value} :
    (fillSlots (List.replicate size none) pairs)[slot]? = some (some value) ↔ (slot, value) ∈ pairs := by
  have stands : ∀ other, (slot, other) ∈ pairs →
      (fillSlots (List.replicate size none) pairs)[slot]? = some (some other) := by
    intro other member
    apply getElem?_fillSlots_of_mem distinct member
    rw [List.length_replicate]
    exact inside _ member
  constructor
  · intro reads
    by_cases written : slot ∈ pairs.map Prod.fst
    · obtain ⟨⟨_, other⟩, member, rfl⟩ := List.mem_map.mp written
      obtain rfl := Option.some.inj (Option.some.inj (reads.symm.trans (stands other member)))
      exact member
    · rw [getElem?_fillSlots_of_notMem written, List.getElem?_replicate] at reads
      split at reads <;> cases reads
  · exact stands value

end SearchEngine.Lib
