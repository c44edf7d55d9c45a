import Mathlib.Data.List.Basic

/-!
# Texts joined by a separator

Two ways to cut a text at a separator are the same, or one cuts inside a part of the other.
-/

namespace SearchEngine.Lib

universe u

variable {Item : Type u} {separator : Item} {left right otherLeft otherRight : List Item}

/-- Two cuts of one text. -/
theorem cut_cases (same : left ++ separator :: right = otherLeft ++ separator :: otherRight) :
    (left = otherLeft ∧ right = otherRight) ∨
      (∃ middle, otherLeft = left ++ separator :: middle ∧ right = middle ++ separator :: otherRight) ∨
        ∃ middle, left = otherLeft ++ separator :: middle ∧ otherRight = middle ++ separator :: right := by
  rcases List.append_eq_append_iff.mp same with ⟨extra, longer, rest⟩ | ⟨extra, longer, rest⟩
  · cases extra with
    | nil => exact .inl ⟨by simpa using longer.symm, List.tail_eq_of_cons_eq rest⟩
    | cons first more =>
        obtain ⟨rfl, rfl⟩ := List.cons.inj rest
        exact .inr (.inl ⟨more, longer, rfl⟩)
  · cases extra with
    | nil => exact .inl ⟨by simpa using longer, (List.tail_eq_of_cons_eq rest).symm⟩
    | cons first more =>
        obtain ⟨rfl, rfl⟩ := List.cons.inj rest
        exact .inr (.inr ⟨more, longer, rfl⟩)

/-- A part without separators ends at the first one. -/
theorem cut_first (plain : separator ∉ left) (same : left ++ separator :: right = otherLeft ++ separator :: otherRight) :
    (left = otherLeft ∧ right = otherRight) ∨
      ∃ middle, otherLeft = left ++ separator :: middle ∧ right = middle ++ separator :: otherRight := by
  rcases cut_cases same with equal | longer | ⟨middle, shorter, -⟩
  · exact .inl equal
  · exact .inr longer
  · exact absurd (shorter ▸ List.mem_append_right _ (List.mem_cons_self ..)) plain

/-- Parts without separators agree. -/
theorem cut_unique (plain : separator ∉ left) (otherPlain : separator ∉ otherLeft)
    (same : left ++ separator :: right = otherLeft ++ separator :: otherRight) :
    left = otherLeft ∧ right = otherRight := by
  rcases cut_first plain same with equal | ⟨middle, longer, -⟩
  · exact equal
  · exact absurd (longer ▸ List.mem_append_right _ (List.mem_cons_self ..)) otherPlain

/-- A text is its parts: the last one has no separator, each other one ends at the next. -/
@[elab_as_elim] theorem parts_induction {motive : List Item → Prop} (separator : Item)
    (last : ∀ part, separator ∉ part → motive part)
    (next : ∀ part rest, separator ∉ part → motive rest → motive (part ++ separator :: rest))
    (text : List Item) : motive text := by
  classical
  induction length : text.length using Nat.strongRecOn generalizing text with
  | _ length ih =>
      by_cases member : separator ∈ text
      · obtain ⟨part, rest, rfl, plain⟩ := List.eq_append_cons_of_mem member
        refine next part rest plain (ih rest.length ?_ rest rfl)
        rw [List.length_append, List.length_cons] at length
        omega
      · exact last text member

end SearchEngine.Lib
