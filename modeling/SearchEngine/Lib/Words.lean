import Mathlib.Data.List.Basic

/-!
# Words of a text

The words of a text are its parts between separators. Separators in a row part nothing,
so a text read as words forgets how often and with which separators it was written.
-/

namespace SearchEngine.Lib

universe u

variable {Item : Type u} (stops : Item → Bool)

/-- The words of a text. -/
def words (text : List Item) : List (List Item) := (text.splitOnP stops).filter (!·.isEmpty)

/-- A list of items that can stand as a word. -/
def IsWord (word : List Item) : Prop := word ≠ [] ∧ ∀ item ∈ word, stops item = false

variable {stops} {word front rest : List Item} {separator : Item}

@[simp] theorem words_nil : words stops [] = [] := by simp [words, List.splitOnP_nil]

theorem words_cut (front rest : List Item) (stop : stops separator = true) :
    words stops (front ++ separator :: rest) = words stops front ++ words stops rest := by
  rw [words, List.splitOnP_append_cons _ _ stop, List.filter_append, words, words]

theorem words_stop (rest : List Item) (stop : stops separator = true) :
    words stops (separator :: rest) = words stops rest := by
  simpa using words_cut [] rest stop

theorem words_concat (front : List Item) (stop : stops separator = true) :
    words stops (front ++ [separator]) = words stops front := by
  rw [words_cut front [] stop, words_nil, List.append_nil]

theorem IsWord.words_eq (isWord : IsWord stops word) : words stops word = [word] := by
  rw [words, List.splitOnP_eq_singleton isWord.2]
  exact List.filter_cons_of_pos (by simp [isWord.1])

/-- No part of a text holds a separator. -/
theorem plain_of_mem_splitOnP (text : List Item) :
    ∀ part ∈ text.splitOnP stops, ∀ item ∈ part, stops item = false := by
  induction text with
  | nil => simp [List.splitOnP_nil]
  | cons first rest ih =>
      rw [List.splitOnP_cons_eq_if_modifyHead]
      split
      · rintro part member item inside
        rcases List.mem_cons.mp member with rfl | later
        · cases inside
        · exact ih part later item inside
      · rename_i plain
        cases parts : rest.splitOnP stops with
        | nil => simp
        | cons head tail =>
            rw [parts] at ih
            rintro part member item inside
            rcases List.mem_cons.mp member with rfl | later
            · rcases List.mem_cons.mp inside with rfl | more
              · simpa using plain
              · exact ih head (List.mem_cons_self ..) item more
            · exact ih part (List.mem_cons_of_mem _ later) item inside

theorem isWord_of_mem_words {text : List Item} (member : word ∈ words stops text) : IsWord stops word := by
  obtain ⟨part, filled⟩ := List.mem_filter.mp member
  exact ⟨by simpa using filled, plain_of_mem_splitOnP text word part⟩

/-- Words written with one separator between them are read back. -/
theorem words_intercalate (stop : stops separator = true) (parts : List (List Item)) :
    (∀ part ∈ parts, IsWord stops part) → words stops ([separator].intercalate parts) = parts := by
  induction parts with
  | nil => simp [List.intercalate]
  | cons first rest ih =>
      intro all
      have isWord := all first (List.mem_cons_self ..)
      cases rest with
      | nil => simpa [List.intercalate] using isWord.words_eq
      | cons second more =>
          have after := ih fun part member => all part (List.mem_cons_of_mem _ member)
          rw [List.intercalate_cons_cons, List.append_assoc, List.singleton_append, words_cut _ _ stop, after,
            isWord.words_eq, List.singleton_append]

end SearchEngine.Lib
