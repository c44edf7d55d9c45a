import Mathlib.Data.List.Induction

/-!
# Quoted text

A quote ends a text unless it is doubled. A text that was put between quotes as it is
comes back exactly if it has no quote of its own.
-/

namespace SearchEngine.Lib

universe u

variable {Item : Type u} [DecidableEq Item]

/-- Read to the closing quote; a doubled quote stands for one. -/
def readQuoted (quote : Item) : List Item → Option (List Item × List Item)
  | [] => none
  | [item] => if item = quote then some ([], []) else none
  | item :: next :: rest =>
      if item ≠ quote then (readQuoted quote (next :: rest)).map fun read => (item :: read.1, read.2)
      else if next = quote then (readQuoted quote rest).map fun read => (quote :: read.1, read.2)
      else some ([], next :: rest)

variable {quote next : Item} {value rest left text : List Item}

theorem readQuoted_cons_of_ne {item : Item} (plain : item ≠ quote) (some : text ≠ []) :
    readQuoted quote (item :: text) = (readQuoted quote text).map fun read => (item :: read.1, read.2) := by
  obtain ⟨head, tail, rfl⟩ := List.exists_cons_of_ne_nil some
  rw [readQuoted, if_pos plain]

/-- A text without quotes is read back. -/
theorem readQuoted_plain (plain : quote ∉ value) (different : next ≠ quote) :
    readQuoted quote (value ++ quote :: next :: rest) = some (value, next :: rest) := by
  induction value with
  | nil => simp [readQuoted, different]
  | cons item value ih =>
      obtain ⟨here, behind⟩ := not_or.mp (List.mem_cons.not.mp plain)
      rw [List.cons_append, readQuoted_cons_of_ne (Ne.symm here) (by simp), ih behind]
      rfl

omit [DecidableEq Item] in
theorem replicate_append_cons (item : Item) (more : Nat) (text : List Item) :
    List.replicate more item ++ item :: text = item :: (List.replicate more item ++ text) := by
  rw [← List.singleton_append, ← List.append_assoc, ← List.replicate_succ', List.replicate_succ, List.cons_append]

/-- An item that is no quote is read as itself. -/
theorem readQuoted_tail {item : Item} {more : Nat} (plain : item ≠ quote) (nonempty : text ≠ [])
    (read : readQuoted quote (item :: text) = some (List.replicate more quote ++ item :: value, left)) :
    more = 0 ∧ readQuoted quote text = some (value, left) := by
  rw [readQuoted_cons_of_ne plain nonempty] at read
  obtain ⟨⟨found, after⟩, inner, same⟩ := Option.map_eq_some_iff.mp read
  obtain ⟨items, rfl⟩ := Prod.mk.inj same
  cases more with
  | zero =>
      obtain ⟨-, rfl⟩ := List.cons.inj items
      exact ⟨rfl, inner⟩
  | succ more => exact absurd (List.cons.inj items).1 plain

/-- A doubled quote is read as one. -/
theorem readQuoted_doubled {more : Nat}
    (read : readQuoted quote (quote :: quote :: text) = some (List.replicate more quote ++ quote :: value, left)) :
    readQuoted quote text = some (List.replicate more quote ++ value, left) := by
  rw [readQuoted, if_neg (not_not.mpr rfl), if_pos rfl, replicate_append_cons] at read
  obtain ⟨⟨found, after⟩, inner, same⟩ := Option.map_eq_some_iff.mp read
  obtain ⟨items, rfl⟩ := Prod.mk.inj same
  obtain ⟨-, rfl⟩ := List.cons.inj items
  exact inner

/-- Nothing that starts with another item is read as quotes. -/
theorem readQuoted_ne_replicate (different : next ≠ quote) (more : Nat) :
    readQuoted quote (next :: rest) ≠ some (List.replicate more quote, left) := by
  intro read
  cases rest with
  | nil => simp [readQuoted, different] at read
  | cons item rest =>
      rw [readQuoted_cons_of_ne different (List.cons_ne_nil _ _)] at read
      obtain ⟨⟨found, after⟩, -, same⟩ := Option.map_eq_some_iff.mp read
      obtain ⟨items, -⟩ := Prod.mk.inj same
      cases more with
      | zero => cases items
      | succ more => exact different (List.cons.inj items).1

/-- What is read is neither a text with quotes in it, nor that text after more quotes. -/
theorem plain_of_readQuoted_replicate (different : next ≠ quote) (more : Nat)
    (read : readQuoted quote (value ++ quote :: next :: rest) = some (List.replicate more quote ++ value, left)) :
    more = 0 ∧ quote ∉ value := by
  -- two items at a time, since a doubled quote is read as one
  induction value using List.twoStepInduction generalizing more with
  | nil =>
      simp [readQuoted, different] at read
      exact ⟨read.1, List.not_mem_nil⟩
  | singleton item =>
      by_cases plain : item = quote
      · subst plain
        have inner : readQuoted item (next :: rest) = some (List.replicate more item ++ [], left) :=
          readQuoted_doubled read
        rw [List.append_nil] at inner
        exact absurd inner (readQuoted_ne_replicate different more)
      · obtain ⟨none, -⟩ := readQuoted_tail plain (List.cons_ne_nil _ _) read
        exact ⟨none, by simpa using Ne.symm plain⟩
  | cons_cons item second value ih ihNext =>
      by_cases plain : item = quote
      · subst plain
        by_cases doubled : second = item
        · subst doubled
          have inner : readQuoted second (value ++ second :: next :: rest) =
              some (List.replicate more second ++ second :: value, left) := readQuoted_doubled read
          rw [replicate_append_cons, ← List.cons_append, ← List.replicate_succ] at inner
          exact absurd (ih (more + 1) inner).1 (by omega)
        · rw [List.cons_append, List.cons_append, readQuoted, if_neg (not_not.mpr rfl), if_neg doubled] at read
          have items := congrArg Prod.fst (Option.some.inj read)
          exact absurd items.symm (List.append_ne_nil_of_right_ne_nil _ (List.cons_ne_nil _ _))
      · obtain ⟨none, inner⟩ := readQuoted_tail plain (by simp) read
        obtain ⟨-, behind⟩ := ihNext second 0 inner
        exact ⟨none, List.not_mem_cons_of_ne_of_not_mem (Ne.symm plain) behind⟩

/-- A text between quotes is read back exactly if it has none of its own. -/
theorem readQuoted_iff (different : next ≠ quote) :
    readQuoted quote (value ++ quote :: next :: rest) = some (value, next :: rest) ↔ quote ∉ value := by
  constructor
  · intro read
    exact (plain_of_readQuoted_replicate different 0 read).2
  · intro plain
    exact readQuoted_plain plain different

/-- Whatever is read stood in the text. -/
theorem mem_of_readQuoted (read : readQuoted quote text = some (value, left)) :
    (∀ item ∈ value, item ∈ text) ∧ ∀ item ∈ left, item ∈ text := by
  induction text using List.twoStepInduction generalizing value with
  | nil => cases read
  | singleton item =>
      obtain ⟨-, same⟩ := Option.ite_none_right_eq_some.mp read
      obtain ⟨rfl, rfl⟩ := Prod.mk.inj (Option.some.inj same)
      exact ⟨nofun, nofun⟩
  | cons_cons item second rest ih ihNext =>
      rw [readQuoted] at read
      split at read
      · obtain ⟨⟨found, after⟩, inner, same⟩ := Option.map_eq_some_iff.mp read
        obtain ⟨rfl, rfl⟩ := Prod.mk.inj same
        obtain ⟨values, lefts⟩ := ihNext second inner
        refine ⟨?_, fun other member => List.mem_cons_of_mem _ (lefts other member)⟩
        intro other member
        obtain rfl | inside := List.mem_cons.mp member
        · exact List.mem_cons_self
        · exact List.mem_cons_of_mem _ (values other inside)
      case isFalse quoted =>
        split at read
        · obtain ⟨⟨found, after⟩, inner, same⟩ := Option.map_eq_some_iff.mp read
          obtain ⟨rfl, rfl⟩ := Prod.mk.inj same
          obtain ⟨values, lefts⟩ := ih inner
          constructor
          · intro other member
            obtain rfl | inside := List.mem_cons.mp member
            · rw [not_not.mp quoted]
              exact List.mem_cons_self
            · exact List.mem_cons_of_mem _ (List.mem_cons_of_mem _ (values other inside))
          · intro other member
            exact List.mem_cons_of_mem _ (List.mem_cons_of_mem _ (lefts other member))
        · obtain ⟨rfl, rfl⟩ := Prod.mk.inj (Option.some.inj read)
          exact ⟨nofun, fun other member => List.mem_cons_of_mem _ member⟩

/-! ## Lists of quoted texts -/

/-- Quoted texts with a separator between them. -/
def writeValues (quote separator : Item) : List (List Item) → List Item
  | [] => []
  | [value] => quote :: (value ++ [quote])
  | value :: second :: values =>
      quote :: (value ++ quote :: separator :: writeValues quote separator (second :: values))

/-- So many quoted texts, and what follows them. -/
def readValues (quote separator : Item) : Nat → List Item → Option (List (List Item) × List Item)
  | 0, _ => none
  | _ + 1, [] => none
  | count + 1, first :: text =>
      if first ≠ quote then none
      else
        match readQuoted quote text with
        | none => none
        | some (value, rest) =>
            if count = 0 then some ([value], rest)
            else
              match rest with
              | [] => none
              | second :: rest =>
                  if second ≠ separator then none
                  else (readValues quote separator count rest).map fun read => (value :: read.1, read.2)

variable {separator : Item} {values : List (List Item)}

/-- Texts written one after the other are read back exactly if none has a quote. -/
theorem readValues_iff (separates : separator ≠ quote) (different : next ≠ quote) (nonempty : values ≠ []) :
    readValues quote separator values.length (writeValues quote separator values ++ next :: rest) =
      some (values, next :: rest) ↔ ∀ value ∈ values, quote ∉ value := by
  induction values with
  | nil => exact absurd rfl nonempty
  | cons value values ih =>
      cases values with
      | nil =>
          rw [List.length_singleton, writeValues, List.cons_append, List.append_assoc, List.singleton_append,
            readValues, if_neg (not_not.mpr rfl), List.forall_mem_singleton, ← readQuoted_iff different]
          cases readQuoted quote (value ++ quote :: next :: rest) with
          | none => simp
          | some read => simp [Prod.ext_iff]
      | cons second values =>
          have after := ih (List.cons_ne_nil _ _)
          rw [List.length_cons, writeValues, List.cons_append, List.append_assoc, List.cons_append, List.cons_append,
            readValues, if_neg (not_not.mpr rfl), List.forall_mem_cons]
          constructor
          · intro read
            cases first : readQuoted quote (value ++ quote :: separator ::
                (writeValues quote separator (second :: values) ++ next :: rest)) with
            | none =>
                rw [first] at read
                cases read
            | some found =>
                obtain ⟨found, remaining⟩ := found
                rw [first] at read
                dsimp only at read
                rw [if_neg (by simp)] at read
                cases remaining with
                | nil => cases read
                | cons sign remaining =>
                    obtain ⟨-, more⟩ := Option.ite_none_left_eq_some.mp read
                    obtain ⟨⟨others, last⟩, inner, same⟩ := Option.map_eq_some_iff.mp more
                    obtain ⟨items, rfl⟩ := Prod.mk.inj same
                    obtain ⟨rfl, rfl⟩ := List.cons.inj items
                    have plain := (plain_of_readQuoted_replicate separates 0 first).2
                    rw [readQuoted_plain plain separates] at first
                    obtain ⟨-, same⟩ := Prod.mk.inj (Option.some.inj first)
                    obtain ⟨-, rfl⟩ := List.cons.inj same
                    exact ⟨plain, after.mp inner⟩
          · rintro ⟨plain, others⟩
            rw [readQuoted_plain plain separates]
            dsimp only
            rw [if_neg (by simp), if_neg (not_not.mpr rfl), after.mpr others]
            rfl

/-- The values that are read stood in the text. -/
theorem mem_of_readValues {count : Nat} (read : readValues quote separator count text = some (values, left)) :
    ∀ value ∈ values, ∀ item ∈ value, item ∈ text := by
  induction count generalizing text values with
  | zero => cases read
  | succ count ih =>
      cases text with
      | nil => cases read
      | cons first text =>
          obtain ⟨-, read⟩ := Option.ite_none_left_eq_some.mp read
          cases quoted : readQuoted quote text with
          | none =>
              rw [quoted] at read
              cases read
          | some found =>
              obtain ⟨value, rest⟩ := found
              obtain ⟨inside, behind⟩ := mem_of_readQuoted quoted
              rw [quoted] at read
              dsimp only at read
              split at read
              · obtain ⟨rfl, rfl⟩ := Prod.mk.inj (Option.some.inj read)
                intro other member item here
                obtain rfl := List.mem_singleton.mp member
                exact List.mem_cons_of_mem _ (inside item here)
              · cases rest with
                | nil => cases read
                | cons second rest =>
                    obtain ⟨-, more⟩ := Option.ite_none_left_eq_some.mp read
                    obtain ⟨⟨others, last⟩, inner, same⟩ := Option.map_eq_some_iff.mp more
                    obtain ⟨rfl, rfl⟩ := Prod.mk.inj same
                    intro other member item here
                    obtain rfl | later := List.mem_cons.mp member
                    · exact List.mem_cons_of_mem _ (inside item here)
                    · have found := ih inner other later item here
                      exact List.mem_cons_of_mem _ (behind item (List.mem_cons_of_mem _ found))

end SearchEngine.Lib
