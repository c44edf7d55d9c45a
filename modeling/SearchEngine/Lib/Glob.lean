import Mathlib.Data.List.Forall2

/-!
# Patterns with runs

A pattern is a list of symbols and runs. A symbol stands for one element that it
accepts, a run (`none`) for any number of elements. `greedy` reads a list from left to
right and comes back to the last run only; it decides the relation.
-/

namespace SearchEngine.Lib

universe u v

variable {Symbol : Type u} {Element : Type v}

/-- The list has the form of the pattern. -/
inductive Globs (accepts : Symbol → Element → Prop) : List (Option Symbol) → List Element → Prop where
  | nil : Globs accepts [] []
  | single {symbol element pattern list} : accepts symbol element → Globs accepts pattern list →
      Globs accepts (some symbol :: pattern) (element :: list)
  | skip {pattern list} : Globs accepts pattern list → Globs accepts (none :: pattern) list
  | take {pattern element list} : Globs accepts (none :: pattern) list →
      Globs accepts (none :: pattern) (element :: list)

namespace Globs

variable {accepts : Symbol → Element → Prop} {pattern : List (Option Symbol)} {list : List Element}

@[simp] theorem nil_iff : Globs accepts [] list ↔ list = [] := by
  constructor
  · rintro ⟨⟩
    rfl
  · rintro rfl
    exact nil

@[simp] theorem single_cons_iff {symbol : Symbol} {element : Element} :
    Globs accepts (some symbol :: pattern) (element :: list) ↔
      accepts symbol element ∧ Globs accepts pattern list := by
  constructor
  · rintro (_ | ⟨accepted, rest⟩)
    exact ⟨accepted, rest⟩
  · rintro ⟨accepted, rest⟩
    exact single accepted rest

@[simp] theorem not_single_nil {symbol : Symbol} : ¬ Globs accepts (some symbol :: pattern) [] := by
  rintro ⟨⟩

theorem run_cons_iff {element : Element} :
    Globs accepts (none :: pattern) (element :: list) ↔
      Globs accepts pattern (element :: list) ∨ Globs accepts (none :: pattern) list := by
  constructor
  · rintro (_ | _ | rest | rest)
    · exact .inl rest
    · exact .inr rest
  · rintro (rest | rest)
    · exact skip rest
    · exact take rest

@[simp] theorem run_nil_iff : Globs accepts (none :: pattern) [] ↔ Globs accepts pattern [] := by
  constructor
  · rintro (_ | _ | rest)
    exact rest
  · exact skip

/-- The empty list has the form of runs only. -/
theorem empty_iff : Globs accepts pattern [] ↔ pattern.all Option.isNone := by
  induction pattern with
  | nil => simp
  | cons symbol rest ih => cases symbol <;> simp [ih]

/-- A run takes any elements before it. -/
theorem append (rest : Globs accepts (none :: pattern) list) (front : List Element) :
    Globs accepts (none :: pattern) (front ++ list) := by
  induction front with
  | nil => exact rest
  | cons element front ih => exact take ih

/-- A run takes some front of the list. -/
theorem run_iff :
    Globs accepts (none :: pattern) list ↔ ∃ front back, list = front ++ back ∧ Globs accepts pattern back := by
  constructor
  · intro globs
    induction list with
    | nil => exact ⟨[], [], rfl, run_nil_iff.mp globs⟩
    | cons element list ih =>
        rcases run_cons_iff.mp globs with here | later
        · exact ⟨[], element :: list, rfl, here⟩
        · obtain ⟨front, back, rfl, rest⟩ := ih later
          exact ⟨element :: front, back, rfl, rest⟩
  · rintro ⟨front, back, rfl, rest⟩
    exact (skip rest).append front

/-- A pattern without runs is read element by element. -/
theorem symbols_iff {symbols : List Symbol} :
    Globs accepts (symbols.map some) list ↔ List.Forall₂ accepts symbols list := by
  induction symbols generalizing list with
  | nil => rw [List.map_nil, nil_iff, List.forall₂_nil_left_iff]
  | cons symbol rest ih =>
      cases list with
      | nil => exact iff_of_false not_single_nil fun pairs => by cases pairs
      | cons element elements => rw [List.map_cons, single_cons_iff, ih, List.forall₂_cons]

/-- Symbols in front of a pattern. -/
theorem append_symbols {symbols : List Symbol} {front : List Element}
    (read : List.Forall₂ accepts symbols front) (rest : Globs accepts pattern list) :
    Globs accepts (symbols.map some ++ pattern) (front ++ list) := by
  induction read with
  | nil => exact rest
  | cons accepted _ ih => exact single accepted ih

/-- Symbols at the front of a pattern take as many elements. -/
theorem drop_symbols {symbols : List Symbol} (globs : Globs accepts (symbols.map some ++ pattern) list) :
    symbols.length ≤ list.length ∧ Globs accepts pattern (list.drop symbols.length) := by
  induction symbols generalizing list with
  | nil => exact ⟨Nat.zero_le _, globs⟩
  | cons symbol rest ih =>
      cases list with
      | nil => exact absurd globs not_single_nil
      | cons element list =>
          obtain ⟨enough, later⟩ := ih (single_cons_iff.mp globs).2
          exact ⟨Nat.succ_le_succ enough, later⟩

end Globs

/-! ## Reading from left to right -/

/-- How much is left to read again: what stands from the last run on. -/
def fromRun (star : Option (List (Option Symbol) × List Element)) (list : List Element) : Nat :=
  match star with
  | none => list.length + 1
  | some (_, taken) => taken.length + list.length

/-- Match greedily. `star` holds the pattern after the last run and the elements read
since; when a symbol does not accept, that run takes one element more. -/
def greedy (accepts : Symbol → Element → Bool) (star : Option (List (Option Symbol) × List Element))
    (pattern : List (Option Symbol)) (list : List Element) : Bool :=
  match pattern, list with
  | pattern, [] => pattern.all Option.isNone
  | none :: rest, element :: elements => greedy accepts (some (rest, [])) rest (element :: elements)
  | some symbol :: rest, element :: elements =>
      if accepts symbol element then
        greedy accepts (star.map fun s => (s.1, s.2 ++ [element])) rest elements
      else
        match star with
        | none => false
        | some (after, taken) => greedy accepts (some (after, [])) after (taken ++ element :: elements).tail
  | [], element :: elements =>
      match star with
      | none => false
      | some (after, taken) => greedy accepts (some (after, [])) after (taken ++ element :: elements).tail
termination_by (fromRun star list, pattern.length + list.length)
decreasing_by
  · rw [Prod.lex_def]
    rcases star with _ | ⟨after, taken⟩ <;> simp only [fromRun, List.length_cons, List.length_nil] <;> omega
  · rw [Prod.lex_def]
    rcases star with _ | ⟨after, taken⟩ <;>
      simp only [fromRun, Option.map_none, Option.map_some, List.length_append, List.length_cons,
        List.length_nil] <;> omega
  · rw [Prod.lex_def]
    simp only [fromRun, List.length_append, List.length_cons, List.length_nil, List.length_tail]
    omega
  · rw [Prod.lex_def]
    simp only [fromRun, List.length_append, List.length_cons, List.length_nil, List.length_tail]
    omega

theorem greedy_single (accepts : Symbol → Element → Bool)
    (star : Option (List (Option Symbol) × List Element)) (symbol : Symbol) (rest : List (Option Symbol))
    (element : Element) (elements : List Element) :
    greedy accepts star (some symbol :: rest) (element :: elements) =
      if accepts symbol element then greedy accepts (star.map fun s => (s.1, s.2 ++ [element])) rest elements
      else
        match star with
        | none => false
        | some (after, taken) => greedy accepts (some (after, [])) after (taken ++ element :: elements).tail := by
  cases star <;> rw [greedy]

/-- The pattern after the last run begins with as many symbols as were read since. -/
def Behind (star : Option (List (Option Symbol) × List Element)) (pattern : List (Option Symbol)) : Prop :=
  ∀ after taken, star = some (after, taken) →
    ∃ symbols : List Symbol, after = symbols.map some ++ pattern ∧ symbols.length = taken.length

/-- The last run may still take one element more. -/
def Retries (accepts : Symbol → Element → Prop) (star : Option (List (Option Symbol) × List Element))
    (list : List Element) : Prop :=
  ∃ after taken, star = some (after, taken) ∧ Globs accepts (none :: after) (taken ++ list).tail

/-- A list that has the form behind the last run, but for its first element, has the form
behind the run that was met now. -/
theorem Retries.run {accepts : Symbol → Element → Prop}
    {star : Option (List (Option Symbol) × List Element)} {rest : List (Option Symbol)} {list : List Element}
    (behind : Behind star (none :: rest)) (retries : Retries accepts star list) :
    Globs accepts (none :: rest) list := by
  obtain ⟨after, taken, rfl, globs⟩ := retries
  obtain ⟨symbols, rfl, length⟩ := behind after taken rfl
  obtain ⟨front, back, whole, later⟩ := Globs.run_iff.mp globs
  obtain ⟨enough, last⟩ := later.drop_symbols
  -- what is left after the symbols lies inside the rest of the list
  have inside : ∃ more, list = more ++ back.drop symbols.length := by
    have dropped : (taken ++ list).tail.drop (front.length + symbols.length) = back.drop symbols.length := by
      rw [whole, ← List.drop_drop, List.drop_left]
    refine ⟨list.take (front.length + 1), ?_⟩
    have total : front.length + symbols.length + 1 = taken.length + (front.length + 1) := by omega
    rw [← dropped, List.drop_tail, total, ← List.drop_drop, List.drop_left, List.take_append_drop]
  obtain ⟨more, rfl⟩ := inside
  exact last.append more

theorem behind_self (rest : List (Option Symbol)) : Behind (some (rest, ([] : List Element))) rest := by
  rintro after taken ⟨⟩
  exact ⟨[], rfl, rfl⟩

/-- Reading on from the last run with one element less. -/
theorem retries_iff {accepts : Symbol → Element → Prop} {after : List (Option Symbol)}
    {taken list : List Element} :
    Globs accepts after (taken ++ list).tail ∨ Retries accepts (some (after, [])) (taken ++ list).tail ↔
      Retries accepts (some (after, taken)) list := by
  generalize whole : (taken ++ list).tail = left
  have same : Retries accepts (some (after, taken)) list ↔ Globs accepts (none :: after) left := by
    constructor
    · rintro ⟨_, _, ⟨⟩, globs⟩
      rwa [whole] at globs
    · exact fun globs => ⟨after, taken, rfl, whole ▸ globs⟩
  have again : Retries accepts (some (after, [])) left ↔ Globs accepts (none :: after) left.tail := by
    constructor
    · rintro ⟨_, _, ⟨⟩, globs⟩
      exact globs
    · exact fun globs => ⟨after, [], rfl, globs⟩
  rw [same, again]
  cases left with
  | nil => simp
  | cons element rest => exact Globs.run_cons_iff.symm

theorem not_retries_none {accepts : Symbol → Element → Prop} {list : List Element} :
    ¬ Retries accepts none list := by
  rintro ⟨_, _, ⟨⟩, _⟩

theorem greedy_spec (accepts : Symbol → Element → Bool) (star : Option (List (Option Symbol) × List Element))
    (pattern : List (Option Symbol)) (list : List Element) (behind : Behind star pattern) :
    greedy accepts star pattern list = true ↔
      Globs (fun symbol element => accepts symbol element = true) pattern list ∨
        Retries (fun symbol element => accepts symbol element = true) star list := by
  induction star, pattern, list using greedy.induct accepts with
  | case1 star pattern =>
      rw [greedy, ← @Globs.empty_iff _ _ fun symbol element => accepts symbol element = true]
      refine ⟨.inl, fun either => either.elim id ?_⟩
      rintro ⟨after, taken, rfl, globs⟩
      obtain ⟨symbols, rfl, length⟩ := behind after taken rfl
      obtain ⟨front, back, whole, later⟩ := Globs.run_iff.mp globs
      obtain ⟨enough, last⟩ := later.drop_symbols
      -- fewer elements are left than symbols, unless there were none
      have none : back = [] := by
        have total := congrArg List.length whole
        simp only [List.append_nil, List.length_tail, List.length_append] at total
        exact List.eq_nil_of_length_eq_zero (by omega)
      rw [none, List.drop_nil] at last
      exact last
  | case2 star rest element elements ih =>
      rw [greedy, ih (behind_self rest)]
      have again : Retries (fun symbol element => accepts symbol element = true) (some (rest, []))
          (element :: elements) ↔ Globs (fun symbol element => accepts symbol element = true)
            (none :: rest) elements := by
        constructor
        · rintro ⟨_, _, ⟨⟩, globs⟩
          exact globs
        · exact fun globs => ⟨rest, [], rfl, globs⟩
      rw [again, ← Globs.run_cons_iff]
      exact ⟨.inl, fun either => either.elim id fun retries => retries.run behind⟩
  | case3 star symbol rest element elements accepted ih =>
      have nextBehind : Behind (star.map fun s => (s.1, s.2 ++ [element])) rest := by
        intro after taken same
        obtain ⟨⟨before, read⟩, rfl, pair⟩ := Option.map_eq_some_iff.mp same
        obtain ⟨rfl, rfl⟩ := Prod.mk.inj pair
        obtain ⟨symbols, rfl, length⟩ := behind before read rfl
        exact ⟨symbols ++ [symbol], by simp, by simp [length]⟩
      have kept : Retries (fun symbol element => accepts symbol element = true)
          (star.map fun s => (s.1, s.2 ++ [element])) elements ↔
            Retries (fun symbol element => accepts symbol element = true) star (element :: elements) := by
        cases star with
        | none => exact iff_of_false not_retries_none not_retries_none
        | some s =>
            obtain ⟨after, taken⟩ := s
            constructor
            · rintro ⟨_, _, ⟨⟩, globs⟩
              exact ⟨after, taken, rfl, by simpa using globs⟩
            · rintro ⟨_, _, ⟨⟩, globs⟩
              exact ⟨after, taken ++ [element], rfl, by simpa using globs⟩
      rw [greedy_single, if_pos accepted, ih nextBehind, kept, Globs.single_cons_iff, and_iff_right accepted]
  | case4 symbol rest element elements refused =>
      rw [greedy_single, if_neg refused, Globs.single_cons_iff]
      simp [refused, not_retries_none]
  | case5 symbol rest element elements refused after taken ih =>
      rw [greedy_single, if_neg refused, Globs.single_cons_iff, ih (behind_self after), retries_iff]
      simp [refused]
  | case6 element elements =>
      rw [greedy, Globs.nil_iff]
      simp [not_retries_none]
  | case7 element elements after taken ih =>
      rw [greedy, Globs.nil_iff, ih (behind_self after), retries_iff]
      simp

/-- The greedy reading decides whether the list has the form of the pattern. -/
theorem greedy_iff (accepts : Symbol → Element → Bool) (pattern : List (Option Symbol)) (list : List Element) :
    greedy accepts none pattern list = true ↔
      Globs (fun symbol element => accepts symbol element = true) pattern list := by
  have behind : Behind (none : Option (List (Option Symbol) × List Element)) pattern := fun _ _ same => by
    cases same
  rw [greedy_spec accepts none pattern list behind, or_iff_left not_retries_none]

end SearchEngine.Lib
