import Mathlib.Data.List.Basic

/-!
# Statements of a transaction

A transaction runs its statements one after the other; each of them may be refused by
the state or fail for a reason of its own. `refused_iff` is for the loops that insert
rows under a unique key.
-/

namespace SearchEngine.Lib

universe u v

variable {State : Type u} {Row : Type v}

/-- Run the statements from the given position on. `fails` are those that fail for a reason
outside the state. -/
def runStatements (fails : Nat → Bool) : Nat → List (State → Option State) → State → Option State
  | _, [], state => some state
  | position, statement :: rest, state =>
      if fails position then none else (statement state).bind (runStatements fails (position + 1) rest)

/-- Statements that all succeed leave what they make of the state. -/
theorem runStatements_eq_some {fails : Nat → Bool} {position : Nat}
    {statements : List (State → Option State)} {state after : State}
    (done : runStatements fails position statements state = some after) :
    statements.foldlM (fun current statement => statement current) state = some after := by
  induction statements generalizing position state with
  | nil => exact done
  | cons statement rest ih =>
      rw [runStatements] at done
      split at done
      · cases done
      · obtain ⟨next, stepped, later⟩ := Option.bind_eq_some_iff.mp done
        rw [List.foldlM_cons, stepped]
        exact ih later

/-- Without failures from outside only the state refuses a statement. -/
theorem runStatements_of_not_fails {fails : Nat → Bool} (never : ∀ position, fails position = false)
    (position : Nat) (statements : List (State → Option State)) (state : State) :
    runStatements fails position statements state =
      statements.foldlM (fun current statement => statement current) state := by
  induction statements generalizing position state with
  | nil => rfl
  | cons statement rest ih =>
      rw [runStatements, never, if_neg Bool.false_ne_true, List.foldlM_cons]
      cases statement state with
      | none => rfl
      | some next => exact ih (position + 1) next

/-! ## Unique keys -/

/-- Insert the rows in turn; a row that clashes with the state is refused. -/
def insertRows (refuses : State → Row → Bool) (add : State → Row → State) (rows : List Row) (state : State) :
    Option State :=
  rows.foldlM (fun current row => if refuses current row then none else some (add current row)) state

/-- All rows are inserted when none clashes with the state at the start or with a row
before it. -/
theorem insertRows_eq {refuses : State → Row → Bool} {add : State → Row → State} {clash : Row → Row → Bool}
    (refuses_add : ∀ state row other, refuses state row = false →
      refuses (add state row) other = (refuses state other || clash row other)) (rows : List Row) (state : State) :
    insertRows refuses add rows state =
      if (∀ row ∈ rows, refuses state row = false) ∧ rows.Pairwise (fun first second => clash first second = false)
      then some (rows.foldl add state) else none := by
  induction rows generalizing state with
  | nil => simp [insertRows]
  | cons row rest ih =>
      rw [insertRows, List.foldlM_cons]
      by_cases refused : refuses state row = true
      · simp [refused]
      · rw [Bool.not_eq_true] at refused
        rw [refused, if_neg Bool.false_ne_true]
        have step := ih (add state row)
        simp only [refuses_add state row _ refused, Bool.or_eq_false_iff] at step
        refine step.trans ?_
        rw [List.foldl_cons]
        congr 1
        rw [List.forall_mem_cons, List.pairwise_cons, forall₂_and]
        simp [refused, and_assoc]

end SearchEngine.Lib
