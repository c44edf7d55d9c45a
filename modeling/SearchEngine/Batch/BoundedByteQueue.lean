import Mathlib.Algebra.GroupWithZero.Nat
import Mathlib.Algebra.BigOperators.Group.List.Basic
import Mathlib.Order.Basic

/-!
# The bounded queue of an indexer

`BoundedByteQueue` holds items with a weight up to a capacity. Each operation is
one section under its mutex; an operation that waits on a condition variable is
not enabled until the condition holds.
-/

namespace SearchEngine.Batch

universe u

/-- `BoundedByteQueue<T>`; its counter is the weight of what is queued. -/
structure BoundedByteQueue (T : Type u) where
  capacityBytes : Nat
  entries : List (T × Nat)
  queuedBytes : Nat
  closed : Bool
  cancelled : Bool
  counted : queuedBytes = (entries.map Prod.snd).sum
  bounded : queuedBytes ≤ capacityBytes

/-- What `push` does. -/
inductive PushOutcome (T : Type u) where
  | tooHeavy
  | wait
  | rejected
  | pushed (queue : BoundedByteQueue T)

/-- What `pop` does. -/
inductive PopOutcome (T : Type u) where
  | wait
  | ended
  | popped (item : T) (queue : BoundedByteQueue T)

namespace BoundedByteQueue

variable {T : Type u}

/-- The constructor. -/
def new (capacityBytes : Nat) : BoundedByteQueue T where
  capacityBytes := if capacityBytes = 0 then 1 else capacityBytes
  entries := []
  queuedBytes := 0
  closed := false
  cancelled := false
  counted := rfl
  bounded := Nat.zero_le _

/-- The queued items, oldest first. -/
def items (queue : BoundedByteQueue T) : List T := queue.entries.map Prod.fst

/-- `weightBytes == 0 ? 1 : weightBytes`. -/
def weightOf (weightBytes : Nat) : Nat := if weightBytes = 0 then 1 else weightBytes

/-- `push`. -/
def push (queue : BoundedByteQueue T) (item : T) (weightBytes : Nat) : PushOutcome T :=
  if queue.capacityBytes < weightOf weightBytes then .tooHeavy
  else if queue.cancelled || queue.closed then .rejected
  else if fits : weightOf weightBytes ≤ queue.capacityBytes - queue.queuedBytes then
    .pushed { queue with
      entries := queue.entries ++ [(item, weightOf weightBytes)]
      queuedBytes := queue.queuedBytes + weightOf weightBytes
      counted := by simp [queue.counted]
      bounded := by
        have bounded := queue.bounded
        omega }
  else .wait

/-- `pop`. -/
def pop (queue : BoundedByteQueue T) : PopOutcome T :=
  if queue.cancelled then .ended
  else
    match queued : queue.entries with
    | [] => if queue.closed then .ended else .wait
    | entry :: rest =>
        .popped entry.1 { queue with
          entries := rest
          queuedBytes := queue.queuedBytes - entry.2
          counted := by simp [queue.counted, queued]
          bounded := Nat.le_trans (Nat.sub_le _ _) queue.bounded }

/-- `close`. -/
def close (queue : BoundedByteQueue T) : BoundedByteQueue T := { queue with closed := true }

/-- `cancel`. -/
def cancel (queue : BoundedByteQueue T) : BoundedByteQueue T :=
  { queue with
    entries := []
    queuedBytes := 0
    cancelled := true
    counted := rfl
    bounded := Nat.zero_le _ }

@[simp] theorem items_new (capacityBytes : Nat) : (new capacityBytes : BoundedByteQueue T).items = [] :=
  rfl

@[simp] theorem items_close (queue : BoundedByteQueue T) : queue.close.items = queue.items := rfl
@[simp] theorem closed_close (queue : BoundedByteQueue T) : queue.close.closed = true := rfl
@[simp] theorem cancelled_close (queue : BoundedByteQueue T) :
    queue.close.cancelled = queue.cancelled := rfl
@[simp] theorem capacityBytes_close (queue : BoundedByteQueue T) :
    queue.close.capacityBytes = queue.capacityBytes := rfl

/-- An accepted item is the last one; the flags stay. -/
structure Pushed (queue : BoundedByteQueue T) (item : T) (after : BoundedByteQueue T) : Prop where
  items : after.items = queue.items ++ [item]
  closed : queue.closed = false ∧ after.closed = false
  cancelled : queue.cancelled = false ∧ after.cancelled = false
  capacity : after.capacityBytes = queue.capacityBytes

/-- A taken item was the first one; the flags stay. -/
structure Popped (queue : BoundedByteQueue T) (item : T) (after : BoundedByteQueue T) : Prop where
  items : queue.items = item :: after.items
  closed : after.closed = queue.closed
  cancelled : queue.cancelled = false ∧ after.cancelled = false
  capacity : after.capacityBytes = queue.capacityBytes

/-- What `push` does to an open queue with an item that fits its capacity. -/
theorem push_cases {queue : BoundedByteQueue T} {item : T} {weightBytes : Nat}
    (light : weightOf weightBytes ≤ queue.capacityBytes) (isOpen : queue.closed = false)
    (running : queue.cancelled = false) :
    queue.push item weightBytes = .wait ∧ queue.items ≠ [] ∨
      ∃ after, queue.push item weightBytes = .pushed after ∧ queue.Pushed item after := by
  unfold push
  rw [if_neg (Nat.not_lt.mpr light), isOpen, running]
  simp only [Bool.or_self, Bool.false_eq_true, if_false]
  split
  · refine .inr ⟨_, rfl, ?_⟩
    exact ⟨by simp [items], ⟨isOpen, rfl⟩, ⟨running, rfl⟩, rfl⟩
  · rename_i full
    refine .inl ⟨rfl, fun empty => full ?_⟩
    have none : queue.queuedBytes = 0 := by
      rw [queue.counted, List.map_eq_nil_iff.mp empty]
      rfl
    omega

/-- An item is accepted by an open queue that it fits. -/
theorem push_eq_pushed {queue after : BoundedByteQueue T} {item : T} {weightBytes : Nat}
    (pushed : queue.push item weightBytes = .pushed after) :
    weightOf weightBytes ≤ queue.capacityBytes ∧ queue.closed = false ∧ queue.cancelled = false ∧
      queue.Pushed item after := by
  have light : weightOf weightBytes ≤ queue.capacityBytes := by
    by_contra heavy
    rw [push, if_pos (by omega)] at pushed
    cases pushed
  have flags : (queue.cancelled || queue.closed) = false := by
    by_contra refused
    rw [push, if_neg (by omega), if_pos (Bool.not_eq_false _ ▸ refused)] at pushed
    cases pushed
  rw [Bool.or_eq_false_iff] at flags
  rcases push_cases light flags.2 flags.1 with ⟨waits, -⟩ | ⟨other, accepted, isPushed⟩
  · rw [waits] at pushed
    cases pushed
  · rw [accepted] at pushed
    obtain rfl := PushOutcome.pushed.inj pushed
    exact ⟨light, flags.2, flags.1, isPushed⟩

/-- An item waits at an open queue with too little room for it, and only there. -/
theorem push_eq_wait_iff {queue : BoundedByteQueue T} {item : T} {weightBytes : Nat} :
    queue.push item weightBytes = .wait ↔
      weightOf weightBytes ≤ queue.capacityBytes ∧ queue.closed = false ∧ queue.cancelled = false ∧
        queue.capacityBytes < queue.queuedBytes + weightOf weightBytes := by
  unfold push
  have bounded := queue.bounded
  constructor
  · intro waits
    split at waits
    · cases waits
    · rename_i light
      split at waits
      · cases waits
      · rename_i flags
        rw [Bool.or_eq_true, not_or, Bool.not_eq_true, Bool.not_eq_true] at flags
        split at waits
        · cases waits
        · exact ⟨by omega, flags.2, flags.1, by omega⟩
  · rintro ⟨light, isOpen, running, full⟩
    rw [if_neg (by omega), isOpen, running, if_neg (by simp), dif_neg (by omega)]

/-- What is accepted leaves no more room than before. -/
theorem wait_of_pushed {queue after : BoundedByteQueue T} {item other : T} {weightBytes otherBytes : Nat}
    (pushed : queue.push item weightBytes = .pushed after) (waits : queue.push other otherBytes = .wait) :
    after.push other otherBytes = .wait := by
  obtain ⟨-, -, -, isPushed⟩ := push_eq_pushed pushed
  have more : queue.queuedBytes ≤ after.queuedBytes := by
    unfold push at pushed
    split at pushed
    · cases pushed
    · split at pushed
      · cases pushed
      · split at pushed
        · obtain rfl := PushOutcome.pushed.inj pushed
          exact Nat.le_add_right _ _
        · cases pushed
  obtain ⟨light, -, -, full⟩ := push_eq_wait_iff.mp waits
  rw [push_eq_wait_iff, isPushed.capacity]
  exact ⟨light, isPushed.closed.2, isPushed.cancelled.2, by omega⟩

/-- What `pop` does to a queue that was not cancelled. -/
theorem pop_cases {queue : BoundedByteQueue T} (running : queue.cancelled = false) :
    queue.items = [] ∧ queue.closed = false ∧ queue.pop = .wait ∨
      queue.items = [] ∧ queue.closed = true ∧ queue.pop = .ended ∨
      ∃ item after, queue.pop = .popped item after ∧ queue.Popped item after := by
  unfold pop
  rw [running, if_neg Bool.false_ne_true]
  split
  · rename_i empty
    have noItems : queue.items = [] := by rw [items, empty, List.map_nil]
    cases isClosed : queue.closed with
    | false => exact .inl ⟨noItems, rfl, rfl⟩
    | true => exact .inr (.inl ⟨noItems, rfl, rfl⟩)
  · rename_i entry rest queued
    refine .inr (.inr ⟨_, _, rfl, ?_⟩)
    exact ⟨congrArg (List.map Prod.fst) queued, rfl, ⟨running, rfl⟩, rfl⟩

end BoundedByteQueue

end SearchEngine.Batch
