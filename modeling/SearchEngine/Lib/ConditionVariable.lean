import Mathlib.Data.List.Basic

/-!
# Condition variables

A waiter sleeps until it is woken, and a woken one waits for the mutex and looks at its
condition again. Two reasons why nobody sleeps for nothing: what is done at a waiter's
expense never makes its condition true (`Idle`), or there is a woken waiter for each piece
of work (`Staffed`).
-/

namespace SearchEngine.Lib

universe u

/-- The waiters that sleep, and those that were woken and have yet to take the mutex. -/
structure ConditionVariable (Waiter : Type u) where
  asleep : List Waiter
  woken : List Waiter

namespace ConditionVariable

variable {Waiter : Type u} (condition : ConditionVariable Waiter)

def new : ConditionVariable Waiter := ⟨[], []⟩

/-- A waiter goes to sleep. -/
def wait (waiter : Waiter) : ConditionVariable Waiter := { condition with asleep := condition.asleep ++ [waiter] }

/-- The sleeper at this place wakes up. -/
def wake (index : Nat) : ConditionVariable Waiter :=
  match condition.asleep[index]? with
  | none => condition
  | some waiter => ⟨condition.asleep.eraseIdx index, condition.woken ++ [waiter]⟩

/-- `notify_one`: one sleeper wakes up, if there is one; the system chooses which. -/
def notifyOne (choice : Nat) : ConditionVariable Waiter := condition.wake (choice % condition.asleep.length)

/-- `notify_all`. -/
def notifyAll : ConditionVariable Waiter := ⟨[], condition.woken ++ condition.asleep⟩

/-- The woken waiter at this place takes the mutex. -/
def resume (index : Nat) : Option (Waiter × ConditionVariable Waiter) :=
  condition.woken[index]?.map fun waiter => (waiter, { condition with woken := condition.woken.eraseIdx index })

variable {condition} {index choice : Nat} {waiter : Waiter} {after : ConditionVariable Waiter}

theorem asleep_wake_subset : ∀ other ∈ (condition.wake index).asleep, other ∈ condition.asleep := by
  intro other member
  rw [wake] at member
  split at member
  · exact member
  · exact List.mem_of_mem_eraseIdx member

theorem length_woken_wake : condition.woken.length ≤ (condition.wake index).woken.length := by
  rw [wake]
  split
  · exact Nat.le_refl _
  · simp

/-- A sleeper at the place is woken. -/
theorem length_woken_wake_of_lt (inside : index < condition.asleep.length) :
    (condition.wake index).woken.length = condition.woken.length + 1 := by
  rw [wake, List.getElem?_eq_getElem inside]
  simp

theorem resume_eq_some (resumed : condition.resume index = some (waiter, after)) :
    waiter ∈ condition.woken ∧ after.asleep = condition.asleep ∧
      condition.woken.length = after.woken.length + 1 := by
  rw [resume, Option.map_eq_some_iff] at resumed
  obtain ⟨found, there, same⟩ := resumed
  obtain ⟨rfl, rfl⟩ := Prod.mk.inj same
  obtain ⟨inside, -⟩ := List.getElem?_eq_some_iff.mp there
  have shorter := List.length_eraseIdx_of_lt inside
  refine ⟨List.mem_of_getElem? there, rfl, ?_⟩
  simp only [shorter]
  omega

/-! ## Sleepers whose condition is false -/

/-- Every sleeper has a reason to sleep. -/
def Idle (condition : ConditionVariable Waiter) (reason : Waiter → Prop) : Prop := ∀ waiter ∈ condition.asleep, reason waiter

variable {reason weaker : Waiter → Prop}

theorem Idle.mono (idle : condition.Idle reason) (implies : ∀ waiter, reason waiter → weaker waiter) :
    condition.Idle weaker :=
  fun waiter member => implies waiter (idle waiter member)

theorem Idle.wait (idle : condition.Idle reason) (sleeps : reason waiter) : (condition.wait waiter).Idle reason := by
  intro other member
  rcases List.mem_append.mp member with old | new
  · exact idle other old
  · exact List.mem_singleton.mp new ▸ sleeps

theorem Idle.wake (idle : condition.Idle reason) : (condition.wake index).Idle reason :=
  fun other member => idle other (asleep_wake_subset other member)

theorem Idle.notifyAll : condition.notifyAll.Idle reason := by
  intro other member
  cases member

theorem Idle.resume (idle : condition.Idle reason) (resumed : condition.resume index = some (waiter, after)) :
    after.Idle reason := by
  intro other member
  rw [(resume_eq_some resumed).2.1] at member
  exact idle other member

/-! ## A woken waiter for each piece of work -/

/-- While anybody sleeps, there is a woken waiter for each piece of work. -/
def Staffed (condition : ConditionVariable Waiter) (work : Nat) : Prop :=
  condition.asleep ≠ [] → work ≤ condition.woken.length

variable {work less : Nat}

theorem Staffed.mono (staffed : condition.Staffed work) (fewer : less ≤ work) : condition.Staffed less :=
  fun asleep => Nat.le_trans fewer (staffed asleep)

theorem Staffed.wait_zero : (condition.wait waiter).Staffed 0 := fun _ => Nat.zero_le _

theorem Staffed.wake (staffed : condition.Staffed work) : (condition.wake index).Staffed work := by
  intro asleep
  have before : condition.asleep ≠ [] := by
    obtain ⟨other, member⟩ := List.exists_mem_of_ne_nil _ asleep
    exact List.ne_nil_of_mem (asleep_wake_subset other member)
  exact Nat.le_trans (staffed before) length_woken_wake

/-- A new piece of work wakes one sleeper. -/
theorem Staffed.notifyOne (staffed : condition.Staffed work) : (condition.notifyOne choice).Staffed (work + 1) := by
  intro asleep
  have before : condition.asleep ≠ [] := by
    obtain ⟨other, member⟩ := List.exists_mem_of_ne_nil _ asleep
    exact List.ne_nil_of_mem (asleep_wake_subset other member)
  have inside : choice % condition.asleep.length < condition.asleep.length :=
    Nat.mod_lt _ (List.length_pos_of_ne_nil before)
  have enough := staffed before
  rw [ConditionVariable.notifyOne, length_woken_wake_of_lt inside]
  omega

theorem Staffed.notifyAll : condition.notifyAll.Staffed work := fun asleep => absurd rfl asleep

/-- A woken waiter takes a piece of work with it. -/
theorem Staffed.resume (staffed : condition.Staffed (work + 1))
    (resumed : condition.resume index = some (waiter, after)) : after.Staffed work := by
  obtain ⟨-, same, longer⟩ := resume_eq_some resumed
  intro asleep
  rw [same] at asleep
  have enough := staffed asleep
  omega

end ConditionVariable

end SearchEngine.Lib
