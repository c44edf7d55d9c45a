import Mathlib.Data.List.Basic

/-!
# Traces of calls

Several callers use one object; a trace lists what was observed of it, newest
first. `beforeCall` is the trace at the moment a caller made its latest call, and
`EveryReturn` states what each normal return guarantees about the trace before
its call and the trace before the return.
-/

namespace SearchEngine.Lib

universe u v w

/-- One observed event: a call begins or ends, or something happens inside the object. -/
inductive CallEvent (Caller : Type u) (Call : Type v) (Inner : Type w) where
  | called (caller : Caller) (call : Call)
  | returned (caller : Caller) (call : Call)
  | threw (caller : Caller) (call : Call)
  | inner (event : Inner)

/-- The events so far, newest first. -/
abbrev CallTrace (Caller : Type u) (Call : Type v) (Inner : Type w) :=
  List (CallEvent Caller Call Inner)

namespace CallTrace

variable {Caller : Type u} {Call : Type v} {Inner : Type w} [DecidableEq Caller]

/-- The trace before the latest call of a caller. -/
def beforeCall (caller : Caller) : CallTrace Caller Call Inner → CallTrace Caller Call Inner
  | [] => []
  | .called other _ :: earlier => if other = caller then earlier else beforeCall caller earlier
  | .returned _ _ :: earlier => beforeCall caller earlier
  | .threw _ _ :: earlier => beforeCall caller earlier
  | .inner _ :: earlier => beforeCall caller earlier

/-- What was before a call is part of what is before now. -/
theorem beforeCall_suffix (caller : Caller) (trace : CallTrace Caller Call Inner) :
    beforeCall caller trace <:+ trace := by
  induction trace with
  | nil => exact List.suffix_rfl
  | cons event earlier ih =>
      have longer : beforeCall caller earlier <:+ event :: earlier :=
        ih.trans (List.suffix_cons event earlier)
      cases event with
      | called other call =>
          rw [beforeCall]
          split
          · exact List.suffix_cons _ earlier
          · exact longer
      | returned other call => exact longer
      | threw other call => exact longer
      | inner event => exact longer

/-- What every normal return guarantees, given the trace before its call and the
trace before the return. -/
def EveryReturn (guarantee : Call → CallTrace Caller Call Inner → CallTrace Caller Call Inner → Prop)
    (trace : CallTrace Caller Call Inner) : Prop :=
  ∀ caller call earlier, CallEvent.returned caller call :: earlier <:+ trace →
    guarantee call (beforeCall caller earlier) earlier

variable {guarantee : Call → CallTrace Caller Call Inner → CallTrace Caller Call Inner → Prop}
  {trace : CallTrace Caller Call Inner}

theorem everyReturn_nil : EveryReturn guarantee ([] : CallTrace Caller Call Inner) := by
  intro caller call earlier suffix
  exact absurd (List.eq_nil_of_suffix_nil suffix) (by simp)

/-- An event that is not a return adds no obligation. -/
theorem EveryReturn.cons (holds : EveryReturn guarantee trace)
    {event : CallEvent Caller Call Inner}
    (other : ∀ caller call, event ≠ .returned caller call) :
    EveryReturn guarantee (event :: trace) := by
  intro caller call earlier suffix
  rcases List.suffix_cons_iff.mp suffix with same | within
  · exact absurd (List.cons.inj same).1.symm (other caller call)
  · exact holds caller call earlier within

/-- A return adds its own guarantee. -/
theorem EveryReturn.returned (holds : EveryReturn guarantee trace) {caller : Caller} {call : Call}
    (kept : guarantee call (beforeCall caller trace) trace) :
    EveryReturn guarantee (.returned caller call :: trace) := by
  intro other made earlier suffix
  rcases List.suffix_cons_iff.mp suffix with same | within
  · obtain ⟨head, rfl⟩ := List.cons.inj same
    obtain ⟨rfl, rfl⟩ := CallEvent.returned.inj head
    exact kept
  · exact holds other made earlier within

/-- A guarantee may be weakened. -/
theorem EveryReturn.mono (holds : EveryReturn guarantee trace)
    {weaker : Call → CallTrace Caller Call Inner → CallTrace Caller Call Inner → Prop}
    (implies : ∀ call before earlier, guarantee call before earlier → weaker call before earlier) :
    EveryReturn weaker trace :=
  fun caller call earlier suffix => implies call _ _ (holds caller call earlier suffix)

end CallTrace

end SearchEngine.Lib
