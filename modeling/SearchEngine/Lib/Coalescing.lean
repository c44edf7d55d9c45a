import SearchEngine.Lib.SortedMap
import Mathlib.Logic.Function.Basic

/-!
# Coalescing of keyed operations

A queue holds operations that each change the record of one key. Before a flush
the operations of one key are merged into one. `applyAll_merged` is the law of
such a queue: if merging a pending operation with the next one has the effect of
both in turn, the merged operations in any order change every record as the
queued operations do in order.
-/

namespace SearchEngine.Lib

universe u v w

/-- How operations act on the record of their key, and how two of them merge. -/
structure Coalescing (Key : Type u) (Op : Type v) (Record : Type w) where
  key : Op → Key
  act : Record → Op → Record
  merge : Op → Op → Op
  key_merge : ∀ pending next, key pending = key next → key (merge pending next) = key next
  act_merge : ∀ record pending next, key pending = key next →
    act record (merge pending next) = act (act record pending) next

namespace Coalescing

variable {Key : Type u} {Op : Type v} {Record : Type w} [LinearOrder Key]
  (rules : Coalescing Key Op Record)

/-- Apply one operation to the record of its key. -/
def applyOp (records : Key → Record) (op : Op) : Key → Record :=
  Function.update records (rules.key op) (rules.act (records (rules.key op)) op)

/-- Apply operations from left to right. -/
def applyAll (records : Key → Record) (ops : List Op) : Key → Record :=
  ops.foldl rules.applyOp records

/-- A record sees the operations of its own key only, in their order. -/
theorem applyAll_apply (records : Key → Record) (ops : List Op) (key : Key) :
    rules.applyAll records ops key =
      (ops.filter fun op => decide (rules.key op = key)).foldl rules.act (records key) := by
  induction ops generalizing records with
  | nil => rfl
  | cons op rest ih =>
      rw [applyAll, List.foldl_cons, ← applyAll, ih]
      by_cases same : rules.key op = key
      · subst same
        simp [applyOp]
      · simp [applyOp, same, Function.update_of_ne (Ne.symm same)]

/-- The pending operations after `op` is queued. -/
def queueOp (pending : SortedMap Key Op) (op : Op) : SortedMap Key Op :=
  match pending.find? (rules.key op) with
  | none => pending.insert (rules.key op) op
  | some earlier => pending.insert (rules.key op) (rules.merge earlier op)

/-- The merged operation of every queued key. -/
def merged (ops : List Op) : SortedMap Key Op := ops.foldl rules.queueOp ∅

/-- Every pending operation is stored under its own key. -/
def Keyed (pending : SortedMap Key Op) : Prop :=
  ∀ key op, pending.find? key = some op → rules.key op = key

theorem keyed_queueOp {pending : SortedMap Key Op} (keyed : rules.Keyed pending) (op : Op) :
    rules.Keyed (rules.queueOp pending op) := by
  intro key stored found
  unfold queueOp at found
  split at found
  · rw [SortedMap.find?_insert] at found
    split at found
    · rename_i same
      rwa [← Option.some.inj found]
    · exact keyed key stored found
  · rename_i earlier present
    rw [SortedMap.find?_insert] at found
    split at found
    · rename_i same
      rw [← Option.some.inj found, rules.key_merge _ _ (keyed _ _ present), same]
    · exact keyed key stored found

theorem keyed_foldl_queueOp {pending : SortedMap Key Op} (keyed : rules.Keyed pending)
    (ops : List Op) : rules.Keyed (ops.foldl rules.queueOp pending) := by
  induction ops generalizing pending with
  | nil => exact keyed
  | cons op rest ih => exact ih (rules.keyed_queueOp keyed op)

theorem keyed_merged (ops : List Op) : rules.Keyed (rules.merged ops) :=
  rules.keyed_foldl_queueOp (by simp [Keyed]) ops

/-- The pending operation of a key acts as all queued operations of the key. -/
theorem foldl_act_queued {pending : SortedMap Key Op} (keyed : rules.Keyed pending) (ops : List Op)
    (record : Record) (key : Key) :
    ((ops.foldl rules.queueOp pending).find? key).toList.foldl rules.act record =
      (ops.filter fun op => decide (rules.key op = key)).foldl rules.act
        ((pending.find? key).toList.foldl rules.act record) := by
  induction ops generalizing pending with
  | nil => rfl
  | cons op rest ih =>
      rw [List.foldl_cons, ih (rules.keyed_queueOp keyed op)]
      by_cases same : rules.key op = key
      · subst same
        have queued : ((rules.queueOp pending op).find? (rules.key op)).toList.foldl rules.act record =
            rules.act ((pending.find? (rules.key op)).toList.foldl rules.act record) op := by
          unfold queueOp
          cases present : pending.find? (rules.key op) with
          | none => simp
          | some earlier => simp [rules.act_merge record earlier op (keyed _ _ present)]
        simp [queued]
      · have other : (rules.queueOp pending op).find? key = pending.find? key := by
          unfold queueOp
          cases pending.find? (rules.key op) <;> simp [same]
        simp [other, same]

/-- Among keyed operations with one entry per key, a key selects its entry. -/
theorem filter_values_of_keyed {pending : SortedMap Key Op} (keyed : rules.Keyed pending) (key : Key) :
    ((pending.keys.filterMap pending.find?).filter fun op => decide (rules.key op = key)) =
      (pending.find? key).toList := by
  have distinct := pending.keys_nodup
  have members : ∀ other, pending.find? other = none ∨ other ∈ pending.keys := by
    intro other
    cases found : pending.find? other with
    | none => exact .inl rfl
    | some op => exact .inr (SortedMap.mem_keys_iff.mpr ⟨op, found⟩)
  have selected : ∀ keys : List Key, keys.Nodup →
      ((keys.filterMap pending.find?).filter fun op => decide (rules.key op = key)) =
        if key ∈ keys then (pending.find? key).toList else [] := by
    intro keys
    induction keys with
    | nil => simp
    | cons first rest ih =>
        intro nodup
        obtain ⟨fresh, restNodup⟩ := List.nodup_cons.mp nodup
        specialize ih restNodup
        cases found : pending.find? first with
        | none =>
            rw [List.filterMap_cons_none found, ih]
            by_cases same : key = first
            · subst same
              simp [found, fresh]
            · simp [same]
        | some op =>
            rw [List.filterMap_cons_some found]
            have keyEq : rules.key op = first := keyed first op found
            by_cases same : first = key
            · subst same
              simp [keyEq, ih, fresh, found]
            · simp [keyEq, ih, same, Ne.symm same]
  rw [selected pending.keys distinct]
  rcases members key with absent | listed
  · simp [absent]
  · rw [if_pos listed]

/-- Coalescing law: merged operations in any order of their keys change every
record as the queued operations do from first to last. -/
theorem applyAll_merged (records : Key → Record) (ops : List Op) {order : List Key}
    (visits : order.Perm (rules.merged ops).keys) :
    rules.applyAll records (order.filterMap (rules.merged ops).find?) =
      rules.applyAll records ops := by
  funext key
  rw [applyAll_apply, applyAll_apply]
  have permuted : ((order.filterMap (rules.merged ops).find?).filter fun op =>
      decide (rules.key op = key)).Perm ((rules.merged ops).find? key).toList := by
    rw [← rules.filter_values_of_keyed (rules.keyed_merged ops) key]
    exact (visits.filterMap _).filter _
  have single : ((order.filterMap (rules.merged ops).find?).filter fun op =>
      decide (rules.key op = key)) = ((rules.merged ops).find? key).toList := by
    cases found : (rules.merged ops).find? key with
    | none =>
        rw [found] at permuted
        exact permuted.eq_nil
    | some op =>
        rw [found] at permuted
        exact permuted.eq_singleton
  rw [single]
  exact rules.foldl_act_queued (by simp [Keyed]) ops (records key) key

end Coalescing

end SearchEngine.Lib
