import Mathlib.Order.MinMax
import Mathlib.Data.Nat.Basic
import Mathlib.Data.List.Nodup

/-!
# Key-sorted maps

A finite map kept as an association list in strictly increasing key order. The
order is part of the value: it fixes the iteration order of an ordered container
or of a table read by primary key, and it makes two maps with the same lookups
equal (`SortedMap.ext_find?`). Keys and values are arbitrary.
-/

namespace SearchEngine.Lib

universe u v w

/-- A finite map whose entries are listed in strictly increasing key order. -/
structure SortedMap (K : Type u) (V : Type v) [LinearOrder K] where
  entries : List (K × V)
  sorted : entries.Pairwise fun left right => left.1 < right.1

namespace SortedMap

variable {K : Type u} {V : Type v} {W : Type w} [LinearOrder K]

instance [DecidableEq V] : DecidableEq (SortedMap K V) := fun left right =>
  decidable_of_iff (left.entries = right.entries)
    ⟨fun equal => by cases left; cases right; cases equal; rfl, fun equal => congrArg entries equal⟩

/-! ## Lookup -/

/-- The value stored under a key of a raw entry list. -/
def findEntry (key : K) : List (K × V) → Option V
  | [] => none
  | (other, value) :: rest => if other = key then some value else findEntry key rest

/-- The value stored under `key`. -/
def find? (map : SortedMap K V) (key : K) : Option V := findEntry key map.entries

/-- The keys in increasing order. -/
def keys (map : SortedMap K V) : List K := map.entries.map Prod.fst

@[simp] theorem findEntry_nil (key : K) : findEntry key ([] : List (K × V)) = none := rfl

theorem findEntry_cons (key other : K) (value : V) (rest : List (K × V)) :
    findEntry key ((other, value) :: rest) =
      if other = key then some value else findEntry key rest := rfl

/-- A key below every listed key is not found. -/
theorem findEntry_eq_none_of_lt {key : K} {list : List (K × V)}
    (below : ∀ entry ∈ list, key < entry.1) : findEntry key list = none := by
  induction list with
  | nil => rfl
  | cons entry rest ih =>
      obtain ⟨other, value⟩ := entry
      have different : other ≠ key := (below (other, value) List.mem_cons_self).ne'
      rw [findEntry_cons, if_neg different]
      exact ih fun entry member => below entry (List.mem_cons_of_mem _ member)

/-- Under distinct keys a lookup finds exactly the listed pairs. -/
theorem findEntry_eq_some_iff {key : K} {value : V} {list : List (K × V)}
    (distinct : (list.map Prod.fst).Nodup) :
    findEntry key list = some value ↔ (key, value) ∈ list := by
  induction list with
  | nil => simp
  | cons entry rest ih =>
      obtain ⟨other, stored⟩ := entry
      obtain ⟨fresh, restDistinct⟩ := List.nodup_cons.mp distinct
      rw [findEntry_cons]
      by_cases same : other = key
      · subst same
        have absent : (other, value) ∉ rest := fun member =>
          fresh (List.mem_map.mpr ⟨_, member, rfl⟩)
        simp [absent, eq_comm]
      · have differs : (key, value) ≠ (other, stored) := by
          intro equal
          exact same (congrArg Prod.fst equal).symm
        simp [same, ih restDistinct, differs]

theorem nodup_of_sorted {list : List (K × V)}
    (sorted : list.Pairwise fun left right => left.1 < right.1) : (list.map Prod.fst).Nodup := by
  rw [List.nodup_iff_pairwise_ne, List.pairwise_map]
  exact sorted.imp fun less => less.ne

/-- A map stores exactly its listed entries. -/
theorem mem_entries_iff {map : SortedMap K V} {key : K} {value : V} :
    (key, value) ∈ map.entries ↔ map.find? key = some value :=
  (findEntry_eq_some_iff (nodup_of_sorted map.sorted)).symm

theorem mem_keys_iff {map : SortedMap K V} {key : K} :
    key ∈ map.keys ↔ ∃ value, map.find? key = some value := by
  simp only [keys, List.mem_map, Prod.exists, exists_and_right, exists_eq_right, mem_entries_iff]

theorem keys_nodup (map : SortedMap K V) : map.keys.Nodup := nodup_of_sorted map.sorted

/-- The keys are determined by membership. -/
theorem keys_eq_of_mem_iff {left : SortedMap K V} {right : SortedMap K W}
    (agree : ∀ key, key ∈ left.keys ↔ key ∈ right.keys) : left.keys = right.keys := by
  have increasing : left.keys.Pairwise (· < ·) ∧ right.keys.Pairwise (· < ·) := by
    constructor
    · simpa [keys, List.pairwise_map] using left.sorted
    · simpa [keys, List.pairwise_map] using right.sorted
  have permuted : left.keys.Perm right.keys :=
    (List.perm_ext_iff_of_nodup left.keys_nodup right.keys_nodup).mpr agree
  exact permuted.eq_of_pairwise (fun _ _ _ _ first second => absurd first second.asymm)
    increasing.1 increasing.2

private theorem entries_eq_of_findEntry {left right : List (K × V)}
    (leftSorted : left.Pairwise fun first second => first.1 < second.1)
    (rightSorted : right.Pairwise fun first second => first.1 < second.1)
    (agree : ∀ key, findEntry key left = findEntry key right) : left = right := by
  have members : ∀ entry, entry ∈ left ↔ entry ∈ right := by
    rintro ⟨key, value⟩
    rw [← findEntry_eq_some_iff (nodup_of_sorted leftSorted),
      ← findEntry_eq_some_iff (nodup_of_sorted rightSorted), agree]
  have leftNodup : left.Nodup := leftSorted.imp fun less equal => less.ne (congrArg Prod.fst equal)
  have rightNodup : right.Nodup :=
    rightSorted.imp fun less equal => less.ne (congrArg Prod.fst equal)
  have permuted : left.Perm right := (List.perm_ext_iff_of_nodup leftNodup rightNodup).mpr members
  exact permuted.eq_of_pairwise (fun _ _ _ _ first second => absurd first second.asymm)
    leftSorted rightSorted

/-- Maps are determined by their lookups. -/
@[ext] theorem ext_find? {left right : SortedMap K V}
    (agree : ∀ key, left.find? key = right.find? key) : left = right := by
  obtain ⟨leftEntries, leftSorted⟩ := left
  obtain ⟨rightEntries, rightSorted⟩ := right
  have equal : leftEntries = rightEntries := entries_eq_of_findEntry leftSorted rightSorted agree
  subst equal
  rfl

/-! ## Construction -/

/-- The map without entries. -/
def empty : SortedMap K V := ⟨[], List.Pairwise.nil⟩

instance : EmptyCollection (SortedMap K V) := ⟨empty⟩
instance : Inhabited (SortedMap K V) := ⟨empty⟩

@[simp] theorem entries_empty : (∅ : SortedMap K V).entries = [] := rfl
@[simp] theorem find?_empty (key : K) : (∅ : SortedMap K V).find? key = none := rfl

/-- Put a pair into a raw entry list, replacing the value of a present key. -/
def insertEntry (key : K) (value : V) : List (K × V) → List (K × V)
  | [] => [(key, value)]
  | (other, stored) :: rest =>
      if key < other then (key, value) :: (other, stored) :: rest
      else if key = other then (key, value) :: rest
      else (other, stored) :: insertEntry key value rest

theorem mem_insertEntry {key : K} {value : V} {list : List (K × V)} {entry : K × V}
    (member : entry ∈ insertEntry key value list) : entry = (key, value) ∨ entry ∈ list := by
  induction list with
  | nil => simpa [insertEntry] using member
  | cons head rest ih =>
      obtain ⟨other, stored⟩ := head
      simp only [insertEntry] at member
      split at member
      · simpa using member
      · split at member
        · rcases List.mem_cons.mp member with same | tail
          · exact .inl same
          · exact .inr (List.mem_cons_of_mem _ tail)
        · rcases List.mem_cons.mp member with same | tail
          · exact .inr (by simp [same])
          · exact (ih tail).imp_right (List.mem_cons_of_mem _)

theorem sorted_insertEntry {key : K} {value : V} {list : List (K × V)}
    (sorted : list.Pairwise fun left right => left.1 < right.1) :
    (insertEntry key value list).Pairwise fun left right => left.1 < right.1 := by
  induction list with
  | nil => simp [insertEntry]
  | cons head rest ih =>
      obtain ⟨other, stored⟩ := head
      obtain ⟨headBelow, restSorted⟩ := List.pairwise_cons.mp sorted
      simp only [insertEntry]
      split
      · rename_i less
        refine List.pairwise_cons.mpr ⟨fun entry member => ?_, sorted⟩
        rcases List.mem_cons.mp member with same | tail
        · simpa [same] using less
        · exact less.trans (headBelow entry tail)
      · rename_i notLess
        split
        · rename_i same
          subst same
          exact List.pairwise_cons.mpr ⟨headBelow, restSorted⟩
        · rename_i different
          refine List.pairwise_cons.mpr ⟨fun entry member => ?_, ih restSorted⟩
          rcases mem_insertEntry member with same | old
          · subst same
            exact lt_of_le_of_ne (not_lt.mp notLess) (Ne.symm different)
          · exact headBelow entry old

theorem findEntry_insertEntry (key : K) (value : V) (list : List (K × V)) (other : K)
    (sorted : list.Pairwise fun left right => left.1 < right.1) :
    findEntry other (insertEntry key value list) =
      if key = other then some value else findEntry other list := by
  induction list with
  | nil => simp [insertEntry, findEntry_cons]
  | cons head rest ih =>
      obtain ⟨stored, old⟩ := head
      obtain ⟨headBelow, restSorted⟩ := List.pairwise_cons.mp sorted
      simp only [insertEntry]
      split
      · rw [findEntry_cons]
      · split
        · rename_i same
          subst same
          rw [findEntry_cons, findEntry_cons]
          split <;> rfl
        · rename_i different
          rw [findEntry_cons, findEntry_cons, ih restSorted]
          by_cases first : stored = other
          · have mismatch : ¬ key = other := fun equal => different (equal.trans first.symm)
            simp [first, mismatch]
          · simp [first]

/-- Bind `key` to `value`. -/
def insert (map : SortedMap K V) (key : K) (value : V) : SortedMap K V :=
  ⟨insertEntry key value map.entries, sorted_insertEntry map.sorted⟩

@[simp] theorem find?_insert (map : SortedMap K V) (key other : K) (value : V) :
    (map.insert key value).find? other =
      if key = other then some value else map.find? other :=
  findEntry_insertEntry key value map.entries other map.sorted

@[simp] theorem mem_keys_insert {map : SortedMap K V} {key other : K} {value : V} :
    other ∈ (map.insert key value).keys ↔ key = other ∨ other ∈ map.keys := by
  rw [mem_keys_iff, mem_keys_iff]
  by_cases same : key = other <;> simp [same]

/-! ## Restriction and images -/

/-- Keep the entries that satisfy `keep`. -/
def filter (map : SortedMap K V) (keep : K → V → Bool) : SortedMap K V :=
  ⟨map.entries.filter fun entry => keep entry.1 entry.2, map.sorted.filter _⟩

@[simp] theorem find?_filter (map : SortedMap K V) (keep : K → V → Bool) (key : K) :
    (map.filter keep).find? key = (map.find? key).filter (keep key) := by
  apply Option.ext
  intro value
  rw [← mem_entries_iff, filter, List.mem_filter, mem_entries_iff, Option.filter_eq_some_iff]

/-- Remove `key`. -/
def erase (map : SortedMap K V) (key : K) : SortedMap K V :=
  map.filter fun other _ => decide (other ≠ key)

@[simp] theorem find?_erase (map : SortedMap K V) (key other : K) :
    (map.erase key).find? other = if key = other then none else map.find? other := by
  rw [erase, find?_filter]
  by_cases same : key = other
  · subst same
    cases map.find? key <;> simp
  · have different : other ≠ key := fun equal => same equal.symm
    cases map.find? other <;> simp [same, different]

/-- Replace the value of a present key. -/
def modify (map : SortedMap K V) (key : K) (change : V → V) : SortedMap K V :=
  match map.find? key with
  | none => map
  | some value => map.insert key (change value)

@[simp] theorem find?_modify (map : SortedMap K V) (key other : K) (change : V → V) :
    (map.modify key change).find? other =
      if key = other then (map.find? other).map change else map.find? other := by
  unfold modify
  by_cases same : key = other
  · subst same
    cases stored : map.find? key <;> simp [stored]
  · cases stored : map.find? key <;> simp [same]

/-- Change every value. -/
def mapValues (map : SortedMap K V) (change : V → W) : SortedMap K W :=
  ⟨map.entries.map fun entry => (entry.1, change entry.2), by
    simpa [List.pairwise_map] using map.sorted⟩

@[simp] theorem find?_mapValues (map : SortedMap K V) (change : V → W) (key : K) :
    (map.mapValues change).find? key = (map.find? key).map change := by
  have mapped : ∀ entries : List (K × V),
      findEntry key (entries.map fun entry => (entry.1, change entry.2)) =
        (findEntry key entries).map change := by
    intro entries
    induction entries with
    | nil => rfl
    | cons entry rest ih =>
        rw [List.map_cons, findEntry_cons, findEntry_cons, ih]
        split <;> rfl
  exact mapped map.entries

/-! ## Natural keys -/

/-- One more than the largest key, and zero for the map without entries. -/
def nextKey (map : SortedMap Nat V) : Nat := map.keys.foldl (fun next key => max next (key + 1)) 0

theorem lt_nextKey_iff {map : SortedMap Nat V} {bound : Nat} :
    bound < map.nextKey ↔ ∃ key value, map.find? key = some value ∧ bound ≤ key := by
  have folded : ∀ (keys : List Nat) (start : Nat),
      bound < keys.foldl (fun next key => max next (key + 1)) start ↔
        bound < start ∨ ∃ key ∈ keys, bound ≤ key := by
    intro keys
    induction keys with
    | nil => simp
    | cons first rest ih =>
        intro start
        rw [List.foldl_cons, ih]
        simp only [lt_max_iff, Nat.lt_succ_iff, List.mem_cons, exists_eq_or_imp, or_assoc]
  rw [nextKey, folded]
  simp only [Nat.not_lt_zero, false_or, mem_keys_iff]
  constructor
  · rintro ⟨key, ⟨value, found⟩, above⟩
    exact ⟨key, value, found, above⟩
  · rintro ⟨key, value, found, above⟩
    exact ⟨key, ⟨value, found⟩, above⟩

theorem lt_nextKey_of_find? {map : SortedMap Nat V} {key : Nat} {value : V}
    (found : map.find? key = some value) : key < map.nextKey :=
  lt_nextKey_iff.mpr ⟨key, value, found, le_rfl⟩

/-! ## Building from lists -/

/-- Bind `key` unless it is bound already. -/
def emplace (map : SortedMap K V) (key : K) (value : V) : SortedMap K V :=
  match map.find? key with
  | some _ => map
  | none => map.insert key value

@[simp] theorem find?_emplace (map : SortedMap K V) (key other : K) (value : V) :
    (map.emplace key value).find? other =
      (map.find? other).or (if key = other then some value else none) := by
  unfold emplace
  cases present : map.find? key <;> by_cases same : key = other <;> simp_all

theorem findEntry_append (key : K) (first second : List (K × V)) :
    findEntry key (first ++ second) = (findEntry key first).or (findEntry key second) := by
  induction first with
  | nil => rfl
  | cons entry rest ih =>
      rw [List.cons_append, findEntry_cons, findEntry_cons, ih]
      split <;> rfl

theorem mem_of_findEntry_eq_some {key : K} {value : V} {pairs : List (K × V)}
    (found : findEntry key pairs = some value) : (key, value) ∈ pairs := by
  induction pairs with
  | nil => cases found
  | cons pair rest ih =>
      rw [findEntry_cons] at found
      split at found
      · rename_i same
        obtain rfl := Option.some.inj found
        simp [← same]
      · exact List.mem_cons_of_mem _ (ih found)

theorem findEntry_ne_none_of_mem {key : K} {value : V} {pairs : List (K × V)}
    (member : (key, value) ∈ pairs) : findEntry key pairs ≠ none := by
  induction pairs with
  | nil => simp at member
  | cons pair rest ih =>
      rw [findEntry_cons]
      split
      · simp
      · rename_i differ
        refine ih ((List.mem_cons.mp member).resolve_left fun same => ?_)
        exact differ (congrArg Prod.fst same.symm)

/-- Emplacing pairs in turn keeps the first value of each key. -/
theorem find?_foldl_emplace (pairs : List (K × V)) (start : SortedMap K V) (key : K) :
    (pairs.foldl (fun map pair => map.emplace pair.1 pair.2) start).find? key =
      (start.find? key).or (findEntry key pairs) := by
  induction pairs generalizing start with
  | nil => simp
  | cons pair rest ih =>
      rw [List.foldl_cons, ih, find?_emplace, findEntry_cons, Option.or_assoc]
      congr 1
      split <;> rfl

/-- Bind the pairs of a list from left to right. -/
def ofList (pairs : List (K × V)) : SortedMap K V :=
  pairs.foldl (fun map pair => map.insert pair.1 pair.2) ∅

/-- A list with distinct keys binds exactly its pairs. -/
theorem find?_ofList_eq_some_iff {pairs : List (K × V)} (distinct : (pairs.map Prod.fst).Nodup)
    {key : K} {value : V} : (ofList pairs).find? key = some value ↔ (key, value) ∈ pairs := by
  have inserted : ∀ start : SortedMap K V,
      (pairs.foldl (fun map pair => map.insert pair.1 pair.2) start).find? key = some value ↔
        (key, value) ∈ pairs ∨ key ∉ pairs.map Prod.fst ∧ start.find? key = some value := by
    induction pairs with
    | nil => simp
    | cons pair rest ih =>
        obtain ⟨fresh, restDistinct⟩ := List.nodup_cons.mp distinct
        intro start
        rw [List.foldl_cons, ih restDistinct, find?_insert]
        by_cases same : pair.1 = key
        · have absent : key ∉ rest.map Prod.fst := same ▸ fresh
          have unlisted : (key, value) ∉ rest := fun member =>
            absent (List.mem_map.mpr ⟨_, member, rfl⟩)
          obtain ⟨first, second⟩ := pair
          obtain rfl : first = key := same
          simp only [unlisted, absent, if_true, Option.some.injEq, List.mem_cons, Prod.mk.injEq,
            true_and, or_false, false_or, not_false_eq_true, List.map_cons, not_true_eq_false,
            false_and]
          exact eq_comm
        · have different : (key, value) ≠ pair := fun equal => same (congrArg Prod.fst equal).symm
          simp [same, different, Ne.symm same]
  simpa [ofList] using inserted ∅

end SortedMap

end SearchEngine.Lib
