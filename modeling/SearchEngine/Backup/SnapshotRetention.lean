import Mathlib.Data.List.Range
import SearchEngine.Backup.Snapshots

/-!
# Which snapshots are kept

Rotation removes the smallest names. These are the oldest snapshots exactly
while every run publishes under a name above all present ones: its time is past
their times, or is the latest of them with its unsuffixed name still there.
-/

namespace SearchEngine.Backup

variable {Content : Type}

/-! ## The property and its condition -/

/-- After a run that created a snapshot: it exists, it ranks last, and the
snapshots that are left are the ones created most recently. -/
def Snapshots.Retained (maxVersions : Nat) (s : Snapshots Content) : Prop :=
  ∀ path, s.last = .snapshotCreated path →
    (∃ entry ∈ listSnapshots s.entries, entry.name = path ∧ entry.number + 1 = s.created) ∧
    (listSnapshots s.entries).getLast?.map Entry.name = some path ∧
    ∀ number, (∃ entry ∈ listSnapshots s.entries, entry.number = number) ↔
      number < s.created ∧ s.created ≤ number + maxVersions

/-- A run that publishes finds its time past the time of every snapshot, or equal
to it with the unsuffixed name still taken, and removes what it rotates away. -/
def Snapshots.KeepsOrder (maxVersions : Nat) (s : Snapshots Content) (run : Run Content) : Prop :=
  s.publishes maxVersions run = true →
    (∀ entry ∈ listSnapshots s.entries, entry.name.take 15 < run.time.1 ∨
      entry.name.take 15 = run.time.1 ∧ taken s.entries run.time.1 = true) ∧
    ∀ old ∈ (listSnapshots s.entries).take ((listSnapshots s.entries).length + 1 - maxVersions),
      run.relisted = true ∧ run.removes old.name = true

/-! ## Sorted directories -/

theorem taken_iff {entries : List (Entry Content)} {name : Name} :
    taken entries name = true ↔ name ∈ entries.map Entry.name := by
  simp only [taken, List.any_eq_true, beq_iff_eq, List.mem_map]

theorem pairwise_listSnapshots (entries : List (Entry Content)) :
    (listSnapshots entries).Pairwise fun left right => left.name ≤ right.name := by
  have : Std.Total fun left right : Entry Content => left.name ≤ right.name :=
    ⟨fun left right => le_total left.name right.name⟩
  have : IsTrans (Entry Content) fun left right => left.name ≤ right.name :=
    ⟨fun _ _ _ first second => first.trans second⟩
  exact List.pairwise_insertionSort _ _

theorem mem_listSnapshots {entries : List (Entry Content)} {entry : Entry Content} :
    entry ∈ listSnapshots entries ↔
      entry ∈ entries ∧ entry.isDirectory = true ∧ isSnapshotName entry.name = true := by
  rw [listSnapshots, List.mem_insertionSort, List.mem_filter, Bool.and_eq_true]

theorem le_getLast_of_mem {list : List (Entry Content)} {last entry : Entry Content}
    (sorted : list.Pairwise fun left right => left.name ≤ right.name)
    (at_end : list.getLast? = some last) (member : entry ∈ list) : entry.name ≤ last.name := by
  obtain ⟨front, rfl⟩ := List.getLast?_eq_some_iff.mp at_end
  rcases List.mem_append.mp member with early | final
  · exact (List.pairwise_append.mp sorted).2.2 entry early last List.mem_cons_self
  · rw [List.mem_singleton.mp final]

/-- In a sorted list what lies above a kept element is kept. -/
theorem mem_drop_of_le {list : List (Entry Content)} {count : Nat} {low high : Entry Content}
    (sorted : list.Pairwise fun left right => left.name < right.name) (kept : low ∈ list.drop count)
    (member : high ∈ list) (le : low.name ≤ high.name) : high ∈ list.drop count := by
  rw [← List.take_append_drop count list] at sorted member
  rcases List.mem_append.mp member with early | late
  · have less := (List.pairwise_append.mp sorted).2.2 high early low kept
    exact absurd (less.trans_le le) (lt_irrefl _)
  · exact late

/-- Removing the names of a front part of a sorted list leaves the rest. -/
theorem filter_names_eq_drop {list : List (Entry Content)}
    (sorted : list.Pairwise fun left right => left.name < right.name) (count : Nat) :
    (list.filter fun entry => !((list.take count).any fun old => old.name == entry.name)) =
      list.drop count := by
  conv_lhs => rw [← List.take_append_drop count list]
  rw [List.filter_append]
  have front : (list.take count).filter (fun entry =>
      !((list.take count ++ list.drop count).take count).any fun old => old.name == entry.name) = [] := by
    refine List.filter_eq_nil_iff.mpr fun entry member => ?_
    rw [List.take_append_drop]
    simpa using ⟨entry, member, rfl⟩
  have back : (list.drop count).filter (fun entry =>
      !((list.take count ++ list.drop count).take count).any fun old => old.name == entry.name) =
      list.drop count := by
    refine List.filter_eq_self.mpr fun entry member => ?_
    rw [List.take_append_drop, Bool.not_eq_true', List.any_eq_false]
    intro old older same
    rw [← List.take_append_drop count list] at sorted
    have less := (List.pairwise_append.mp sorted).2.2 old older entry member
    exact absurd (beq_iff_eq.mp same ▸ less) (lt_irrefl _)
  rw [front, back, List.nil_append]

/-! ## The invariant -/

/-- The directory lists its snapshots in the order of creation and of names. -/
structure Snapshots.Ordered (maxVersions : Nat) (s : Snapshots Content) : Prop where
  named : ∀ entry ∈ s.entries, entry.isDirectory = true ∧
    ∃ (time : TimeString) (suffix : Nat), suffix ≤ maxSuffix ∧ entry.name = versionName time.1 suffix
  sorted : s.entries.Pairwise fun left right => left.name < right.name
  numbered : s.entries.map Entry.number = List.range' (s.created - s.entries.length) s.entries.length
  counted : s.entries.length = min s.created maxVersions
  contiguous : ∀ (time : TimeString) (suffix : Nat), suffix ≤ maxSuffix →
    versionName time.1 suffix ∈ s.entries.map Entry.name → time.1 ∈ s.entries.map Entry.name →
    ∀ earlier ≤ suffix, versionName time.1 earlier ∈ s.entries.map Entry.name
  newest : ∀ path, s.last = .snapshotCreated path →
    0 < maxVersions ∧ s.entries.getLast?.map Entry.name = some path

variable {maxVersions : Nat} {s : Snapshots Content} {run : Run Content}

theorem ordered_start (maxVersions : Nat) : (Snapshots.start : Snapshots Content).Ordered maxVersions where
  named _ member := by cases member
  sorted := .nil
  numbered := rfl
  counted := (Nat.zero_min maxVersions).symm
  contiguous _ _ _ member := by cases member
  newest _ wrong := by cases wrong

theorem listSnapshots_of_named {entries : List (Entry Content)}
    (named : ∀ entry ∈ entries, entry.isDirectory = true ∧
      ∃ (time : TimeString) (suffix : Nat), suffix ≤ maxSuffix ∧ entry.name = versionName time.1 suffix)
    (sorted : entries.Pairwise fun left right => left.name < right.name) :
    listSnapshots entries = entries := by
  have all : entries.filter (fun entry => entry.isDirectory && isSnapshotName entry.name) = entries := by
    refine List.filter_eq_self.mpr fun entry member => ?_
    obtain ⟨directory, time, suffix, _, name_eq⟩ := named entry member
    rw [directory, name_eq, isSnapshotName_versionName]
    rfl
  rw [listSnapshots, all]
  exact List.Pairwise.insertionSort_eq (sorted.imp fun less => le_of_lt less)

theorem Snapshots.Ordered.listSnapshots_eq (ordered : s.Ordered maxVersions) :
    listSnapshots s.entries = s.entries :=
  listSnapshots_of_named ordered.named ordered.sorted

/-- The numbers present are the last ones given. -/
theorem mem_numbers_iff {entries : List (Entry Content)} {created : Nat}
    (numbered : entries.map Entry.number = List.range' (created - entries.length) entries.length)
    (counted : entries.length = min created maxVersions) {number : Nat} :
    (∃ entry ∈ entries, entry.number = number) ↔
      number < created ∧ created ≤ number + maxVersions := by
  have listed : (∃ entry ∈ entries, entry.number = number) ↔ number ∈ entries.map Entry.number := by
    simp
  rw [listed, numbered, List.mem_range'_1]
  clear listed numbered
  omega

theorem Snapshots.Ordered.retained (ordered : s.Ordered maxVersions) : s.Retained maxVersions := by
  intro path created
  obtain ⟨positive, last⟩ := ordered.newest path created
  rw [ordered.listSnapshots_eq]
  refine ⟨?_, last, fun number => mem_numbers_iff ordered.numbered ordered.counted⟩
  obtain ⟨entry, at_end, name_eq⟩ := Option.map_eq_some_iff.mp last
  refine ⟨entry, List.mem_of_getLast? at_end, name_eq, ?_⟩
  have number_eq : (s.entries.map Entry.number).getLast? = some entry.number := by
    rw [List.getLast?_map, at_end]
    rfl
  have nonempty : 0 < s.entries.length := List.length_pos_of_mem (List.mem_of_getLast? at_end)
  have counted := ordered.counted
  rw [ordered.numbered, List.getLast?_range', if_neg nonempty.ne'] at number_eq
  have value := Option.some.inj number_eq
  omega

/-! ## One run -/

/-- The chosen name is a free suffix of the time with every smaller one taken. -/
theorem chooseVersionPath_spec {entries : List (Entry Content)} {time : TimeString} {path : Name}
    (chosen : chooseVersionPath entries time = some path) :
    ∃ suffix ≤ maxSuffix, path = versionName time.1 suffix ∧ path ∉ entries.map Entry.name ∧
      ∀ earlier < suffix, versionName time.1 earlier ∈ entries.map Entry.name := by
  obtain ⟨suffix, suffix_eq, rfl⟩ := Option.map_eq_some_iff.mp chosen
  obtain ⟨_, upper, free, below⟩ := chooseSuffix_spec suffix_eq
  refine ⟨suffix, by omega, rfl, ?_, fun earlier less => taken_iff.mp (below earlier (Nat.zero_le _) less)⟩
  rw [← taken_iff, free]
  exact Bool.false_ne_true

/-- Under the condition the chosen name is above all present ones. -/
theorem Snapshots.Ordered.lt_path (ordered : s.Ordered maxVersions) {time : TimeString} {path : Name}
    (chosen : chooseVersionPath s.entries time = some path) {entry : Entry Content}
    (member : entry ∈ s.entries)
    (later : entry.name.take 15 < time.1 ∨ entry.name.take 15 = time.1 ∧ taken s.entries time.1 = true) :
    entry.name < path := by
  obtain ⟨suffix, bound, rfl, free, below⟩ := chooseVersionPath_spec chosen
  obtain ⟨_, other, index, index_bound, name_eq⟩ := ordered.named entry member
  rw [name_eq, take_versionName other.2.1] at later
  rw [name_eq]
  rcases later with less | ⟨same, still_taken⟩
  · exact versionName_lt_of_time_lt less (other.2.1.trans time.2.1.symm) index suffix
  · rw [same]
    refine versionName_lt_of_lt time.1 ?_ bound
    by_contra above
    have listed : versionName time.1 index ∈ s.entries.map Entry.name :=
      List.mem_map.mpr ⟨entry, member, by rw [name_eq, same]⟩
    exact free (ordered.contiguous time index index_bound listed (taken_iff.mp still_taken) suffix
      (Nat.le_of_not_lt above))

/-- Otherwise some present snapshot is above the chosen name. -/
theorem Snapshots.Ordered.path_lt (ordered : s.Ordered maxVersions) {time : TimeString} {path : Name}
    (chosen : chooseVersionPath s.entries time = some path) {entry : Entry Content}
    (member : entry ∈ s.entries)
    (not_later : ¬ (entry.name.take 15 < time.1 ∨
      entry.name.take 15 = time.1 ∧ taken s.entries time.1 = true)) :
    path < entry.name := by
  obtain ⟨suffix, bound, rfl, free, below⟩ := chooseVersionPath_spec chosen
  obtain ⟨_, other, index, index_bound, name_eq⟩ := ordered.named entry member
  rw [name_eq, take_versionName other.2.1] at not_later
  rw [name_eq]
  rw [not_or] at not_later
  rcases lt_trichotomy time.1 other.1 with less | same | more
  · exact versionName_lt_of_time_lt less (time.2.1.trans other.2.1.symm) suffix index
  · have freed : time.1 ∉ s.entries.map Entry.name :=
      fun listed => not_later.2 ⟨same.symm, taken_iff.mpr listed⟩
    have first : suffix = 0 := by
      by_contra nonzero
      exact freed (below 0 (Nat.pos_of_ne_zero nonzero))
    rw [first, same]
    refine versionName_lt_of_lt other.1 (Nat.pos_of_ne_zero ?_) index_bound
    rintro rfl
    exact freed (List.mem_map.mpr ⟨entry, member, by rw [name_eq, same]; rfl⟩)
  · exact absurd more not_later.1

/-- What rotation leaves when every removal it asks for succeeds. -/
theorem rotateSnapshots_eq_drop {entries : List (Entry Content)} {relisted : Bool}
    {removes : Name → Bool}
    (named : ∀ entry ∈ entries, entry.isDirectory = true ∧
      ∃ (time : TimeString) (suffix : Nat), suffix ≤ maxSuffix ∧ entry.name = versionName time.1 suffix)
    (sorted : entries.Pairwise fun left right => left.name < right.name)
    (removed : ∀ old ∈ entries.take (entries.length - maxVersions),
      relisted = true ∧ removes old.name = true) :
    rotateSnapshots entries maxVersions relisted removes =
      entries.drop (entries.length - maxVersions) := by
  have listed := listSnapshots_of_named named sorted
  rw [← filter_names_eq_drop sorted]
  cases relisted with
  | false =>
      have none : entries.take (entries.length - maxVersions) = [] :=
        List.eq_nil_iff_forall_not_mem.mpr fun old member => nomatch (removed old member).1
      simp [rotateSnapshots, none]
  | true =>
      simp only [rotateSnapshots, Bool.not_true, Bool.false_eq_true, if_false, rotatedAway, listed]
      refine List.filter_congr fun entry _ => ?_
      congr 1
      refine Bool.eq_iff_iff.mpr ?_
      simp only [List.any_eq_true, Bool.and_eq_true]
      constructor
      · rintro ⟨old, member, same, _⟩
        exact ⟨old, member, same⟩
      · rintro ⟨old, member, same⟩
        exact ⟨old, member, same, (removed old member).2⟩

/-- A run under the condition keeps the directory ordered. -/
theorem Snapshots.Ordered.step (ordered : s.Ordered maxVersions) (keeps : s.KeepsOrder maxVersions run) :
    (s.createSnapshot maxVersions run).Ordered maxVersions := by
  cases published : s.publishes maxVersions run with
  | false =>
      obtain ⟨last, eq, silent⟩ := createSnapshot_of_not_publishes published
      rw [eq]
      exact ⟨ordered.named, ordered.sorted, ordered.numbered, ordered.counted, ordered.contiguous,
        fun path wrong => absurd wrong (silent path)⟩
  | true =>
  obtain ⟨positive, path, content, chosen, eq⟩ := createSnapshot_of_publishes published
  obtain ⟨later, removed⟩ := keeps published
  rw [ordered.listSnapshots_eq] at later removed
  obtain ⟨suffix, bound, path_eq, free, below⟩ := chooseVersionPath_spec chosen
  have lower := fun entry (member : entry ∈ s.entries) =>
    ordered.lt_path chosen member (later entry member)
  have counted := ordered.counted
  let all := s.entries ++ [⟨path, true, content, s.created⟩]
  have length_all : all.length = s.entries.length + 1 := by simp [all]
  have named : ∀ entry ∈ all, entry.isDirectory = true ∧
      ∃ (time : TimeString) (suffix : Nat), suffix ≤ maxSuffix ∧
        entry.name = versionName time.1 suffix := by
    intro entry member
    rcases List.mem_append.mp member with old | new
    · exact ordered.named entry old
    · obtain rfl := List.mem_singleton.mp new
      exact ⟨rfl, run.time, suffix, bound, path_eq⟩
  have sorted : all.Pairwise fun left right => left.name < right.name := by
    refine List.pairwise_append.mpr ⟨ordered.sorted, List.pairwise_singleton _ _, ?_⟩
    intro entry member new isNew
    obtain rfl := List.mem_singleton.mp isNew
    exact lower entry member
  have contiguous : ∀ (time : TimeString) (index : Nat), index ≤ maxSuffix →
      versionName time.1 index ∈ all.map Entry.name → time.1 ∈ all.map Entry.name →
      ∀ earlier ≤ index, versionName time.1 earlier ∈ all.map Entry.name := by
    intro time index index_bound indexed unsuffixed earlier le
    simp only [all, List.map_append, List.map_cons, List.map_nil, List.mem_append,
      List.mem_singleton] at indexed unsuffixed ⊢
    have same_time : ∀ {other : Nat}, versionName time.1 other = path → time = run.time := by
      intro other same
      have times := congrArg (List.take 15) (same.trans path_eq)
      rw [take_versionName time.2.1, take_versionName run.time.2.1] at times
      exact Subtype.ext times
    rcases indexed with old | new
    · rcases unsuffixed with oldTime | newTime
      · exact .inl (ordered.contiguous time index index_bound old oldTime earlier le)
      · -- the new name is the time alone, so no suffix of it can be present below it
        obtain ⟨entry, member, name_eq⟩ := List.mem_map.mp old
        have less := lower entry member
        rw [name_eq, ← newTime] at less
        rcases Nat.eq_zero_or_pos index with rfl | positive
        · exact absurd less (lt_irrefl _)
        · exact absurd (less.trans (versionName_lt_of_lt time.1 positive index_bound)) (lt_irrefl _)
    · obtain rfl := same_time new
      have index_eq : index = suffix := by
        rw [path_eq] at new
        rcases Nat.lt_trichotomy index suffix with less | same | more
        · exact absurd (new ▸ versionName_lt_of_lt run.time.1 less bound) (lt_irrefl _)
        · exact same
        · exact absurd (new ▸ versionName_lt_of_lt run.time.1 more index_bound) (lt_irrefl _)
      subst index_eq
      rcases Nat.eq_or_lt_of_le le with rfl | less
      · exact .inr new
      · exact .inl (below earlier less)
  have front : all.take (all.length - maxVersions) =
      s.entries.take (s.entries.length + 1 - maxVersions) := by
    rw [length_all]
    exact List.take_append_of_le_length (by omega)
  have rotated : rotateSnapshots all maxVersions run.relisted run.removes =
      all.drop (all.length - maxVersions) :=
    rotateSnapshots_eq_drop named sorted (by rw [front]; exact removed)
  rw [eq, rotated]
  refine ⟨fun entry member => named entry (List.mem_of_mem_drop member),
    sorted.sublist (List.drop_sublist _ _), ?_, ?_, ?_, ?_⟩
  case refine_1 =>
    have numbers : all.map Entry.number =
        List.range' (s.created - s.entries.length) (s.entries.length + 1) := by
      have last : s.created - s.entries.length + 1 * s.entries.length = s.created := by omega
      rw [List.range'_concat, last]
      simp [all, ordered.numbered]
    rw [List.map_drop, numbers, List.drop_range', List.length_drop, length_all]
    show List.range' (s.created - s.entries.length + (s.entries.length + 1 - maxVersions) * 1)
        (s.entries.length + 1 - (s.entries.length + 1 - maxVersions)) =
      List.range' (s.created + 1 - (s.entries.length + 1 - (s.entries.length + 1 - maxVersions)))
        (s.entries.length + 1 - (s.entries.length + 1 - maxVersions))
    congr 1
    omega
  case refine_2 =>
    rw [List.length_drop, length_all]
    show s.entries.length + 1 - (s.entries.length + 1 - maxVersions) = min (s.created + 1) maxVersions
    omega
  case refine_3 =>
    intro time index index_bound indexed unsuffixed earlier le
    obtain ⟨base, baseKept, base_eq⟩ := List.mem_map.mp unsuffixed
    obtain ⟨top, topKept, top_eq⟩ := List.mem_map.mp indexed
    obtain ⟨entry, member, name_eq⟩ := List.mem_map.mp (contiguous time index index_bound
      (List.mem_map.mpr ⟨top, List.mem_of_mem_drop topKept, top_eq⟩)
      (List.mem_map.mpr ⟨base, List.mem_of_mem_drop baseKept, base_eq⟩) earlier le)
    refine List.mem_map.mpr ⟨entry, mem_drop_of_le sorted baseKept member ?_, name_eq⟩
    rw [base_eq, name_eq]
    rcases Nat.eq_zero_or_pos earlier with rfl | positive
    · exact le_refl _
    · exact (versionName_lt_of_lt time.1 positive (le.trans index_bound)).le
  case refine_4 =>
    rintro _ ⟨⟩
    refine ⟨positive, ?_⟩
    rw [List.getLast?_drop, if_neg (by omega)]
    simp [all]

/-- Rotation keeps what ranks last. -/
theorem mem_rotateSnapshots_of_last {entries : List (Entry Content)} {relisted : Bool}
    {removes : Name → Bool} (positive : 0 < maxVersions) (distinct : (entries.map Entry.name).Nodup)
    {last : Entry Content} (at_end : (listSnapshots entries).getLast? = some last) :
    last ∈ rotateSnapshots entries maxVersions relisted removes := by
  have member := (mem_listSnapshots.mp (List.mem_of_getLast? at_end)).1
  rw [rotateSnapshots]
  split
  · exact member
  · refine List.mem_filter.mpr ⟨member, ?_⟩
    rw [Bool.not_eq_true', List.any_eq_false]
    intro old older same
    have name_eq : old.name = last.name := beq_iff_eq.mp (Bool.and_eq_true_iff.mp same).1
    have listed : listSnapshots entries = (listSnapshots entries).dropLast ++ [last] := by
      obtain ⟨front, split⟩ := List.getLast?_eq_some_iff.mp at_end
      rw [split, List.dropLast_concat]
    have early : old ∈ (listSnapshots entries).dropLast := by
      rw [List.dropLast_eq_take]
      refine List.take_subset_take_left _ ?_ older
      omega
    have nodup : ((listSnapshots entries).map Entry.name).Nodup := by
      refine (List.Perm.nodup_iff ((List.perm_insertionSort _ _).map _)).mpr ?_
      exact distinct.sublist (List.filter_sublist.map _)
    rw [listed, List.map_append, List.nodup_append] at nodup
    exact nodup.2.2 old.name (List.mem_map_of_mem early) last.name (by simp) name_eq

/-- A publishing run outside the condition breaks the property at once. -/
theorem Snapshots.Ordered.not_retained (ordered : s.Ordered maxVersions)
    (breaks : ¬ s.KeepsOrder maxVersions run) :
    ¬ (s.createSnapshot maxVersions run).Retained maxVersions := by
  rw [Snapshots.KeepsOrder, Classical.not_imp] at breaks
  obtain ⟨published, unordered⟩ := breaks
  obtain ⟨positive, path, content, chosen, eq⟩ := createSnapshot_of_publishes published
  obtain ⟨_, _, _, free, _⟩ := chooseVersionPath_spec chosen
  rw [ordered.listSnapshots_eq] at unordered
  rw [eq]
  intro retained
  obtain ⟨_, last, numbers⟩ := retained path rfl
  let new : Entry Content := ⟨path, true, content, s.created⟩
  have distinct : ((s.entries ++ [new]).map Entry.name).Nodup := by
    rw [List.map_append, List.nodup_append]
    refine ⟨(List.pairwise_map.mpr ordered.sorted).imp fun less => ne_of_lt less,
      List.nodup_singleton _, ?_⟩
    rintro name listed _ isNew rfl
    obtain rfl := List.mem_singleton.mp isNew
    exact free listed
  rw [not_and_or] at unordered
  rcases unordered with notLater | notRemoved
  case inl =>
    rw [Classical.not_forall] at notLater
    obtain ⟨entry, notLater⟩ := notLater
    rw [Classical.not_imp] at notLater
    obtain ⟨member, notLater⟩ := notLater
    have above := ordered.path_lt chosen member notLater
    -- some snapshot above the new one ranks last, and rotation keeps it there
    have present : entry ∈ listSnapshots (s.entries ++ [new]) := by
      obtain ⟨directory, time, suffix, _, name_eq⟩ := ordered.named entry member
      refine mem_listSnapshots.mpr ⟨List.mem_append_left _ member, directory, ?_⟩
      rw [name_eq]
      exact isSnapshotName_versionName time suffix
    obtain ⟨top, at_end⟩ : ∃ top, (listSnapshots (s.entries ++ [new])).getLast? = some top :=
      ⟨_, List.getLast?_eq_some_getLast (List.ne_nil_of_mem present)⟩
    have top_ge : entry.name ≤ top.name := le_getLast_of_mem (pairwise_listSnapshots _) at_end present
    have kept : top ∈ rotateSnapshots (s.entries ++ [new]) maxVersions run.relisted run.removes :=
      mem_rotateSnapshots_of_last positive distinct at_end
    have top_listed : top ∈ listSnapshots (rotateSnapshots (s.entries ++ [new]) maxVersions run.relisted run.removes) :=
      mem_listSnapshots.mpr ⟨kept, (mem_listSnapshots.mp (List.mem_of_getLast? at_end)).2⟩
    obtain ⟨final, final_end, final_eq⟩ := Option.map_eq_some_iff.mp last
    have final_ge := le_getLast_of_mem (pairwise_listSnapshots _) final_end top_listed
    rw [final_eq] at final_ge
    exact absurd (above.trans_le (top_ge.trans final_ge)) (lt_irrefl _)
  case inr =>
    rw [Classical.not_forall] at notRemoved
    obtain ⟨old, notRemoved⟩ := notRemoved
    rw [Classical.not_imp] at notRemoved
    obtain ⟨rotated, stays⟩ := notRemoved
    have member := List.mem_of_mem_take rotated
    have kept : old ∈ rotateSnapshots (s.entries ++ [new]) maxVersions
        run.relisted run.removes := by
      rw [rotateSnapshots]
      split
      · exact List.mem_append_left _ member
      · rename_i relisted
        refine List.mem_filter.mpr ⟨List.mem_append_left _ member, ?_⟩
        rw [Bool.not_eq_true', List.any_eq_false]
        intro other _ same
        obtain ⟨name_eq, removed⟩ := Bool.and_eq_true_iff.mp same
        rw [beq_iff_eq.mp name_eq] at removed
        exact stays ⟨by simpa using relisted, removed⟩
    obtain ⟨directory, time, suffix, _, name_eq⟩ := ordered.named old member
    have listed := mem_listSnapshots.mpr
      ⟨kept, directory, name_eq ▸ isSnapshotName_versionName time suffix⟩
    have recent := (numbers old.number).mp ⟨old, listed, rfl⟩
    obtain ⟨index, bound, at_index⟩ := List.mem_iff_getElem.mp rotated
    rw [List.getElem_take] at at_index
    rw [List.length_take] at bound
    have counted := ordered.counted
    have number_eq : old.number = s.created - s.entries.length + index := by
      have numbered := ordered.numbered
      have at_number : (s.entries.map Entry.number)[index]? = some old.number := by
        rw [List.getElem?_map, List.getElem?_eq_getElem (by omega), at_index]
        rfl
      rw [numbered, List.getElem?_range' (by omega)] at at_number
      have value := Option.some.inj at_number
      omega
    have upper : s.created + 1 ≤ old.number + maxVersions := recent.2
    omega

/-! ## Runs -/

/-- Every created snapshot exists, ranks last and leaves the most recent ones in
every state of a sequence of runs, exactly when every run keeps the order. -/
theorem retained_iff_keepsOrder (maxVersions : Nat) (runs : List (Run Content)) :
    (backups maxVersions).Throughout (Snapshots.Retained maxVersions) .start runs ↔
      (backups maxVersions).Conforms (Snapshots.KeepsOrder maxVersions) .start runs := by
  refine Lib.Machine.throughout_iff_conforms (fun _ ordered => Snapshots.Ordered.retained ordered)
    ?_ ?_ (ordered_start maxVersions)
  · rintro s run next ordered keeps stepped
    obtain rfl := Option.some.inj stepped
    exact ordered.step keeps
  · intro s run ordered breaks
    exact ⟨_, rfl, ordered.not_retained breaks⟩

/-- A run at noon in which every step succeeds and the source has changed. -/
def noonRun : Run Unit where
  time := ⟨"20260101_120000".toList, by decide⟩
  validated := true
  listed := true
  compare _ := .different
  inspected := true
  copied := some ()
  renamed := true
  relisted := true
  removes _ := true

/-- Three runs within one second: the third takes the name that rotation freed,
ranks first and is itself rotated away. -/
theorem not_retained_sameSecond :
    ¬ ∀ (maxVersions : Nat) (runs : List (Run Unit)) (final : Snapshots Unit), 1 ≤ maxVersions →
      (backups maxVersions).run .start runs = some final → final.Retained maxVersions := by
  intro claim
  have outcome : ((backups 1).run .start [noonRun, noonRun, noonRun]).map (fun final =>
      (final.last, (listSnapshots final.entries).getLast?.map Entry.name)) =
      some (.snapshotCreated "20260101_120000".toList, some "20260101_120000_000001".toList) := by
    decide +kernel
  obtain ⟨final, done, seen⟩ := Option.map_eq_some_iff.mp outcome
  obtain ⟨created, ranked⟩ := Prod.mk.inj seen
  obtain ⟨_, last, _⟩ := claim 1 _ final le_rfl done _ created
  rw [ranked] at last
  exact absurd last (by decide)

end SearchEngine.Backup
