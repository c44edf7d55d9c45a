import SearchEngine.Lib.SlotTable
import SearchEngine.Index.PartialScan

/-!
# Numbers of a document table

`nextId` is the length of the table cut to 32 bits. Copies, moves and tables rebuilt
from rows write every number anew; while the number of a path and the path of a
number are inverse to each other, what they build holds the same pairs.
-/

namespace SearchEngine.Index

open SearchEngine.Lib

namespace DocPaths

/-! ## 32-bit numbers -/

/-- `nextId` with its cast to `uint32_t`. -/
def nextId32 (paths : DocPaths) : FileId := paths.id2path.length % 2 ^ 32

def addNew32 (paths : DocPaths) (path : Path) (metadata : DocumentMetadata) : DocPaths :=
  ⟨paths.path2info.insert path ⟨metadata, paths.nextId32, false⟩, paths.id2path ++ [some path]⟩

/-- `DocPaths::upsert`. -/
def upsert32 (paths : DocPaths) (path : Path) (metadata : DocumentMetadata) : DocPaths × FileId × Bool :=
  match paths.path2info.find? path with
  | none => (paths.addNew32 path metadata, paths.nextId32, true)
  | some _ => paths.upsert path metadata

/-- One iteration of the first loop of `getUpdate`. -/
def visitPath32 (paths : DocPaths) (pack : UpdatePack) (path : Path) (metadata : DocumentMetadata) :
    DocPaths × UpdatePack :=
  match paths.path2info.find? path with
  | none => (paths.addNew32 path metadata, { pack with added := pack.added ++ [paths.nextId32] })
  | some _ => paths.visitPath pack path metadata

def visitPaths32 (stat : Stat) : List Path → DocPaths → UpdatePack → DocPaths × Option UpdatePack
  | [], paths, pack => (paths, some pack)
  | path :: rest, paths, pack =>
      match stat path with
      | none => (paths, none)
      | some metadata =>
          visitPaths32 stat rest (paths.visitPath32 pack path metadata).1
            (paths.visitPath32 pack path metadata).2

/-- The second loop of `getUpdate`. -/
def flagUnseen (visited : DocPaths) (scanned : List Path) : DocPaths :=
  (visited.unseen scanned).keys.foldl (fun marked path =>
    { marked with path2info := marked.path2info.modify path fun info => { info with deleted := true } }) visited

/-- `DocPaths::getUpdate`. -/
def getUpdate32 (paths : DocPaths) (stat : Stat) (scanned : List Path) : DocPaths × Option UpdatePack :=
  match visitPaths32 stat scanned paths ⟨[], [], []⟩ with
  | (visited, none) => (visited, none)
  | (visited, some pack) => (visited.flagUnseen scanned,
      some { pack with removed := (visited.unseen scanned).entries.map fun entry => entry.2.id })

variable {paths : DocPaths} {stat : Stat} {scanned : List Path}

/-- The table has at most one slot for every 32-bit number. -/
def Fits (paths : DocPaths) : Prop := paths.id2path.length ≤ 2 ^ 32

theorem nextId32_eq (room : paths.id2path.length < 2 ^ 32) : paths.nextId32 = paths.nextId :=
  Nat.mod_eq_of_lt room

theorem addNew32_eq (room : paths.id2path.length < 2 ^ 32) (path : Path) (metadata : DocumentMetadata) :
    paths.addNew32 path metadata = paths.addNew path metadata := by
  rw [addNew32, nextId32_eq room, addNew]

@[simp] theorem length_addNew32 (path : Path) (metadata : DocumentMetadata) :
    (paths.addNew32 path metadata).id2path.length = paths.id2path.length + 1 := by
  simp [addNew32]

/-- Where the table afterwards fits, the cut changes nothing. -/
theorem upsert32_eq {path : Path} {metadata : DocumentMetadata}
    (fits : (paths.upsert32 path metadata).1.Fits) : paths.upsert32 path metadata = paths.upsert path metadata := by
  unfold upsert32 at fits ⊢
  cases found : paths.path2info.find? path with
  | none =>
      rw [found] at fits
      have room : paths.id2path.length < 2 ^ 32 :=
        Nat.lt_of_succ_le ((length_addNew32 path metadata).symm.trans_le fits)
      simp only [addNew32_eq room, nextId32_eq room, upsert, found]
  | some info => rfl

theorem length_visitPath32 (pack : UpdatePack) (path : Path) (metadata : DocumentMetadata) :
    paths.id2path.length ≤ (paths.visitPath32 pack path metadata).1.id2path.length := by
  unfold visitPath32
  cases paths.path2info.find? path with
  | none => simp
  | some info =>
      obtain ⟨more, same⟩ := paths.visitPath_id2path pack path metadata
      simp [same]

theorem visitPath32_eq {pack : UpdatePack} {path : Path} {metadata : DocumentMetadata}
    (fits : (paths.visitPath32 pack path metadata).1.Fits) :
    paths.visitPath32 pack path metadata = paths.visitPath pack path metadata := by
  unfold visitPath32 at fits ⊢
  cases found : paths.path2info.find? path with
  | none =>
      rw [found] at fits
      have room : paths.id2path.length < 2 ^ 32 :=
        Nat.lt_of_succ_le ((length_addNew32 path metadata).symm.trans_le fits)
      simp only [addNew32_eq room, nextId32_eq room, visitPath, found]
  | some info => rfl

theorem length_visitPaths32 (stat : Stat) (scanned : List Path) (paths : DocPaths) (pack : UpdatePack) :
    paths.id2path.length ≤ (visitPaths32 stat scanned paths pack).1.id2path.length := by
  induction scanned generalizing paths pack with
  | nil => rfl
  | cons path rest ih =>
      unfold visitPaths32
      cases stat path with
      | none => rfl
      | some metadata => exact (length_visitPath32 pack path metadata).trans (ih _ _)

theorem visitPaths32_eq {pack : UpdatePack} (fits : (visitPaths32 stat scanned paths pack).1.Fits) :
    visitPaths32 stat scanned paths pack = visitPaths stat scanned paths pack := by
  induction scanned generalizing paths pack with
  | nil => rfl
  | cons path rest ih =>
      unfold visitPaths32 at fits ⊢
      unfold visitPaths
      cases read : stat path with
      | none => rfl
      | some metadata =>
          rw [read] at fits
          have first : (paths.visitPath32 pack path metadata).1.Fits :=
            (length_visitPaths32 stat rest _ _).trans fits
          dsimp only at fits ⊢
          rw [ih fits, visitPath32_eq first]

theorem id2path_flagUnseen (visited : DocPaths) (scanned : List Path) :
    (visited.flagUnseen scanned).id2path = visited.id2path := id2path_flagged _ visited

theorem getUpdate32_eq (fits : (paths.getUpdate32 stat scanned).1.Fits) :
    paths.getUpdate32 stat scanned = paths.getUpdate stat scanned := by
  have visitedFits : (visitPaths32 stat scanned paths ⟨[], [], []⟩).1.Fits := by
    unfold getUpdate32 at fits
    generalize visitPaths32 stat scanned paths ⟨[], [], []⟩ = outcome at fits ⊢
    obtain ⟨visited, result⟩ := outcome
    cases result with
    | none => exact fits
    | some pack =>
        have same : (visited.flagUnseen scanned).id2path = visited.id2path := id2path_flagUnseen visited scanned
        exact (congrArg List.length same).symm.trans_le fits
  rw [getUpdate32, visitPaths32_eq visitedFits, getUpdate]
  rfl

/-! ## Paths and numbers -/

/-- The path has the number. -/
def Numbered (paths : DocPaths) (id : FileId) (path : Path) : Prop :=
  ∃ info, paths.path2info.find? path = some info ∧ info.id = id

/-- The table leads from a number to a path exactly when the path has the number. -/
def Bijective (paths : DocPaths) : Prop :=
  ∀ id path, paths.id2path[id]? = some (some path) ↔ paths.Numbered id path

theorem Numbered.unique {id other : FileId} {path : Path} (left : paths.Numbered id path)
    (right : paths.Numbered other path) : id = other := by
  obtain ⟨info, found, rfl⟩ := left
  obtain ⟨same, again, rfl⟩ := right
  rw [found] at again
  exact congrArg FileInfo.id (Option.some.inj again)

theorem Bijective.wellFormed (bijective : paths.Bijective) : paths.WellFormed :=
  fun path info found => (bijective info.id path).mpr ⟨info, found, rfl⟩

theorem WellFormed.path_unique (wellFormed : paths.WellFormed) {id : FileId} {left right : Path}
    (leftHas : paths.Numbered id left) (rightHas : paths.Numbered id right) : left = right := by
  obtain ⟨leftInfo, leftFound, leftId⟩ := leftHas
  obtain ⟨rightInfo, rightFound, rightId⟩ := rightHas
  exact wellFormed.injective leftFound rightFound (leftId.trans rightId.symm)

theorem bijective_empty : empty.Bijective := by
  intro id path
  constructor
  · intro leads
    cases leads
  · rintro ⟨info, found, -⟩
    cases found

/-- A new path under the next number. -/
theorem Bijective.addNew (bijective : paths.Bijective) {path : Path} (metadata : DocumentMetadata)
    (new : paths.path2info.find? path = none) : (paths.addNew path metadata).Bijective := by
  intro id other
  have grown := bijective.wellFormed.addNew path metadata
  constructor
  · intro leads
    simp only [DocPaths.addNew] at leads
    rcases Nat.lt_or_ge id paths.id2path.length with old | beyond
    · rw [List.getElem?_append_left old] at leads
      obtain ⟨info, found, same⟩ := (bijective id other).mp leads
      have different : path ≠ other := by
        rintro rfl
        rw [new] at found
        cases found
      exact ⟨info, by simpa [DocPaths.addNew, different] using found, same⟩
    · rw [List.getElem?_append_right beyond] at leads
      obtain ⟨last, same⟩ := List.getElem?_eq_some_iff.mp leads
      have first : id = paths.id2path.length := Nat.le_antisymm (Nat.sub_eq_zero_iff_le.mp
        (Nat.lt_one_iff.mp last)) beyond
      obtain rfl : path = other := by simpa [first] using same
      exact ⟨⟨metadata, paths.nextId, false⟩, by simp [DocPaths.addNew], first.symm⟩
  · rintro ⟨info, found, rfl⟩
    exact grown other info found

/-- Entries that keep their numbers leave the pairs alone. -/
theorem same_numbers (after : DocPaths)
    (numbers : ∀ path, (after.path2info.find? path).map FileInfo.id =
      (paths.path2info.find? path).map FileInfo.id) (id : FileId) (path : Path) :
    after.Numbered id path ↔ paths.Numbered id path := by
  have here := numbers path
  constructor
  · rintro ⟨info, found, rfl⟩
    rw [found, Option.map_some, eq_comm, Option.map_eq_some_iff] at here
    exact here
  · rintro ⟨info, found, rfl⟩
    rw [found, Option.map_some, Option.map_eq_some_iff] at here
    exact here

theorem Bijective.of_same_numbers (bijective : paths.Bijective) (after : DocPaths)
    (table : after.id2path = paths.id2path)
    (numbers : ∀ path, (after.path2info.find? path).map FileInfo.id =
      (paths.path2info.find? path).map FileInfo.id) : after.Bijective := by
  intro id path
  rw [table, same_numbers after numbers id path]
  exact bijective id path

/-! ## Copies and moves -/

/-- The size of the table `rebuildId2Path` allocates. -/
def requiredSize (path2info : SortedMap Path FileInfo) (minimumSize : Nat) : Nat :=
  path2info.entries.foldl (fun size entry => max size (entry.2.id + 1)) minimumSize

/-- `rebuildId2Path`. -/
def rebuildId2Path (path2info : SortedMap Path FileInfo) (minimumSize : Nat) : List (Option Path) :=
  fillSlots (List.replicate (requiredSize path2info minimumSize) none)
    (path2info.entries.map fun entry => (entry.2.id, entry.1))

/-- What the copy constructor and the copy assignment build. -/
def copied (other : DocPaths) : DocPaths :=
  ⟨other.path2info, rebuildId2Path other.path2info other.id2path.length⟩

/-- The source of a move: its map was taken and its table is rebuilt. -/
def movedFrom : DocPaths := ⟨∅, rebuildId2Path ∅ 0⟩

theorem le_requiredSize (path2info : SortedMap Path FileInfo) (minimumSize : Nat) :
    minimumSize ≤ requiredSize path2info minimumSize ∧
      ∀ entry ∈ path2info.entries, entry.2.id < requiredSize path2info minimumSize := by
  unfold requiredSize
  generalize path2info.entries = entries
  induction entries generalizing minimumSize with
  | nil => simp
  | cons entry rest ih =>
      obtain ⟨above, inside⟩ := ih (max minimumSize (entry.2.id + 1))
      refine ⟨(le_max_left _ _).trans above, fun other member => ?_⟩
      rcases List.mem_cons.mp member with rfl | later
      · exact (le_max_right minimumSize _).trans above
      · exact inside other later

/-- The numbers of the entries are distinct. -/
theorem WellFormed.nodup_ids (wellFormed : paths.WellFormed) :
    (paths.path2info.entries.map fun entry => entry.2.id).Nodup := by
  have keys : (paths.path2info.entries.map Prod.fst).Nodup := paths.path2info.keys_nodup
  rw [List.nodup_iff_pairwise_ne, List.pairwise_map] at keys ⊢
  apply keys.imp_of_mem
  intro left right leftMember rightMember different same
  apply different
  have leftFound := SortedMap.mem_entries_iff.mp leftMember
  have rightFound := SortedMap.mem_entries_iff.mp rightMember
  exact wellFormed.path_unique ⟨left.2, leftFound, rfl⟩ ⟨right.2, rightFound, same.symm⟩

/-- A copy holds the same entries, and its table leads to them. -/
theorem Bijective.copied (bijective : paths.Bijective) : paths.copied.Bijective := by
  intro id path
  have distinct : ((paths.path2info.entries.map fun entry => (entry.2.id, entry.1)).map Prod.fst).Nodup := by
    rw [List.map_map]
    exact bijective.wellFormed.nodup_ids
  have inside : ∀ pair ∈ paths.path2info.entries.map fun entry => (entry.2.id, entry.1),
      pair.1 < requiredSize paths.path2info paths.id2path.length := by
    intro pair member
    obtain ⟨entry, listed, rfl⟩ := List.mem_map.mp member
    exact (le_requiredSize _ _).2 entry listed
  rw [DocPaths.copied, rebuildId2Path, getElem?_fillSlots_replicate distinct inside, List.mem_map]
  constructor
  · rintro ⟨⟨other, info⟩, member, same⟩
    obtain ⟨rfl, rfl⟩ := Prod.mk.inj same
    exact ⟨info, SortedMap.mem_entries_iff.mp member, rfl⟩
  · rintro ⟨info, found, rfl⟩
    exact ⟨(path, info), SortedMap.mem_entries_iff.mpr found, rfl⟩

theorem movedFrom_eq : movedFrom = empty := rfl

/-- A table that already has room for every number is not enlarged. -/
theorem requiredSize_eq {path2info : SortedMap Path FileInfo} {minimumSize : Nat}
    (room : ∀ entry ∈ path2info.entries, entry.2.id < minimumSize) :
    requiredSize path2info minimumSize = minimumSize := by
  unfold requiredSize
  generalize path2info.entries = entries at room
  induction entries with
  | nil => rfl
  | cons entry rest ih =>
      rw [List.foldl_cons, max_eq_left (Nat.succ_le_of_lt (room entry (List.mem_cons_self ..)))]
      exact ih fun other later => room other (List.mem_cons_of_mem _ later)

@[simp] theorem length_copied (paths : DocPaths) :
    paths.copied.id2path.length = requiredSize paths.path2info paths.id2path.length := by
  simp [DocPaths.copied, rebuildId2Path]

/-- A copy is its own copy. -/
@[simp] theorem copied_copied (paths : DocPaths) : paths.copied.copied = paths.copied := by
  have same : requiredSize paths.path2info paths.copied.id2path.length =
      requiredSize paths.path2info paths.id2path.length := by
    rw [length_copied]
    exact requiredSize_eq (le_requiredSize _ _).2
  have table : rebuildId2Path paths.path2info paths.copied.id2path.length =
      rebuildId2Path paths.path2info paths.id2path.length := by
    rw [rebuildId2Path, rebuildId2Path, same]
  exact congrArg (DocPaths.mk paths.path2info) table

/-! ## Rows -/

/-- `DocPaths::RawRow`. -/
structure RawRow where
  id : FileId
  path : Path
  mtimeTicks : Int
  fsize : Nat
  deleted : Bool
deriving DecidableEq

/-- The entry of a row. -/
def RawRow.info (row : RawRow) : FileInfo := ⟨⟨row.mtimeTicks, row.fsize⟩, row.id, row.deleted⟩

/-- `exportRows`, in the order of the paths. -/
def exportRows (paths : DocPaths) : List RawRow :=
  paths.path2info.entries.map fun entry =>
    ⟨entry.2.id, entry.1, entry.2.metadata.mtimeTicks, entry.2.metadata.size, entry.2.deleted⟩

/-- The largest number of the rows. -/
def maxId (rows : List RawRow) : FileId := rows.foldl (fun maxId row => max maxId row.id) 0

/-- `rebuildFromRows`; `emplace` keeps the first row of a path. -/
def rebuildFromRawRows (rows : List RawRow) : DocPaths :=
  match rows with
  | [] => empty
  | _ :: _ => ⟨rows.foldl (fun entries row => entries.emplace row.path row.info) ∅,
      fillSlots (List.replicate (maxId rows + 1) none) (rows.map fun row => (row.id, row.path))⟩

/-- The rows have distinct numbers and distinct paths. -/
def DistinctRows (rows : List RawRow) : Prop :=
  (rows.map RawRow.id).Nodup ∧ (rows.map RawRow.path).Nodup

instance (rows : List RawRow) : Decidable (DistinctRows rows) := by
  unfold DistinctRows
  infer_instance

theorem le_maxId {rows : List RawRow} {row : RawRow} (member : row ∈ rows) : row.id ≤ maxId rows := by
  have above : ∀ (rows : List RawRow) (base : FileId),
      base ≤ rows.foldl (fun maxId row => max maxId row.id) base ∧
        ∀ row ∈ rows, row.id ≤ rows.foldl (fun maxId row => max maxId row.id) base := by
    intro rows
    induction rows with
    | nil => simp
    | cons first rest ih =>
        intro base
        obtain ⟨low, inside⟩ := ih (max base first.id)
        refine ⟨(le_max_left _ _).trans low, fun row member => ?_⟩
        rcases List.mem_cons.mp member with rfl | later
        · exact (le_max_right base _).trans low
        · exact inside row later
  exact (above rows 0).2 row member

theorem maxId_lt {rows : List RawRow} {bound : Nat} (positive : 0 < bound)
    (below : ∀ row ∈ rows, row.id < bound) : maxId rows < bound := by
  have folded : ∀ (rows : List RawRow) (base : FileId), base < bound → (∀ row ∈ rows, row.id < bound) →
      rows.foldl (fun maxId row => max maxId row.id) base < bound := by
    intro rows
    induction rows with
    | nil => exact fun base small _ => small
    | cons row rest ih =>
        intro base small below
        refine ih _ (max_lt small (below row (List.mem_cons_self ..))) fun other later => ?_
        exact below other (List.mem_cons_of_mem _ later)
  exact folded rows 0 positive below

/-- A path is found under its row. -/
theorem find?_rebuildFromRawRows {rows : List RawRow} (distinct : DistinctRows rows) {path : Path}
    {info : FileInfo} :
    (rebuildFromRawRows rows).path2info.find? path = some info ↔
      ∃ row ∈ rows, row.path = path ∧ row.info = info := by
  have folded : (rebuildFromRawRows rows).path2info =
      (rows.map fun row => (row.path, row.info)).foldl
        (fun entries entry => entries.emplace entry.1 entry.2) ∅ := by
    rw [List.foldl_map]
    cases rows <;> rfl
  have keys : ((rows.map fun row => (row.path, row.info)).map Prod.fst).Nodup := by
    rw [List.map_map]
    exact distinct.2
  rw [folded, SortedMap.find?_foldl_emplace, SortedMap.find?_empty, Option.none_or,
    SortedMap.findEntry_eq_some_iff keys, List.mem_map]
  constructor
  · rintro ⟨row, member, same⟩
    obtain ⟨rfl, rfl⟩ := Prod.mk.inj same
    exact ⟨row, member, rfl, rfl⟩
  · rintro ⟨row, member, rfl, rfl⟩
    exact ⟨row, member, rfl⟩

theorem numbered_rebuildFromRawRows {rows : List RawRow} (distinct : DistinctRows rows) {id : FileId}
    {path : Path} :
    (rebuildFromRawRows rows).Numbered id path ↔ ∃ row ∈ rows, row.id = id ∧ row.path = path := by
  constructor
  · rintro ⟨info, found, rfl⟩
    obtain ⟨row, member, rfl, rfl⟩ := (find?_rebuildFromRawRows distinct).mp found
    exact ⟨row, member, rfl, rfl⟩
  · rintro ⟨row, member, rfl, rfl⟩
    exact ⟨row.info, (find?_rebuildFromRawRows distinct).mpr ⟨row, member, rfl, rfl⟩, rfl⟩

/-- What is rebuilt from distinct rows leads to their paths. -/
theorem bijective_rebuildFromRawRows {rows : List RawRow} (distinct : DistinctRows rows) :
    (rebuildFromRawRows rows).Bijective := by
  intro id path
  rw [numbered_rebuildFromRawRows distinct]
  cases rows with
  | nil => exact ⟨fun leads => (by cases leads), fun ⟨_, member, _⟩ => (by cases member)⟩
  | cons first rest =>
      have ids : (((first :: rest).map fun row => (row.id, row.path)).map Prod.fst).Nodup := by
        rw [List.map_map]
        exact distinct.1
      have inside : ∀ pair ∈ (first :: rest).map fun row => (row.id, row.path),
          pair.1 < maxId (first :: rest) + 1 := by
        intro pair member
        obtain ⟨row, listed, rfl⟩ := List.mem_map.mp member
        exact Nat.lt_succ_of_le (le_maxId listed)
      rw [rebuildFromRawRows, getElem?_fillSlots_replicate ids inside, List.mem_map]
      constructor
      · rintro ⟨row, member, same⟩
        obtain ⟨rfl, rfl⟩ := Prod.mk.inj same
        exact ⟨row, member, rfl, rfl⟩
      · rintro ⟨row, member, rfl, rfl⟩
        exact ⟨row, member, rfl⟩

/-- The paths that are found come from the rows. -/
theorem row_of_find? {rows : List RawRow} {path : Path} {info : FileInfo}
    (found : (rebuildFromRawRows rows).path2info.find? path = some info) :
    ∃ row ∈ rows, row.path = path ∧ row.info = info := by
  have folded : (rebuildFromRawRows rows).path2info =
      (rows.map fun row => (row.path, row.info)).foldl
        (fun entries entry => entries.emplace entry.1 entry.2) ∅ := by
    rw [List.foldl_map]
    cases rows <;> rfl
  rw [folded, SortedMap.find?_foldl_emplace, SortedMap.find?_empty, Option.none_or] at found
  obtain ⟨row, member, same⟩ := List.mem_map.mp (SortedMap.mem_of_findEntry_eq_some found)
  exact ⟨row, member, (Prod.mk.inj same).1, (Prod.mk.inj same).2⟩

/-- What is exported after rows with distinct numbers is distinct, also when paths repeat. -/
theorem distinct_exportRows_rebuilt {rows : List RawRow} (ids : (rows.map RawRow.id).Nodup) :
    DistinctRows (rebuildFromRawRows rows).exportRows := by
  have keys : ((rebuildFromRawRows rows).path2info.entries.map Prod.fst).Nodup := SortedMap.keys_nodup _
  unfold DistinctRows exportRows
  rw [List.map_map, List.map_map]
  refine ⟨?_, keys⟩
  rw [List.nodup_iff_pairwise_ne, List.pairwise_map] at keys ⊢
  refine keys.imp_of_mem fun {left right} leftMember rightMember different same => different ?_
  obtain ⟨leftRow, leftListed, leftPath, leftInfo⟩ := row_of_find? (SortedMap.mem_entries_iff.mp leftMember)
  obtain ⟨rightRow, rightListed, rightPath, rightInfo⟩ := row_of_find? (SortedMap.mem_entries_iff.mp rightMember)
  have sameId : leftRow.id = rightRow.id := by
    have ids : left.2.id = right.2.id := same
    rwa [← leftInfo, ← rightInfo] at ids
  rw [← leftPath, ← rightPath, List.inj_on_of_nodup_map ids leftListed rightListed sameId]

/-- Exported rows are distinct. -/
theorem Bijective.distinct_exportRows (bijective : paths.Bijective) : DistinctRows paths.exportRows := by
  have keys : (paths.path2info.entries.map Prod.fst).Nodup := paths.path2info.keys_nodup
  unfold DistinctRows exportRows
  rw [List.map_map, List.map_map]
  exact ⟨bijective.wellFormed.nodup_ids, keys⟩

/-- Exported rows, in any order, rebuild the same entries. -/
theorem Bijective.rebuild_exported (bijective : paths.Bijective) {rows : List RawRow}
    (listed : rows.Perm paths.exportRows) :
    DistinctRows rows ∧ (rebuildFromRawRows rows).path2info = paths.path2info := by
  have distinct : DistinctRows rows :=
    ⟨(listed.map _).nodup_iff.mpr bijective.distinct_exportRows.1,
      (listed.map _).nodup_iff.mpr bijective.distinct_exportRows.2⟩
  refine ⟨distinct, ?_⟩
  ext path info
  rw [find?_rebuildFromRawRows distinct]
  constructor
  · rintro ⟨row, member, rfl, rfl⟩
    obtain ⟨⟨path, info⟩, entry, rfl⟩ := List.mem_map.mp (listed.mem_iff.mp member)
    exact SortedMap.mem_entries_iff.mp entry
  · intro found
    refine ⟨⟨info.id, path, info.metadata.mtimeTicks, info.metadata.size, info.deleted⟩, ?_, rfl, rfl⟩
    exact listed.mem_iff.mpr (List.mem_map.mpr ⟨(path, info), SortedMap.mem_entries_iff.mpr found, rfl⟩)

end DocPaths

end SearchEngine.Index
