import SearchEngine.Index.MirrorDatabase

/-!
# Document catalogs

The catalog assigns a file number to every path and remembers the metadata a
document was last seen with. `MemoryDocumentCatalog` keeps it in `DocPaths`;
`SQLiteDocumentCatalog` reads the committed `docs` table and holds point updates
in `pending_` until they are persisted. Disappeared files keep their entry and
are only flagged as deleted.
-/

namespace SearchEngine.Index

open SearchEngine.Lib

/-- Modification time and size a document was seen with. -/
structure DocumentMetadata where
  mtimeTicks : Int
  size : Nat
  deriving DecidableEq

/-- `DocumentRecord`. -/
structure DocumentRecord where
  id : FileId
  path : Path
  metadata : DocumentMetadata
  deleted : Bool
  deriving DecidableEq

/-- `CatalogScanItem`. -/
structure CatalogScanItem where
  id : FileId
  pathIndex : Nat
  metadata : DocumentMetadata
  deriving DecidableEq

/-- `CatalogDiff`. -/
structure CatalogDiff where
  added : List CatalogScanItem
  updated : List CatalogScanItem
  removed : List FileId
  deriving DecidableEq

/-- What the file system reports for a path during a scan; `none` is a thrown error. -/
abbrev Stat := Path → Option DocumentMetadata

/-! ## DocPaths -/

/-- `DocPaths::FileInfo`. -/
structure FileInfo where
  metadata : DocumentMetadata
  id : FileId
  deleted : Bool
  deriving DecidableEq

/-- `UpdatePack`. -/
structure UpdatePack where
  added : List FileId
  updated : List FileId
  removed : List FileId

/-- `DocPaths`: the entries by path and the path of every file number. -/
structure DocPaths where
  path2info : SortedMap Path FileInfo
  id2path : List (Option Path)
  deriving DecidableEq

namespace DocPaths

/-- A catalog without documents. -/
def empty : DocPaths := ⟨∅, []⟩

/-- `DocPaths::nextId`. -/
def nextId (paths : DocPaths) : FileId := paths.id2path.length

/-- `path2info.emplace` and `id2path.push_back` for a new path. -/
def addNew (paths : DocPaths) (path : Path) (metadata : DocumentMetadata) : DocPaths :=
  ⟨paths.path2info.insert path ⟨metadata, paths.nextId, false⟩, paths.id2path ++ [some path]⟩

/-- `DocPaths::upsert`: the entries afterwards, the file number and `changed`. -/
def upsert (paths : DocPaths) (path : Path) (metadata : DocumentMetadata) :
    DocPaths × FileId × Bool :=
  match paths.path2info.find? path with
  | none => (paths.addNew path metadata, paths.nextId, true)
  | some info =>
      if info.deleted || decide (info.metadata ≠ metadata) then
        ({ paths with path2info := paths.path2info.insert path ⟨metadata, info.id, false⟩ }, info.id, true)
      else (paths, info.id, false)

/-- `DocPaths::tryGetId`. -/
def tryGetId (paths : DocPaths) (path : Path) : Option FileId :=
  (paths.path2info.find? path).map FileInfo.id

/-- The entry `id2path` leads to. -/
def infoById (paths : DocPaths) (id : FileId) : Option (Path × FileInfo) :=
  (paths.id2path[id]?.join).bind fun path => (paths.path2info.find? path).map fun info => (path, info)

/-- `DocPaths::isDeleted`. -/
def isDeleted (paths : DocPaths) (id : FileId) : Bool :=
  (paths.infoById id).any fun entry => entry.2.deleted

/-- `DocPaths::markRemoved`. -/
def markRemoved (paths : DocPaths) (id : FileId) : DocPaths :=
  match paths.id2path[id]?.join with
  | none => paths
  | some path =>
      { paths with path2info := paths.path2info.modify path fun info => { info with deleted := true } }

/-- One iteration of the first loop of `getUpdate`. -/
def visitPath (paths : DocPaths) (pack : UpdatePack) (path : Path) (metadata : DocumentMetadata) :
    DocPaths × UpdatePack :=
  match paths.path2info.find? path with
  | none => (paths.addNew path metadata, { pack with added := pack.added ++ [paths.nextId] })
  | some info =>
      if info.deleted || decide (info.metadata ≠ metadata) then
        ({ paths with path2info := paths.path2info.insert path ⟨metadata, info.id, false⟩ },
          { pack with updated := pack.updated ++ [info.id] })
      else (paths, pack)

/-- The first loop of `getUpdate`. A thrown file system error leaves the visited
entries changed. -/
def visitPaths (stat : Stat) : List Path → DocPaths → UpdatePack → DocPaths × Option UpdatePack
  | [], paths, pack => (paths, some pack)
  | path :: rest, paths, pack =>
      match stat path with
      | none => (paths, none)
      | some metadata =>
          visitPaths stat rest (paths.visitPath pack path metadata).1
            (paths.visitPath pack path metadata).2

/-- The second loop of `getUpdate`: entries that were not seen. -/
def unseen (paths : DocPaths) (seen : List Path) : SortedMap Path FileInfo :=
  paths.path2info.filter fun path info => !info.deleted && decide (path ∉ seen)

/-- `DocPaths::getUpdate`. -/
def getUpdate (paths : DocPaths) (stat : Stat) (scanned : List Path) : DocPaths × Option UpdatePack :=
  match visitPaths stat scanned paths ⟨[], [], []⟩ with
  | (visited, none) => (visited, none)
  | (visited, some pack) =>
      ((visited.unseen scanned).keys.foldl (fun marked path =>
          { marked with path2info := marked.path2info.modify path fun info => { info with deleted := true } })
        visited,
       some { pack with removed := (visited.unseen scanned).entries.map fun entry => entry.2.id })

end DocPaths

/-! ## MemoryDocumentCatalog -/

namespace DocPaths

/-- The scan items of the paths whose number is among `ids`, in path order. -/
def scanItems (paths : DocPaths) (scanned : List Path) (ids : List FileId) : List CatalogScanItem :=
  scanned.zipIdx.filterMap fun entry =>
    (paths.path2info.find? entry.1).bind fun info =>
      if info.id ∈ ids then some ⟨info.id, entry.2, info.metadata⟩ else none

/-- `MemoryDocumentCatalog::scan`; a number both added and updated counts as added. -/
def scan (paths : DocPaths) (stat : Stat) (scanned : List Path) : DocPaths × Option CatalogDiff :=
  match paths.getUpdate stat scanned with
  | (updated, none) => (updated, none)
  | (updated, some pack) =>
      (updated, some {
        added := updated.scanItems scanned pack.added
        updated := updated.scanItems scanned (pack.updated.filter fun id => decide (id ∉ pack.added))
        removed := pack.removed })

/-- `MemoryDocumentCatalog::findByPath`. -/
def findByPath (paths : DocPaths) (path : Path) : Option DocumentRecord :=
  (paths.path2info.find? path).map fun info => ⟨info.id, path, info.metadata, info.deleted⟩

end DocPaths

/-! ## SQLiteDocumentCatalog -/

namespace Database

/-- `findPersistedByPath`: the committed row with this path. -/
def findByPath (db : Database) (path : Path) : Option DocumentRecord :=
  (db.docs.entries.find? fun entry => decide (entry.2.path = path)).map fun entry =>
    ⟨entry.1, entry.2.path, ⟨entry.2.mtimeTicks, entry.2.size⟩, entry.2.deleted⟩

/-- `SELECT COALESCE(MAX(doc_id), -1)` plus one. -/
def nextDocId (db : Database) : FileId := db.docs.nextKey

end Database

/-- `DocPaths::rebuildFromRows` on the rows of `docs`; `emplace` keeps the first
row of a path. -/
def DocPaths.rebuildFromRows (db : Database) : DocPaths where
  path2info := db.docs.entries.foldl (fun entries entry =>
    entries.emplace entry.2.path
      ⟨⟨entry.2.mtimeTicks, entry.2.size⟩, entry.1, entry.2.deleted⟩) ∅
  id2path := (List.range db.nextDocId).map fun id => (db.docs.find? id).map DocRow.path

/-- `SQLiteDocumentCatalog`: its counters and `pending_`. -/
structure SQLiteCatalog where
  documentCount : Nat
  nextId : FileId
  pending : SortedMap Path DocumentRecord
  deriving DecidableEq

namespace SQLiteCatalog

/-- The constructor with `refreshCounters`. -/
def opened (db : Database) : SQLiteCatalog := ⟨db.docs.entries.length, db.nextDocId, ∅⟩

/-- The record differs from what the file system reports or is flagged as deleted. -/
def differs (record : DocumentRecord) (metadata : DocumentMetadata) : Bool :=
  record.deleted || decide (record.metadata ≠ metadata)

/-- `SQLiteDocumentCatalog::upsert`. -/
def upsert (catalog : SQLiteCatalog) (db : Database) (path : Path) (metadata : DocumentMetadata) :
    SQLiteCatalog × FileId × Bool :=
  match catalog.pending.find? path with
  | some record =>
      ({ catalog with pending :=
          catalog.pending.insert path { record with metadata := metadata, deleted := false } },
        record.id, differs record metadata)
  | none =>
      match db.findByPath path with
      | some record =>
          if differs record metadata then
            ({ catalog with pending :=
                catalog.pending.insert path { record with metadata := metadata, deleted := false } },
              record.id, true)
          else (catalog, record.id, false)
      | none =>
          ({ documentCount := catalog.documentCount + 1
             nextId := catalog.nextId + 1
             pending := catalog.pending.insert path ⟨catalog.nextId, path, metadata, false⟩ },
            catalog.nextId, true)

/-- The path loop of `SQLiteDocumentCatalog::scan` with the next free number. -/
def scanPaths (db : Database) (stat : Stat) : List (Path × Nat) → FileId → Option CatalogDiff
  | [], _ => some ⟨[], [], []⟩
  | (path, index) :: rest, nextId => do
      let metadata ← stat path
      match db.findByPath path with
      | none =>
          let diff ← scanPaths db stat rest (nextId + 1)
          some { diff with added := ⟨nextId, index, metadata⟩ :: diff.added }
      | some record =>
          let diff ← scanPaths db stat rest nextId
          some (if differs record metadata then
            { diff with updated := ⟨record.id, index, metadata⟩ :: diff.updated } else diff)

/-- The numbers of the scanned paths that have a committed row. -/
def foundIds (db : Database) (scanned : List Path) : List FileId :=
  scanned.filterMap fun path => (db.findByPath path).map DocumentRecord.id

/-- `SQLiteDocumentCatalog::scan`: committed rows only; duplicate input is refused. -/
def scan (catalog : SQLiteCatalog) (db : Database) (stat : Stat) (scanned : List Path) :
    SQLiteCatalog × Option CatalogDiff :=
  if scanned.Nodup then
    match scanPaths db stat scanned.zipIdx catalog.nextId with
    | none => (catalog, none)
    | some diff =>
        ({ catalog with
            nextId := catalog.nextId + diff.added.length
            documentCount := catalog.documentCount + diff.added.length },
          some { diff with removed :=
            (db.docs.entries.filter fun entry => !entry.2.deleted &&
              decide (entry.1 ∉ diff.added.map CatalogScanItem.id ++ foundIds db scanned)).map Prod.fst })
  else (catalog, none)

/-- `SQLiteDocumentCatalog::notePersisted`. -/
def notePersisted (catalog : SQLiteCatalog) (path : Path) (id : FileId) : SQLiteCatalog :=
  match catalog.pending.find? path with
  | some record => if record.id = id then { catalog with pending := catalog.pending.erase path } else catalog
  | none => catalog

end SQLiteCatalog

/-! ## DocumentCatalog -/

/-- The two implementations of `DocumentCatalog`. -/
inductive DocumentCatalog where
  | memory (paths : DocPaths)
  | sqlite (catalog : SQLiteCatalog)
  deriving DecidableEq

namespace DocumentCatalog

/-- `DocumentCatalog::scan`; `none` is a thrown error. -/
def scan (catalog : DocumentCatalog) (db : Database) (stat : Stat) (scanned : List Path) :
    DocumentCatalog × Option CatalogDiff :=
  match catalog with
  | memory paths => (memory (paths.scan stat scanned).1, (paths.scan stat scanned).2)
  | sqlite state => (sqlite (state.scan db stat scanned).1, (state.scan db stat scanned).2)

/-- `DocumentCatalog::upsert`: the catalog afterwards, the file number and `changed`. -/
def upsert (catalog : DocumentCatalog) (db : Database) (path : Path) (metadata : DocumentMetadata) :
    DocumentCatalog × FileId × Bool :=
  match catalog with
  | memory paths => (memory (paths.upsert path metadata).1, (paths.upsert path metadata).2)
  | sqlite state => (sqlite (state.upsert db path metadata).1, (state.upsert db path metadata).2)

/-- `DocumentCatalog::findByPath`. -/
def findByPath (catalog : DocumentCatalog) (db : Database) (path : Path) : Option DocumentRecord :=
  match catalog with
  | memory paths => paths.findByPath path
  | sqlite state => (state.pending.find? path).or (db.findByPath path)

/-- `DocumentCatalog::markRemoved`; the SQLite catalog relies on the `docs` row. -/
def markRemoved (catalog : DocumentCatalog) (id : FileId) : DocumentCatalog :=
  match catalog with
  | memory paths => memory (paths.markRemoved id)
  | sqlite state => sqlite state

/-- `DocumentCatalog::notePersisted`. -/
def notePersisted (catalog : DocumentCatalog) (path : Path) (id : FileId) : DocumentCatalog :=
  match catalog with
  | memory paths => memory paths
  | sqlite state => sqlite (state.notePersisted path id)

/-- `InvertedIndex::isFileDeleted` through `DocumentCatalog::findByIds`. -/
def isDeleted (catalog : DocumentCatalog) (db : Database) (id : FileId) : Bool :=
  match catalog with
  | memory paths => paths.isDeleted id
  | sqlite _ => (db.docs.find? id).any DocRow.deleted

/-- The number the next new document receives. -/
def nextId : DocumentCatalog → FileId
  | memory paths => paths.nextId
  | sqlite state => state.nextId

end DocumentCatalog

/-! ## File numbers -/

namespace DocPaths

/-- The number of an entry leads back to its path. -/
def WellFormed (paths : DocPaths) : Prop :=
  ∀ path info, paths.path2info.find? path = some info → paths.id2path[info.id]? = some (some path)

variable {paths : DocPaths}

theorem WellFormed.id_lt (wellFormed : paths.WellFormed) {path : Path} {info : FileInfo}
    (found : paths.path2info.find? path = some info) : info.id < paths.nextId :=
  (List.getElem?_eq_some_iff.mp (wellFormed path info found)).1

/-- Distinct paths have distinct numbers. -/
theorem WellFormed.injective (wellFormed : paths.WellFormed) {left right : Path}
    {leftInfo rightInfo : FileInfo} (leftFound : paths.path2info.find? left = some leftInfo)
    (rightFound : paths.path2info.find? right = some rightInfo) (same : leftInfo.id = rightInfo.id) :
    left = right := by
  have leftPath := wellFormed left leftInfo leftFound
  rw [same, wellFormed right rightInfo rightFound] at leftPath
  exact (Option.some.inj (Option.some.inj leftPath)).symm

theorem WellFormed.addNew (wellFormed : paths.WellFormed) (path : Path)
    (metadata : DocumentMetadata) : (paths.addNew path metadata).WellFormed := by
  intro other info found
  simp only [DocPaths.addNew, SortedMap.find?_insert] at found ⊢
  split at found
  · rename_i same
    obtain rfl := Option.some.inj found
    simp [same, nextId]
  · rw [List.getElem?_append_left (wellFormed.id_lt found)]
    exact wellFormed other info found

/-- Changing an entry under its number keeps the entries well formed. -/
theorem WellFormed.replace (wellFormed : paths.WellFormed) {path : Path} {info : FileInfo}
    (found : paths.path2info.find? path = some info) (metadata : DocumentMetadata) (deleted : Bool) :
    ({ paths with path2info := paths.path2info.insert path ⟨metadata, info.id, deleted⟩ } :
      DocPaths).WellFormed := by
  intro other stored present
  simp only [SortedMap.find?_insert] at present
  split at present
  · rename_i same
    obtain rfl := Option.some.inj present
    exact same ▸ wellFormed path info found
  · exact wellFormed other stored present

theorem WellFormed.flag (wellFormed : paths.WellFormed) (path : Path) :
    ({ paths with path2info :=
        paths.path2info.modify path fun info => { info with deleted := true } } :
      DocPaths).WellFormed := by
  intro other stored present
  simp only [SortedMap.find?_modify] at present
  split at present
  · obtain ⟨old, oldFound, rfl⟩ := Option.map_eq_some_iff.mp present
    exact wellFormed other old oldFound
  · exact wellFormed other stored present

theorem WellFormed.upsert (wellFormed : paths.WellFormed) (path : Path)
    (metadata : DocumentMetadata) :
    (paths.upsert path metadata).1.WellFormed ∧
      (paths.upsert path metadata).2.1 < (paths.upsert path metadata).1.nextId ∧
      paths.nextId ≤ (paths.upsert path metadata).1.nextId := by
  unfold DocPaths.upsert
  cases found : paths.path2info.find? path with
  | none => exact ⟨wellFormed.addNew path metadata, by simp [DocPaths.addNew, nextId],
      by simp [DocPaths.addNew, nextId]⟩
  | some info =>
      have bound := wellFormed.id_lt found
      dsimp only
      split
      · exact ⟨wellFormed.replace found metadata false, bound, le_rfl⟩
      · exact ⟨wellFormed, bound, le_rfl⟩

theorem WellFormed.markRemoved (wellFormed : paths.WellFormed) (id : FileId) :
    (paths.markRemoved id).WellFormed := by
  unfold DocPaths.markRemoved
  split
  · exact wellFormed
  · exact wellFormed.flag _

@[simp] theorem nextId_markRemoved (id : FileId) : (paths.markRemoved id).nextId = paths.nextId := by
  unfold DocPaths.markRemoved
  split <;> rfl

theorem WellFormed.visitPath (wellFormed : paths.WellFormed) (pack : UpdatePack) (path : Path)
    (metadata : DocumentMetadata) :
    (paths.visitPath pack path metadata).1.WellFormed ∧
      paths.nextId ≤ (paths.visitPath pack path metadata).1.nextId ∧
      ∀ id ∈ (paths.visitPath pack path metadata).2.added, id ∈ pack.added ∨ paths.nextId ≤ id := by
  unfold DocPaths.visitPath
  cases found : paths.path2info.find? path with
  | none =>
      refine ⟨wellFormed.addNew path metadata, by simp [DocPaths.addNew, nextId], ?_⟩
      intro id member
      rcases List.mem_append.mp member with old | new
      · exact .inl old
      · exact .inr (List.mem_singleton.mp new).ge
  | some info =>
      dsimp only
      split
      · exact ⟨wellFormed.replace found metadata false, le_rfl, fun _ member => .inl member⟩
      · exact ⟨wellFormed, le_rfl, fun _ member => .inl member⟩

theorem WellFormed.visitPaths (stat : Stat) (scanned : List Path) {base : FileId}
    {pack : UpdatePack} (wellFormed : paths.WellFormed) (above : base ≤ paths.nextId)
    (new : ∀ id ∈ pack.added, base ≤ id) :
    (DocPaths.visitPaths stat scanned paths pack).1.WellFormed ∧
      base ≤ (DocPaths.visitPaths stat scanned paths pack).1.nextId ∧
      ∀ visited, (DocPaths.visitPaths stat scanned paths pack).2 = some visited →
        ∀ id ∈ visited.added, base ≤ id := by
  induction scanned generalizing paths pack with
  | nil =>
      refine ⟨wellFormed, above, ?_⟩
      intro visited done
      obtain rfl := Option.some.inj done
      exact new
  | cons path rest ih =>
      unfold DocPaths.visitPaths
      cases stat path with
      | none => exact ⟨wellFormed, above, fun _ done => by cases done⟩
      | some metadata =>
          obtain ⟨nextWellFormed, nextAbove, nextNew⟩ := wellFormed.visitPath pack path metadata
          refine ih nextWellFormed (above.trans nextAbove) ?_
          intro id member
          rcases nextNew id member with old | large
          · exact new id old
          · exact above.trans large

/-- Flagging unseen entries changes neither numbers nor paths. -/
theorem WellFormed.flagAll (wellFormed : paths.WellFormed) (keys : List Path) :
    (keys.foldl (fun marked path =>
        ({ marked with path2info :=
            marked.path2info.modify path fun info => { info with deleted := true } } : DocPaths))
      paths).WellFormed ∧
    (keys.foldl (fun marked path =>
        ({ marked with path2info :=
            marked.path2info.modify path fun info => { info with deleted := true } } : DocPaths))
      paths).nextId = paths.nextId := by
  induction keys generalizing paths with
  | nil => exact ⟨wellFormed, rfl⟩
  | cons path rest ih => exact ih (wellFormed.flag path)

theorem mem_scanItems {scanned : List Path} {ids : List FileId} {item : CatalogScanItem}
    (member : item ∈ paths.scanItems scanned ids) :
    item.id ∈ ids ∧ ∃ path info, paths.path2info.find? path = some info ∧ info.id = item.id := by
  obtain ⟨⟨path, index⟩, _, selected⟩ := List.mem_filterMap.mp member
  obtain ⟨info, found, kept⟩ := Option.bind_eq_some_iff.mp selected
  split at kept
  · rename_i listed
    obtain rfl := Option.some.inj kept
    exact ⟨listed, path, info, found, rfl⟩
  · cases kept

theorem WellFormed.nodup_scanItems (wellFormed : paths.WellFormed) {scanned : List Path}
    (distinct : scanned.Nodup) (ids : List FileId) :
    ((paths.scanItems scanned ids).map CatalogScanItem.id).Nodup := by
  have indexed : scanned.zipIdx.Pairwise fun left right => left.1 ≠ right.1 := by
    have named : (scanned.zipIdx.map Prod.fst).Nodup := by rwa [List.zipIdx_map_fst]
    rwa [List.nodup_iff_pairwise_ne, List.pairwise_map] at named
  rw [List.nodup_iff_pairwise_ne, List.pairwise_map]
  refine List.Pairwise.filterMap _ ?_ indexed
  rintro ⟨left, leftIndex⟩ ⟨right, rightIndex⟩ different leftItem leftSelected rightItem rightSelected
  obtain ⟨leftInfo, leftFound, leftKept⟩ := Option.bind_eq_some_iff.mp leftSelected
  obtain ⟨rightInfo, rightFound, rightKept⟩ := Option.bind_eq_some_iff.mp rightSelected
  split at leftKept
  · split at rightKept
    · obtain rfl := Option.some.inj leftKept
      obtain rfl := Option.some.inj rightKept
      exact fun same => different (wellFormed.injective leftFound rightFound same)
    · cases rightKept
  · cases leftKept

end DocPaths

/-- What a scan guarantees about the numbers of its diff, given the next free
number before it: dispatched numbers are distinct, and added ones are new. -/
structure FreshDiff (before after : FileId) (diff : CatalogDiff) : Prop where
  distinct : ((diff.added ++ diff.updated).map CatalogScanItem.id).Nodup
  added : ∀ item ∈ diff.added, before ≤ item.id
  below : ∀ item ∈ diff.added ++ diff.updated, item.id < after

theorem DocPaths.WellFormed.scan {paths : DocPaths} (wellFormed : paths.WellFormed) (stat : Stat)
    {scanned : List Path} (distinct : scanned.Nodup) :
    (paths.scan stat scanned).1.WellFormed ∧ paths.nextId ≤ (paths.scan stat scanned).1.nextId ∧
      ∀ diff, (paths.scan stat scanned).2 = some diff →
        FreshDiff paths.nextId (paths.scan stat scanned).1.nextId diff := by
  have noneAdded : ∀ id ∈ (⟨[], [], []⟩ : UpdatePack).added, paths.nextId ≤ id := by simp
  obtain ⟨visitedWellFormed, above, new⟩ :=
    DocPaths.WellFormed.visitPaths stat scanned wellFormed le_rfl noneAdded
  unfold DocPaths.scan DocPaths.getUpdate
  rcases visitedEq : DocPaths.visitPaths stat scanned paths ⟨[], [], []⟩ with ⟨visited, result⟩
  rw [visitedEq] at visitedWellFormed above new
  cases result with
  | none => exact ⟨visitedWellFormed, above, fun _ done => by cases done⟩
  | some pack =>
      obtain ⟨flagged, sameNext⟩ := visitedWellFormed.flagAll (visited.unseen scanned).keys
      refine ⟨flagged, by rw [sameNext]; exact above, ?_⟩
      intro diff done
      obtain rfl := Option.some.inj done
      refine ⟨?_, ?_, ?_⟩
      · rw [List.map_append, List.nodup_append]
        refine ⟨flagged.nodup_scanItems distinct _, flagged.nodup_scanItems distinct _, ?_⟩
        intro left leftMember right rightMember same
        obtain ⟨leftItem, leftListed, rfl⟩ := List.mem_map.mp leftMember
        obtain ⟨rightItem, rightListed, rfl⟩ := List.mem_map.mp rightMember
        have leftAdded := (DocPaths.mem_scanItems leftListed).1
        have rightAdded := (DocPaths.mem_scanItems rightListed).1
        rw [List.mem_filter, decide_eq_true_eq] at rightAdded
        exact rightAdded.2 (same ▸ leftAdded)
      · intro item member
        exact new pack rfl _ (DocPaths.mem_scanItems member).1
      · intro item member
        have located : ∃ path info, (((visited.unseen scanned).keys.foldl (fun marked path =>
            ({ marked with path2info := marked.path2info.modify path fun info =>
              { info with deleted := true } } : DocPaths)) visited).path2info.find? path) = some info ∧
              info.id = item.id := by
          rcases List.mem_append.mp member with isAdded | isUpdated
          · exact (DocPaths.mem_scanItems isAdded).2
          · exact (DocPaths.mem_scanItems isUpdated).2
        obtain ⟨path, info, found, same⟩ := located
        exact same ▸ flagged.id_lt found

namespace Database

theorem findByPath_spec {db : Database} {path : Path} {record : DocumentRecord}
    (found : db.findByPath path = some record) :
    db.docs.find? record.id =
        some ⟨path, record.metadata.mtimeTicks, record.metadata.size, record.deleted⟩ ∧
      record.path = path := by
  unfold findByPath at found
  obtain ⟨entry, located, rfl⟩ := Option.map_eq_some_iff.mp found
  have samePath : entry.2.path = path := by simpa using List.find?_some located
  have member : (entry.1, entry.2) ∈ db.docs.entries := List.mem_of_find?_eq_some located
  refine ⟨?_, samePath⟩
  rw [SortedMap.mem_entries_iff.mp member, ← samePath]

/-- A stored path is found. -/
theorem isSome_findByPath {db : Database} {fileId : FileId} {row : DocRow}
    (found : db.docs.find? fileId = some row) : (db.findByPath row.path).isSome := by
  rw [findByPath, Option.isSome_map, List.find?_isSome]
  exact ⟨(fileId, row), SortedMap.mem_entries_iff.mpr found, by simp⟩

end Database

/-- The entries rebuilt from the rows lead back to their paths. -/
theorem DocPaths.wellFormed_rebuildFromRows (db : Database) : (rebuildFromRows db).WellFormed := by
  intro path info found
  let entryOf : FileId × DocRow → Path × FileInfo := fun entry =>
    (entry.2.path, ⟨⟨entry.2.mtimeTicks, entry.2.size⟩, entry.1, entry.2.deleted⟩)
  have folded : (rebuildFromRows db).path2info =
      (db.docs.entries.map entryOf).foldl (fun entries entry => entries.emplace entry.1 entry.2) ∅ := by
    rw [List.foldl_map]
    rfl
  rw [folded, SortedMap.find?_foldl_emplace, SortedMap.find?_empty, Option.none_or] at found
  obtain ⟨⟨id, row⟩, member, same⟩ := List.mem_map.mp (SortedMap.mem_of_findEntry_eq_some found)
  obtain ⟨rfl, rfl⟩ := Prod.mk.inj same
  have stored := SortedMap.mem_entries_iff.mp member
  have small : id < db.nextDocId := SortedMap.lt_nextKey_of_find? stored
  simp [rebuildFromRows, List.getElem?_range small, stored]

namespace SQLiteCatalog

theorem scanPaths_spec {db : Database} {stat : Stat} {listed : List (Path × Nat)} {nextId : FileId}
    {diff : CatalogDiff} (bounded : ∀ fileId row, db.docs.find? fileId = some row → fileId < nextId)
    (distinct : (listed.map Prod.fst).Nodup) (done : scanPaths db stat listed nextId = some diff) :
    FreshDiff nextId (nextId + diff.added.length) diff ∧
      ∀ item ∈ diff.updated, ∃ path ∈ listed.map Prod.fst, ∃ record,
        db.findByPath path = some record ∧ record.id = item.id := by
  induction listed generalizing nextId diff with
  | nil =>
      obtain rfl := Option.some.inj done
      exact ⟨⟨by simp, by simp, by simp⟩, by simp⟩
  | cons entry rest ih =>
      obtain ⟨path, index⟩ := entry
      obtain ⟨fresh, restDistinct⟩ := List.nodup_cons.mp distinct
      simp only [scanPaths, Option.bind_eq_bind] at done
      obtain ⟨metadata, _, done⟩ := Option.bind_eq_some_iff.mp done
      cases found : db.findByPath path with
      | none =>
          simp only [found] at done
          obtain ⟨tail, tailDone, built⟩ := Option.bind_eq_some_iff.mp done
          obtain rfl := Option.some.inj built
          have tailBounded : ∀ fileId row, db.docs.find? fileId = some row → fileId < nextId + 1 :=
            fun fileId row present => (bounded fileId row present).trans (Nat.lt_succ_self _)
          obtain ⟨spec, located⟩ := ih tailBounded restDistinct tailDone
          refine ⟨⟨?_, ?_, ?_⟩, ?_⟩
          · simp only [List.cons_append, List.map_cons, List.nodup_cons]
            refine ⟨?_, spec.distinct⟩
            intro member
            obtain ⟨item, itemListed, same⟩ := List.mem_map.mp member
            rcases List.mem_append.mp itemListed with isAdded | isUpdated
            · have large := spec.added item isAdded
              rw [same] at large
              exact absurd large (by simp)
            · obtain ⟨_, _, record, recordFound, sameId⟩ := located item isUpdated
              have small := bounded _ _ (Database.findByPath_spec recordFound).1
              rw [sameId, same] at small
              exact lt_irrefl _ small
          · intro item member
            rcases List.mem_cons.mp member with rfl | later
            · exact le_rfl
            · exact (Nat.le_succ nextId).trans (spec.added item later)
          · intro item member
            simp only [List.cons_append, List.length_cons] at member ⊢
            rcases List.mem_cons.mp member with rfl | later
            · simp
            · have small := spec.below item later
              rwa [Nat.add_right_comm, Nat.add_assoc] at small
          · intro item member
            obtain ⟨other, otherListed, rest'⟩ := located item member
            exact ⟨other, List.mem_cons_of_mem _ otherListed, rest'⟩
      | some record =>
          simp only [found] at done
          obtain ⟨tail, tailDone, built⟩ := Option.bind_eq_some_iff.mp done
          obtain ⟨spec, located⟩ := ih bounded restDistinct tailDone
          have extend : ∀ item ∈ tail.updated, ∃ other ∈ ((path, index) :: rest).map Prod.fst,
              ∃ stored, db.findByPath other = some stored ∧ stored.id = item.id := by
            intro item member
            obtain ⟨other, otherListed, rest'⟩ := located item member
            exact ⟨other, List.mem_cons_of_mem _ otherListed, rest'⟩
          split at built
          · obtain rfl := Option.some.inj built
            have recordBound : record.id < nextId := bounded _ _ (Database.findByPath_spec found).1
            refine ⟨⟨?_, spec.added, ?_⟩, ?_⟩
            · have permuted : ((tail.added ++ (⟨record.id, index, metadata⟩ : CatalogScanItem) ::
                  tail.updated).map CatalogScanItem.id).Perm
                  (record.id :: (tail.added ++ tail.updated).map CatalogScanItem.id) := by
                simp
              rw [permuted.nodup_iff, List.nodup_cons]
              refine ⟨?_, spec.distinct⟩
              intro member
              obtain ⟨item, itemListed, same⟩ := List.mem_map.mp member
              rcases List.mem_append.mp itemListed with isAdded | isUpdated
              · exact absurd (same ▸ spec.added item isAdded) (not_le.mpr recordBound)
              · obtain ⟨other, otherListed, stored, storedFound, sameId⟩ := located item isUpdated
                have leftRow := (Database.findByPath_spec found).1
                have rightRow := (Database.findByPath_spec storedFound).1
                rw [sameId, same, leftRow] at rightRow
                have samePath : path = other := congrArg DocRow.path (Option.some.inj rightRow)
                exact fresh (samePath ▸ otherListed)
            · intro item member
              rcases List.mem_append.mp member with isAdded | isUpdated
              · exact spec.below item (List.mem_append_left _ isAdded)
              · rcases List.mem_cons.mp isUpdated with rfl | later
                · exact recordBound.trans_le (Nat.le_add_right _ _)
                · exact spec.below item (List.mem_append_right _ later)
            · intro item member
              rcases List.mem_cons.mp member with rfl | later
              · exact ⟨path, by simp, record, found, rfl⟩
              · exact extend item later
          · obtain rfl := Option.some.inj built
            exact ⟨spec, extend⟩

end SQLiteCatalog

namespace DocumentCatalog

/-- Every number the catalog can return is below the next free one. -/
def NumbersBelow (catalog : DocumentCatalog) (db : Database) : Prop :=
  match catalog with
  | memory paths => paths.WellFormed
  | sqlite state =>
      (∀ path record, state.pending.find? path = some record → record.id < state.nextId) ∧
        ∀ fileId row, db.docs.find? fileId = some row → fileId < state.nextId

variable {catalog : DocumentCatalog} {db : Database}

theorem NumbersBelow.upsert (below : catalog.NumbersBelow db) (path : Path)
    (metadata : DocumentMetadata) :
    (catalog.upsert db path metadata).1.NumbersBelow db ∧
      (catalog.upsert db path metadata).2.1 < (catalog.upsert db path metadata).1.nextId ∧
      catalog.nextId ≤ (catalog.upsert db path metadata).1.nextId := by
  cases catalog with
  | memory paths => exact DocPaths.WellFormed.upsert below path metadata
  | sqlite state =>
      obtain ⟨pendingBelow, docsBelow⟩ := below
      have pendingInsert : ∀ (record : DocumentRecord) (bound : FileId), record.id < bound →
          state.nextId ≤ bound → ∀ other stored,
            (state.pending.insert path record).find? other = some stored → stored.id < bound := by
        intro record bound small above other stored found
        rw [SortedMap.find?_insert] at found
        split at found
        · exact Option.some.inj found ▸ small
        · exact (pendingBelow other stored found).trans_le above
      simp only [DocumentCatalog.upsert, SQLiteCatalog.upsert]
      cases pendingFound : state.pending.find? path with
      | some record =>
          have small := pendingBelow path record pendingFound
          exact ⟨⟨pendingInsert { record with metadata := metadata, deleted := false } _ small le_rfl,
            docsBelow⟩, small, le_rfl⟩
      | none =>
          cases found : db.findByPath path with
          | some record =>
              have small : record.id < state.nextId := docsBelow _ _ (Database.findByPath_spec found).1
              dsimp only
              split
              · exact ⟨⟨pendingInsert { record with metadata := metadata, deleted := false } _ small
                  le_rfl, docsBelow⟩, small, le_rfl⟩
              · exact ⟨⟨pendingBelow, docsBelow⟩, small, le_rfl⟩
          | none =>
              refine ⟨⟨pendingInsert ⟨state.nextId, path, metadata, false⟩ _ (Nat.lt_succ_self _)
                (Nat.le_succ _), ?_⟩, Nat.lt_succ_self _, Nat.le_succ _⟩
              exact fun fileId row present => (docsBelow fileId row present).trans (Nat.lt_succ_self _)

theorem NumbersBelow.scan (below : catalog.NumbersBelow db) (stat : Stat) {scanned : List Path}
    (distinct : scanned.Nodup) :
    (catalog.scan db stat scanned).1.NumbersBelow db ∧
      catalog.nextId ≤ (catalog.scan db stat scanned).1.nextId ∧
      ∀ diff, (catalog.scan db stat scanned).2 = some diff →
        FreshDiff catalog.nextId (catalog.scan db stat scanned).1.nextId diff := by
  cases catalog with
  | memory paths => exact DocPaths.WellFormed.scan below stat distinct
  | sqlite state =>
      obtain ⟨pendingBelow, docsBelow⟩ := below
      simp only [DocumentCatalog.scan, SQLiteCatalog.scan, if_pos distinct]
      cases listed : SQLiteCatalog.scanPaths db stat scanned.zipIdx state.nextId with
      | none => exact ⟨⟨pendingBelow, docsBelow⟩, le_rfl, fun _ done => by cases done⟩
      | some diff =>
          have above : state.nextId ≤ state.nextId + diff.added.length := Nat.le_add_right _ _
          refine ⟨⟨fun path record found => (pendingBelow path record found).trans_le above,
            fun fileId row found => (docsBelow fileId row found).trans_le above⟩, above, ?_⟩
          intro final done
          obtain rfl := Option.some.inj done
          have spec := (SQLiteCatalog.scanPaths_spec docsBelow (by rwa [List.zipIdx_map_fst]) listed).1
          exact ⟨spec.distinct, spec.added, spec.below⟩

theorem NumbersBelow.markRemoved (below : catalog.NumbersBelow db) (id : FileId) :
    (catalog.markRemoved id).NumbersBelow db := by
  cases catalog with
  | memory paths => exact DocPaths.WellFormed.markRemoved below id
  | sqlite state => exact below

@[simp] theorem nextId_markRemoved (catalog : DocumentCatalog) (id : FileId) :
    (catalog.markRemoved id).nextId = catalog.nextId := by
  cases catalog with
  | memory paths => exact DocPaths.nextId_markRemoved id
  | sqlite state => rfl

theorem NumbersBelow.foldl_markRemoved (below : catalog.NumbersBelow db) (ids : List FileId) :
    (ids.foldl DocumentCatalog.markRemoved catalog).NumbersBelow db ∧
      (ids.foldl DocumentCatalog.markRemoved catalog).nextId = catalog.nextId := by
  induction ids generalizing catalog with
  | nil => exact ⟨below, rfl⟩
  | cons id rest ih =>
      obtain ⟨restBelow, restNext⟩ := ih (below.markRemoved id)
      exact ⟨restBelow, restNext.trans (nextId_markRemoved catalog id)⟩

theorem NumbersBelow.notePersisted (below : catalog.NumbersBelow db) (path : Path) (id : FileId) :
    (catalog.notePersisted path id).NumbersBelow db := by
  cases catalog with
  | memory paths => exact below
  | sqlite state =>
      obtain ⟨pendingBelow, docsBelow⟩ := below
      simp only [DocumentCatalog.notePersisted, SQLiteCatalog.notePersisted]
      cases state.pending.find? path with
      | none => exact ⟨pendingBelow, docsBelow⟩
      | some record =>
          dsimp only
          split
          · refine ⟨fun other stored found => ?_, docsBelow⟩
            rw [SortedMap.find?_erase] at found
            split at found
            · cases found
            · exact pendingBelow other stored found
          · exact ⟨pendingBelow, docsBelow⟩

@[simp] theorem nextId_notePersisted (catalog : DocumentCatalog) (path : Path) (id : FileId) :
    (catalog.notePersisted path id).nextId = catalog.nextId := by
  cases catalog with
  | memory paths => rfl
  | sqlite state =>
      simp only [DocumentCatalog.notePersisted, SQLiteCatalog.notePersisted]
      cases state.pending.find? path with
      | none => rfl
      | some record =>
          dsimp only
          split <;> rfl

end DocumentCatalog

end SearchEngine.Index
