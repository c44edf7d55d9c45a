import SearchEngine.Index.DocumentCatalog

/-!
# What a scan of the SQLite catalog reports

A listed path without a committed row is added under the next free number, a path
whose row differs from the file system or is flagged as deleted is updated under
the number of its row, and every other listed path is left alone.
-/

namespace SearchEngine.Index

open SearchEngine.Lib

namespace SQLiteCatalog

/-- The listed path has no row. -/
def addedAt (db : Database) (stat : Stat) (entry : Path × Nat) : Option (Nat × DocumentMetadata) :=
  if (db.findByPath entry.1).isNone then (stat entry.1).map fun metadata => (entry.2, metadata)
  else none

/-- The listed path has a row that is out of date. -/
def updatedAt (db : Database) (stat : Stat) (entry : Path × Nat) : Option CatalogScanItem :=
  (db.findByPath entry.1).bind fun record => (stat entry.1).bind fun metadata =>
    if differs record metadata then some ⟨record.id, entry.2, metadata⟩ else none

/-- The outcome of the path loop. -/
structure Reported (db : Database) (stat : Stat) (listed : List (Path × Nat)) (nextId : FileId)
    (diff : CatalogDiff) : Prop where
  readable : ∀ entry ∈ listed, (stat entry.1).isSome
  added : diff.added.map (fun item => (item.pathIndex, item.metadata)) =
    listed.filterMap (addedAt db stat)
  numbers : diff.added.map CatalogScanItem.id = List.range' nextId diff.added.length
  updated : diff.updated = listed.filterMap (updatedAt db stat)
  removed : diff.removed = []

theorem reported_of_scanPaths {db : Database} {stat : Stat} {listed : List (Path × Nat)}
    {nextId : FileId} {diff : CatalogDiff} (done : scanPaths db stat listed nextId = some diff) :
    Reported db stat listed nextId diff := by
  induction listed generalizing nextId diff with
  | nil =>
      obtain rfl := Option.some.inj done
      exact ⟨by simp, rfl, rfl, rfl, rfl⟩
  | cons entry rest ih =>
      obtain ⟨path, index⟩ := entry
      simp only [scanPaths, Option.bind_eq_bind] at done
      obtain ⟨metadata, read, done⟩ := Option.bind_eq_some_iff.mp done
      cases found : db.findByPath path with
      | none =>
          simp only [found] at done
          obtain ⟨tail, tailDone, built⟩ := Option.bind_eq_some_iff.mp done
          obtain rfl := Option.some.inj built
          have spec := ih tailDone
          refine ⟨by simpa [read] using spec.readable, ?_, ?_, ?_, spec.removed⟩
          · simp [addedAt, found, read, spec.added]
          · rw [List.map_cons, spec.numbers, List.length_cons, List.range'_succ]
          · simp [updatedAt, found, spec.updated]
      | some record =>
          simp only [found] at done
          obtain ⟨tail, tailDone, built⟩ := Option.bind_eq_some_iff.mp done
          have spec := ih tailDone
          split at built
          · rename_i changed
            obtain rfl := Option.some.inj built
            refine ⟨by simpa [read] using spec.readable, ?_, spec.numbers, ?_, spec.removed⟩
            · simp [addedAt, found, spec.added]
            · simp [updatedAt, found, read, changed, spec.updated]
          · rename_i same
            obtain rfl := Option.some.inj built
            refine ⟨by simpa [read] using spec.readable, ?_, spec.numbers, ?_, spec.removed⟩
            · simp [addedAt, found, spec.added]
            · simp [updatedAt, found, read, same, spec.updated]

/-- A scan that throws leaves the catalog alone. -/
theorem scan_of_none {catalog : SQLiteCatalog} {db : Database} {stat : Stat} {scanned : List Path}
    (thrown : (catalog.scan db stat scanned).2 = none) :
    (catalog.scan db stat scanned).1 = catalog := by
  unfold scan at thrown ⊢
  split at thrown
  · rename_i distinct
    rw [if_pos distinct]
    split at thrown
    · rfl
    · cases thrown
  · rename_i repeated
    rw [if_neg repeated]

/-- What a scan reports, and the catalog after it. -/
theorem scan_of_some {catalog : SQLiteCatalog} {db : Database} {stat : Stat} {scanned : List Path}
    {diff : CatalogDiff} (reported : (catalog.scan db stat scanned).2 = some diff) :
    scanned.Nodup ∧ Reported db stat scanned.zipIdx catalog.nextId { diff with removed := [] } ∧
      diff.removed = (db.docs.entries.filter fun entry => !entry.2.deleted && decide
        (entry.1 ∉ diff.added.map CatalogScanItem.id ++ foundIds db scanned)).map Prod.fst ∧
      (catalog.scan db stat scanned).1 = { catalog with
        nextId := catalog.nextId + diff.added.length
        documentCount := catalog.documentCount + diff.added.length } := by
  unfold scan at reported ⊢
  split at reported
  · rename_i distinct
    rw [if_pos distinct]
    cases listed : scanPaths db stat scanned.zipIdx catalog.nextId with
    | none =>
        rw [listed] at reported
        cases reported
    | some found =>
        rw [listed] at reported
        obtain rfl := Option.some.inj reported
        have spec := reported_of_scanPaths listed
        exact ⟨distinct, ⟨spec.readable, spec.added, spec.numbers, spec.updated, rfl⟩, rfl, rfl⟩
  · cases reported

/-- A readable list is scanned. -/
theorem scanPaths_of_readable {db : Database} {stat : Stat} {listed : List (Path × Nat)}
    (readable : ∀ entry ∈ listed, (stat entry.1).isSome) (nextId : FileId) :
    ∃ diff, scanPaths db stat listed nextId = some diff := by
  induction listed generalizing nextId with
  | nil => exact ⟨_, rfl⟩
  | cons entry rest ih =>
      obtain ⟨path, index⟩ := entry
      obtain ⟨metadata, read⟩ := Option.isSome_iff_exists.mp (readable _ List.mem_cons_self)
      have restReadable : ∀ entry ∈ rest, (stat entry.1).isSome :=
        fun entry member => readable entry (List.mem_cons_of_mem _ member)
      simp only [scanPaths, Option.bind_eq_bind, read, Option.bind_some]
      cases db.findByPath path with
      | none =>
          obtain ⟨tail, tailDone⟩ := ih restReadable (nextId + 1)
          rw [tailDone]
          exact ⟨_, rfl⟩
      | some record =>
          obtain ⟨tail, tailDone⟩ := ih restReadable nextId
          rw [tailDone]
          exact ⟨_, rfl⟩

variable {db : Database} {stat : Stat} {scanned : List Path} {nextId : FileId} {diff : CatalogDiff}

/-- An added item is at a listed path without a row. -/
theorem Reported.of_added (spec : Reported db stat scanned.zipIdx nextId diff)
    {item : CatalogScanItem} (member : item ∈ diff.added) :
    ∃ path, scanned[item.pathIndex]? = some path ∧ db.findByPath path = none ∧
      stat path = some item.metadata := by
  have listed : (item.pathIndex, item.metadata) ∈ scanned.zipIdx.filterMap (addedAt db stat) := by
    rw [← spec.added]
    exact List.mem_map_of_mem member
  obtain ⟨⟨path, index⟩, entry, selected⟩ := List.mem_filterMap.mp listed
  rw [addedAt] at selected
  split at selected
  · rename_i fresh
    obtain ⟨metadata, read, same⟩ := Option.map_eq_some_iff.mp selected
    obtain ⟨rfl, rfl⟩ := Prod.mk.inj same
    exact ⟨path, List.mk_mem_zipIdx_iff_getElem?.mp entry, Option.isNone_iff_eq_none.mp fresh, read⟩
  · cases selected

/-- An updated item is at a listed path whose row is out of date. -/
theorem Reported.of_updated (spec : Reported db stat scanned.zipIdx nextId diff)
    {item : CatalogScanItem} (member : item ∈ diff.updated) :
    ∃ path record, scanned[item.pathIndex]? = some path ∧ db.findByPath path = some record ∧
      record.id = item.id ∧ stat path = some item.metadata ∧
      differs record item.metadata = true := by
  rw [spec.updated] at member
  obtain ⟨⟨path, index⟩, entry, selected⟩ := List.mem_filterMap.mp member
  obtain ⟨record, found, selected⟩ := Option.bind_eq_some_iff.mp selected
  obtain ⟨metadata, read, selected⟩ := Option.bind_eq_some_iff.mp selected
  split at selected
  · rename_i changed
    obtain rfl := Option.some.inj selected
    exact ⟨path, record, List.mk_mem_zipIdx_iff_getElem?.mp entry, found, rfl, read, changed⟩
  · cases selected

/-- Added items differ in number and in place. -/
theorem Reported.added_injective (spec : Reported db stat scanned.zipIdx nextId diff) :
    (diff.added.map CatalogScanItem.id).Nodup ∧ (diff.added.map CatalogScanItem.pathIndex).Nodup := by
  constructor
  · rw [spec.numbers]
    exact List.nodup_range'
  · have places : diff.added.map CatalogScanItem.pathIndex =
        (scanned.zipIdx.filterMap (addedAt db stat)).map Prod.fst := by
      rw [← spec.added, List.map_map]
      rfl
    have sublist : ((scanned.zipIdx.filterMap (addedAt db stat)).map Prod.fst).Sublist
        (scanned.zipIdx.map Prod.snd) := by
      generalize scanned.zipIdx = listed
      induction listed with
      | nil => exact List.Sublist.refl _
      | cons entry rest ih =>
          rw [List.filterMap_cons]
          cases selected : addedAt db stat entry with
          | none => exact ih.cons _
          | some place =>
              have here : place.1 = entry.2 := by
                rw [addedAt] at selected
                split at selected
                · obtain ⟨metadata, _, rfl⟩ := Option.map_eq_some_iff.mp selected
                  rfl
                · cases selected
              rw [List.map_cons, List.map_cons, here]
              exact ih.cons_cons _
    rw [places]
    refine sublist.nodup ?_
    rw [List.zipIdx_map_snd]
    exact List.nodup_range'

end SQLiteCatalog

end SearchEngine.Index
