import SearchEngine.Index.PartialScan
import SearchEngine.Index.UpdateRuns

/-!
# The update of a new index

The first scan of a list numbers the files by their places, whichever catalog is
used. Its update leaves an index that answers for those numbers with the counts of
the contents, reduced to 16 bits, and for no other.
-/

namespace SearchEngine.Index

open SearchEngine.Lib

/-! ## The numbers of a first scan -/

/-- A first scan adds every listed file under its place. -/
structure AddsInOrder (stat : Stat) (scanned : List Path) (diff : CatalogDiff) : Prop where
  updated : diff.updated = []
  added : ∀ (index : Nat) path, scanned[index]? = some path →
    ∃ metadata, stat path = some metadata ∧ ⟨index, index, metadata⟩ ∈ diff.added
  below : ∀ item ∈ diff.added, item.id < scanned.length

/-- Visits of new paths number them in order. -/
theorem DocPaths.visitPaths_new {stat : Stat} {scanned : List Path} {paths visited : DocPaths}
    {pack result : UpdatePack} (new : ∀ path ∈ scanned, paths.path2info.find? path = none)
    (distinct : scanned.Nodup)
    (done : visitPaths stat scanned paths pack = (visited, some result)) :
    result.updated = pack.updated ∧
      (∀ id, id ∈ pack.added ∨ paths.nextId ≤ id ∧ id < paths.nextId + scanned.length →
        id ∈ result.added) ∧
      ∀ (index : Nat) path, scanned[index]? = some path → ∃ metadata, stat path = some metadata ∧
        visited.path2info.find? path = some ⟨metadata, paths.nextId + index, false⟩ := by
  induction scanned generalizing paths pack with
  | nil =>
      obtain ⟨rfl, same⟩ := Prod.mk.inj done
      obtain rfl := Option.some.inj same
      refine ⟨rfl, fun id listed => listed.resolve_right ?_, fun index path here => ?_⟩
      · simp
      · simp at here
  | cons path rest ih =>
      obtain ⟨fresh, restDistinct⟩ := List.nodup_cons.mp distinct
      have missing := new path List.mem_cons_self
      unfold visitPaths at done
      cases read : stat path with
      | none =>
          rw [read] at done
          cases done
      | some metadata =>
          rw [read] at done
          have visit : paths.visitPath pack path metadata =
              (paths.addNew path metadata, { pack with added := pack.added ++ [paths.nextId] }) := by
            simp [visitPath, missing]
          dsimp only at done
          rw [visit] at done
          have next : (paths.addNew path metadata).nextId = paths.nextId + 1 := by
            simp [addNew, nextId]
          have restNew : ∀ other ∈ rest, (paths.addNew path metadata).path2info.find? other = none := by
            intro other member
            have different : path ≠ other := fun same => fresh (same ▸ member)
            rw [addNew, SortedMap.find?_insert, if_neg different]
            exact new other (List.mem_cons_of_mem _ member)
          obtain ⟨updated, added, found⟩ := ih restNew restDistinct done
          rw [next] at added found
          refine ⟨updated, fun id listed => added id ?_, fun index other here => ?_⟩
          · rw [List.length_cons] at listed
            rcases listed with old | ⟨lower, upper⟩
            · exact .inl (List.mem_append_left _ old)
            · by_cases first : id = paths.nextId
              · exact .inl (List.mem_append_right _ (by simp [first]))
              · refine .inr ⟨Nat.lt_of_le_of_ne lower (Ne.symm first), ?_⟩
                rwa [Nat.add_assoc, Nat.add_comm 1]
          · cases index with
            | zero =>
                obtain rfl := Option.some.inj here
                have kept := (visited_visitPaths stat rest (paths.addNew path metadata)
                  { pack with added := pack.added ++ [paths.nextId] }).unlisted path fresh
                rw [done] at kept
                exact ⟨metadata, read, kept.trans (by simp [addNew])⟩
            | succ index =>
                obtain ⟨otherMetadata, otherRead, stored⟩ := found index other here
                refine ⟨otherMetadata, otherRead, ?_⟩
                rw [stored, Nat.add_assoc, Nat.add_comm 1 index]

theorem DocPaths.addsInOrder_scan {stat : Stat} {scanned : List Path} {diff : CatalogDiff}
    (distinct : scanned.Nodup) (done : (DocPaths.empty.scan stat scanned).2 = some diff) :
    AddsInOrder stat scanned diff := by
  unfold scan getUpdate at done
  rcases visitedEq : visitPaths stat scanned empty ⟨[], [], []⟩ with ⟨visited, result⟩
  rw [visitedEq] at done
  cases result with
  | none => cases done
  | some pack =>
      obtain rfl := Option.some.inj done
      obtain ⟨updated, added, found⟩ := visitPaths_new (fun _ _ => rfl) distinct visitedEq
      have start : empty.nextId = 0 := rfl
      simp only [start, Nat.zero_add] at added found
      have active : ∀ path, path ∈ scanned → path ∉ (visited.unseen scanned).keys := by
        intro path member flagged
        obtain ⟨info, unseenInfo⟩ := SortedMap.mem_keys_iff.mp flagged
        rw [unseen, SortedMap.find?_filter, Option.filter_eq_some_iff] at unseenInfo
        simp [member] at unseenInfo
      constructor
      case updated => simp [updated, scanItems]
      case below =>
        intro item member
        obtain ⟨⟨path, index⟩, entry, listed⟩ := List.mem_filterMap.mp member
        have here : scanned[index]? = some path := List.mk_mem_zipIdx_iff_getElem?.mp entry
        obtain ⟨metadata, -, stored⟩ := found index path here
        have kept := (find?_flagged _ visited (active path (List.mem_of_getElem? here))).trans stored
        simp only [kept, Option.bind_some] at listed
        split at listed
        · rw [← Option.some.inj listed]
          exact (List.getElem?_eq_some_iff.mp here).1
        · cases listed
      case added =>
        intro index path here
        obtain ⟨metadata, read, stored⟩ := found index path here
        refine ⟨metadata, read, ?_⟩
        have member := List.mem_of_getElem? here
        have bound : index < scanned.length := (List.getElem?_eq_some_iff.mp here).1
        refine List.mem_filterMap.mpr ⟨(path, index), List.mk_mem_zipIdx_iff_getElem?.mpr here, ?_⟩
        have kept := (find?_flagged _ visited (active path member)).trans stored
        simp only [kept, Option.bind_some, if_pos (added index (.inr ⟨Nat.zero_le _, bound⟩))]

theorem SQLiteCatalog.addsInOrder_scan {stat : Stat} {scanned : List Path} {diff : CatalogDiff}
    (done : ((SQLiteCatalog.opened .empty).scan .empty stat scanned).2 = some diff) :
    AddsInOrder stat scanned diff := by
  obtain ⟨_, spec, _, _⟩ := scan_of_some done
  have missing : ∀ path, Database.empty.findByPath path = none := fun _ => rfl
  have numbers : diff.added.map CatalogScanItem.id = List.range' 0 diff.added.length := spec.numbers
  have added : diff.added.map (fun item => (item.pathIndex, item.metadata)) =
      scanned.zipIdx.filterMap (addedAt .empty stat) := spec.added
  have updated : diff.updated = scanned.zipIdx.filterMap (updatedAt .empty stat) := spec.updated
  have placed : scanned.zipIdx.filterMap (addedAt .empty stat) =
      scanned.zipIdx.map fun entry => (entry.2, (stat entry.1).getD ⟨0, 0⟩) := by
    rw [← List.filterMap_eq_map]
    apply List.filterMap_congr
    intro entry member
    obtain ⟨metadata, read⟩ := Option.isSome_iff_exists.mp (spec.readable entry member)
    simp [addedAt, missing, read]
  have length : diff.added.length = scanned.length := by
    have sizes := congrArg List.length (added.trans placed)
    simpa using sizes
  constructor
  case updated =>
    rw [updated]
    simp [updatedAt, missing]
  case below =>
    intro item member
    have number : item.id ∈ List.range' 0 diff.added.length := numbers ▸ List.mem_map_of_mem member
    rw [length] at number
    simpa using number
  case added =>
    intro index path here
    obtain ⟨metadata, read⟩ := Option.isSome_iff_exists.mp
      (spec.readable (path, index) (List.mk_mem_zipIdx_iff_getElem?.mpr here))
    refine ⟨metadata, read, ?_⟩
    have bound : index < scanned.length := (List.getElem?_eq_some_iff.mp here).1
    obtain ⟨item, stored⟩ : ∃ item, diff.added[index]? = some item :=
      ⟨_, List.getElem?_eq_getElem (length ▸ bound)⟩
    have number := congrArg (fun list => list[index]?) numbers
    have place := congrArg (fun list => list[index]?) (added.trans placed)
    simp only [List.getElem?_map, stored, Option.map_some, List.getElem?_zipIdx, here,
      List.getElem?_range' (length ▸ bound), read, Option.getD_some, Option.some.injEq,
      Prod.mk.injEq, Nat.zero_add, Nat.one_mul] at number place
    obtain ⟨id, pathIndex, itemMetadata⟩ := item
    obtain ⟨rfl, rfl⟩ := place
    obtain rfl : id = pathIndex := number
    exact List.mem_of_getElem? stored

/-! ## The answers -/

/-- The counts of an update are those of the file, reduced to 16 bits. -/
theorem indexedCounts_some (oem : OemTable) (content : List Byte) (word : Word) :
    indexedCounts oem (some content) word =
      if occurrences oem content word = 0 then none
      else some (wrapCount (occurrences oem content word)) := by
  have listed : SortedMap.findEntry word (batchList oem content) =
      ((frequencies oem content).find? word).map clampCount :=
    SortedMap.find?_mapValues (frequencies oem content) clampCount word
  rw [indexedCounts, Option.bind_some, InvertedIndex.batchCounts, listed, occurrences]
  cases found : (frequencies oem content).find? word with
  | none => rfl
  | some count =>
      have positive : 0 < count := pos_of_mem_frequencies (SortedMap.mem_entries_iff.mpr found)
      rw [Option.getD_some, if_neg positive.ne']
      rfl

namespace System

variable {oem : OemTable} {listed : List Path} {stat : Stat} {diff : CatalogDiff}

/-- A first scan of either catalog adds the list in order. -/
theorem addsInOrder_start {storage : CatalogStorage} {precountPostings : Bool} {opened : System}
    (started : start storage .empty precountPostings = some opened) (distinct : listed.Nodup)
    (scanned : (opened.catalog.scan opened.db stat listed).2 = some diff) :
    AddsInOrder stat listed diff := by
  obtain ⟨index, -, rfl⟩ := Option.map_eq_some_iff.mp started
  cases storage with
  | memory => exact DocPaths.addsInOrder_scan distinct scanned
  | sqlite => exact SQLiteCatalog.addsInOrder_scan scanned

/-- A new index answers nothing. -/
theorem answer_start {storage : CatalogStorage} {precountPostings : Bool} {opened : System}
    (started : start storage .empty precountPostings = some opened) (word : Word)
    (fileId : FileId) : opened.index.answer word fileId = none := by
  obtain ⟨index, loaded, rfl⟩ := Option.map_eq_some_iff.mp started
  by_cases token : word = []
  · subst token
    exact Database.answer_load_nil postingsResolve_empty loaded fileId
  · refine Option.eq_none_iff_forall_ne_some.mpr fun count found => ?_
    obtain ⟨wordId, first, -⟩ := (Database.answer_load loaded token fileId count).mp found
    cases first.1

/-- The answers of an update of a new index are the wrapped counts of the listed files, numbered
by their places. -/
theorem answers_of_first_update {storage : CatalogStorage} {precountPostings : Bool}
    {contents : Path → Option (List Byte)} {opened dispatched complete final : System}
    {schedule : List Action} {order : IterationOrder}
    (started : start storage .empty precountPostings = some opened) (distinct : listed.Nodup)
    (update : UpdateRun oem contents listed stat opened dispatched complete final schedule order)
    (scanned : (opened.catalog.scan opened.db stat listed).2 = some diff) (word : Word)
    (fileId : FileId) :
    final.index.answer word fileId =
      (listed[fileId]?).bind fun path => indexedCounts oem (contents path) word := by
  obtain ⟨indexed, others, -⟩ :=
    update.results (coherent_start postingsResolve_empty started) distinct scanned
  have inOrder := addsInOrder_start started distinct scanned
  cases here : listed[fileId]? with
  | some path =>
      obtain ⟨stated, -, member⟩ := inOrder.added fileId path here
      have task := (indexed (scanTask listed ⟨fileId, fileId, stated⟩)
        (List.mem_map_of_mem (List.mem_append_left _ member))).1 word
      have samePath : (scanTask listed ⟨fileId, fileId, stated⟩).path = path := by
        rw [scanTask, List.getD_eq_getElem?_getD, here, Option.getD_some]
      rw [samePath] at task
      exact task
  | none =>
      have unreported : fileId ∉ (updateTasks listed diff).map IndexingTask.fileId := by
        rw [map_fileId_updateTasks, inOrder.updated, List.append_nil]
        intro reported
        obtain ⟨item, member, rfl⟩ := List.mem_map.mp reported
        exact absurd (inOrder.below item member) (not_lt.mpr (List.getElem?_eq_none_iff.mp here))
      exact ((others fileId unreported).1 word).trans (answer_start started word fileId)

end System

end SearchEngine.Index
