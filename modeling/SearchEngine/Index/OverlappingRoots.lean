import SearchEngine.Index.DocPathsHistory

/-!
# Files listed below two roots

The scanner lists a file once for every index root it is found below. The catalog in
memory then reports the document as often as it is listed, unless nothing changed; the
SQLite catalog refuses the whole scan.
-/

namespace SearchEngine.Index

open SearchEngine.Lib
open SearchEngine.Files (RootScan ScanRules scanDirectory scanDirectories)

/-- What a partial function picks is distinct when nothing it picks is listed twice. -/
theorem nodup_filterMap_iff {Item : Type*} {Value : Type*} [BEq Item] [LawfulBEq Item] {pick : Item → Option Value}
    (injective : ∀ left right value, pick left = some value → pick right = some value → left = right)
    {listed : List Item} :
    (listed.filterMap pick).Nodup ↔ ∀ item, (pick item).isSome → listed.count item ≤ 1 := by
  induction listed with
  | nil => simp
  | cons first rest ih =>
      cases picked : pick first with
      | none =>
          rw [List.filterMap_cons_none picked, ih]
          apply forall_congr'
          intro item
          apply imp_congr_right
          intro selected
          have different : first ≠ item := by
            rintro rfl
            rw [picked] at selected
            cases selected
          rw [List.count_cons_of_ne different]
      | some value =>
          have absent : value ∉ rest.filterMap pick ↔ first ∉ rest := by
            rw [not_iff_not, List.mem_filterMap]
            constructor
            · rintro ⟨other, member, same⟩
              rwa [injective first other value picked same]
            · exact fun member => ⟨first, member, picked⟩
          rw [List.filterMap_cons_some picked, List.nodup_cons, absent, ih]
          constructor
          · rintro ⟨fresh, others⟩ item selected
            by_cases same : first = item
            · subst same
              rw [List.count_cons_self, List.count_eq_zero.mpr fresh]
            · rw [List.count_cons_of_ne same]
              exact others item selected
          · intro once
            have single := once first (by rw [picked]; rfl)
            rw [List.count_cons_self] at single
            refine ⟨List.count_eq_zero.mp (by omega), fun item selected => ?_⟩
            exact (List.count_le_count_cons).trans (once item selected)

/-! ## The catalog in memory -/

namespace DocPaths

variable {paths after : DocPaths} {stat : Stat} {scanned : List Path} {pack : UpdatePack}

/-- The path is known, not flagged as deleted, and its file is as it was. -/
def Unchanged (paths : DocPaths) (stat : Stat) (path : Path) : Prop :=
  ∃ info, paths.path2info.find? path = some info ∧ info.deleted = false ∧ stat path = some info.metadata

theorem unchanged_iff {path : Path} :
    paths.Unchanged stat path ↔ paths.path2info.find? path ≠ none ∧ ¬ paths.Changed stat path := by
  unfold Unchanged Changed
  cases paths.path2info.find? path with
  | none => simp
  | some info => simp

/-- The number of a path, when it is among the numbers. -/
def numberAmong (paths : DocPaths) (ids : List FileId) (path : Path) : Option FileId :=
  (paths.path2info.find? path).bind fun info => if info.id ∈ ids then some info.id else none

theorem numberAmong_eq_some_iff {ids : List FileId} {path : Path} {id : FileId} :
    paths.numberAmong ids path = some id ↔ paths.Numbered id path ∧ id ∈ ids := by
  unfold numberAmong Numbered
  cases paths.path2info.find? path with
  | none => simp
  | some info =>
      simp only [Option.bind_some, Option.ite_none_right_eq_some, Option.some.injEq]
      constructor
      · rintro ⟨member, rfl⟩
        exact ⟨⟨info, rfl, rfl⟩, member⟩
      · rintro ⟨⟨stored, rfl, rfl⟩, member⟩
        exact ⟨member, rfl⟩

theorem map_id_scanItems (paths : DocPaths) (scanned : List Path) (ids : List FileId) :
    (paths.scanItems scanned ids).map CatalogScanItem.id = scanned.filterMap (paths.numberAmong ids) := by
  conv_rhs => rw [← List.zipIdx_map_fst 0 scanned, List.filterMap_map]
  unfold scanItems
  rw [List.map_filterMap]
  congr 1
  funext entry
  simp only [Function.comp_apply, numberAmong]
  cases paths.path2info.find? entry.1 with
  | none => rfl
  | some info =>
      simp only [Option.bind_some]
      split <;> rfl

/-- The reported numbers are distinct when no listed number among them is listed twice. -/
theorem WellFormed.nodup_scanItems_iff (wellFormed : paths.WellFormed) (ids : List FileId) :
    ((paths.scanItems scanned ids).map CatalogScanItem.id).Nodup ↔
      ∀ id path, paths.Numbered id path → id ∈ ids → scanned.count path ≤ 1 := by
  rw [map_id_scanItems, nodup_filterMap_iff]
  · constructor
    · intro once id path has member
      apply once path
      rw [numberAmong_eq_some_iff.mpr ⟨has, member⟩]
      rfl
    · intro once path selected
      obtain ⟨id, picked⟩ := Option.isSome_iff_exists.mp selected
      obtain ⟨has, member⟩ := numberAmong_eq_some_iff.mp picked
      exact once id path has member
  · intro left right id leftPicked rightPicked
    exact wellFormed.path_unique (numberAmong_eq_some_iff.mp leftPicked).1
      (numberAmong_eq_some_iff.mp rightPicked).1

/-- After an update the numbers of a listed path that it reports. -/
theorem UpdateExact.reported_iff (exact : UpdateExact paths after stat scanned pack)
    (afterWellFormed : after.WellFormed) {path : Path} (listed : path ∈ scanned) {id : FileId}
    (has : after.Numbered id path) :
    (id ∈ pack.added ↔ paths.path2info.find? path = none) ∧
      (id ∈ pack.updated ↔ paths.Changed stat path) := by
  rw [exact.added id, exact.updated id]
  constructor
  · constructor
    · rintro ⟨other, -, new, also⟩
      rwa [afterWellFormed.path_unique has also]
    · exact fun new => ⟨path, listed, new, has⟩
  · constructor
    · rintro ⟨other, -, also, changed⟩
      rwa [afterWellFormed.path_unique has (exact.kept id other also)]
    · intro changed
      obtain ⟨info, found, stale⟩ := changed
      have same : info.id = id := (exact.kept info.id path ⟨info, found, rfl⟩).unique has
      exact ⟨path, listed, ⟨info, found, same⟩, info, found, stale⟩

/-- A scan that does not throw reports every document once exactly when no new or changed
path is listed twice. -/
theorem WellFormed.nodup_reported_iff (wellFormed : paths.WellFormed) {diff : CatalogDiff}
    (done : (paths.scan stat scanned).2 = some diff) :
    ((diff.added ++ diff.updated).map CatalogScanItem.id).Nodup ↔
      ∀ path, scanned.count path ≤ 1 ∨ paths.Unchanged stat path := by
  unfold DocPaths.scan at done
  rcases updatedEq : paths.getUpdate stat scanned with ⟨after, result⟩
  rw [updatedEq] at done
  cases result with
  | none => cases done
  | some pack =>
      obtain rfl := Option.some.inj done
      have exact := updateExact_getUpdate wellFormed updatedEq
      have afterWellFormed := wellFormed.getUpdate updatedEq
      have apart : ∀ id ∈ pack.updated.filter (fun id => decide (id ∉ pack.added)), id ∉ pack.added := by
        intro id member
        exact of_decide_eq_true (List.mem_filter.mp member).2
      rw [List.map_append, List.nodup_append, afterWellFormed.nodup_scanItems_iff,
        afterWellFormed.nodup_scanItems_iff]
      constructor
      · rintro ⟨addedOnce, updatedOnce, -⟩ path
        by_cases listed : path ∈ scanned
        · obtain ⟨info, found, -, -⟩ := exact.listed path listed
          obtain ⟨isAdded, isUpdated⟩ := exact.reported_iff afterWellFormed listed ⟨info, found, rfl⟩
          by_cases unchanged : paths.Unchanged stat path
          · exact .inr unchanged
          · rw [unchanged_iff, not_and_or, not_not, not_not] at unchanged
            by_cases new : info.id ∈ pack.added
            · exact .inl (addedOnce info.id path ⟨info, found, rfl⟩ new)
            · have changed := unchanged.resolve_left fun absent => new (isAdded.mpr absent)
              refine .inl (updatedOnce info.id path ⟨info, found, rfl⟩ (List.mem_filter.mpr ?_))
              exact ⟨isUpdated.mpr changed, decide_eq_true new⟩
        · rw [List.count_eq_zero.mpr listed]
          exact .inl (Nat.zero_le 1)
      · intro once
        have single : ∀ id path, after.Numbered id path → (id ∈ pack.added ∨ id ∈ pack.updated) →
            scanned.count path ≤ 1 := by
          intro id path has reported
          by_cases listed : path ∈ scanned
          · obtain ⟨isAdded, isUpdated⟩ := exact.reported_iff afterWellFormed listed has
            refine (once path).resolve_right fun unchanged => ?_
            obtain ⟨known, same⟩ := unchanged_iff.mp unchanged
            exact reported.elim (fun new => known (isAdded.mp new)) fun changed => same (isUpdated.mp changed)
          · rw [List.count_eq_zero.mpr listed]
            exact Nat.zero_le 1
        refine ⟨fun id path has new => single id path has (.inl new), fun id path has member =>
          single id path has (.inr (List.mem_of_mem_filter member)), ?_⟩
        intro left leftMember right rightMember same
        obtain ⟨leftItem, leftListed, rfl⟩ := List.mem_map.mp leftMember
        obtain ⟨rightItem, rightListed, rfl⟩ := List.mem_map.mp rightMember
        exact apart rightItem.id (mem_scanItems rightListed).1 (same ▸ (mem_scanItems leftListed).1)

end DocPaths

/-! ## Scans of the roots -/

/-- How often the roots list the path. -/
def timesListed (rules : ScanRules) (scans : List RootScan) (path : Path) : Nat :=
  (scans.map fun scan => (scanDirectory rules scan).count path).sum

theorem count_scanDirectories (rules : ScanRules) (scans : List RootScan) (path : Path) :
    (scanDirectories rules scans).count path = timesListed rules scans path := by
  unfold scanDirectories timesListed
  rw [List.count_flatMap]
  rfl

/-- Listing the path again does no harm: the catalog in memory has the document, and
its file is as it was. -/
def DocumentCatalog.Unchanged (catalog : DocumentCatalog) (stat : Stat) (path : Path) : Prop :=
  match catalog with
  | .memory paths => paths.Unchanged stat path
  | .sqlite _ => False

namespace System

variable {s : System} {stat : Stat} {listed : List Path}

/-- The scan does not throw, and reports every number at most once. -/
def IndexedOnce (s : System) (stat : Stat) (listed : List Path) : Prop :=
  ∃ diff, (s.catalog.scan s.db stat listed).2 = some diff ∧
    ((diff.added ++ diff.updated).map CatalogScanItem.id).Nodup

theorem indexedOnce_of_numbers (numbers : s.catalog.NumbersBelow s.db) :
    s.IndexedOnce stat listed ↔ (∀ path ∈ listed, stat path ≠ none) ∧
      ∀ path, listed.count path ≤ 1 ∨ s.catalog.Unchanged stat path := by
  have refused := @scanRefused_iff s stat listed
  unfold IndexedOnce
  cases before : s.catalog with
  | memory paths =>
      have wellFormed : paths.WellFormed := by
        rw [before] at numbers
        exact numbers
      have readable : (∀ path ∈ listed, stat path ≠ none) ↔
          ((DocumentCatalog.memory paths).scan s.db stat listed).2 ≠ none := by
        rw [ScanRefused, before] at refused
        rw [Ne, ← refused]
        simp
      rw [readable]
      constructor
      · rintro ⟨diff, scanned, once⟩
        exact ⟨by simp [scanned], (wellFormed.nodup_reported_iff scanned).mp once⟩
      · rintro ⟨scans, once⟩
        obtain ⟨diff, scanned⟩ := Option.ne_none_iff_exists'.mp scans
        exact ⟨diff, scanned, (wellFormed.nodup_reported_iff scanned).mpr once⟩
  | sqlite state =>
      have readable : ((∀ path ∈ listed, stat path ≠ none) ∧ listed.Nodup) ↔
          ((DocumentCatalog.sqlite state).scan s.db stat listed).2 ≠ none := by
        rw [ScanRefused, before] at refused
        rw [Ne, ← refused, not_or, not_not]
        simp
      have distinct : (∀ path, listed.count path ≤ 1 ∨ (DocumentCatalog.sqlite state).Unchanged stat path) ↔
          listed.Nodup := by
        rw [List.nodup_iff_count_le_one]
        exact forall_congr' fun path => or_iff_left id
      rw [distinct, readable]
      constructor
      · rintro ⟨diff, scanned, -⟩
        simp [scanned]
      · intro scans
        obtain ⟨diff, scanned⟩ := Option.ne_none_iff_exists'.mp scans
        have below : (DocumentCatalog.sqlite state).NumbersBelow s.db := before ▸ numbers
        exact ⟨diff, scanned, ((below.scan stat (readable.mpr scans).2).2.2 diff scanned).distinct⟩

/-- In every reached state, the scan of the roots reports every document at most once and
without throwing exactly when every listed file can be read and no path is listed twice,
but for files that the catalog in memory finds unchanged. -/
theorem indexedOnce_iff (oem : OemTable) (actions : List Action) {storage : CatalogStorage} {db : Database}
    {precountPostings : Bool} {started : System} (pathIndex : db.PathsUnique)
    (opened : start storage db precountPostings = some started)
    (reached : (machine oem).run started actions = some s) (stat : Stat) (rules : ScanRules)
    (scans : List RootScan) :
    s.IndexedOnce stat (scanDirectories rules scans) ↔
      (∀ scan ∈ scans, ∀ path ∈ scanDirectory rules scan, stat path ≠ none) ∧
        ∀ path, timesListed rules scans path ≤ 1 ∨ s.catalog.Unchanged stat path := by
  obtain ⟨numbers, -⟩ := (numbered_start pathIndex opened).run reached
  rw [indexedOnce_of_numbers numbers]
  apply and_congr
  · unfold scanDirectories
    simp only [List.mem_flatMap]
    constructor
    · exact fun every scan member path listed => every path ⟨scan, member, listed⟩
    · rintro every path ⟨scan, member, listed⟩
      exact every scan member path listed
  · simp only [count_scanDirectories]

/-! ## A root given twice -/

/-- A root with the archived file and a new one. -/
def grownArchive : RootScan :=
  ⟨"S:\\archive".toList, some (.file "S:\\archive\\a.txt".toList true (some 20)
    (.file "S:\\archive\\b.txt".toList true (some 20) .ended))⟩

/-- Given once, the root is indexed once. -/
theorem indexedOnce_grownArchive :
    (archiveStart .sqlite).IndexedOnce unchanged (scanDirectories everyFile [grownArchive]) := by
  refine (indexedOnce_iff .plain [] pathsUnique_archived (opened_archiveStart .sqlite) rfl unchanged everyFile
    [grownArchive]).mpr ⟨fun _ _ _ _ => by simp [unchanged], fun path => .inl ?_⟩
  have distinct : (scanDirectories everyFile [grownArchive]).Nodup := by decide +kernel
  rw [← count_scanDirectories]
  exact List.nodup_iff_count_le_one.mp distinct path

/-- Given twice, its new file is reported twice by the catalog in memory, and the SQLite
catalog throws. -/
theorem not_indexedOnce_twice :
    ¬ (archiveStart .memory).IndexedOnce unchanged (scanDirectories everyFile [grownArchive, grownArchive]) ∧
      ¬ (archiveStart .sqlite).IndexedOnce unchanged
        (scanDirectories everyFile [grownArchive, grownArchive]) := by
  constructor
  · rintro ⟨diff, scanned, once⟩
    have reported : ((archiveStart .memory).catalog.scan (archiveStart .memory).db unchanged
        (scanDirectories everyFile [grownArchive, grownArchive])).2.map
          (fun diff => (diff.added ++ diff.updated).map CatalogScanItem.id) = some [1, 1] := by
      decide +kernel
    rw [scanned, Option.map_some, Option.some.injEq] at reported
    rw [reported] at once
    exact absurd once (by decide)
  · rintro ⟨diff, scanned, -⟩
    have thrown : ((archiveStart .sqlite).catalog.scan (archiveStart .sqlite).db unchanged
        (scanDirectories everyFile [grownArchive, grownArchive])).2 = none := by
      decide +kernel
    rw [scanned] at thrown
    cases thrown

end System

end SearchEngine.Index
