import SearchEngine.Lib.Machine
import SearchEngine.Index.DocPathsRows

/-!
# Document numbers over the life of their tables

Programs over any number of `DocPaths` objects: updates, insertions, removals, copies,
moves and tables rebuilt from rows. While no table outgrows the 32-bit numbers, every
table leads from its numbers to its paths and back, and a pair is lost only with the
contents of its object.
-/

namespace SearchEngine.Index

open SearchEngine.Lib

/-- The entry flagged as deleted, everything else as it was. -/
def FileInfo.flagged (info : FileInfo) : FileInfo := { info with deleted := true }

namespace DocPaths

/-! ## What an update reports -/

/-- The path is known, and its entry is flagged as deleted or differs from the file. -/
def Changed (paths : DocPaths) (stat : Stat) (path : Path) : Prop :=
  ∃ info, paths.path2info.find? path = some info ∧ (info.deleted = true ∨ stat path ≠ some info.metadata)

/-- What the visits of listed paths make of the entries and report. -/
structure Reports (before visited : DocPaths) (stat : Stat) (scanned : List Path)
    (added updated : List FileId) : Prop where
  entry : ∀ path ∈ scanned, ∃ later, visited.path2info.find? path = some later ∧
    stat path = some later.metadata ∧ later.deleted = false ∧
      ∀ info, before.path2info.find? path = some info → later.id = info.id
  isAdded : ∀ id, id ∈ added ↔ ∃ path ∈ scanned, before.path2info.find? path = none ∧ visited.Numbered id path
  isUpdated : ∀ id, id ∈ updated ↔ ∃ path ∈ scanned, before.Numbered id path ∧ before.Changed stat path
  addedOnce : added.Nodup
  updatedOnce : updated.Nodup

variable {paths visited : DocPaths} {stat : Stat} {scanned : List Path} {path : Path}
  {metadata : DocumentMetadata}

/-- A visited path has an entry with what was read, under its number. -/
theorem visitPath_entry (pack : UpdatePack) (path : Path) (metadata : DocumentMetadata) :
    ∃ later, (paths.visitPath pack path metadata).1.path2info.find? path = some later ∧
      later.metadata = metadata ∧ later.deleted = false ∧
      ∀ info, paths.path2info.find? path = some info → later.id = info.id := by
  unfold visitPath
  cases found : paths.path2info.find? path with
  | none => exact ⟨⟨metadata, paths.nextId, false⟩, by simp [addNew], rfl, rfl, fun _ known => by cases known⟩
  | some info =>
      dsimp only
      split
      · refine ⟨⟨metadata, info.id, false⟩, by simp, rfl, rfl, fun other known => ?_⟩
        rw [← Option.some.inj known]
      · rename_i same
        simp only [Bool.or_eq_true, decide_eq_true_eq, not_or, Bool.not_eq_true, not_not] at same
        exact ⟨info, found, same.2, same.1, fun other known => congrArg FileInfo.id (Option.some.inj known)⟩

/-- Changing an entry under its number leaves the pairs alone. -/
theorem Bijective.replace (bijective : paths.Bijective) {info : FileInfo}
    (found : paths.path2info.find? path = some info) (metadata : DocumentMetadata) (deleted : Bool) :
    (⟨paths.path2info.insert path ⟨metadata, info.id, deleted⟩, paths.id2path⟩ : DocPaths).Bijective := by
  refine bijective.of_same_numbers ⟨paths.path2info.insert path ⟨metadata, info.id, deleted⟩, paths.id2path⟩
    rfl fun other => ?_
  rw [SortedMap.find?_insert]
  split
  · rename_i same
    rw [← same, found]
    rfl
  · rfl

theorem Bijective.visitPath (bijective : paths.Bijective) (pack : UpdatePack) (path : Path)
    (metadata : DocumentMetadata) : (paths.visitPath pack path metadata).1.Bijective := by
  unfold DocPaths.visitPath
  cases found : paths.path2info.find? path with
  | none => exact bijective.addNew metadata found
  | some info =>
      dsimp only
      split
      · exact bijective.replace found metadata false
      · exact bijective

theorem Bijective.visitPaths (bijective : paths.Bijective) (stat : Stat) (scanned : List Path)
    (pack : UpdatePack) : (DocPaths.visitPaths stat scanned paths pack).1.Bijective := by
  induction scanned generalizing paths pack with
  | nil => exact bijective
  | cons path rest ih =>
      unfold DocPaths.visitPaths
      cases stat path with
      | none => exact bijective
      | some metadata => exact ih (bijective.visitPath pack path metadata) _

theorem WellFormed.visitPaths_kept (wellFormed : paths.WellFormed) (stat : Stat) (scanned : List Path)
    (pack : UpdatePack) : (DocPaths.visitPaths stat scanned paths pack).1.WellFormed :=
  (WellFormed.visitPaths stat scanned wellFormed (Nat.zero_le _) fun id _ => Nat.zero_le id).1

/-- The visits after the first one say the same about the other paths. -/
theorem Reports.cons {middle : DocPaths} {rest : List Path} {added updated : List FileId}
    (reports : Reports middle visited stat rest added updated)
    (spec : Visited middle visited rest) (read : stat path = some metadata)
    (others : ∀ other, path ≠ other → middle.path2info.find? other = paths.path2info.find? other)
    {first : FileInfo} (entry : middle.path2info.find? path = some first)
    (fresh : first.metadata = metadata) (active : first.deleted = false)
    (kept : ∀ info, paths.path2info.find? path = some info → first.id = info.id) :
    (∀ other ∈ path :: rest, ∃ later, visited.path2info.find? other = some later ∧
      stat other = some later.metadata ∧ later.deleted = false ∧
        ∀ info, paths.path2info.find? other = some info → later.id = info.id) ∧
    (∀ id, id ∈ added ↔ ∃ other ∈ path :: rest, path ≠ other ∧ paths.path2info.find? other = none ∧
      visited.Numbered id other) ∧
    (∀ id, id ∈ updated ↔ ∃ other ∈ path :: rest, path ≠ other ∧ paths.Numbered id other ∧
      paths.Changed stat other) := by
  refine ⟨?_, fun id => ?_, fun id => ?_⟩
  · intro other member
    by_cases same : path = other
    · subst same
      obtain ⟨later, found, number, stillActive⟩ := spec.active path first entry active
      by_cases again : path ∈ rest
      · obtain ⟨last, lastFound, lastRead, lastActive, -⟩ := reports.entry path again
        rw [found] at lastFound
        obtain rfl := Option.some.inj lastFound
        exact ⟨later, found, lastRead, lastActive, fun info known => number.trans (kept info known)⟩
      · rw [spec.unlisted path again, entry] at found
        obtain rfl := Option.some.inj found
        refine ⟨first, (spec.unlisted path again).trans entry, ?_, active, kept⟩
        rw [read, fresh]
    · have later : other ∈ rest := (List.mem_cons.mp member).resolve_left (Ne.symm same)
      obtain ⟨last, found, lastRead, lastActive, number⟩ := reports.entry other later
      rw [others other same] at number
      exact ⟨last, found, lastRead, lastActive, number⟩
  · rw [reports.isAdded id]
    constructor
    · rintro ⟨other, member, new, number⟩
      have different : path ≠ other := by
        rintro rfl
        rw [entry] at new
        cases new
      exact ⟨other, List.mem_cons_of_mem _ member, different, (others other different).symm.trans new, number⟩
    · rintro ⟨other, member, different, new, number⟩
      exact ⟨other, (List.mem_cons.mp member).resolve_left (Ne.symm different),
        (others other different).trans new, number⟩
  · rw [reports.isUpdated id]
    constructor
    · rintro ⟨other, member, ⟨info, found, same⟩, stored, storedFound, stale⟩
      have different : path ≠ other := by
        rintro rfl
        rw [entry] at storedFound
        obtain rfl := Option.some.inj storedFound
        rcases stale with deleted | differs
        · rw [active] at deleted
          cases deleted
        · exact differs (read.trans (congrArg some fresh.symm))
      rw [others other different] at found storedFound
      exact ⟨other, List.mem_cons_of_mem _ member, different, ⟨info, found, same⟩, stored, storedFound, stale⟩
    · rintro ⟨other, member, different, ⟨info, found, same⟩, stored, storedFound, stale⟩
      rw [← others other different] at found storedFound
      exact ⟨other, (List.mem_cons.mp member).resolve_left (Ne.symm different), ⟨info, found, same⟩, stored,
        storedFound, stale⟩

/-- What one visit reports. -/
theorem visitPath_pack (pack : UpdatePack) (read : stat path = some metadata) :
    ∃ new changed, (paths.visitPath pack path metadata).2 =
        { pack with added := pack.added ++ new, updated := pack.updated ++ changed } ∧
      new.Nodup ∧ changed.Nodup ∧
      (∀ id, id ∈ new ↔ paths.path2info.find? path = none ∧
        (paths.visitPath pack path metadata).1.Numbered id path) ∧
      ∀ id, id ∈ changed ↔ paths.Numbered id path ∧ paths.Changed stat path := by
  unfold visitPath Numbered Changed
  cases found : paths.path2info.find? path with
  | none => exact ⟨[paths.nextId], [], by simp, by simp, by simp, by simp [addNew, eq_comm], by simp⟩
  | some info =>
      dsimp only
      by_cases stale : info.deleted || decide (info.metadata ≠ metadata)
      · have differs : info.deleted = true ∨ some metadata ≠ some info.metadata := by
          rw [Bool.or_eq_true, decide_eq_true_eq] at stale
          exact stale.imp_right fun different same => different (Option.some.inj same).symm
        rw [if_pos stale, read]
        refine ⟨[], [info.id], by simp, by simp, by simp, by simp, fun id => ?_⟩
        constructor
        · intro member
          exact ⟨⟨info, rfl, (List.mem_singleton.mp member).symm⟩, info, rfl, differs⟩
        · rintro ⟨⟨stored, same, number⟩, -⟩
          obtain rfl := Option.some.inj same
          exact List.mem_singleton.mpr number.symm
      · have agrees : ¬(info.deleted = true ∨ some metadata ≠ some info.metadata) := by
          rw [Bool.or_eq_true, decide_eq_true_eq] at stale
          exact fun differs => stale (differs.imp_right fun different same => different (same ▸ rfl))
        rw [if_neg stale, read]
        refine ⟨[], [], by simp, by simp, by simp, by simp, fun id => ?_⟩
        constructor
        · intro member
          cases member
        · rintro ⟨-, stored, same, differs⟩
          obtain rfl := Option.some.inj same
          exact absurd differs agrees

/-- What the first loop of an update makes of the entries and reports. -/
theorem reports_visitPaths (wellFormed : paths.WellFormed) (pack : UpdatePack) {result : UpdatePack}
    (done : (DocPaths.visitPaths stat scanned paths pack).2 = some result) :
    ∃ added updated, result = { pack with
        added := pack.added ++ added, updated := pack.updated ++ updated } ∧
      Reports paths (DocPaths.visitPaths stat scanned paths pack).1 stat scanned added updated := by
  induction scanned generalizing paths pack result with
  | nil =>
      obtain rfl := Option.some.inj done
      exact ⟨[], [], by simp, by constructor <;> simp⟩
  | cons path rest ih =>
      unfold DocPaths.visitPaths at done ⊢
      cases read : stat path with
      | none =>
          rw [read] at done
          cases done
      | some metadata =>
          rw [read] at done
          have middle : (paths.visitPath pack path metadata).1.WellFormed :=
            (wellFormed.visitPath pack path metadata).1
          have last := middle.visitPaths_kept stat rest (paths.visitPath pack path metadata).2
          obtain ⟨added, updated, rfl, reports⟩ := ih middle _ done
          obtain ⟨new, changed, packed, newOnce, changedOnce, isNew, isChanged⟩ :=
            @visitPath_pack paths stat path metadata pack read
          obtain ⟨first, entry, fresh, active, kept⟩ := @visitPath_entry paths pack path metadata
          have spec := visited_visitPaths stat rest (paths.visitPath pack path metadata).1
            (paths.visitPath pack path metadata).2
          obtain ⟨entries, addedIff, updatedIff⟩ := reports.cons spec read
            (fun other different => visitPath_find? pack path other metadata different) entry fresh active kept
          -- the visited path keeps the number of its visit
          have number : ∀ id, (paths.visitPath pack path metadata).1.Numbered id path ↔
              (DocPaths.visitPaths stat rest (paths.visitPath pack path metadata).1
                (paths.visitPath pack path metadata).2).1.Numbered id path := by
            obtain ⟨later, found, same, -⟩ := spec.active path first entry active
            intro id
            constructor
            · intro has
              exact ⟨later, found, same.trans (Numbered.unique ⟨first, entry, rfl⟩ has)⟩
            · intro has
              exact ⟨first, entry, same.symm.trans (Numbered.unique ⟨later, found, rfl⟩ has)⟩
          refine ⟨new ++ added, changed ++ updated, by simp [packed], entries, fun id => ?_, fun id => ?_, ?_, ?_⟩
          · rw [List.mem_append, isNew id, addedIff id, number id]
            constructor
            · rintro (⟨unknown, has⟩ | ⟨other, member, -, rest⟩)
              · exact ⟨path, List.mem_cons_self, unknown, has⟩
              · exact ⟨other, member, rest⟩
            · rintro ⟨other, member, rest⟩
              by_cases same : path = other
              · subst same
                exact .inl rest
              · exact .inr ⟨other, member, same, rest⟩
          · rw [List.mem_append, isChanged id, updatedIff id]
            constructor
            · rintro (here | ⟨other, member, -, rest⟩)
              · exact ⟨path, List.mem_cons_self, here⟩
              · exact ⟨other, member, rest⟩
            · rintro ⟨other, member, rest⟩
              by_cases same : path = other
              · subst same
                exact .inl rest
              · exact .inr ⟨other, member, same, rest⟩
          · apply newOnce.append reports.addedOnce
            intro id here later
            obtain ⟨other, -, different, -, has⟩ := (addedIff id).mp later
            exact different (last.path_unique ((number id).mp ((isNew id).mp here).2) has)
          · apply changedOnce.append reports.updatedOnce
            intro id here later
            obtain ⟨other, -, different, has, -⟩ := (updatedIff id).mp later
            exact different (wellFormed.path_unique ((isChanged id).mp here).1 has)

/-- Flagging some paths, once or more. -/
theorem find?_flagged_of_mem {keys : List Path} (member : path ∈ keys) (paths : DocPaths) :
    (keys.foldl (fun marked path =>
        ({ marked with path2info :=
            marked.path2info.modify path fun info => { info with deleted := true } } : DocPaths))
      paths).path2info.find? path = (paths.path2info.find? path).map FileInfo.flagged := by
  induction keys generalizing paths with
  | nil => cases member
  | cons key rest ih =>
      rw [List.foldl_cons]
      by_cases later : path ∈ rest
      · rw [ih later, SortedMap.find?_modify]
        split
        · rw [Option.map_map]
          rfl
        · rfl
      · obtain rfl := (List.mem_cons.mp member).resolve_right later
        rw [find?_flagged rest _ later, SortedMap.find?_modify, if_pos rfl]
        rfl

/-- The second loop flags the entries that were not listed. -/
theorem find?_flagUnseen (visited : DocPaths) (scanned : List Path) (path : Path) :
    (visited.flagUnseen scanned).path2info.find? path =
      if path ∈ scanned then visited.path2info.find? path
      else (visited.path2info.find? path).map FileInfo.flagged := by
  have selected : path ∈ (visited.unseen scanned).keys ↔
      ∃ info, visited.path2info.find? path = some info ∧ info.deleted = false ∧ path ∉ scanned := by
    rw [SortedMap.mem_keys_iff]
    apply exists_congr
    intro info
    rw [unseen, SortedMap.find?_filter, Option.filter_eq_some_iff]
    simp
  by_cases missing : path ∈ (visited.unseen scanned).keys
  · obtain ⟨-, -, -, unlisted⟩ := selected.mp missing
    rw [if_neg unlisted]
    exact find?_flagged_of_mem missing visited
  · have kept : (visited.flagUnseen scanned).path2info.find? path = visited.path2info.find? path :=
      find?_flagged _ visited missing
    rw [kept]
    split
    · rfl
    · rename_i unlisted
      cases found : visited.path2info.find? path with
      | none => rfl
      | some info =>
          have deleted : info.deleted = true := by
            by_contra active
            exact missing (selected.mpr ⟨info, found, Bool.eq_false_iff.mpr active, unlisted⟩)
          rw [Option.map_some, FileInfo.flagged, ← deleted]

theorem id_flagUnseen (visited : DocPaths) (scanned : List Path) (path : Path) :
    ((visited.flagUnseen scanned).path2info.find? path).map FileInfo.id =
      (visited.path2info.find? path).map FileInfo.id := by
  rw [find?_flagUnseen]
  split
  · rfl
  · rw [Option.map_map]
    rfl

/-- An update reports exactly the new paths, the paths that reappeared or changed, and
the known paths that are missing from the list, each once, and changes their entries
accordingly. -/
structure UpdateExact (before after : DocPaths) (stat : Stat) (scanned : List Path) (pack : UpdatePack) :
    Prop where
  added : ∀ id, id ∈ pack.added ↔
    ∃ path ∈ scanned, before.path2info.find? path = none ∧ after.Numbered id path
  updated : ∀ id, id ∈ pack.updated ↔ ∃ path ∈ scanned, before.Numbered id path ∧ before.Changed stat path
  removed : ∀ id, id ∈ pack.removed ↔ ∃ path info, path ∉ scanned ∧
    before.path2info.find? path = some info ∧ info.id = id ∧ info.deleted = false
  once : pack.added.Nodup ∧ pack.updated.Nodup ∧ pack.removed.Nodup
  listed : ∀ path ∈ scanned, ∃ info, after.path2info.find? path = some info ∧
    stat path = some info.metadata ∧ info.deleted = false
  unlisted : ∀ path, path ∉ scanned →
    after.path2info.find? path = (before.path2info.find? path).map FileInfo.flagged
  kept : ∀ id path, before.Numbered id path → after.Numbered id path

theorem updateExact_getUpdate (wellFormed : paths.WellFormed) {after : DocPaths} {pack : UpdatePack}
    (done : paths.getUpdate stat scanned = (after, some pack)) :
    UpdateExact paths after stat scanned pack := by
  have visitedWellFormed := wellFormed.visitPaths_kept stat scanned ⟨[], [], []⟩
  have spec := visited_visitPaths stat scanned paths ⟨[], [], []⟩
  have reported := fun result => @reports_visitPaths paths stat scanned wellFormed ⟨[], [], []⟩ result
  unfold getUpdate at done
  generalize DocPaths.visitPaths stat scanned paths ⟨[], [], []⟩ = visits at *
  obtain ⟨visited, outcome⟩ := visits
  cases outcome with
  | none => cases done
  | some result =>
      obtain ⟨flagged, rest⟩ := Prod.mk.inj done
      obtain rfl := Option.some.inj rest
      change visited.flagUnseen scanned = after at flagged
      subst flagged
      obtain ⟨added, updated, rfl, reports⟩ := reported result rfl
      have same := same_numbers (visited.flagUnseen scanned) (id_flagUnseen visited scanned)
      refine ⟨fun id => ?_, fun id => ?_, fun id => ?_, ⟨?_, ?_, ?_⟩, fun path member => ?_,
        fun path absent => ?_, fun id path has => ?_⟩
      · simp only [List.nil_append, same]
        exact reports.isAdded id
      · exact reports.isUpdated id
      · simp only [List.mem_map]
        constructor
        · rintro ⟨⟨path, info⟩, member, rfl⟩
          have found := SortedMap.mem_entries_iff.mp member
          rw [unseen, SortedMap.find?_filter, Option.filter_eq_some_iff] at found
          obtain ⟨found, kept⟩ := found
          simp only [Bool.and_eq_true, Bool.not_eq_true', decide_eq_true_eq] at kept
          exact ⟨path, info, kept.2, (spec.unlisted path kept.2).symm.trans found, rfl, kept.1⟩
        · rintro ⟨path, info, absent, found, rfl, active⟩
          have kept : (visited.unseen scanned).find? path = some info := by
            rw [unseen, SortedMap.find?_filter, Option.filter_eq_some_iff]
            exact ⟨(spec.unlisted path absent).trans found, by simp [active, absent]⟩
          exact ⟨(path, info), SortedMap.mem_entries_iff.mpr kept, rfl⟩
      · exact reports.addedOnce
      · exact reports.updatedOnce
      · have sublist : ((visited.unseen scanned).entries.map fun entry => entry.2.id).Sublist
            (visited.path2info.entries.map fun entry => entry.2.id) := by
          apply List.Sublist.map
          exact List.filter_sublist
        exact sublist.nodup visitedWellFormed.nodup_ids
      · obtain ⟨later, found, read, active, -⟩ := reports.entry path member
        refine ⟨later, ?_, read, active⟩
        rw [find?_flagUnseen, if_pos member, found]
      · rw [find?_flagUnseen, if_neg absent, spec.unlisted path absent]
      · rw [same id path]
        obtain ⟨info, found, rfl⟩ := has
        by_cases member : path ∈ scanned
        · obtain ⟨later, laterFound, -, -, number⟩ := reports.entry path member
          exact ⟨later, laterFound, number info found⟩
        · exact ⟨info, (spec.unlisted path member).trans found, rfl⟩

theorem WellFormed.getUpdate (wellFormed : paths.WellFormed) {after : DocPaths} {pack : UpdatePack}
    (done : paths.getUpdate stat scanned = (after, some pack)) : after.WellFormed := by
  have visitedWellFormed := wellFormed.visitPaths_kept stat scanned ⟨[], [], []⟩
  unfold DocPaths.getUpdate at done
  generalize DocPaths.visitPaths stat scanned paths ⟨[], [], []⟩ = visits at *
  obtain ⟨visited, outcome⟩ := visits
  cases outcome with
  | none => cases done
  | some result =>
      obtain ⟨flagged, -⟩ := Prod.mk.inj done
      rw [← flagged]
      exact (visitedWellFormed.flagAll _).1

theorem Bijective.getUpdate (bijective : paths.Bijective) {after : DocPaths} {pack : UpdatePack}
    (done : paths.getUpdate stat scanned = (after, some pack)) : after.Bijective := by
  have bijectiveVisited := bijective.visitPaths stat scanned ⟨[], [], []⟩
  unfold DocPaths.getUpdate at done
  generalize DocPaths.visitPaths stat scanned paths ⟨[], [], []⟩ = visits at *
  obtain ⟨visited, outcome⟩ := visits
  cases outcome with
  | none => cases done
  | some result =>
      obtain ⟨flagged, -⟩ := Prod.mk.inj done
      change visited.flagUnseen scanned = after at flagged
      rw [← flagged]
      exact bijectiveVisited.of_same_numbers _ (id2path_flagUnseen visited scanned)
        (id_flagUnseen visited scanned)

/-! ## One object -/

/-- `markRemoved` flags the entry of the number and changes nothing else. -/
theorem find?_markRemoved (bijective : paths.Bijective) (id : FileId) (path : Path) :
    (paths.markRemoved id).id2path = paths.id2path ∧
      (paths.Numbered id path →
        (paths.markRemoved id).path2info.find? path = (paths.path2info.find? path).map FileInfo.flagged) ∧
      (¬ paths.Numbered id path →
        (paths.markRemoved id).path2info.find? path = paths.path2info.find? path) := by
  unfold markRemoved
  cases leads : paths.id2path[id]?.join with
  | none =>
      refine ⟨rfl, fun has => ?_, fun _ => rfl⟩
      rw [(bijective id path).mpr has] at leads
      cases leads
  | some located =>
      have number := (bijective id located).mp (Option.join_eq_some_iff.mp leads)
      refine ⟨rfl, fun has => ?_, fun hasNot => ?_⟩
      · obtain rfl := bijective.wellFormed.path_unique number has
        rw [SortedMap.find?_modify, if_pos rfl]
        rfl
      · have different : located ≠ path := by
          rintro rfl
          exact hasNot number
        rw [SortedMap.find?_modify, if_neg different]

theorem Bijective.markRemoved (bijective : paths.Bijective) (id : FileId) :
    (paths.markRemoved id).Bijective ∧
      ∀ other path, (paths.markRemoved id).Numbered other path ↔ paths.Numbered other path := by
  have numbers : ∀ path, ((paths.markRemoved id).path2info.find? path).map FileInfo.id =
      (paths.path2info.find? path).map FileInfo.id := by
    intro path
    obtain ⟨-, flags, keeps⟩ := find?_markRemoved bijective id path
    by_cases has : paths.Numbered id path
    · rw [flags has, Option.map_map]
      rfl
    · rw [keeps has]
  exact ⟨bijective.of_same_numbers _ (find?_markRemoved bijective id []).1 numbers, same_numbers _ numbers⟩

theorem Bijective.upsert (bijective : paths.Bijective) (path : Path) (metadata : DocumentMetadata) :
    (paths.upsert path metadata).1.Bijective ∧
      ∀ id other, paths.Numbered id other → (paths.upsert path metadata).1.Numbered id other := by
  unfold DocPaths.upsert
  cases found : paths.path2info.find? path with
  | none =>
      refine ⟨bijective.addNew metadata found, ?_⟩
      rintro id other ⟨info, known, rfl⟩
      have different : path ≠ other := by
        rintro rfl
        rw [found] at known
        cases known
      exact ⟨info, by simpa [DocPaths.addNew, different] using known, rfl⟩
  | some info =>
      dsimp only
      split
      · refine ⟨bijective.replace found metadata false, ?_⟩
        rintro id other ⟨stored, known, rfl⟩
        by_cases same : path = other
        · subst same
          rw [found] at known
          obtain rfl := Option.some.inj known
          exact ⟨⟨metadata, info.id, false⟩, by simp, rfl⟩
        · exact ⟨stored, by simpa [same] using known, rfl⟩
      · exact ⟨bijective, fun _ _ has => has⟩

/-- What holds of one object: its table and its entries are inverse to each other,
removal only flags, updates are exact, and its rows rebuild it. -/
structure Lawful (paths : DocPaths) : Prop where
  bijective : paths.Bijective
  removal : ∀ id path, (paths.markRemoved id).id2path = paths.id2path ∧
    (paths.Numbered id path →
      (paths.markRemoved id).path2info.find? path = (paths.path2info.find? path).map FileInfo.flagged) ∧
    (¬ paths.Numbered id path →
      (paths.markRemoved id).path2info.find? path = paths.path2info.find? path)
  update : ∀ stat scanned after pack, paths.getUpdate32 stat scanned = (after, some pack) → after.Fits →
    UpdateExact paths after stat scanned pack
  rows : ∀ rows, rows.Perm paths.exportRows →
    DistinctRows rows ∧ (rebuildFromRawRows rows).path2info = paths.path2info

theorem Bijective.lawful (bijective : paths.Bijective) : paths.Lawful where
  bijective := bijective
  removal := find?_markRemoved bijective
  update := by
    intro stat scanned after pack done fits
    have small : (paths.getUpdate32 stat scanned).1.Fits := by rwa [done]
    rw [getUpdate32_eq small] at done
    exact updateExact_getUpdate bijective.wellFormed done
  rows := fun _ listed => bijective.rebuild_exported listed

/-! ## Many objects -/

/-- The objects of a program by name; all of them begin as `DocPaths()`. -/
abbrev Objects := Nat → DocPaths

def noDocuments : Objects := fun _ => empty

/-- What a program does with its objects. `copy` and `move` are the constructors and
the assignments. -/
inductive Operation where
  | getUpdate (object : Nat) (stat : Stat) (scanned : List Path)
  | upsert (object : Nat) (path : Path) (metadata : DocumentMetadata)
  | markRemoved (object : Nat) (id : FileId)
  | copy (target source : Nat)
  | move (target source : Nat)
  | rebuildFromRows (target : Nat) (rows : List RawRow)

/-- An update that meets an unreadable file, and rows that share a number or a path,
are no operations of these programs. -/
def program : Machine Objects Operation where
  step objects
    | .getUpdate object stat scanned =>
        match (objects object).getUpdate32 stat scanned with
        | (_, none) => none
        | (after, some _) => some (Function.update objects object after)
    | .upsert object path metadata =>
        some (Function.update objects object ((objects object).upsert32 path metadata).1)
    | .markRemoved object id => some (Function.update objects object ((objects object).markRemoved id))
    | .copy target source =>
        if target = source then some objects
        else some (Function.update objects target (objects source).copied)
    | .move target source =>
        if target = source then some objects
        else some (Function.update (Function.update objects target (objects source).copied) source movedFrom)
    | .rebuildFromRows target rows =>
        if DistinctRows rows then some (Function.update objects target (rebuildFromRawRows rows)) else none

/-- What the operation puts in place of the contents of an object. -/
def replacement (objects : Objects) (object : Nat) : Operation → Option DocPaths
  | .copy target source => if target = object ∧ target ≠ source then some (objects source) else none
  | .move target source =>
      if target = source then none
      else if source = object then some empty
      else if target = object then some (objects source)
      else none
  | .rebuildFromRows target rows => if target = object then some (rebuildFromRawRows rows) else none
  | _ => none

/-- What the operation puts in place of the contents of the object holds the pair. -/
def KeepsPair (object : Nat) (id : FileId) (path : Path) (objects : Objects) (operation : Operation) : Prop :=
  ∀ contents, replacement objects object operation = some contents → contents.Numbered id path

def AllFit (objects : Objects) : Prop := ∀ object, (objects object).Fits

def AllBijective (objects : Objects) : Prop := ∀ object, (objects object).Bijective

variable {objects after : Objects} {operation : Operation}

theorem AllBijective.update (bijective : AllBijective objects) {object : Nat} {changed : DocPaths}
    (lawful : changed.Bijective) : AllBijective (Function.update objects object changed) := by
  intro other
  by_cases same : other = object
  · subst same
    rwa [Function.update_self]
  · rw [Function.update_of_ne same]
    exact bijective other

/-- What one operation does to the pairs of an object. -/
structure Steps (objects after : Objects) (operation : Operation) : Prop where
  bijective : AllBijective after
  replaced : ∀ object contents, replacement objects object operation = some contents →
    (after object).path2info = contents.path2info
  kept : ∀ object, replacement objects object operation = none →
    ∀ id path, (objects object).Numbered id path → (after object).Numbered id path

/-- An operation on the entries of one object that keeps its pairs. -/
theorem Steps.of_update (bijective : AllBijective objects) {object : Nat} {changed : DocPaths}
    (lawful : changed.Bijective)
    (kept : ∀ id path, (objects object).Numbered id path → changed.Numbered id path)
    (inPlace : ∀ other, replacement objects other operation = none) :
    Steps objects (Function.update objects object changed) operation where
  bijective := bijective.update lawful
  replaced := by
    intro other contents replaced
    rw [inPlace other] at replaced
    cases replaced
  kept := by
    intro other _ id path has
    by_cases same : other = object
    · subst same
      rw [Function.update_self]
      exact kept id path has
    · rwa [Function.update_of_ne same]

theorem steps_of_step (bijective : AllBijective objects)
    (done : program.step objects operation = some after) (fits : AllFit after) :
    Steps objects after operation := by
  cases operation with
  | getUpdate object stat scanned =>
      simp only [program] at done
      split at done
      · cases done
      · rename_i changed pack updated
        obtain rfl := Option.some.inj done
        have small : changed.Fits := by
          have here := fits object
          rwa [Function.update_self] at here
        have smaller : ((objects object).getUpdate32 stat scanned).1.Fits := by rwa [updated]
        rw [getUpdate32_eq smaller] at updated
        have exact := updateExact_getUpdate (bijective object).wellFormed updated
        exact .of_update bijective ((bijective object).getUpdate updated) exact.kept fun _ => rfl
  | upsert object path metadata =>
      obtain rfl := Option.some.inj done
      have small := fits object
      rw [Function.update_self] at small
      rw [upsert32_eq small]
      obtain ⟨lawful, kept⟩ := (bijective object).upsert path metadata
      exact .of_update bijective lawful kept fun _ => rfl
  | markRemoved object id =>
      obtain rfl := Option.some.inj done
      obtain ⟨lawful, same⟩ := (bijective object).markRemoved id
      exact .of_update bijective lawful (fun other path has => (same other path).mpr has) fun _ => rfl
  | copy target source =>
      simp only [program] at done
      split at done
      · rename_i same
        obtain rfl := Option.some.inj done
        refine ⟨bijective, fun object contents replaced => ?_, fun _ _ _ _ has => has⟩
        simp [replacement, same] at replaced
      · rename_i different
        obtain rfl := Option.some.inj done
        refine ⟨bijective.update (bijective source).copied, fun object contents replaced => ?_,
          fun object inPlace id path has => ?_⟩
        · simp only [replacement] at replaced
          split at replaced
          · rename_i here
            obtain rfl := Option.some.inj replaced
            rw [← here.1, Function.update_self]
            rfl
          · cases replaced
        · have other : object ≠ target := by
            rintro rfl
            simp [replacement, different] at inPlace
          rwa [Function.update_of_ne other]
  | move target source =>
      simp only [program] at done
      split at done
      · rename_i same
        obtain rfl := Option.some.inj done
        refine ⟨bijective, fun object contents replaced => ?_, fun _ _ _ _ has => has⟩
        simp [replacement, same] at replaced
      · rename_i different
        obtain rfl := Option.some.inj done
        refine ⟨(bijective.update (bijective source).copied).update (movedFrom_eq ▸ bijective_empty),
          fun object contents replaced => ?_, fun object inPlace id path has => ?_⟩
        · simp only [replacement, if_neg different] at replaced
          split at replaced
          · rename_i here
            obtain rfl := Option.some.inj replaced
            rw [← here, Function.update_self, movedFrom_eq]
          · rename_i notSource
            split at replaced
            · rename_i here
              obtain rfl := Option.some.inj replaced
              rw [Function.update_of_ne (Ne.symm notSource), ← here, Function.update_self]
              rfl
            · cases replaced
        · simp only [replacement, if_neg different] at inPlace
          split at inPlace
          · cases inPlace
          · rename_i notSource
            split at inPlace
            · cases inPlace
            · rename_i notTarget
              rwa [Function.update_of_ne (Ne.symm notSource), Function.update_of_ne (Ne.symm notTarget)]
  | rebuildFromRows target rows =>
      simp only [program] at done
      split at done
      · rename_i distinct
        obtain rfl := Option.some.inj done
        refine ⟨bijective.update (bijective_rebuildFromRawRows distinct), fun object contents replaced => ?_,
          fun object inPlace id path has => ?_⟩
        · simp only [replacement] at replaced
          split at replaced
          · rename_i here
            obtain rfl := Option.some.inj replaced
            rw [← here, Function.update_self]
          · cases replaced
        · have other : object ≠ target := by
            rintro rfl
            simp [replacement] at inPlace
          rwa [Function.update_of_ne other]
      · cases done

theorem AllBijective.run {operations : List Operation} (bijective : AllBijective objects)
    (done : program.run objects operations = some after)
    (fits : program.Throughout AllFit objects operations) : AllBijective after := by
  induction operations generalizing objects with
  | nil =>
      obtain rfl := Option.some.inj done
      exact bijective
  | cons operation rest ih =>
      obtain ⟨next, stepped, remaining⟩ := Option.bind_eq_some_iff.mp done
      have restFits := fits.2 next stepped
      exact ih (steps_of_step bijective stepped restFits.here).bijective remaining restFits

/-- A pair is kept by operations that keep it. -/
theorem numbered_run {operations : List Operation} {object : Nat} (bijective : AllBijective objects)
    (done : program.run objects operations = some after)
    (fits : program.Throughout AllFit objects operations) {id : FileId} {path : Path}
    (keeps : program.Conforms (KeepsPair object id path) objects operations)
    (has : (objects object).Numbered id path) : (after object).Numbered id path := by
  induction operations generalizing objects with
  | nil =>
      obtain rfl := Option.some.inj done
      exact has
  | cons operation rest ih =>
      obtain ⟨next, stepped, remaining⟩ := Option.bind_eq_some_iff.mp done
      have restFits := fits.2 next stepped
      have steps := steps_of_step bijective stepped restFits.here
      apply ih steps.bijective remaining restFits (keeps.2 next stepped)
      cases replaced : replacement objects object operation with
      | none => exact steps.kept object replaced id path has
      | some contents =>
          obtain ⟨info, found, same⟩ := keeps.1 contents replaced
          exact ⟨info, by rwa [steps.replaced object contents replaced], same⟩

/-- While no table outgrows the 32-bit numbers: every object is lawful; a number given to
a path stays with it, and with it alone, until the contents of its object are replaced
by some without this pair; what replaces them holds the entries of its source, and a rebuilt
table those of its rows. -/
theorem docPaths_history {operations : List Operation} (done : program.run noDocuments operations = some objects)
    (fits : program.Throughout AllFit noDocuments operations) :
    (∀ object, (objects object).Lawful) ∧
    (∀ later after object id path, program.run objects later = some after →
      program.Throughout AllFit objects later → program.Conforms (KeepsPair object id path) objects later →
      (objects object).Numbered id path → (after object).Numbered id path ∧
        (∀ other, (after object).Numbered id other → other = path) ∧
        ∀ other, (after object).Numbered other path → other = id) ∧
    (∀ operation after object contents, program.step objects operation = some after → AllFit after →
      replacement objects object operation = some contents →
        (after object).path2info = contents.path2info) ∧
    ∀ object rows after, program.step objects (.rebuildFromRows object rows) = some after → ∀ path info,
      (after object).path2info.find? path = some info ↔ ∃ row ∈ rows, row.path = path ∧ row.info = info := by
  have bijective : AllBijective objects := AllBijective.run (fun _ => bijective_empty) done fits
  refine ⟨fun object => (bijective object).lawful, ?_, ?_, ?_⟩
  · intro later after object id path ran laterFits keeps has
    have kept := numbered_run bijective ran laterFits keeps has
    have lawful := bijective.run ran laterFits object
    exact ⟨kept, fun other also => lawful.wellFormed.path_unique also kept, fun other also => also.unique kept⟩
  · intro operation after object contents stepped afterFits replaced
    exact (steps_of_step bijective stepped afterFits).replaced object contents replaced
  · intro object rows after stepped path info
    obtain ⟨distinct, rebuilt⟩ := Option.ite_none_right_eq_some.mp stepped
    rw [← Option.some.inj rebuilt, Function.update_self]
    exact find?_rebuildFromRawRows distinct

/-! ## Tables of a few documents -/

theorem AllFit.update (fits : AllFit objects) {object : Nat} {changed : DocPaths} (small : changed.Fits) :
    AllFit (Function.update objects object changed) := by
  intro other
  by_cases same : other = object
  · subst same
    rwa [Function.update_self]
  · rw [Function.update_of_ne same]
    exact fits other

theorem allFit_noDocuments : AllFit noDocuments := fun _ => Nat.zero_le _

/-- An object with the single document `a`. -/
def single : DocPaths := ⟨(∅ : SortedMap Path FileInfo).insert ['a'] ⟨⟨0, 1⟩, 0, false⟩, [some ['a']]⟩

def insertSingle : Operation := .upsert 0 ['a'] ⟨0, 1⟩

def oneDocument : Objects := Function.update noDocuments 0 single

theorem step_insertSingle : program.step noDocuments insertSingle = some oneDocument := rfl

theorem fits_single : single.Fits := by
  unfold Fits
  decide

/-- A document that was inserted and copied keeps its number in the copy after it was
removed there. -/
theorem docPaths_history_copied :
    ∃ objects, program.run noDocuments [insertSingle, .copy 1 0] = some objects ∧
      (∀ object, (objects object).Lawful) ∧
      ∀ after, program.run objects [.markRemoved 1 0] = some after → (after 1).Numbered 0 ['a'] := by
  have copies : program.step oneDocument (.copy 1 0) = some (Function.update oneDocument 1 single.copied) := rfl
  have done : program.run noDocuments [insertSingle, .copy 1 0] =
      some (Function.update oneDocument 1 single.copied) := rfl
  have oneFits : AllFit oneDocument := allFit_noDocuments.update fits_single
  have copyFits : AllFit (Function.update oneDocument 1 single.copied) := oneFits.update (by unfold Fits; decide)
  have fits : program.Throughout AllFit noDocuments [insertSingle, .copy 1 0] := by
    refine ⟨allFit_noDocuments, fun next stepped => ?_⟩
    obtain rfl := Option.some.inj (step_insertSingle.symm.trans stepped)
    refine ⟨oneFits, fun last copied => ?_⟩
    obtain rfl := Option.some.inj (copies.symm.trans copied)
    exact copyFits
  obtain ⟨lawful, permanent, -, -⟩ := docPaths_history done fits
  refine ⟨_, done, lawful, fun after ran => ?_⟩
  have removedFits : program.Throughout AllFit (Function.update oneDocument 1 single.copied)
      [.markRemoved 1 0] := by
    refine ⟨copyFits, fun next stepped => ?_⟩
    obtain rfl := Option.some.inj stepped
    exact copyFits.update (by unfold Fits; decide)
  have keeps : program.Conforms (KeepsPair 1 0 ['a']) (Function.update oneDocument 1 single.copied)
      [.markRemoved 1 0] :=
    ⟨fun contents replaced => (by cases replaced), fun _ _ => trivial⟩
  have has : (Function.update oneDocument 1 single.copied 1).Numbered 0 ['a'] :=
    ⟨⟨⟨0, 1⟩, 0, false⟩, by decide, rfl⟩
  exact (permanent _ after 1 0 ['a'] ran removedFits keeps has).1

/-- An object that is overwritten by another one gives its numbers to other paths. And a
row with the last 32-bit number makes the next insertion take number 0 a second time. -/
theorem not_permanent_overwritten :
    (∃ objects after, program.run noDocuments [insertSingle, .upsert 1 ['b'] ⟨0, 1⟩] = some objects ∧
      program.step objects (.copy 0 1) = some after ∧
      (objects 0).Numbered 0 ['a'] ∧ (after 0).Numbered 0 ['b']) ∧
    ∃ objects, program.run noDocuments [.rebuildFromRows 0 [⟨2 ^ 32 - 1, ['a'], 0, 1, false⟩,
        ⟨0, ['b'], 0, 1, false⟩], .upsert 0 ['c'] ⟨0, 1⟩] = some objects ∧
      ¬ (objects 0).Bijective := by
  constructor
  · refine ⟨_, _, rfl, rfl, ⟨⟨⟨0, 1⟩, 0, false⟩, ?_, rfl⟩, ⟨⟨⟨0, 1⟩, 0, false⟩, ?_, rfl⟩⟩ <;> decide
  · let rows : List RawRow := [⟨2 ^ 32 - 1, ['a'], 0, 1, false⟩, ⟨0, ['b'], 0, 1, false⟩]
    have length : (rebuildFromRawRows rows).id2path.length = 2 ^ 32 := by
      rw [rebuildFromRawRows, length_fillSlots, List.length_replicate]
      decide
    have number : (rebuildFromRawRows rows).nextId32 = 0 := by
      rw [nextId32, length, Nat.mod_self]
    have new : (rebuildFromRawRows rows).path2info.find? ['c'] = none := by decide
    have old : (rebuildFromRawRows rows).path2info.find? ['b'] = some ⟨⟨0, 1⟩, 0, false⟩ := by decide
    have distinct : DistinctRows rows := by decide
    have inserted : (rebuildFromRawRows rows).upsert32 ['c'] ⟨0, 1⟩ =
        ((rebuildFromRawRows rows).addNew32 ['c'] ⟨0, 1⟩, 0, true) := by
      rw [upsert32, new, number]
    refine ⟨Function.update (Function.update noDocuments 0 (rebuildFromRawRows rows)) 0
      ((rebuildFromRawRows rows).addNew32 ['c'] ⟨0, 1⟩), ?_, fun bijective => ?_⟩
    · simp only [Machine.run, program, if_pos distinct, Option.bind_some, Function.update_self, inserted, rows]
    · rw [Function.update_self] at bijective
      have again : ((rebuildFromRawRows rows).addNew32 ['c'] ⟨0, 1⟩).Numbered 0 ['c'] :=
        ⟨⟨⟨0, 1⟩, 0, false⟩, by simp [addNew32, number], rfl⟩
      have still : ((rebuildFromRawRows rows).addNew32 ['c'] ⟨0, 1⟩).Numbered 0 ['b'] :=
        ⟨⟨⟨0, 1⟩, 0, false⟩, by simp [addNew32, old], rfl⟩
      have same : ['c'] = ['b'] := bijective.wellFormed.path_unique again still
      exact absurd same (by decide)

end DocPaths

end SearchEngine.Index
