import SearchEngine.Archive.YearMoveCopies

/-!
# What a published year holds

A call of `executeYearMove` leaves everything that was there. The directory of the year
appears by one rename, when every file of the plan lies in the staging directory.
-/

namespace SearchEngine.Archive

open SearchEngine.Lib

universe u

variable {Content : Type u} {sys : YearSystem Content} {fails : YearStep → Bool} {plan : YearMovePlan}
  {tree next : FileTree Name Content} {place : Place}

/-- What `planYearMove` has checked of a plan. -/
structure Accepted (sys : YearSystem Content) (tree : FileTree Name Content) (plan : YearMovePlan) : Prop where
  root : tree.node [] = some .directory
  fresh : tree.node plan.finalDirectory = none
  directories : ∀ mapping ∈ plan.mappings, (sys.status tree mapping.source).any Node.isDirectory = true
  apart : ∀ mapping ∈ plan.mappings, ¬ mapping.source <+: plan.finalDirectory
  targets : ∀ mapping ∈ plan.mappings, ∃ leaf, mapping.relativeTarget = ["files".toList, leaf]
  databases : ∀ database ∈ plan.databases, ∃ rest, database.relativeTarget = "autopad".toList :: rest ∧ rest ≠ []
  sources : ∀ database ∈ plan.databases, (tree.node database.source).isSome
  distinct : (plan.databases.map MonthlyDatabase.relativeTarget).Nodup

theorem staging_not_final : ¬ plan.staging <+: plan.finalDirectory := by
  intro below
  have same := below.eq_of_length (by simp [YearMovePlan.staging, YearMovePlan.finalDirectory])
  have names := (List.append_inj' same rfl).2
  have lengths := congrArg (fun names => (names.map List.length).sum) names
  simp [YearMovePlan.yearName] at lengths
  omega

theorem final_not_staging : ¬ plan.finalDirectory <+: plan.staging := by
  intro below
  have same := below.eq_of_length (by simp [YearMovePlan.staging, YearMovePlan.finalDirectory])
  exact staging_not_final ⟨[], by rw [List.append_nil, same]⟩

/-! ## The staging directory -/

/-- The staging directory has been made where nothing was. -/
structure Staged (plan : YearMovePlan) (tree staged : FileTree Name Content) : Prop where
  there : staged.node plan.staging = some .directory
  free : tree.node plan.staging = none
  kept : tree.Kept staged
  outside : ∀ place, ¬ place <+: plan.staging → staged.node place = tree.node place

theorem staged_of_run {made staged : FileTree Name Content}
    (directories : tree.createDirectories (yearDirectoryFails fails) [] plan.archiveRoot = (made, true))
    (absent : (sys.status made plan.staging).isSome = false)
    (ensured : made.ensureDirectory (yearDirectoryFails fails) plan.staging = some staged) : Staged plan tree staged := by
  obtain ⟨kept, outside, -⟩ := FileTree.createDirectories_spec (yearDirectoryFails fails) plan.archiveRoot tree []
  rw [directories] at kept outside
  rw [List.nil_append] at outside
  obtain ⟨keptNext, there, elsewhere⟩ := FileTree.ensureDirectory_eq_some ensured
  have free : made.node plan.staging = none := by
    cases stored : made.node plan.staging with
    | none => rfl
    | some node =>
        cases node with
        | directory => simp [YearSystem.status, stored] at absent
        | file content => simp [YearSystem.status, stored] at absent
        | other =>
            -- something that leads nowhere is no directory
            unfold FileTree.ensureDirectory at ensured
            simp [stored] at ensured
  refine ⟨there, ?_, kept.trans keptNext, fun place apart => ?_⟩
  · by_contra present
    obtain ⟨node, found⟩ := Option.ne_none_iff_exists'.mp present
    have still := kept _ _ found
    rw [free] at still
    cases still
  · have below : ¬ place <+: plan.archiveRoot := fun above => apart (above.trans (List.prefix_append _ _))
    rw [elsewhere place, outside place below]
    rintro rfl
    exact apart List.prefix_rfl

namespace Staged

variable {staged : FileTree Name Content}

/-- The staging directory lies beside the sources. -/
theorem source_apart (ready : Staged plan tree staged) (accepted : Accepted sys tree plan) :
    ∀ mapping ∈ plan.mappings, ∀ rest, ¬ plan.staging <+: mapping.source ++ rest := by
  intro mapping member rest below
  have present : (tree.node mapping.source).isSome := by
    have directory := accepted.directories mapping member
    unfold YearSystem.status at directory
    cases stored : tree.node mapping.source with
    | none => simp [stored] at directory
    | some node => rfl
  rcases List.prefix_or_prefix_of_prefix below (List.prefix_append _ _) with ⟨more, inside⟩ | above
  · rw [← inside, FileTree.node_append_eq_none ready.free] at present
    cases present
  · rcases List.prefix_concat_iff.mp above with same | shorter
    · rw [same] at present
      change (tree.node plan.staging).isSome at present
      rw [ready.free] at present
      cases present
    · exact accepted.apart mapping member (shorter.trans (List.prefix_append _ _))

/-- What comes into the staging directory later touches nothing that was there. -/
theorem kept_within (ready : Staged plan tree staged) (within : Within plan.staging staged next) : tree.Kept next := by
  intro place node found
  rw [within place, ready.kept place node found]
  rintro ⟨rest, rfl⟩
  rw [FileTree.node_append_eq_none ready.free] at found
  cases found

theorem source_eq (ready : Staged plan tree staged) (accepted : Accepted sys tree plan) :
    ∀ mapping ∈ plan.mappings, ∀ rest, staged.node (mapping.source ++ rest) = tree.node (mapping.source ++ rest) := by
  intro mapping member rest
  apply ready.outside
  intro above
  have root := List.IsPrefix.trans (List.prefix_append mapping.source rest) above
  rcases List.prefix_concat_iff.mp root with same | shorter
  · exact ready.source_apart accepted mapping member [] (by rw [List.append_nil, same]; exact List.prefix_rfl)
  · exact accepted.apart mapping member (shorter.trans (List.prefix_append _ _))

theorem final_eq (ready : Staged plan tree staged) (within : Within plan.staging staged next) :
    next.node plan.finalDirectory = tree.node plan.finalDirectory := by
  rw [within _ staging_not_final]
  exact ready.outside _ final_not_staging

end Staged

/-! ## Publishing -/

/-- What the last part of the call did with a staging directory. -/
structure PublishedFrom (sys : YearSystem Content) (fails : YearStep → Bool) (plan : YearMovePlan)
    (copied : List (CopiedFile Content)) (staged after : FileTree Name Content) (manifest : Manifest Content) : Prop where
  moved : ∀ rest, rest ≠ [hashListName] → rest ≠ [manifestName] →
    after.node (plan.finalDirectory ++ rest) = staged.node (plan.staging ++ rest)
  written : after.node (plan.finalDirectory ++ [manifestName]) = some (.file (sys.dump manifest))
  outside : ∀ place, ¬ plan.staging <+: place → ¬ plan.finalDirectory <+: place → after.node place = staged.node place
  manifest : ∃ databases, describeDatabases sys fails plan.staging plan.finalDirectory staged plan.databases =
    some databases ∧ manifest = planManifest plan copied databases

theorem publishYear_spec {copied : List (CopiedFile Content)} {staged after : FileTree Name Content}
    {result : Except String (Manifest Content)} (run : publishYear sys fails plan staged copied = (after, result)) :
    (∃ message, result = .error message ∧ Within plan.staging staged after) ∨
      ∃ manifest, result = .ok manifest ∧ PublishedFrom sys fails plan copied staged after manifest := by
  unfold publishYear at run
  split at run
  · cases run
    exact .inl ⟨_, rfl, Within.refl _ _⟩
  rename_i databases described
  dsimp only at run
  split at run
  · cases run
    exact .inl ⟨_, rfl, Within.refl _ _⟩
  split at run
  · cases run
    exact .inl ⟨_, rfl, Within.refl _ _⟩
  rename_i listed listWritten
  obtain ⟨-, -, elsewhereList⟩ := FileTree.writeFile_eq_some listWritten
  have first := within_of_place (List.prefix_append plan.staging [hashListName]) elsewhereList
  split at run
  · cases run
    exact .inl ⟨_, rfl, first⟩
  split at run
  · cases run
    exact .inl ⟨_, rfl, first⟩
  rename_i written manifestWritten
  obtain ⟨-, here, elsewhere⟩ := FileTree.writeFile_eq_some manifestWritten
  have second := first.trans (within_of_place (List.prefix_append plan.staging [manifestName]) elsewhere)
  split at run
  · cases run
    exact .inl ⟨_, rfl, second⟩
  split at run
  · cases run
    exact .inl ⟨_, rfl, second⟩
  rename_i published renamed
  cases run
  obtain ⟨-, moved, outside⟩ := FileTree.rename_eq_some renamed
  refine .inr ⟨_, rfl, fun rest notList notManifest => ?_, ?_, fun place apart other => ?_, databases, described, rfl⟩
  · rw [moved, elsewhere, elsewhereList]
    · rwa [Ne, List.append_cancel_left_eq, eq_comm]
    · rwa [Ne, List.append_cancel_left_eq, eq_comm]
  · rw [moved, here]
  · rw [outside place apart other, second place apart]

/-- A call that publishes nothing. -/
structure Unpublished (plan : YearMovePlan) (tree after : FileTree Name Content) : Prop where
  kept : tree.Kept after
  absent : after.node plan.finalDirectory = none

theorem Staged.unpublished {staged : FileTree Name Content} (ready : Staged plan tree staged)
    (accepted : Accepted sys tree plan) (within : Within plan.staging staged next) : Unpublished plan tree next where
  kept := ready.kept_within within
  absent := (ready.final_eq within).trans accepted.fresh

/-- A published year holds every file of the plan with the content that its source has. -/
structure PublishedYear (sys : YearSystem Content) (plan : YearMovePlan) (tree after : FileTree Name Content)
    (manifest : Manifest Content) : Prop where
  kept : tree.Kept after
  files : ∀ mapping ∈ plan.mappings, ∀ relative content, relative ≠ [] →
    sys.contentAt tree (mapping.source ++ relative) = some content →
    sys.skips plan.year tree mapping.source relative = false →
      after.node (plan.finalDirectory ++ mapping.relativeTarget ++ relative) = some (.file content) ∧
        ⟨mapping.source ++ relative, plan.finalDirectory ++ mapping.relativeTarget ++ relative, content⟩ ∈ manifest.files
  databases : ∀ database ∈ plan.databases, ∃ now backup content, tree.Kept now ∧
    sys.backup now database.source = some backup ∧ sys.rewrite backup = some content ∧
      after.node (plan.finalDirectory ++ database.relativeTarget) = some (.file content)
  listed : ∀ file ∈ manifest.files, ∃ mapping ∈ plan.mappings, ∃ relative, relative ≠ [] ∧
    file.source = mapping.source ++ relative ∧
    file.target = plan.finalDirectory ++ mapping.relativeTarget ++ relative ∧
    sys.contentAt tree file.source = some file.content ∧ after.node file.target = some (.file file.content)
  archived : ∀ database ∈ manifest.databases, ∃ planned ∈ plan.databases, database.source = planned.source ∧
    database.target = plan.finalDirectory ++ planned.relativeTarget ∧
    after.node database.target = some (.file database.targetContent)
  roots : manifest.mappings = plan.mappings.map YearMapping.source
  phase : manifest.phase = .published
  written : after.node (plan.finalDirectory ++ [manifestName]) = some (.file (sys.dump manifest))

variable {staged copies rewritten after : FileTree Name Content} {copied : List (CopiedFile Content)}
  {manifest : Manifest Content}

/-- Rewriting the databases leaves the copied files alone. -/
theorem file_kept (accepted : Accepted sys tree plan)
    (outside : ∀ place, (∀ database ∈ plan.databases, plan.staging ++ database.relativeTarget ≠ place) →
      rewritten.node place = copies.node place)
    {mapping : YearMapping} (member : mapping ∈ plan.mappings) (relative : RelativePath) :
    rewritten.node (plan.staging ++ mapping.relativeTarget ++ relative) =
      copies.node (plan.staging ++ mapping.relativeTarget ++ relative) := by
  apply outside
  intro database listed same
  obtain ⟨leaf, files⟩ := accepted.targets mapping member
  obtain ⟨rest, autopad, -⟩ := accepted.databases database listed
  rw [List.append_assoc, List.append_cancel_left_eq, files, autopad, List.cons_append] at same
  exact absurd (List.cons.inj same).1 (by decide)

/-- The directory of the year has what the staging directory had. -/
theorem PublishedFrom.file_moved (from_ : PublishedFrom sys fails plan copied rewritten after manifest)
    {first : Name} {rest : RelativePath} (filled : rest ≠ []) :
    after.node (plan.finalDirectory ++ first :: rest) = rewritten.node (plan.staging ++ first :: rest) := by
  apply from_.moved
  · intro same
    exact filled (List.cons.inj same).2
  · intro same
    exact filled (List.cons.inj same).2

theorem PublishedFrom.kept (from_ : PublishedFrom sys fails plan copied rewritten after manifest)
    (accepted : Accepted sys tree plan) (ready : Staged plan tree staged)
    (within : Within plan.staging staged rewritten) : tree.Kept after := by
  intro place node found
  rw [from_.outside, ready.kept_within within place node found]
  · rintro ⟨rest, rfl⟩
    rw [FileTree.node_append_eq_none ready.free] at found
    cases found
  · rintro ⟨rest, rfl⟩
    rw [FileTree.node_append_eq_none accepted.fresh] at found
    cases found

theorem publishedYear_of_run (accepted : Accepted sys tree plan) (ready : Staged plan tree staged)
    {withDatabases : FileTree Name Content}
    (copiedDatabases : copyDatabases sys fails plan.staging plan.databases staged = (withDatabases, none))
    (copiedMappings : copyMappings sys fails plan.year plan.staging plan.mappings withDatabases [] =
      (copies, copied, none))
    (rewrites : rewriteDatabases sys fails plan.staging plan.databases copies = (rewritten, none))
    (from_ : PublishedFrom sys fails plan copied rewritten after manifest) :
    PublishedYear sys plan tree after manifest := by
  obtain ⟨keptDatabases, withinDatabases, backups⟩ := copyDatabases_spec plan.databases ready.there
    (fun database member => by
      obtain ⟨rest, same, -⟩ := accepted.databases database member
      simp [same]) copiedDatabases
  have there := keptDatabases _ _ ready.there
  obtain ⟨keptMappings, withinMappings, mapped⟩ := copyMappings_spec plan.mappings there
    (fun mapping member => by
      obtain ⟨leaf, same⟩ := accepted.targets mapping member
      exact ⟨by simp [same], ready.source_apart accepted mapping member⟩) copiedMappings
  obtain ⟨listed, complete, -⟩ := mapped rfl
  obtain ⟨unchanged, rewrote⟩ := rewriteDatabases_spec plan.databases accepted.distinct rewrites
  have withinRewritten : Within plan.staging copies rewritten := by
    intro place outside
    apply unchanged
    rintro database member rfl
    exact outside (List.prefix_append _ _)
  have within := (withinDatabases.trans withinMappings).trans withinRewritten
  obtain ⟨described, run, rfl⟩ := from_.manifest
  -- the sources are what they were
  have source : ∀ mapping ∈ plan.mappings, ∀ relative,
      withDatabases.node (mapping.source ++ relative) = tree.node (mapping.source ++ relative) := by
    intro mapping member relative
    rw [withinDatabases _ (ready.source_apart accepted mapping member relative)]
    exact ready.source_eq accepted mapping member relative
  have moved : ∀ mapping ∈ plan.mappings, ∀ relative,
      after.node (plan.finalDirectory ++ mapping.relativeTarget ++ relative) =
        copies.node (plan.staging ++ mapping.relativeTarget ++ relative) := by
    intro mapping member relative
    rw [← file_kept accepted unchanged member relative]
    obtain ⟨leaf, files⟩ := accepted.targets mapping member
    rw [List.append_assoc, List.append_assoc, files, List.cons_append, List.cons_append]
    exact from_.file_moved (List.cons_ne_nil _ _)
  have database : ∀ planned ∈ plan.databases, after.node (plan.finalDirectory ++ planned.relativeTarget) =
      rewritten.node (plan.staging ++ planned.relativeTarget) := by
    intro planned member
    obtain ⟨rest, autopad, filled⟩ := accepted.databases planned member
    rw [autopad]
    exact from_.file_moved filled
  have target : ∀ relativeTarget relative : RelativePath,
      plan.finalDirectory ++ (plan.staging ++ relativeTarget ++ relative).drop plan.staging.length =
        plan.finalDirectory ++ relativeTarget ++ relative := by
    intro relativeTarget relative
    rw [List.append_assoc, List.drop_left, List.append_assoc]
  constructor
  · exact from_.kept accepted ready within
  · intro mapping member relative content below read visited
    obtain ⟨stored, inList⟩ := complete mapping member relative content below
      (by rwa [contentAt_eq (source mapping member relative)]) (by rwa [skips_eq (source mapping member)])
    refine ⟨by rw [moved mapping member, stored], ?_⟩
    have published := List.mem_map_of_mem (f := CopiedFile.publishedAs plan) inList
    rwa [CopiedFile.publishedAs, target] at published
  · intro planned member
    obtain ⟨now, backup, held, backed, stored⟩ := backups rfl planned member
    obtain ⟨old, content, read, changed, here⟩ := rewrote rfl planned member
    have kept := contentAt_of_file sys (keptMappings _ _ stored)
    obtain rfl := Option.some.inj (kept.symm.trans read)
    exact ⟨now, _, content, ready.kept_within held, backed, changed, by rw [database planned member, here]⟩
  · intro file member
    obtain ⟨original, inList, rfl⟩ := List.mem_map.mp member
    rcases listed original inList with none | ⟨mapping, planned, relative, below, sourceEq, targetEq, content, stored⟩
    · cases none
    · have place : (original.publishedAs plan).target = plan.finalDirectory ++ mapping.relativeTarget ++ relative := by
        rw [CopiedFile.publishedAs, targetEq, target]
      refine ⟨mapping, planned, relative, below, sourceEq, place, ?_, ?_⟩
      · rw [sourceEq, contentAt_eq (source mapping planned relative), ← sourceEq] at content
        exact content
      · rw [place, moved mapping planned, ← targetEq]
        exact stored
  · intro archived member
    obtain ⟨planned, inList, sourceEq, targetEq, content⟩ := describeDatabases_spec plan.databases run archived member
    obtain ⟨old, rewrittenContent, -, -, here⟩ := rewrote rfl planned inList
    obtain rfl := Option.some.inj ((contentAt_of_file sys here).symm.trans content)
    exact ⟨planned, inList, sourceEq, targetEq, by rw [targetEq, database planned inList, here]⟩
  · rfl
  · rfl
  · exact from_.written

/-- A call publishes every file of the plan or nothing, and changes nothing that was there. -/
theorem executeYearMove_spec (fails : YearStep → Bool) (accepted : Accepted sys tree plan) :
    (∃ message, (executeYearMove sys fails plan tree).2 = .error message ∧
        Unpublished plan tree (executeYearMove sys fails plan tree).1) ∨
      ∃ manifest, (executeYearMove sys fails plan tree).2 = .ok manifest ∧
        PublishedYear sys plan tree (executeYearMove sys fails plan tree).1 manifest := by
  have early {failsAt : Place → Bool} {made : FileTree Name Content} {done : Bool}
      (directories : tree.createDirectories failsAt [] plan.archiveRoot = (made, done)) : Unpublished plan tree made := by
    obtain ⟨kept, outside, -⟩ := FileTree.createDirectories_spec failsAt plan.archiveRoot tree []
    rw [directories] at kept outside
    refine ⟨kept, (outside _ ?_).trans accepted.fresh⟩
    intro below
    have shorter := below.length_le
    rw [YearMovePlan.finalDirectory, List.nil_append, List.length_append, List.length_singleton] at shorter
    omega
  unfold executeYearMove
  split
  · rename_i made failed
    exact .inl ⟨_, rfl, early failed⟩
  rename_i made created
  split
  · exact .inl ⟨_, rfl, early created⟩
  rename_i absent
  split
  · exact .inl ⟨_, rfl, early created⟩
  rename_i staged ensured
  have ready := staged_of_run created (by simpa using absent) ensured
  have filled : ∀ database ∈ plan.databases, database.relativeTarget ≠ [] := by
    intro database member
    obtain ⟨rest, same, -⟩ := accepted.databases database member
    simp [same]
  split
  · rename_i next error run
    obtain ⟨-, within, -⟩ := copyDatabases_spec plan.databases ready.there filled run
    exact .inl ⟨_, rfl, ready.unpublished accepted within⟩
  rename_i next copiedDatabases
  obtain ⟨keptDatabases, withinDatabases, -⟩ := copyDatabases_spec plan.databases ready.there filled copiedDatabases
  have apart : ∀ mapping ∈ plan.mappings,
      mapping.relativeTarget ≠ [] ∧ ∀ rest, ¬ plan.staging <+: mapping.source ++ rest := by
    intro mapping member
    obtain ⟨leaf, same⟩ := accepted.targets mapping member
    exact ⟨by simp [same], ready.source_apart accepted mapping member⟩
  split
  · rename_i copies listed error run
    obtain ⟨-, within, -⟩ := copyMappings_spec plan.mappings (keptDatabases _ _ ready.there) apart run
    exact .inl ⟨_, rfl, ready.unpublished accepted (withinDatabases.trans within)⟩
  rename_i copies copied copiedMappings
  obtain ⟨-, withinMappings, -⟩ := copyMappings_spec plan.mappings (keptDatabases _ _ ready.there) apart copiedMappings
  have rewriting {rewritten : FileTree Name Content} {error : Option String}
      (run : rewriteDatabases sys fails plan.staging plan.databases copies = (rewritten, error)) :
      Within plan.staging staged rewritten := by
    obtain ⟨unchanged, -⟩ := rewriteDatabases_spec plan.databases accepted.distinct run
    refine (withinDatabases.trans withinMappings).trans fun place outside => unchanged place ?_
    rintro database - rfl
    exact outside (List.prefix_append _ _)
  split
  · rename_i rewritten error run
    exact .inl ⟨_, rfl, ready.unpublished accepted (rewriting run)⟩
  rename_i rewritten rewrites
  cases run : publishYear sys fails plan rewritten copied
  rename_i after result
  rcases publishYear_spec run with ⟨message, rfl, within⟩ | ⟨manifest, rfl, from_⟩
  · exact .inl ⟨message, rfl, ready.unpublished accepted ((rewriting rewrites).trans within)⟩
  · exact .inr ⟨manifest, rfl, publishedYear_of_run accepted ready copiedDatabases copiedMappings rewrites from_⟩

end SearchEngine.Archive
