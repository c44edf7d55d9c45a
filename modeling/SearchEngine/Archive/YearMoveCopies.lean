import SearchEngine.Archive.YearMove

/-!
# What moving a year copies

Nothing outside the staging directory changes while the copies are made, and every entry that
the iteration meets ends up in the staging directory with the content it has.
-/

namespace SearchEngine.Archive

open SearchEngine.Lib

universe u

variable {Content : Type u} {sys : YearSystem Content} {fails : YearStep → Bool}
  {staging source target place : Place} {tree next later : FileTree Name Content}

/-- Nothing outside a directory differs. -/
def Within (directory : Place) (tree next : FileTree Name Content) : Prop :=
  ∀ place, ¬ directory <+: place → next.node place = tree.node place

theorem Within.refl (directory : Place) (tree : FileTree Name Content) : Within directory tree tree := fun _ _ => rfl

theorem Within.trans (first : Within staging tree next) (second : Within staging next later) :
    Within staging tree later := fun place outside => (second place outside).trans (first place outside)

theorem within_of_place (below : staging <+: place)
    (elsewhere : ∀ other, place ≠ other → next.node other = tree.node other) : Within staging tree next := by
  intro other outside
  apply elsewhere
  rintro rfl
  exact outside below

/-- Below an existing directory only places below it are created. -/
theorem within_createDirectories {failsAt : Place → Bool} {rest : RelativePath} {made : Bool}
    (there : tree.node staging = some .directory)
    (run : tree.createDirectories failsAt [] (staging ++ rest) = (next, made)) :
    tree.Kept next ∧ Within staging tree next ∧
      (made = true → tree.node [] = some .directory → next.node (staging ++ rest) = some .directory) := by
  obtain ⟨kept, outside, result⟩ := FileTree.createDirectories_spec failsAt (staging ++ rest) tree []
  rw [run] at kept outside result
  rw [List.nil_append] at outside result
  refine ⟨kept, fun place apart => ?_, result⟩
  by_cases above : place <+: staging ++ rest
  · -- what lies above the directory is there already
    rcases List.prefix_or_prefix_of_prefix above (List.prefix_append _ _) with ⟨more, rfl⟩ | below
    · have stored : tree.node place = some .directory := by
        cases more with
        | nil => rwa [List.append_nil] at there
        | cons head tail => exact FileTree.node_above (by rw [there]; rfl) (List.cons_ne_nil _ _)
      rw [kept place _ stored, stored]
    · exact absurd below apart
  · exact outside place above

theorem status_eq (same : next.node place = tree.node place) : sys.status next place = sys.status tree place := by
  unfold YearSystem.status
  rw [same]

theorem contentAt_eq (same : next.node place = tree.node place) : sys.contentAt next place = sys.contentAt tree place := by
  unfold YearSystem.contentAt
  rw [status_eq same]

theorem node_of_contentAt {content : Content} (found : sys.contentAt tree place = some content) :
    (tree.node place).isSome := by
  unfold YearSystem.contentAt YearSystem.status at found
  cases stored : tree.node place with
  | none => simp [stored] at found
  | some node => rfl

theorem contentAt_of_file (sys : YearSystem Content) {content : Content} (file : tree.node place = some (.file content)) :
    sys.contentAt tree place = some content := by
  simp [YearSystem.contentAt, YearSystem.status, file]

/-! ## One file -/

/-- A copied file is in the staging directory with the content of its source. -/
theorem copyOneFile_spec {relative : RelativePath} {copied more : List (CopiedFile Content)} {error : Option String}
    (there : tree.node staging = some .directory) (filled : relative ≠ [])
    (run : copyOneFile sys fails source (staging ++ relative) tree copied = (next, more, error)) :
    tree.Kept next ∧ Within staging tree next ∧
      (error = none → ¬ staging <+: source →
        ∃ content, sys.contentAt tree source = some content ∧
          next.node (staging ++ relative) = some (.file content) ∧
          more = copied ++ [⟨source, staging ++ relative, content⟩]) := by
  unfold copyOneFile at run
  rw [List.dropLast_append_of_ne_nil filled] at run
  cases directories : tree.createDirectories (yearDirectoryFails fails) [] (staging ++ relative.dropLast)
  rename_i made done
  obtain ⟨kept, within, -⟩ := within_createDirectories there directories
  have stopped {message : String} (same : (made, copied, some message) = (next, more, error)) :
      tree.Kept next ∧ Within staging tree next ∧
        (error = none → ¬ staging <+: source →
          ∃ content, sys.contentAt tree source = some content ∧
            next.node (staging ++ relative) = some (.file content) ∧
            more = copied ++ [⟨source, staging ++ relative, content⟩]) := by
    cases same
    exact ⟨kept, within, fun done => absurd done (by simp)⟩
  rw [directories] at run
  cases done with
  | false => exact stopped run
  | true =>
      dsimp only at run
      split at run
      · exact stopped run
      split at run
      · exact stopped run
      split at run
      · exact stopped run
      rename_i content read
      split at run
      · exact stopped run
      rename_i created made_file
      obtain ⟨free, -, here, elsewhere⟩ := FileTree.create_eq_some made_file
      have grown := kept.trans (FileTree.kept_of_free free elsewhere)
      have inside := within.trans (within_of_place (List.prefix_append staging relative) elsewhere)
      split at run
      · cases run
        exact ⟨grown, inside, fun done => absurd done (by simp)⟩
      · cases run
        refine ⟨grown, inside, fun _ outside => ⟨content, ?_, here, rfl⟩⟩
        rwa [contentAt_eq (within source outside)] at read

/-! ## A directory -/

/-- The copies of a directory, so far. -/
structure Copies (sys : YearSystem Content) (source target : Place) (entries : List RelativePath)
    (tree next : FileTree Name Content) (copied more : List (CopiedFile Content)) : Prop where
  listed : ∀ file ∈ more, file ∈ copied ∨ ∃ relative ∈ entries, file.source = source ++ relative ∧
    file.target = target ++ relative ∧ sys.contentAt tree file.source = some file.content ∧
    next.node file.target = some (.file file.content)
  complete : ∀ relative ∈ entries, ∀ content, sys.contentAt tree (source ++ relative) = some content →
    ⟨source ++ relative, target ++ relative, content⟩ ∈ more ∧
      next.node (target ++ relative) = some (.file content)
  earlier : ∀ file ∈ copied, file ∈ more

/-- One more entry in front: a file that has been copied, or something that holds no content. -/
theorem Copies.cons {relative : RelativePath} {rest : List RelativePath} {middle : FileTree Name Content}
    {copied between more : List (CopiedFile Content)}
    (same : ∀ other ∈ rest, sys.contentAt middle (source ++ other) = sys.contentAt tree (source ++ other))
    (kept : middle.Kept next)
    (head : (sys.contentAt tree (source ++ relative) = none ∧ between = copied) ∨
      ∃ content, sys.contentAt tree (source ++ relative) = some content ∧
        middle.node (target ++ relative) = some (.file content) ∧
        between = copied ++ [⟨source ++ relative, target ++ relative, content⟩])
    (copies : Copies sys source target rest middle next between more) :
    Copies sys source target (relative :: rest) tree next copied more where
  listed file member := by
    rcases copies.listed file member with before | ⟨other, listed, sourceEq, targetEq, content, stored⟩
    · rcases head with ⟨-, rfl⟩ | ⟨content, read, stored, rfl⟩
      · exact .inl before
      · rcases List.mem_append.mp before with old | new
        · exact .inl old
        · obtain rfl := List.mem_singleton.mp new
          exact .inr ⟨relative, List.mem_cons_self, rfl, rfl, read, kept _ _ stored⟩
    · refine .inr ⟨other, List.mem_cons_of_mem _ listed, sourceEq, targetEq, ?_, stored⟩
      rw [sourceEq, same other listed, ← sourceEq] at content
      exact content
  complete other member content read := by
    rcases List.mem_cons.mp member with rfl | later
    · rcases head with ⟨absent, -⟩ | ⟨found, present, stored, rfl⟩
      · rw [absent] at read
        cases read
      · obtain rfl := Option.some.inj (present.symm.trans read)
        exact ⟨copies.earlier _ (by simp), kept _ _ stored⟩
    · exact copies.complete other later content ((same other later).trans read)
  earlier file member := by
    apply copies.earlier
    rcases head with ⟨-, rfl⟩ | ⟨content, -, -, rfl⟩
    · exact member
    · exact List.mem_append_left _ member

theorem copyEntries_spec {inside : RelativePath} (filled : inside ≠ []) (entries : List RelativePath) :
    ∀ {tree next : FileTree Name Content} {copied more : List (CopiedFile Content)} {error : Option String},
      tree.node staging = some .directory → (∀ relative ∈ entries, ¬ staging <+: source ++ relative) →
      copyEntries sys fails source (staging ++ inside) entries tree copied = (next, more, error) →
        tree.Kept next ∧ Within staging tree next ∧
          (error = none → Copies sys source (staging ++ inside) entries tree next copied more) := by
  induction entries with
  | nil =>
      intro tree next copied more error _ _ run
      cases run
      refine ⟨FileTree.Kept.refl _, Within.refl _ _, fun _ => ⟨fun file member => .inl member, ?_, fun _ member => member⟩⟩
      exact fun _ member => absurd member List.not_mem_nil
  | cons relative rest ih =>
      intro tree next copied more error there outside run
      have apart := outside relative List.mem_cons_self
      have others : ∀ other ∈ rest, ¬ staging <+: source ++ other :=
        fun other member => outside other (List.mem_cons_of_mem _ member)
      unfold copyEntries at run
      split at run
      · rename_i directory
        have empty : sys.contentAt tree (source ++ relative) = none := by simp [YearSystem.contentAt, directory]
        rw [List.append_assoc] at run
        split at run
        · rename_i made failed
          cases run
          obtain ⟨kept, within, -⟩ := within_createDirectories there failed
          exact ⟨kept, within, fun done => absurd done (by simp)⟩
        · rename_i made created
          obtain ⟨kept, within, -⟩ := within_createDirectories there created
          obtain ⟨keptRest, withinRest, copies⟩ := ih (kept _ _ there) others run
          refine ⟨kept.trans keptRest, within.trans withinRest, fun done => ?_⟩
          exact (copies done).cons (fun other member => contentAt_eq (within _ (others other member))) keptRest
            (.inl ⟨empty, rfl⟩)
      · rw [List.append_assoc] at run
        split at run
        · rename_i middle between copy
          obtain ⟨kept, within, read⟩ := copyOneFile_spec there (by simp [filled]) copy
          obtain ⟨content, found, stored, listed⟩ := read rfl apart
          obtain ⟨keptRest, withinRest, copies⟩ := ih (kept _ _ there) others run
          refine ⟨kept.trans keptRest, within.trans withinRest, fun done => ?_⟩
          rw [← List.append_assoc] at stored listed
          exact (copies done).cons (fun other member => contentAt_eq (within _ (others other member))) keptRest
            (.inr ⟨content, found, stored, listed⟩)
        · rename_i copy
          cases run
          obtain ⟨kept, within, -⟩ := copyOneFile_spec there (by simp [filled]) copy
          exact ⟨kept, within, fun done => absurd done (by simp)⟩
      · rename_i special
        have empty : sys.contentAt tree (source ++ relative) = none := by simp [YearSystem.contentAt, special]
        obtain ⟨keptRest, withinRest, copies⟩ := ih there others run
        exact ⟨keptRest, withinRest, fun done => (copies done).cons (fun _ _ => rfl) keptRest (.inl ⟨empty, rfl⟩)⟩
      · cases run
        exact ⟨FileTree.Kept.refl _, Within.refl _ _, fun done => absurd done (by simp)⟩

theorem skips_eq {year : Nat} {relative : RelativePath}
    (same : ∀ rest, next.node (source ++ rest) = tree.node (source ++ rest)) :
    sys.skips year next source relative = sys.skips year tree source relative := by
  cases relative with
  | nil => rfl
  | cons name rest => simp only [YearSystem.skips, status_eq (same [name])]

/-- What `copyTree` leaves out of a directory it does not skip is nothing that has content. -/
theorem copyTree_spec {inside : RelativePath} {year : Nat} {copied more : List (CopiedFile Content)}
    {error : Option String} (filled : inside ≠ []) (there : tree.node staging = some .directory)
    (apart : ∀ rest, ¬ staging <+: source ++ rest)
    (run : copyTree sys fails year source (staging ++ inside) tree copied = (next, more, error)) :
    tree.Kept next ∧ Within staging tree next ∧
      (error = none → ∃ entries, Copies sys source (staging ++ inside) entries tree next copied more ∧
        (∀ relative ∈ entries, relative ≠ []) ∧
        ∀ relative, relative ≠ [] → (tree.node (source ++ relative)).isSome →
          sys.skips year tree source relative = false → relative ∈ entries) := by
  unfold copyTree at run
  split at run
  · cases run
    exact ⟨FileTree.Kept.refl _, Within.refl _ _, fun done => absurd done (by simp)⟩
  split at run
  · rename_i made failed
    cases run
    obtain ⟨kept, within, -⟩ := within_createDirectories there failed
    exact ⟨kept, within, fun done => absurd done (by simp)⟩
  rename_i made created
  obtain ⟨kept, within, -⟩ := within_createDirectories there created
  split at run
  · cases run
    exact ⟨kept, within, fun done => absurd done (by simp)⟩
  obtain ⟨keptRest, withinRest, copies⟩ := copyEntries_spec filled _ (kept _ _ there)
    (fun relative _ => apart relative) run
  have same : ∀ relative, made.node (source ++ relative) = tree.node (source ++ relative) :=
    fun relative => within _ (apart relative)
  refine ⟨kept.trans keptRest, within.trans withinRest, fun done =>
    ⟨(sys.walk made source).filter (!sys.skips year made source ·), ?_, ?_, ?_⟩⟩
  · have copies := copies done
    exact {
      listed := fun file member => by
        rcases copies.listed file member with before | ⟨other, listed, sourceEq, targetEq, content, stored⟩
        · exact .inl before
        · refine .inr ⟨other, listed, sourceEq, targetEq, ?_, stored⟩
          rwa [contentAt_eq (sourceEq ▸ same other)] at content
      complete := fun relative member content read =>
        copies.complete relative member content ((contentAt_eq (same relative)).trans read)
      earlier := copies.earlier }
  · intro relative member
    exact ((sys.complete made source relative).mp (List.mem_filter.mp member).1).1
  · intro relative below present visited
    rw [List.mem_filter, sys.complete, same relative]
    refine ⟨⟨below, present⟩, ?_⟩
    rw [Bool.not_eq_true', ← visited]
    exact skips_eq same

/-! ## All directories -/

/-- What the copies of the mappings amount to. -/
structure MappingsCopied (sys : YearSystem Content) (year : Nat) (staging : Place) (mappings : List YearMapping)
    (tree next : FileTree Name Content) (copied more : List (CopiedFile Content)) : Prop where
  listed : ∀ file ∈ more, file ∈ copied ∨ ∃ mapping ∈ mappings, ∃ relative, relative ≠ [] ∧
    file.source = mapping.source ++ relative ∧ file.target = staging ++ mapping.relativeTarget ++ relative ∧
    sys.contentAt tree file.source = some file.content ∧ next.node file.target = some (.file file.content)
  complete : ∀ mapping ∈ mappings, ∀ relative content, relative ≠ [] →
    sys.contentAt tree (mapping.source ++ relative) = some content →
    sys.skips year tree mapping.source relative = false →
      next.node (staging ++ mapping.relativeTarget ++ relative) = some (.file content) ∧
        ⟨mapping.source ++ relative, staging ++ mapping.relativeTarget ++ relative, content⟩ ∈ more
  earlier : ∀ file ∈ copied, file ∈ more

theorem copyMappings_spec {year : Nat} (mappings : List YearMapping) :
    ∀ {tree next : FileTree Name Content} {copied more : List (CopiedFile Content)} {error : Option String},
      tree.node staging = some .directory →
      (∀ mapping ∈ mappings, mapping.relativeTarget ≠ [] ∧ ∀ rest, ¬ staging <+: mapping.source ++ rest) →
      copyMappings sys fails year staging mappings tree copied = (next, more, error) →
        tree.Kept next ∧ Within staging tree next ∧
          (error = none → MappingsCopied sys year staging mappings tree next copied more) := by
  induction mappings with
  | nil =>
      intro tree next copied more error _ _ run
      cases run
      refine ⟨FileTree.Kept.refl _, Within.refl _ _, fun _ => ⟨fun file member => .inl member, ?_, fun _ member => member⟩⟩
      exact fun _ member => absurd member List.not_mem_nil
  | cons mapping rest ih =>
      intro tree next copied more error there apart run
      obtain ⟨filled, outside⟩ := apart mapping List.mem_cons_self
      unfold copyMappings at run
      split at run
      · rename_i middle between copy
        obtain ⟨kept, within, finished⟩ := copyTree_spec filled there outside copy
        obtain ⟨entries, copies, below, all⟩ := finished rfl
        obtain ⟨keptRest, withinRest, result⟩ := ih (kept _ _ there)
          (fun other member => apart other (List.mem_cons_of_mem _ member)) run
        refine ⟨kept.trans keptRest, within.trans withinRest, fun done => ?_⟩
        obtain ⟨listed, complete, earlier⟩ := result done
        have same : ∀ other ∈ rest, ∀ relative, middle.node (other.source ++ relative) = tree.node (other.source ++ relative) :=
          fun other member relative => within _ ((apart other (List.mem_cons_of_mem _ member)).2 relative)
        refine ⟨fun file member => ?_, fun other member relative content positive read visited => ?_,
          fun file member => earlier _ (copies.earlier _ member)⟩
        · rcases listed file member with before | ⟨other, inside, relative, positive, sourceEq, targetEq, content, stored⟩
          · rcases copies.listed file before with old | ⟨relative, member, sourceEq, targetEq, content, stored⟩
            · exact .inl old
            · exact .inr ⟨mapping, List.mem_cons_self, relative, below _ member, sourceEq, targetEq, content,
                keptRest _ _ stored⟩
          · refine .inr ⟨other, List.mem_cons_of_mem _ inside, relative, positive, sourceEq, targetEq, ?_, stored⟩
            rwa [contentAt_eq (sourceEq ▸ same other inside relative)] at content
        · rcases List.mem_cons.mp member with rfl | later
          · have entry := all relative positive (node_of_contentAt read) visited
            obtain ⟨inList, stored⟩ := copies.complete relative entry content read
            exact ⟨keptRest _ _ stored, earlier _ inList⟩
          · apply complete other later relative content positive
            · rwa [contentAt_eq (same other later relative)]
            · rwa [skips_eq (same other later)]
      · rename_i copy
        cases run
        obtain ⟨kept, within, -⟩ := copyTree_spec filled there outside copy
        exact ⟨kept, within, fun done => absurd done (by simp)⟩

/-! ## The databases -/

theorem copyDatabases_spec (databases : List MonthlyDatabase) :
    ∀ {tree next : FileTree Name Content} {error : Option String}, tree.node staging = some .directory →
      (∀ database ∈ databases, database.relativeTarget ≠ []) →
      copyDatabases sys fails staging databases tree = (next, error) →
        tree.Kept next ∧ Within staging tree next ∧
          (error = none → ∀ database ∈ databases, ∃ now content, Within staging tree now ∧
            sys.backup now database.source = some content ∧
            next.node (staging ++ database.relativeTarget) = some (.file content)) := by
  induction databases with
  | nil =>
      intro tree next error _ _ run
      cases run
      exact ⟨FileTree.Kept.refl _, Within.refl _ _, fun _ _ member => absurd member List.not_mem_nil⟩
  | cons database rest ih =>
      intro tree next error there filled run
      have below := filled database List.mem_cons_self
      unfold copyDatabases at run
      rw [List.dropLast_append_of_ne_nil below] at run
      cases directories : tree.createDirectories (yearDirectoryFails fails) [] (staging ++ database.relativeTarget.dropLast)
      rename_i made done
      obtain ⟨kept, within, -⟩ := within_createDirectories there directories
      rw [directories] at run
      have stopped {message : String} (same : (made, some message) = (next, error)) :
          tree.Kept next ∧ Within staging tree next ∧
            (error = none → ∀ other ∈ database :: rest, ∃ now content, Within staging tree now ∧
              sys.backup now other.source = some content ∧
              next.node (staging ++ other.relativeTarget) = some (.file content)) := by
        cases same
        exact ⟨kept, within, fun done => absurd done (by simp)⟩
      cases done with
      | false => exact stopped run
      | true =>
          dsimp only at run
          split at run
          · exact stopped run
          split at run
          · exact stopped run
          rename_i content backed
          split at run
          · exact stopped run
          rename_i created file
          obtain ⟨free, -, here, elsewhere⟩ := FileTree.create_eq_some file
          have grown := kept.trans (FileTree.kept_of_free free elsewhere)
          have inside := within.trans (within_of_place (List.prefix_append staging database.relativeTarget) elsewhere)
          obtain ⟨keptRest, withinRest, result⟩ := ih (grown _ _ there)
            (fun other member => filled other (List.mem_cons_of_mem _ member)) run
          refine ⟨grown.trans keptRest, inside.trans withinRest, fun done other member => ?_⟩
          rcases List.mem_cons.mp member with rfl | later
          · exact ⟨made, content, within, backed, keptRest _ _ here⟩
          · obtain ⟨now, held, apart, read, stored⟩ := result done other later
            exact ⟨now, held, inside.trans apart, read, stored⟩

theorem rewriteDatabases_spec (databases : List MonthlyDatabase) :
    ∀ {tree next : FileTree Name Content} {error : Option String}, (databases.map MonthlyDatabase.relativeTarget).Nodup →
      rewriteDatabases sys fails staging databases tree = (next, error) →
        (∀ place, (∀ database ∈ databases, staging ++ database.relativeTarget ≠ place) →
          next.node place = tree.node place) ∧
        (error = none → ∀ database ∈ databases, ∃ old content,
          sys.contentAt tree (staging ++ database.relativeTarget) = some old ∧ sys.rewrite old = some content ∧
            next.node (staging ++ database.relativeTarget) = some (.file content)) := by
  induction databases with
  | nil =>
      intro tree next error _ run
      cases run
      exact ⟨fun _ _ => rfl, fun _ _ member => absurd member List.not_mem_nil⟩
  | cons database rest ih =>
      intro tree next error distinct run
      rw [List.map_cons, List.nodup_cons] at distinct
      have apart : ∀ other ∈ rest, staging ++ other.relativeTarget ≠ staging ++ database.relativeTarget := by
        intro other member same
        rw [List.append_cancel_left_eq] at same
        exact distinct.1 (same ▸ List.mem_map_of_mem member)
      unfold rewriteDatabases at run
      split at run
      · cases run
        exact ⟨fun _ _ => rfl, fun done => absurd done (by simp)⟩
      split at run
      · cases run
        exact ⟨fun _ _ => rfl, fun done => absurd done (by simp)⟩
      rename_i content rewritten
      obtain ⟨old, read, changed⟩ := Option.bind_eq_some_iff.mp rewritten
      split at run
      · cases run
        exact ⟨fun _ _ => rfl, fun done => absurd done (by simp)⟩
      rename_i written overwritten
      obtain ⟨-, here, elsewhere⟩ := FileTree.overwrite_eq_some overwritten
      obtain ⟨outside, result⟩ := ih distinct.2 run
      refine ⟨fun place others => ?_, fun done other member => ?_⟩
      · rw [outside place fun other member => others other (List.mem_cons_of_mem _ member)]
        exact elsewhere place (others database List.mem_cons_self)
      · rcases List.mem_cons.mp member with rfl | later
        · exact ⟨old, content, read, changed, by rw [outside _ apart, here]⟩
        · obtain ⟨before, after, stored, rest⟩ := result done other later
          refine ⟨before, after, ?_, rest⟩
          rwa [contentAt_eq (elsewhere _ fun same => apart other later same.symm)] at stored

/-- A database of the manifest is one of the plan, as it lies in the staging directory. -/
theorem describeDatabases_spec {finalDirectory : Place} (databases : List MonthlyDatabase) :
    ∀ {described : List (ArchivedDatabase Content)},
      describeDatabases sys fails staging finalDirectory tree databases = some described →
        ∀ archived ∈ described, ∃ database ∈ databases, archived.source = database.source ∧
          archived.target = finalDirectory ++ database.relativeTarget ∧
          sys.contentAt tree (staging ++ database.relativeTarget) = some archived.targetContent := by
  induction databases with
  | nil =>
      intro described run
      cases run
      exact fun _ member => absurd member List.not_mem_nil
  | cons database rest ih =>
      intro described run
      unfold describeDatabases at run
      split at run
      · cases run
      split at run
      · rename_i fingerprint content inspected read
        obtain ⟨others, described, rfl⟩ := Option.map_eq_some_iff.mp run
        intro archived member
        rcases List.mem_cons.mp member with rfl | later
        · exact ⟨database, List.mem_cons_self, rfl, rfl, read⟩
        · obtain ⟨other, inside, rest⟩ := ih described archived later
          exact ⟨other, List.mem_cons_of_mem _ inside, rest⟩
      · cases run

end SearchEngine.Archive
