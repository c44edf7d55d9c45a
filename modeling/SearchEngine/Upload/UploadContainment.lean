import SearchEngine.Upload.UploadPlaces

/-!
# Where uploaded files lie

The folders of a plan, the staging file and the published file are the names below the
root that the plan checked. They are all proper unless one of them names a port with a
superscript digit.
-/

namespace SearchEngine.Upload

open Files Lib Server

variable {table : UpperCase} {root : Path}

/-- `Kind`. -/
inductive Kind where
  | razn
  | tlgToSend

/-- The plan for an upload command. -/
def planUpload (table : UpperCase) (disk : UploadDisk) (kind : Kind) (root operatorName : Path) (metadata : Metadata)
    (time : TimeParts) : Except Failure PlannedTarget :=
  match kind with
  | .razn => planRaznTarget table disk root metadata
  | .tlgToSend => planTlgTarget table disk root operatorName metadata time

/-- A request as the session handles it: its metadata is parsed, then the upload is planned. -/
def planRequest (table : UpperCase) (disk : UploadDisk) (parse : List UInt8 → Except String JsonDocument) (kind : Kind)
    (root operatorName : Path) (time : TimeParts) (bytes : List UInt8) : Except Failure PlannedTarget := do
  let metadata ← parseMetadata table parse bytes
  planUpload table disk kind root operatorName metadata time

/-- The folders between the root and the file. -/
def plannedFolders (kind : Kind) (operatorName : Path) (time : TimeParts) : List Path :=
  match kind with
  | .razn => []
  | .tlgToSend => [time.monthUpper, time.date, operatorFolder operatorName time]

/-- The path is the root in normal form followed by proper names. -/
def LiesBelow (table : UpperCase) (root path : Path) : Prop :=
  (splitRootName path).1 = spelledRoot (splitRootName root).1 ∧
    ∃ components, words isSeparator (splitRootName path).2 = lexicalNames (splitRootName root).2 ++ components ∧
      ∀ component ∈ components, ProperComponent table component

/-- Whatever the file system answers, an upload to the target stays below the root. -/
structure UploadStaysBelow (table : UpperCase) (root : Path) (target : PlannedTarget) : Prop where
  directory : LiesBelow table root target.directory
  staging : ∀ disk size sink, prepare table disk target size = .ok sink → LiesBelow table root sink.stagingPath
  published : ∀ disk size prepared chunks received sink, prepare table disk target size = .ok prepared →
    receive prepared chunks = .ok received → publish disk received = .ok sink →
      LiesBelow table root sink.publishedPath

/-! ## Plans -/

/-- What a plan that succeeds has checked. -/
structure Planned (table : UpperCase) (root : Path) (folders : List Path) (fileName : Path) (target : PlannedTarget)
    (closed : Bool) : Prop where
  place : IsPlace (spelledRoot (splitRootName root).1) (lexicalNames (splitRootName root).2 ++ folders) closed
  directory : target.directory =
    placeText (spelledRoot (splitRootName root).1) (lexicalNames (splitRootName root).2 ++ folders) closed
  baseName : target.baseName = fileName
  safeFolders : ∀ folder ∈ folders, SafeName table folder
  safeName : isSafeFileComponent table fileName = true
  noRoots : containsRootName target.directory = false

theorem planRaznTarget_spec {disk : UploadDisk} {metadata : Metadata} {target : PlannedTarget}
    (planned : planRaznTarget table disk root metadata = .ok target) :
    ∃ closed, Planned table root [] metadata.fileName target closed := by
  unfold planRaznTarget at planned
  split at planned
  · cases planned
  · rename_i rooted
    split at planned
    · cases planned
    · rename_i named
      rw [Bool.not_eq_true, Bool.not_eq_false'] at named
      have safe := safeName_of_isSafe named
      simp only [Bool.or_eq_true, not_or, Bool.not_eq_true', Bool.not_eq_false] at rooted
      obtain ⟨closed, place, text⟩ := lexicallyNormal_absolute rooted.2
      simp only [text, joinPath_place place safe.entry safe.noDrive] at planned
      split at planned
      · cases planned
      · rename_i stays
        rw [Bool.not_eq_true, Bool.not_eq_false'] at stays
        have different : placeText (spelledRoot (splitRootName root).1)
            (lexicalNames (splitRootName root).2 ++ [metadata.fileName]) false ≠
              placeText (spelledRoot (splitRootName root).1) (lexicalNames (splitRootName root).2) closed := by
          intro same
          have read := congrArg (fun path => words isSeparator (splitRootName path).2) same
          simp only [splitRootName_place place, splitRootName_place (place.child safe.entry), words_names place.entries,
            words_names (place.child safe.entry).entries] at read
          simpa using congrArg List.length read
        have noRoots := noRoots_of_composition place (place.child safe.entry) stays different
        rw [containsRootName_place (place.child safe.entry), List.any_append, Bool.or_eq_false_iff,
          ← containsRootName_place place] at noRoots
        cases made : ensureSafeDirectoryTree disk
            (placeText (spelledRoot (splitRootName root).1) (lexicalNames (splitRootName root).2) closed)
            (placeText (spelledRoot (splitRootName root).1) (lexicalNames (splitRootName root).2) closed) with
        | error failure =>
            rw [made] at planned
            cases planned
        | ok _ =>
            rw [made] at planned
            obtain rfl := Except.ok.inj planned
            refine ⟨closed, ?_⟩
            exact {
              place := by simpa using place
              directory := by simp
              baseName := rfl
              safeFolders := by simp
              safeName := named
              noRoots := noRoots.1 }

theorem planTlgTarget_spec {disk : UploadDisk} {operatorName : Path} {metadata : Metadata} {time : TimeParts}
    {target : PlannedTarget} (planned : planTlgTarget table disk root operatorName metadata time = .ok target) :
    Planned table root [time.monthUpper, time.date, operatorFolder operatorName time] metadata.fileName target false := by
  unfold planTlgTarget at planned
  split at planned
  · cases planned
  · rename_i rooted
    split at planned
    · cases planned
    · split at planned
      · cases planned
      · rename_i named
        split at planned
        · cases planned
        · split at planned
          · cases planned
          · rename_i dated
            split at planned
            · cases planned
            · rename_i foldered
              simp only [Bool.or_eq_true, not_or, Bool.not_eq_true', Bool.not_eq_false] at rooted named dated foldered
              have month := safeName_of_isSafe dated.1
              have date := safeName_of_isSafe dated.2
              have folder := safeName_of_isSafe foldered
              have file := safeName_of_isSafe named
              obtain ⟨closed, place, text⟩ := lexicallyNormal_absolute rooted.2
              have monthPlace := place.child month.entry
              have datePlace := monthPlace.child date.entry
              have folderPlace := datePlace.child folder.entry
              simp only [text, joinPath_place place month.entry month.noDrive,
                joinPath_place monthPlace date.entry date.noDrive, joinPath_place datePlace folder.entry folder.noDrive,
                joinPath_place folderPlace file.entry file.noDrive] at planned
              split at planned
              · cases planned
              · rename_i stays
                simp only [Bool.or_eq_true, not_or, Bool.not_eq_true', Bool.not_eq_false] at stays
                have different : placeText (spelledRoot (splitRootName root).1)
                    (lexicalNames (splitRootName root).2 ++ [time.monthUpper] ++ [time.date] ++
                      [operatorFolder operatorName time]) false ≠
                    placeText (spelledRoot (splitRootName root).1) (lexicalNames (splitRootName root).2) closed := by
                  intro same
                  have read := congrArg (fun path => words isSeparator (splitRootName path).2) same
                  simp only [splitRootName_place place, splitRootName_place folderPlace, words_names place.entries,
                    words_names folderPlace.entries] at read
                  simpa using congrArg List.length read
                have noRoots := noRoots_of_composition place folderPlace stays.1 different
                have folders : lexicalNames (splitRootName root).2 ++ [time.monthUpper] ++ [time.date] ++
                    [operatorFolder operatorName time] = lexicalNames (splitRootName root).2 ++
                      [time.monthUpper, time.date, operatorFolder operatorName time] := by simp
                cases made : ensureSafeDirectoryTree disk
                    (placeText (spelledRoot (splitRootName root).1) (lexicalNames (splitRootName root).2) closed)
                    (placeText (spelledRoot (splitRootName root).1) (lexicalNames (splitRootName root).2 ++
                      [time.monthUpper] ++ [time.date] ++ [operatorFolder operatorName time]) false) with
                | error failure =>
                    rw [made] at planned
                    cases planned
                | ok _ =>
                    rw [made] at planned
                    obtain rfl := Except.ok.inj planned
                    exact {
                      place := folders ▸ folderPlace
                      directory := by rw [folders]
                      baseName := rfl
                      safeFolders := by
                        intro other member
                        simp only [List.mem_cons, List.not_mem_nil, or_false] at member
                        rcases member with rfl | rfl | rfl
                        · exact month
                        · exact date
                        · exact folder
                      safeName := named
                      noRoots := noRoots }

theorem planUpload_spec {disk : UploadDisk} {kind : Kind} {operatorName : Path} {metadata : Metadata} {time : TimeParts}
    {target : PlannedTarget} (planned : planUpload table disk kind root operatorName metadata time = .ok target) :
    ∃ closed, Planned table root (plannedFolders kind operatorName time) metadata.fileName target closed := by
  cases kind with
  | razn => exact planRaznTarget_spec planned
  | tlgToSend => exact ⟨false, planTlgTarget_spec planned⟩

/-! ## The sink -/

theorem isPlain_stagingTexts : ∀ c ∈ stagingStart ++ stagingEnd, IsPlain c := by
  have texts : (stagingStart ++ stagingEnd).all (fun c => !isSeparator c && c != ':') = true := by decide +kernel
  intro c member
  have plain := List.all_eq_true.mp texts c member
  rw [Bool.and_eq_true, Bool.not_eq_true', bne_iff_ne] at plain
  exact plain

theorem isPlain_stagingLeaf (disk : UploadDisk) (number : Nat) : ∀ c ∈ stagingLeaf disk number, IsPlain c := by
  have plainTexts := isPlain_stagingTexts
  intro c member
  rw [stagingLeaf] at member
  rcases List.mem_append.mp member with text | member
  · exact plainTexts c (List.mem_append_left _ text)
  rcases List.mem_append.mp member with digit | member
  · exact (isPlain_toDigits digit).1
  rcases List.mem_cons.mp member with rfl | member
  · exact ⟨by decide, by decide⟩
  rcases List.mem_append.mp member with digit | member
  · exact (isPlain_toDigits digit).1
  rcases List.mem_cons.mp member with rfl | member
  · exact ⟨by decide, by decide⟩
  rcases List.mem_append.mp member with digit | text
  · exact (isPlain_toDigits digit).1
  · exact plainTexts c (List.mem_append_right _ text)

/-- The name of a staging file is proper: it starts with a dot, so its device stem is empty. -/
theorem proper_stagingLeaf (disk : UploadDisk) (number : Nat) : ProperComponent table (stagingLeaf disk number) := by
  have plain := isPlain_stagingLeaf disk number
  obtain ⟨rest, spelled⟩ : ∃ rest, stagingLeaf disk number = '.' :: 's' :: rest := by
    have start : stagingStart = '.' :: 's' :: stagingStart.drop 2 := by decide +kernel
    rw [stagingLeaf, start]
    exact ⟨_, List.cons_append⟩
  have last : (stagingLeaf disk number).getLast? = some 'p' := by
    have ending : stagingEnd = stagingEnd.dropLast ++ ['p'] := by decide +kernel
    rw [stagingLeaf, ending, ← List.append_assoc, ← List.cons_append, ← List.append_assoc, ← List.cons_append,
      ← List.append_assoc, ← List.append_assoc, List.getLast?_concat]
  exact {
    filled := by simp [spelled]
    noSeparator := fun c member => (plain c member).1
    noDrive := fun member => (plain _ member).2 rfl
    notDot := by simp [spelled]
    notDotDot := by simp [spelled]
    noDevice := by
      rw [deviceStem, spelled, List.takeWhile_cons_of_neg (by simp), List.rdropWhile_nil, List.map_nil]
      decide
    closed := by
      rw [last]
      exact ⟨by decide, by decide⟩ }

theorem ProperComponent.entry {name : Path} (proper : ProperComponent table name) : IsEntry name where
  isWord := ⟨proper.filled, proper.noSeparator⟩
  notDot := by simpa [isDot] using proper.notDot
  notDotDot := by simpa [isDotDot] using proper.notDotDot

theorem chooseStaging_spec {disk : UploadDisk} {directory staging : Path} (attempts : Nat) :
    ∀ number, chooseStaging disk directory attempts number = .ok staging →
      ∃ leaf, staging = joinPath directory (stagingLeaf disk leaf) := by
  induction attempts with
  | zero => nofun
  | succ attempts ih =>
      intro number chosen
      unfold chooseStaging at chosen
      simp only at chosen
      split at chosen
      · cases chosen
      · split at chosen
        · exact ⟨number, (Except.ok.inj chosen).symm⟩
        · exact ih _ chosen
        · cases chosen

theorem prepare_spec {disk : UploadDisk} {target : PlannedTarget} {size : Nat} {sink : UploadSink}
    (prepared : prepare table disk target size = .ok sink) :
    sink.destinationDir = target.directory ∧ sink.requestedFileName = target.baseName ∧
      ∃ leaf, sink.stagingPath = joinPath target.directory (stagingLeaf disk leaf) := by
  unfold prepare at prepared
  split at prepared
  · cases prepared
  split at prepared
  · cases prepared
  split at prepared
  · cases prepared
  cases made : ensureSafeDirectoryTree disk target.directory target.directory with
  | error failure =>
      rw [made] at prepared
      cases prepared
  | ok _ =>
      rw [made] at prepared
      cases chosen : chooseStaging disk target.directory 256 (disk.sequence + 1) with
      | error failure =>
          simp only [chosen] at prepared
          cases prepared
      | ok staging =>
          obtain ⟨leaf, spelled⟩ := chooseStaging_spec _ _ chosen
          cases checked : disk.checkExistingFile staging with
          | error failure =>
              simp only [chosen] at prepared
              change (disk.checkExistingFile staging >>= _) = _ at prepared
              rw [checked] at prepared
              cases prepared
          | ok _ =>
              simp only [chosen] at prepared
              change (disk.checkExistingFile staging >>= _) = _ at prepared
              rw [checked] at prepared
              obtain rfl := Except.ok.inj prepared
              exact ⟨rfl, rfl, leaf, spelled⟩

theorem writeChunk_spec {sink written : UploadSink} {size : Nat} {stored : Bool}
    (done : writeChunk sink size stored = .ok written) :
    written.destinationDir = sink.destinationDir ∧ written.requestedFileName = sink.requestedFileName := by
  unfold writeChunk at done
  split at done
  · cases done
  split at done
  · obtain rfl := Except.ok.inj done
    exact ⟨rfl, rfl⟩
  split at done
  · cases done
  split at done
  · cases done
  · obtain rfl := Except.ok.inj done
    exact ⟨rfl, rfl⟩

theorem receive_spec (chunks : List (Nat × Bool)) : ∀ {sink received : UploadSink}, receive sink chunks = .ok received →
    received.destinationDir = sink.destinationDir ∧ received.requestedFileName = sink.requestedFileName := by
  induction chunks with
  | nil =>
      intro sink received done
      obtain rfl := Except.ok.inj done
      exact ⟨rfl, rfl⟩
  | cons chunk rest ih =>
      intro sink received done
      rw [receive, List.foldlM_cons] at done
      cases first : writeChunk sink chunk.1 chunk.2 with
      | error failure =>
          rw [first] at done
          cases done
      | ok written =>
          rw [first] at done
          obtain ⟨dir, requested⟩ := writeChunk_spec first
          obtain ⟨laterDir, laterRequested⟩ := @ih written received done
          exact ⟨laterDir.trans dir, laterRequested.trans requested⟩

theorem chooseName_spec {disk : UploadDisk} {sink saved : UploadSink} (attempts : Nat) :
    ∀ index, chooseName disk sink attempts index = .ok saved →
      ∃ number, saved.publishedPath = joinPath sink.destinationDir (suffixedFileName sink.requestedFileName number) := by
  induction attempts with
  | zero => nofun
  | succ attempts ih =>
      intro index chosen
      unfold chooseName at chosen
      simp only at chosen
      split at chosen
      · cases chosen
      split at chosen
      · exact ih _ chosen
      split at chosen
      · exact ih _ chosen
      · cases chosen
      · cases checked : disk.checkExistingFile
            (joinPath sink.destinationDir (suffixedFileName sink.requestedFileName index)) with
        | error failure =>
            rw [checked] at chosen
            cases chosen
        | ok _ =>
            rw [checked] at chosen
            obtain rfl := Except.ok.inj chosen
            exact ⟨index, rfl⟩

theorem publish_spec {disk : UploadDisk} {sink saved : UploadSink} (done : publish disk sink = .ok saved) :
    ∃ number, saved.publishedPath = joinPath sink.destinationDir (suffixedFileName sink.requestedFileName number) := by
  unfold publish at done
  split at done
  · cases done
  split at done
  · cases done
  split at done
  · cases done
  · exact chooseName_spec _ _ done

/-! ## Below the root -/

variable {folders : List Path} {fileName : Path} {target : PlannedTarget} {closed : Bool}

theorem liesBelow_place {names : List Path}
    (place : IsPlace (spelledRoot (splitRootName root).1) (lexicalNames (splitRootName root).2 ++ names) closed) :
    LiesBelow table root
        (placeText (spelledRoot (splitRootName root).1) (lexicalNames (splitRootName root).2 ++ names) closed) ↔
      ∀ name ∈ names, ProperComponent table name := by
  rw [LiesBelow, splitRootName_place place, words_names place.entries]
  constructor
  · rintro ⟨-, components, same, proper⟩
    rwa [← List.append_cancel_left same] at proper
  · intro proper
    exact ⟨rfl, names, rfl, proper⟩

/-- A proper name in the planned folder lies below the root when the folders are proper. -/
theorem Planned.liesBelow_child (plan : Planned table root folders fileName target closed) {name : Path}
    (entry : IsEntry name) (noDrive : ':' ∉ name) :
    LiesBelow table root (joinPath target.directory name) ↔
      (∀ folder ∈ folders, ProperComponent table folder) ∧ ProperComponent table name := by
  have child := plan.place.child entry
  rw [plan.directory, joinPath_place plan.place entry noDrive]
  rw [List.append_assoc] at child ⊢
  rw [liesBelow_place child, List.forall_mem_append, List.forall_mem_singleton]

/-- A file system on which every step succeeds. -/
def willingDisk : UploadDisk where
  ensureDirectoryExistsSafe _ := .ok ()
  processId := 0
  ticks _ := 0
  sequence := 0
  createNew _ := .done
  checkExistingFile _ := .ok ()
  flushes := true
  taken _ := false
  moveFile _ _ := .done

/-- Where nothing fails, a planned upload publishes the file under its own name. -/
theorem Planned.published_willing (plan : Planned table root folders fileName target closed) :
    ∃ prepared saved, prepare table willingDisk target 0 = .ok prepared ∧ publish willingDisk prepared = .ok saved ∧
      saved.publishedPath = joinPath target.directory fileName := by
  have safe := safeName_of_isSafe plan.safeName
  have leaf := @proper_stagingLeaf table willingDisk 1
  have noRoots := plan.noRoots
  have filled : target.directory.isEmpty = false := by
    simp [plan.directory, plan.place.text_ne_nil]
  have named : target.baseName.isEmpty = false := by simpa [plan.baseName] using safe.filled
  have stays : ∀ name, IsEntry name → ':' ∉ name →
      compositionStaysUnderDirectory target.directory (joinPath target.directory name) = true := by
    intro name entry noDrive
    rw [plan.directory] at noRoots ⊢
    rw [joinPath_place plan.place entry noDrive]
    exact composition_child plan.place entry noDrive noRoots
  have made : ensureSafeDirectoryTree willingDisk target.directory target.directory = .ok () := by
    have normal : lexicallyNormal target.directory = target.directory := by
      rw [plan.directory]
      exact lexicallyNormal_place plan.place
    unfold ensureSafeDirectoryTree
    rw [normal, lexicallyRelative_self _ noRoots]
    simp [willingDisk, bind, Except.bind, pure, Except.pure]
  have staged : chooseStaging willingDisk target.directory 256 (willingDisk.sequence + 1) =
      .ok (joinPath target.directory (stagingLeaf willingDisk 1)) := by
    rw [show willingDisk.sequence + 1 = 1 from rfl, chooseStaging]
    simp only [stays _ leaf.entry leaf.noDrive]
    rfl
  have prepared : prepare table willingDisk target 0 = .ok {
      destinationDir := target.directory, stagingPath := joinPath target.directory (stagingLeaf willingDisk 1),
      publishedPath := [], requestedFileName := target.baseName, savedName := [], advertisedSize := 0,
      bytesWritten := 0, prepared := true, published := false } := by
    unfold prepare
    rw [filled, named, plan.baseName, plan.safeName, stays _ safe.entry safe.noDrive, made, ← plan.baseName]
    simp only [staged, bind, Except.bind, pure, Except.pure]
    rfl
  have index : suffixedFileName target.baseName 0 = fileName := by rw [suffixedFileName, if_pos rfl, plan.baseName]
  have published : publish willingDisk {
      destinationDir := target.directory, stagingPath := joinPath target.directory (stagingLeaf willingDisk 1),
      publishedPath := [], requestedFileName := target.baseName, savedName := [], advertisedSize := 0,
      bytesWritten := 0, prepared := true, published := false } = .ok {
      destinationDir := target.directory, stagingPath := [], publishedPath := joinPath target.directory fileName,
      requestedFileName := target.baseName, savedName := fileName, advertisedSize := 0,
      bytesWritten := 0, prepared := false, published := true } := by
    unfold publish
    rw [show 100000 = 99999 + 1 from rfl, chooseName]
    simp only [index, stays _ safe.entry safe.noDrive]
    rfl
  exact ⟨_, _, prepared, published, rfl⟩

/-- An upload that stays below its root has proper names throughout. -/
theorem UploadStaysBelow.proper (below : UploadStaysBelow table root target)
    (plan : Planned table root folders fileName target closed) :
    (∀ folder ∈ folders, ProperComponent table folder) ∧ ProperComponent table fileName := by
  have safe := safeName_of_isSafe plan.safeName
  obtain ⟨prepared, saved, staged, published, spelled⟩ := plan.published_willing
  have final := below.published willingDisk 0 prepared [] prepared saved staged rfl published
  rwa [spelled, plan.liesBelow_child safe.entry safe.noDrive] at final

theorem planRequest_spec {disk : UploadDisk} {parse : List UInt8 → Except String JsonDocument} {kind : Kind}
    {operatorName : Path} {time : TimeParts} {bytes : List UInt8}
    (planned : planRequest table disk parse kind root operatorName time bytes = .ok target) :
    ∃ metadata : Metadata, ∃ closed,
      Planned table root (plannedFolders kind operatorName time) metadata.fileName target closed := by
  rw [planRequest] at planned
  cases read : parseMetadata table parse bytes with
  | error failure =>
      rw [read] at planned
      cases planned
  | ok metadata =>
      rw [read] at planned
      exact ⟨metadata, planUpload_spec planned⟩

/-- An upload stays below its root exactly when the folders of the plan and the file name
are no port with a superscript digit, which the check of device names lets through. -/
theorem upload_staysBelow_iff (table : UpperCase) (disk : UploadDisk)
    (parse : List UInt8 → Except String JsonDocument) (kind : Kind) (root operatorName : Path) (time : TimeParts)
    (bytes : List UInt8) (target : PlannedTarget)
    (planned : planRequest table disk parse kind root operatorName time bytes = .ok target) :
    UploadStaysBelow table root target ↔
      ∀ name ∈ plannedFolders kind operatorName time ++ [target.baseName], ¬ IsSuperscriptPort table name := by
  obtain ⟨metadata, closed, plan⟩ := planRequest_spec planned
  rw [plan.baseName]
  have safe := safeName_of_isSafe plan.safeName
  rw [List.forall_mem_append, List.forall_mem_singleton]
  constructor
  · intro below
    have proper := below.proper plan
    constructor
    · intro folder member
      exact (plan.safeFolders folder member).proper_iff.mp (proper.1 folder member)
    · exact safe.proper_iff.mp proper.2
  · rintro ⟨plainFolders, plainName⟩
    have properFolders : ∀ folder ∈ plannedFolders kind operatorName time, ProperComponent table folder :=
      fun folder member => (plan.safeFolders folder member).proper_iff.mpr (plainFolders folder member)
    constructor
    · rw [plan.directory]
      exact (liesBelow_place plan.place).mpr properFolders
    · intro disk size sink prepared
      obtain ⟨-, -, leaf, spelled⟩ := prepare_spec prepared
      have proper := @proper_stagingLeaf table disk leaf
      rw [spelled, plan.liesBelow_child proper.entry proper.noDrive]
      exact ⟨properFolders, proper⟩
    · intro disk size prepared chunks received sink staged written published
      obtain ⟨directory, requested, -⟩ := prepare_spec staged
      obtain ⟨keptDirectory, keptRequested⟩ := receive_spec chunks written
      obtain ⟨number, spelled⟩ := publish_spec published
      have proper := safe.proper_suffixed plainName number
      rw [spelled, keptDirectory, keptRequested, directory, requested, plan.baseName,
        plan.liesBelow_child proper.entry proper.noDrive]
      exact ⟨properFolders, proper⟩

/-- A reader that finds the metadata of an empty file of this name. -/
def readsName (name : Path) (_ : List UInt8) : Except String JsonDocument :=
  .ok (.object [("file_name", .string name), ("file_size", .unsigned 0), ("version", .unsigned 1)])

/-- Upper case for ASCII alone. -/
def asciiUpper : UpperCase := ⟨Char.toUpper, fun _ _ => rfl⟩

/-- A note for a root on a drive. -/
theorem upload_staysBelow_note : UploadStaysBelow asciiUpper "D:\\RAZN\\".toList ⟨"D:\\RAZN\\".toList, "note.txt".toList⟩ :=
  (upload_staysBelow_iff asciiUpper willingDisk (readsName "note.txt".toList) .razn "D:\\RAZN\\".toList [] ⟨[], [], []⟩
    [] ⟨"D:\\RAZN\\".toList, "note.txt".toList⟩ (by decide +kernel)).mpr (by decide +kernel)

/-- A file with the name of a serial port is accepted: `¹` is a digit of a port to Windows. -/
theorem not_staysBelow_superscriptPort :
    planRequest asciiUpper willingDisk (readsName "COM¹.txt".toList) .razn "D:\\RAZN".toList [] ⟨[], [], []⟩ [] =
        .ok ⟨"D:\\RAZN".toList, "COM¹.txt".toList⟩ ∧
      ¬ UploadStaysBelow asciiUpper "D:\\RAZN".toList ⟨"D:\\RAZN".toList, "COM¹.txt".toList⟩ := by
  have planned : planRequest asciiUpper willingDisk (readsName "COM¹.txt".toList) .razn "D:\\RAZN".toList []
      ⟨[], [], []⟩ [] = .ok ⟨"D:\\RAZN".toList, "COM¹.txt".toList⟩ := by decide +kernel
  constructor
  · exact planned
  · intro below
    obtain ⟨metadata, closed, plan⟩ := planRequest_spec planned
    have proper := (below.proper plan).2
    rw [← plan.baseName] at proper
    exact proper.noDevice (by decide +kernel)

end SearchEngine.Upload
