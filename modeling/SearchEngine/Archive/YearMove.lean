import SearchEngine.Archive.RestoreMerge

/-!
# Moving a year into the archive

`executeYearMove` copies the directories of a year and the monthly databases into a staging
directory and renames it to the directory of the year. `cleanupYearMoveFiles` deletes the
sources later, from the manifest in that directory. Places are named as the file system tells
them apart, contents are what size and SHA-256 tell apart; every step may fail.
-/

namespace SearchEngine.Archive

open SearchEngine.Lib

universe u

/-- The names that lead to a place, its drive first. -/
abbrev Place := List Name

/-- `MonthlyDatabase::Kind`. -/
inductive DatabaseKind where
  | prm
  | prd
deriving DecidableEq

structure MonthlyDatabase where
  kind : DatabaseKind
  month : Nat
  source : Place
  relativeTarget : RelativePath
deriving DecidableEq

/-- A `PathMapping`; its target is given below the directory of the year. -/
structure YearMapping where
  source : Place
  relativeTarget : RelativePath
deriving DecidableEq

structure YearMovePlan where
  year : Nat
  archiveRoot : Place
  databases : List MonthlyDatabase
  mappings : List YearMapping

def YearMovePlan.yearName (plan : YearMovePlan) : Name := (toString plan.year).toList

def YearMovePlan.finalDirectory (plan : YearMovePlan) : Place := plan.archiveRoot ++ [plan.yearName]

def YearMovePlan.staging (plan : YearMovePlan) : Place :=
  plan.archiveRoot ++ ['.' :: (plan.yearName ++ ".staging".toList)]

def manifestName : Name := "archive-operation.json".toList
def hashListName : Name := "files.sha256".toList

/-- `SQLiteSourceFingerprint` of a database that could be inspected. -/
structure SourceFingerprint where
  value : String
  cacheable : Bool
deriving DecidableEq

structure CopiedFile (Content : Type u) where
  source : Place
  target : Place
  content : Content
deriving DecidableEq

/-- A database of the manifest. -/
structure ArchivedDatabase (Content : Type u) where
  kind : DatabaseKind
  month : Nat
  source : Place
  target : Place
  targetContent : Content
  fingerprint : SourceFingerprint
deriving DecidableEq

inductive ManifestPhase where
  | published
  | sourceFilesCleaned
  | sourceFilesAndMonthlyDatabasesCleaned
deriving DecidableEq

structure Manifest (Content : Type u) where
  phase : ManifestPhase
  mappings : List Place
  files : List (CopiedFile Content)
  databases : List (ArchivedDatabase Content)
deriving DecidableEq

/-- What the operations rest on besides the tree. -/
structure YearSystem (Content : Type u) where
  /-- The entries of a recursive iteration. -/
  walk : FileTree Name Content → Place → List RelativePath
  nodup : ∀ tree root, (walk tree root).Nodup
  complete : ∀ tree root rest, rest ∈ walk tree root ↔ rest ≠ [] ∧ (tree.node (root ++ rest)).isSome
  /-- Where a reparse point leads. -/
  linked : Place → Option (Node Content)
  isTlgRoot : Place → Bool
  /-- `backupSQLiteDatabase`: what the copy of a database holds. -/
  backup : FileTree Name Content → Place → Option Content
  /-- `rewriteDirectTo` and `verifySQLiteDatabase`. -/
  rewrite : Content → Option Content
  /-- `inspectSQLiteSource`; a directory has no size. -/
  inspect : FileTree Name Content → Place → Option SourceFingerprint
  inspects : ∀ tree place, (inspect tree place).isSome → tree.node place ≠ some .directory
  hashList : List (CopiedFile Content) → Content
  dump : Manifest Content → Content
  parse : Content → Option (Manifest Content)

/-- The steps that may fail. -/
inductive YearStep where
  | createDirectory (place : Place)
  | backup (database : Place)
  | iterate (directory : Place)
  | copyFile (source : Place)
  | hashFile (place : Place)
  | rewrite (database : Place)
  | inspect (database : Place)
  | writeHashList
  | writeManifest
  | publish
  | inspectFile (place : Place)
  | removeFile (place : Place)
  | removeRoot (place : Place)
  | removeDatabase (place : Place)
deriving DecidableEq

variable {Content : Type u}

/-- Which directories cannot be created. -/
def yearDirectoryFails (fails : YearStep → Bool) (place : Place) : Bool := fails (.createDirectory place)

/-- What `status` finds at a place. -/
def YearSystem.status (sys : YearSystem Content) (tree : FileTree Name Content) (place : Place) : Option (Node Content) :=
  match tree.node place with
  | some .other => sys.linked place
  | found => found

/-- What can be read at a place. -/
def YearSystem.contentAt (sys : YearSystem Content) (tree : FileTree Name Content) (place : Place) : Option Content :=
  match sys.status tree place with
  | some (.file content) => some content
  | _ => none

/-! ## Copying -/

/-- `shouldSkipTlgTopLevelEntry`. -/
def shouldSkipTlgTopLevelEntry (name : Name) (isDirectory : Bool) (archivedYear : Nat) : Bool :=
  if !isDirectory then false
  else if name.map Char.toUpper = "OUT".toList then true
  else if name.length ≠ 4 || !name.all Char.isDigit then false
  else name.foldl (fun value digit => value * 10 + (digit.toNat - '0'.toNat)) 0 ≠ archivedYear

/-- The entries below a skipped directory are not met. -/
def YearSystem.skips (sys : YearSystem Content) (year : Nat) (tree : FileTree Name Content) (source : Place) :
    RelativePath → Bool
  | [] => false
  | name :: _ =>
      sys.isTlgRoot source &&
        shouldSkipTlgTopLevelEntry name ((sys.status tree (source ++ [name])).any Node.isDirectory) year

/-- What a step of the copy leaves: the tree, the files copied so far, and the error. -/
abbrev CopyOutcome (Content : Type u) := FileTree Name Content × List (CopiedFile Content) × Option String

/-- `copyOneFile`. -/
def copyOneFile (sys : YearSystem Content) (fails : YearStep → Bool) (source target : Place)
    (tree : FileTree Name Content) (copied : List (CopiedFile Content)) : CopyOutcome Content :=
  match tree.createDirectories (yearDirectoryFails fails) [] target.dropLast with
  | (made, false) => (made, copied, some "filesystem_error")
  | (made, true) =>
      if (sys.status made target).isSome then (made, copied, some "target collision: ")
      else if fails (.copyFile source) then (made, copied, some "cannot copy ")
      else
        match sys.contentAt made source with
        | none => (made, copied, some "cannot copy ")
        | some content =>
            match made.create target (.file content) with
            | none => (made, copied, some "cannot copy ")
            | some next =>
                if fails (.hashFile source) || fails (.hashFile target) then
                  (next, copied, some "copied file verification failed: ")
                else (next, copied ++ [⟨source, target, content⟩], none)

/-- The loop of `copyTree`. -/
def copyEntries (sys : YearSystem Content) (fails : YearStep → Bool) (source target : Place) :
    List RelativePath → FileTree Name Content → List (CopiedFile Content) → CopyOutcome Content
  | [], tree, copied => (tree, copied, none)
  | relative :: rest, tree, copied =>
      match sys.status tree (source ++ relative) with
      | some .directory =>
          match tree.createDirectories (yearDirectoryFails fails) [] (target ++ relative) with
          | (made, false) => (made, copied, some "filesystem_error")
          | (made, true) => copyEntries sys fails source target rest made copied
      | some (.file _) =>
          match copyOneFile sys fails (source ++ relative) (target ++ relative) tree copied with
          | (next, more, none) => copyEntries sys fails source target rest next more
          | (next, more, some error) => (next, more, some error)
      | some .other => copyEntries sys fails source target rest tree copied
      | none => (tree, copied, some "symbolic links/reparse points are not moved: ")

/-- `copyTree`. -/
def copyTree (sys : YearSystem Content) (fails : YearStep → Bool) (year : Nat) (source target : Place)
    (tree : FileTree Name Content) (copied : List (CopiedFile Content)) : CopyOutcome Content :=
  if !(sys.status tree source).any Node.isDirectory then (tree, copied, some "source directory does not exist: ")
  else
    match tree.createDirectories (yearDirectoryFails fails) [] target with
    | (made, false) => (made, copied, some "filesystem_error")
    | (made, true) =>
        if fails (.iterate source) then (made, copied, some "filesystem_error")
        else
          copyEntries sys fails source target ((sys.walk made source).filter (!sys.skips year made source ·)) made copied

/-! ## executeYearMove -/

/-- The copies of the databases. -/
def copyDatabases (sys : YearSystem Content) (fails : YearStep → Bool) (staging : Place) :
    List MonthlyDatabase → FileTree Name Content → FileTree Name Content × Option String
  | [], tree => (tree, none)
  | database :: rest, tree =>
      match tree.createDirectories (yearDirectoryFails fails) [] (staging ++ database.relativeTarget).dropLast with
      | (made, false) => (made, some "filesystem_error")
      | (made, true) =>
          if fails (.backup database.source) then (made, some "SQLite backup failed: ")
          else
            match sys.backup made database.source with
            | none => (made, some "SQLite backup failed: ")
            | some content =>
                match made.create (staging ++ database.relativeTarget) (.file content) with
                | none => (made, some "SQLite backup failed: ")
                | some next => copyDatabases sys fails staging rest next

/-- The copies of the directories. -/
def copyMappings (sys : YearSystem Content) (fails : YearStep → Bool) (year : Nat) (staging : Place) :
    List YearMapping → FileTree Name Content → List (CopiedFile Content) → CopyOutcome Content
  | [], tree, copied => (tree, copied, none)
  | mapping :: rest, tree, copied =>
      match copyTree sys fails year mapping.source (staging ++ mapping.relativeTarget) tree copied with
      | (next, more, none) => copyMappings sys fails year staging rest next more
      | (next, more, some error) => (next, more, some error)

/-- The paths in the copies of the databases. -/
def rewriteDatabases (sys : YearSystem Content) (fails : YearStep → Bool) (staging : Place) :
    List MonthlyDatabase → FileTree Name Content → FileTree Name Content × Option String
  | [], tree => (tree, none)
  | database :: rest, tree =>
      if fails (.rewrite database.source) then (tree, some "rewritten SQLite verification failed: ")
      else
        match (sys.contentAt tree (staging ++ database.relativeTarget)).bind sys.rewrite with
        | none => (tree, some "rewritten SQLite verification failed: ")
        | some content =>
            match tree.overwrite (staging ++ database.relativeTarget) content with
            | none => (tree, some "rewritten SQLite verification failed: ")
            | some next => rewriteDatabases sys fails staging rest next

/-- What the manifest says about the databases. -/
def describeDatabases (sys : YearSystem Content) (fails : YearStep → Bool) (staging finalDirectory : Place)
    (tree : FileTree Name Content) : List MonthlyDatabase → Option (List (ArchivedDatabase Content))
  | [] => some []
  | database :: rest =>
      if fails (.inspect database.source) || fails (.hashFile (staging ++ database.relativeTarget)) then none
      else
        match sys.inspect tree database.source, sys.contentAt tree (staging ++ database.relativeTarget) with
        | some fingerprint, some content =>
            (describeDatabases sys fails staging finalDirectory tree rest).map
              (⟨database.kind, database.month, database.source, finalDirectory ++ database.relativeTarget, content,
                fingerprint⟩ :: ·)
        | _, _ => none

/-- The target in the published directory of a file copied into the staging one. -/
def CopiedFile.publishedAs (plan : YearMovePlan) (file : CopiedFile Content) : CopiedFile Content :=
  { file with target := plan.finalDirectory ++ file.target.drop plan.staging.length }

/-- The manifest of a plan. -/
def planManifest (plan : YearMovePlan) (copied : List (CopiedFile Content)) (databases : List (ArchivedDatabase Content)) :
    Manifest Content where
  phase := .published
  mappings := plan.mappings.map YearMapping.source
  files := copied.map (CopiedFile.publishedAs plan)
  databases := databases

/-- From the manifest on. -/
def publishYear (sys : YearSystem Content) (fails : YearStep → Bool) (plan : YearMovePlan) (tree : FileTree Name Content)
    (copied : List (CopiedFile Content)) : FileTree Name Content × Except String (Manifest Content) :=
  match describeDatabases sys fails plan.staging plan.finalDirectory tree plan.databases with
  | none => (tree, .error "cannot fingerprint monthly database after backup: ")
  | some databases =>
      let manifest := planManifest plan copied databases
      if fails .writeHashList then (tree, .error "cannot finish SHA-256 list")
      else
        match tree.writeFile (plan.staging ++ [hashListName]) (sys.hashList manifest.files) with
        | none => (tree, .error "cannot finish SHA-256 list")
        | some listed =>
            if fails .writeManifest then (listed, .error "cannot write manifest: ")
            else
              match listed.writeFile (plan.staging ++ [manifestName]) (sys.dump manifest) with
              | none => (listed, .error "cannot write manifest: ")
              | some written =>
                  if fails .publish then (written, .error "cannot publish archive year: ")
                  else
                    match written.rename plan.staging plan.finalDirectory with
                    | none => (written, .error "cannot publish archive year: ")
                    | some published => (published, .ok manifest)

/-- `executeYearMove`: the tree afterwards, and the manifest of a published archive. -/
def executeYearMove (sys : YearSystem Content) (fails : YearStep → Bool) (plan : YearMovePlan)
    (tree : FileTree Name Content) : FileTree Name Content × Except String (Manifest Content) :=
  match tree.createDirectories (yearDirectoryFails fails) [] plan.archiveRoot with
  | (made, false) => (made, .error "filesystem_error")
  | (made, true) =>
      if (sys.status made plan.staging).isSome then (made, .error "staging directory already exists: ")
      else
        match made.ensureDirectory (yearDirectoryFails fails) plan.staging with
        | none => (made, .error "filesystem_error")
        | some staged =>
            match copyDatabases sys fails plan.staging plan.databases staged with
            | (next, some error) => (next, .error error)
            | (next, none) =>
                match copyMappings sys fails plan.year plan.staging plan.mappings next [] with
                | (copies, _, some error) => (copies, .error error)
                | (copies, copied, none) =>
                    match rewriteDatabases sys fails plan.staging plan.databases copies with
                    | (rewritten, some error) => (rewritten, .error error)
                    | (rewritten, none) => publishYear sys fails plan rewritten copied

end SearchEngine.Archive
