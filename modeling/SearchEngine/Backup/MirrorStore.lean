import Mathlib.Data.Char
import Mathlib.Data.List.Lex
import SearchEngine.Backup.RestorePoints
import SearchEngine.Lib.SortedMap

/-!
# The store of a mirror history

`current/data` holds the last copy of every file, `objects/by-path` the replaced
copies, each under its path and its SHA-256, and the manifests of the restore
points name contents by path and SHA-256. Paths are told apart as the file system
tells them apart; what a file system call answers is input.
-/

namespace SearchEngine.Backup

open SearchEngine.Lib

/-- `HistoryFile`. Its path is its key. -/
structure HistoryFile where
  size : Nat
  sha256 : Name
  sourceFingerprint : Name
  fingerprintReliable : Bool
  capturedAt : Name
  capturedUnixSeconds : Int
  method : Name
deriving DecidableEq

/-- `HistoryState`, which `stateToJson` writes as a manifest and `readState` reads. -/
structure HistoryState where
  complete : Bool
  files : SortedMap Name HistoryFile
  directories : List Name
  errors : List Name

/-- What `sha256File` finds in a file. -/
structure Hashing (Content : Type) where
  sha256 : Content → Name
  size : Content → Nat

/-- The files below the root of a target. -/
structure MirrorStore (Content : Type) where
  /-- `current/data` -/
  data : Name → Option Content
  /-- `objects/by-path/<path>/<sha256>` -/
  objects : Name → Name → Option Content
  /-- `current/manifest.json` -/
  manifest : Option HistoryState
  /-- `restore_points` -/
  points : MirrorPoints HistoryState

variable {Content : Type} (hashing : Hashing Content)

/-- The manifests of the readable points of a tier. -/
def TierHistory.manifests (h : TierHistory Content) : List (PointManifest Content) :=
  h.points.filterMap PointDirectory.manifest

/-- The manifests of the readable points. -/
def MirrorPoints.manifests (points : MirrorPoints Content) : List (PointManifest Content) :=
  points.tiers.flatMap TierHistory.manifests

namespace MirrorStore

/-- The store with another current copy of a path. -/
def setData (store : MirrorStore Content) (relative : Name) (copy : Option Content) : MirrorStore Content :=
  { store with data := Function.update store.data relative copy }

/-- A restore point names this content of this path. -/
def References (store : MirrorStore Content) (path digest : Name) : Prop :=
  ∃ manifest ∈ store.points.manifests, ∃ file, manifest.current.files.find? path = some file ∧ file.sha256 = digest

/-! ## Resolving -/

/-- `RestoreResolveStatus`. -/
inductive ResolveStatus where
  | missing
  | inObjects
  | inCurrent
deriving DecidableEq

/-- `resolveManifestFile`: the object of the digest, else the current copy. -/
def resolveManifestFile (store : MirrorStore Content) (path digest : Name) :
    ResolveStatus × Option Content :=
  match store.objects path digest with
  | some content => (.inObjects, some content)
  | none =>
      match store.data path with
      | some content => (.inCurrent, some content)
      | none => (.missing, none)

/-- What is resolved is a content with the digest. -/
def Restorable (store : MirrorStore Content) (path digest : Name) : Prop :=
  ∃ content, (store.resolveManifestFile path digest).2 = some content ∧ hashing.sha256 content = digest

/-- The current copy of the path has the digest. -/
def Holds (store : MirrorStore Content) (path digest : Name) : Prop :=
  ∃ content ∈ store.data path, hashing.sha256 content = digest

instance (store : MirrorStore Content) (path digest : Name) : Decidable (store.Holds hashing path digest) :=
  inferInstanceAs (Decidable (∃ _ ∈ _, _))

/-- Every object is stored under its own digest. -/
def ObjectsSound (store : MirrorStore Content) : Prop :=
  ∀ path digest content, store.objects path digest = some content → hashing.sha256 content = digest

/-! ## Archiving the current copy -/

/-- What the calls of `archiveCurrentFile` answer. With `blocked` something that is
no file stands where the object belongs. -/
structure ArchiveAnswers where
  existsError : Option Name
  hashError : Option Name
  directoryError : Option Name
  blocked : Bool
  inspectError : Option Name
  removeError : Option Name
  renameError : Option Name

/-- The answers of a file system that lets every call succeed. -/
def ArchiveAnswers.quiet : ArchiveAnswers := ⟨none, none, none, false, none, none, none⟩

/-- The objects with one more. -/
def withObject (objects : Name → Name → Option Content) (relative digest : Name) (content : Content) :
    Name → Name → Option Content :=
  fun path name => if path = relative ∧ name = digest then some content else objects path name

/-- `archiveCurrentFile`: on success the store and the digest of `archived_object`. -/
def archiveCurrentFile (store : MirrorStore Content) (relative : Name) (answers : ArchiveAnswers) :
    Except Name (MirrorStore Content × Option Name) :=
  match answers.existsError with
  | some message => .error ("cannot inspect current file: ".toList ++ message)
  | none =>
  match store.data relative with
  | none => .ok (store, none)
  | some content =>
  match answers.hashError with
  | some message => .error message
  | none =>
  let digest := hashing.sha256 content
  match answers.directoryError with
  | some message => .error ("cannot create object directory: ".toList ++ message)
  | none =>
  let removed := store.setData relative none
  if (store.objects relative digest).isSome || answers.blocked then
    match answers.inspectError with
    | some message => .error ("cannot inspect historical object: ".toList ++ message)
    | none =>
    match answers.removeError with
    | some message => .error ("cannot remove duplicate current file: ".toList ++ message)
    | none => .ok (removed, some digest)
  else
    match answers.renameError with
    | some message => .error ("cannot archive current version: ".toList ++ message)
    | none =>
        .ok ({ removed with objects := withObject store.objects relative digest content }, some digest)

/-! ## Cleaning up -/

/-- What the enumerations of the cleanup reach: the point manifests that are found
and parsed, and the objects that are found and can be removed. -/
structure CleanupAnswers where
  reads : Name → Name → Bool
  removes : Name → Name → Bool

/-- `collectPointReferences`, as a test. -/
def isReferenced (store : MirrorStore Content) (answers : CleanupAnswers) (path digest : Name) : Bool :=
  store.points.tiers.any fun h => h.points.any fun point =>
    answers.reads h.tier.name point.name && point.manifest.any fun manifest =>
      (manifest.current.files.find? path).any fun file => file.sha256 == digest

/-- `collectGarbageObjects`. -/
def collectGarbageObjects (store : MirrorStore Content) (current : HistoryState)
    (answers : CleanupAnswers) : MirrorStore Content :=
  { store with
    objects := fun path digest =>
      let isCurrent := (current.files.find? path).any fun file => file.sha256 == digest
      if answers.removes path digest && (isCurrent || !store.isReferenced answers path digest) then none
      else store.objects path digest }

/-! ## Lemmas -/

variable {hashing} {store : MirrorStore Content} {path digest : Name}

theorem resolve_of_object {content : Content} (there : store.objects path digest = some content) :
    store.resolveManifestFile path digest = (.inObjects, some content) := by
  rw [resolveManifestFile, there]

theorem resolve_of_no_object (absent : store.objects path digest = none) :
    (store.resolveManifestFile path digest).2 = store.data path := by
  rw [resolveManifestFile, absent]
  cases store.data path <;> rfl

/-- With sound objects a content is restorable from its object or its current copy. -/
theorem restorable_iff (sound : store.ObjectsSound hashing) :
    store.Restorable hashing path digest ↔
      (store.objects path digest).isSome = true ∨ store.Holds hashing path digest := by
  constructor
  · rintro ⟨content, resolved, hashed⟩
    cases there : store.objects path digest with
    | some object => exact .inl rfl
    | none =>
        rw [resolve_of_no_object there] at resolved
        exact .inr ⟨content, resolved, hashed⟩
  · intro either
    cases there : store.objects path digest with
    | some object =>
        have hashed := sound path digest object there
        exact ⟨object, by rw [resolve_of_object there], hashed⟩
    | none =>
        rw [there] at either
        obtain ⟨content, copy, hashed⟩ := either.resolve_left Bool.false_ne_true
        exact ⟨content, by rw [resolve_of_no_object there, copy], hashed⟩

/-- What archiving the current copy of a path leaves. -/
structure Archived (hashing : Hashing Content) (before : MirrorStore Content) (relative : Name)
    (after : MirrorStore Content) : Prop where
  data : after.data = Function.update before.data relative none
  manifest : after.manifest = before.manifest
  points : after.points = before.points
  sound : before.ObjectsSound hashing → after.ObjectsSound hashing
  kept : ∀ path digest, (before.objects path digest).isSome = true → (after.objects path digest).isSome = true
  moved : ∀ content, before.data relative = some content →
    (after.objects relative (hashing.sha256 content)).isSome = true

theorem archived_of_absent {relative : Name} (absent : store.data relative = none) :
    store.Archived hashing relative store where
  data := by rw [← absent, Function.update_eq_self]
  manifest := rfl
  points := rfl
  sound := id
  kept := fun _ _ => id
  moved := by
    intro content copy
    rw [absent] at copy
    cases copy

theorem objectsSound_withObject {relative : Name} {content : Content} {data : Name → Option Content}
    (sound : store.ObjectsSound hashing) :
    ({ store with
        data := data
        objects := withObject store.objects relative (hashing.sha256 content) content } :
      MirrorStore Content).ObjectsSound hashing := by
  intro path digest found stored
  dsimp only [withObject] at stored
  split at stored
  · next place => rw [place.2, Option.some.inj stored]
  · exact sound path digest found stored

/-- A copy that already has an object is removed, any other becomes the object. -/
theorem archived_of_ok {relative : Name} {answers : ArchiveAnswers} {after : MirrorStore Content}
    {object : Option Name} (free : answers.blocked = false)
    (done : store.archiveCurrentFile hashing relative answers = .ok (after, object)) :
    store.Archived hashing relative after := by
  unfold archiveCurrentFile at done
  split at done
  · cases done
  split at done
  · next absent =>
      obtain ⟨rfl, -⟩ := Prod.mk.inj (Except.ok.inj done)
      exact archived_of_absent absent
  next content copy =>
  split at done
  · cases done
  dsimp only at done
  split at done
  · cases done
  rw [free, Bool.or_false] at done
  split at done
  · next there =>
      split at done
      · cases done
      split at done
      · cases done
      obtain ⟨rfl, -⟩ := Prod.mk.inj (Except.ok.inj done)
      refine ⟨rfl, rfl, rfl, id, fun _ _ => id, fun other copied => ?_⟩
      obtain rfl := Option.some.inj (copy.symm.trans copied)
      exact there
  · split at done
    · cases done
    obtain ⟨rfl, -⟩ := Prod.mk.inj (Except.ok.inj done)
    exact
      { data := rfl
        manifest := rfl
        points := rfl
        sound := objectsSound_withObject
        kept := by
          intro path name there
          dsimp only [withObject]
          split
          · rfl
          · exact there
        moved := by
          intro other copied
          obtain rfl := Option.some.inj (copy.symm.trans copied)
          simp [withObject] }

/-- Archiving loses no content that could be restored. -/
theorem Archived.restorable {relative : Name} {after : MirrorStore Content}
    (archived : store.Archived hashing relative after) (sound : store.ObjectsSound hashing)
    (restorable : store.Restorable hashing path digest) : after.Restorable hashing path digest := by
  rw [restorable_iff (archived.sound sound)]
  rcases (restorable_iff sound).mp restorable with there | ⟨content, copy, hashed⟩
  · exact .inl (archived.kept path digest there)
  · by_cases same : path = relative
    · subst same
      subst hashed
      exact .inl (archived.moved content copy)
    · refine .inr ⟨content, ?_, hashed⟩
      rw [archived.data, Function.update_of_ne same]
      exact copy

theorem Archived.holds {relative : Name} {after : MirrorStore Content}
    (archived : store.Archived hashing relative after) (other : path ≠ relative)
    (holds : store.Holds hashing path digest) : after.Holds hashing path digest := by
  obtain ⟨content, copy, hashed⟩ := holds
  refine ⟨content, ?_, hashed⟩
  rw [archived.data, Function.update_of_ne other]
  exact copy

/-- A content stays restorable while its path gets a new current copy, if there was none. -/
theorem Restorable.setData {relative : Name} {copy : Option Content} (absent : store.data relative = none)
    (sound : store.ObjectsSound hashing) (restorable : store.Restorable hashing path digest) :
    (store.setData relative copy).Restorable hashing path digest := by
  have soundAfter : (store.setData relative copy).ObjectsSound hashing := sound
  rw [restorable_iff soundAfter]
  rcases (restorable_iff sound).mp restorable with there | ⟨content, held, hashed⟩
  · exact .inl there
  · have other : path ≠ relative := by
      intro same
      rw [same, absent] at held
      cases held
    exact .inr ⟨content, (Function.update_of_ne other _ _).trans held, hashed⟩

theorem Holds.setData {relative : Name} {copy : Option Content} (other : path ≠ relative)
    (holds : store.Holds hashing path digest) : (store.setData relative copy).Holds hashing path digest := by
  obtain ⟨content, held, hashed⟩ := holds
  exact ⟨content, (Function.update_of_ne other _ _).trans held, hashed⟩

/-- Every readable point is found and parsed. -/
def ReadsAll (store : MirrorStore Content) (answers : CleanupAnswers) : Prop :=
  ∀ h ∈ store.points.tiers, ∀ point ∈ h.points, point.isReadable = true →
    answers.reads h.tier.name point.name = true

instance (store : MirrorStore Content) (answers : CleanupAnswers) : Decidable (store.ReadsAll answers) :=
  inferInstanceAs (Decidable (∀ _ ∈ _, ∀ _ ∈ _, _ → _))

theorem References.isReferenced (references : store.References path digest) {answers : CleanupAnswers}
    (readsAll : store.ReadsAll answers) : store.isReferenced answers path digest = true := by
  obtain ⟨manifest, member, file, recorded, same⟩ := references
  obtain ⟨h, tier, point⟩ := List.mem_flatMap.mp member
  obtain ⟨point, there, parsed⟩ := List.mem_filterMap.mp point
  have readable : point.isReadable = true := by rw [PointDirectory.isReadable, parsed]; rfl
  rw [MirrorStore.isReferenced, List.any_eq_true]
  refine ⟨h, tier, ?_⟩
  rw [List.any_eq_true]
  exact ⟨point, there, by simp [readsAll h tier point there readable, parsed, recorded, same]⟩

theorem objectsSound_collect {current : HistoryState} {answers : CleanupAnswers}
    (sound : store.ObjectsSound hashing) : (store.collectGarbageObjects current answers).ObjectsSound hashing := by
  intro path digest content there
  dsimp only [collectGarbageObjects] at there
  split at there
  · cases there
  · exact sound path digest content there

/-- The cleanup keeps what a restore point names, if it reads every point and the
current copies are those of the state it goes by. -/
theorem restorable_collect {current : HistoryState} {answers : CleanupAnswers}
    (sound : store.ObjectsSound hashing) (readsAll : store.ReadsAll answers)
    (mirrored : ∀ path file, current.files.find? path = some file → store.Holds hashing path file.sha256)
    (references : store.References path digest) (restorable : store.Restorable hashing path digest) :
    (store.collectGarbageObjects current answers).Restorable hashing path digest := by
  have soundAfter : (store.collectGarbageObjects current answers).ObjectsSound hashing :=
    objectsSound_collect sound
  rw [restorable_iff soundAfter]
  by_cases isCurrent : ∃ file, current.files.find? path = some file ∧ file.sha256 = digest
  · obtain ⟨file, recorded, rfl⟩ := isCurrent
    exact .inr (mirrored path file recorded)
  · rcases (restorable_iff sound).mp restorable with there | holds
    · left
      have other : ((current.files.find? path).any fun file => file.sha256 == digest) = false := by
        cases recorded : current.files.find? path with
        | none => rfl
        | some file =>
            have differs : file.sha256 ≠ digest := fun same => isCurrent ⟨file, recorded, same⟩
            simpa using differs
      have named := references.isReferenced readsAll
      simpa [collectGarbageObjects, other, named] using there
    · exact .inr holds

end MirrorStore

end SearchEngine.Backup
