import SearchEngine.Backup.MirrorFilesystem

/-!
# Restoring a point

`MirrorHistoryRestore` copies the planned files into a staging directory, hashes what
it copied, moves a destination that is in the way to a free name and publishes the
staging directory by a rename. What the file system answers and what a copy really
writes is input; what cannot be inspected counts as absent.
-/

namespace SearchEngine.Backup

open SearchEngine.Lib

/-- A directory: its files, and the directories made besides them. -/
structure Tree (Content : Type) where
  files : Name → Option Content
  directories : List Name

/-- A new directory. -/
def Tree.empty {Content : Type} : Tree Content := ⟨fun _ => none, []⟩

/-- `MirrorManifestFile`. -/
structure ManifestFile where
  path : Name
  size : Nat
  sha256 : Name

/-- `MirrorManifest`, as far as a restore reads it. -/
structure MirrorManifest where
  files : List ManifestFile
  directories : List Name

/-- `RestorePlanEntry`. -/
structure PlanEntry (Content : Type) where
  path : Name
  size : Nat
  sha256 : Name
  source : MirrorStore.ResolveStatus × Option Content

/-- The destination, the names `<destination>.before_restore[_n]`, the names
`.backuprestore.partial_<n>` beside it, and `staging_sequence`. -/
structure RestorePlace (Content : Type) where
  destination : Option (Tree Content)
  retired : SortedMap Nat (Tree Content)
  partials : SortedMap Nat (Tree Content)
  stagingSequence : Nat

/-- What the progress sink and a copy do at an entry. -/
inductive CopyAnswer (Content : Type) where
  | cancelled
  | failed (message : Name)
  | copied (content : Content)

/-- What the progress sink and `sha256File` do at an entry. -/
inductive HashAnswer where
  | cancelled
  | failed (message : Name)
  | hashed
deriving DecidableEq

structure RestoreAnswers (Content : Type) where
  /-- whether the destination can be inspected before the plan is made -/
  seesDestination : Bool
  seesObject : Name → Name → Bool
  seesData : Name → Bool
  parentError : Option Name
  /-- whether a name for the staging directory can be inspected -/
  seesPartial : Nat → Bool
  stagingError : Option Name
  copies : Nat → CopyAnswer Content
  makes : Name → Bool
  hashes : Nat → HashAnswer
  /-- whether the destination and a name for the old one can be inspected at the end -/
  seesOld : Bool
  inspects : Nat → Bool
  retireError : Option Name
  publishError : Option Name
  /-- what is left of the staging directory when it is removed after an error -/
  remains : Option (Tree Content)

variable {Content : Type} (hashing : Hashing Content)

/-! ## Plan and verification -/

/-- `pathAllowed`. -/
def pathAllowed (filter : List Name) (path : Name) : Bool := filter.isEmpty || filter.contains path

/-- `plan`. -/
def MirrorStore.plan (store : MirrorStore Content) (manifest : MirrorManifest) (filter : List Name) :
    List (PlanEntry Content) :=
  (manifest.files.filter fun file => pathAllowed filter file.path).map fun file =>
    ⟨file.path, file.size, file.sha256, store.resolveManifestFile file.path file.sha256⟩

def quoted (path : Name) : Name := '"' :: path ++ ['"']

/-- The loops of `verify` and of the staging check: the error of the first entry that
is not found with its size and digest. -/
def verifyEntries (hashes : Nat → HashAnswer) (found : PlanEntry Content → Option Content)
    (missing mismatch : Name → Name) : Nat → List (PlanEntry Content) → Option Name
  | _, [] => none
  | index, entry :: rest =>
      match hashes index with
      | .cancelled => some "cancelled".toList
      | answer =>
      match found entry with
      | none => some (missing entry.path)
      | some content =>
      match answer with
      | .failed message => some message
      | _ =>
      if hashing.size content != entry.size || hashing.sha256 content != entry.sha256 then
        some (mismatch entry.path)
      else verifyEntries hashes found missing mismatch (index + 1) rest

/-- `verify`: the error, if any. -/
def MirrorStore.verify (store : MirrorStore Content) (manifest : MirrorManifest) (filter : List Name)
    (hashes : Nat → HashAnswer) : Option Name :=
  verifyEntries hashing hashes (fun entry => entry.source.2)
    (fun path => "missing data for ".toList ++ quoted path)
    (fun path => "hash mismatch for ".toList ++ quoted path) 0 (store.plan manifest filter)

/-! ## Restore -/

/-- The copy loop of `restore`. -/
def copyEntries (copies : Nat → CopyAnswer Content) :
    Nat → List (PlanEntry Content) → Tree Content → Except Name (Tree Content)
  | _, [], tree => .ok tree
  | index, entry :: rest, tree =>
      match copies index with
      | .cancelled => .error "cancelled".toList
      | .failed message => .error message
      | .copied content =>
          copyEntries copies (index + 1) rest
            { tree with files := Function.update tree.files entry.path (some content) }

/-- The first index that is free or cannot be inspected. One of those tried is free, see
`freeIndex_free`. -/
def freeIndex (taken : SortedMap Nat (Tree Content)) (inspects : Nat → Bool) (start : Nat) : Nat :=
  ((List.range' start (taken.keys.length + 1)).find? fun index =>
    (taken.find? index).isNone || !inspects index).getD start

/-- What `is_regular_file` shows of the store. -/
def MirrorStore.seen (store : MirrorStore Content) (answers : RestoreAnswers Content) : MirrorStore Content :=
  { store with
    objects := fun path digest => if answers.seesObject path digest then store.objects path digest else none
    data := fun path => if answers.seesData path then store.data path else none }

namespace RestorePlace

/-- `uniqueStagingPath`: the number in the name. -/
def uniqueStagingPath (place : RestorePlace Content) (answers : RestoreAnswers Content) : Nat :=
  freeIndex place.partials answers.seesPartial place.stagingSequence

/-- What the staging directory holds when it is taken. -/
def leftover (place : RestorePlace Content) (answers : RestoreAnswers Content) : Tree Content :=
  (place.partials.find? (place.uniqueStagingPath answers)).getD .empty

/-- `cleanup`, and the error. -/
def cleanup (place : RestorePlace Content) (answers : RestoreAnswers Content) (error : Name) :
    RestorePlace Content × Option Name :=
  let index := place.uniqueStagingPath answers
  ({ place with
      partials :=
        match answers.remains with
        | none => place.partials.erase index
        | some tree => place.partials.insert index tree
      stagingSequence := index + 1 }, some error)

/-- `replaceDirectory`. -/
def replaceDirectory (place : RestorePlace Content) (answers : RestoreAnswers Content) (tree : Tree Content) :
    RestorePlace Content × Option Name :=
  match answers.publishError, place.destination with
  | none, none =>
      let index := place.uniqueStagingPath answers
      ({ place with
          destination := some tree
          partials := place.partials.erase index
          stagingSequence := index + 1 }, none)
  | none, some _ => place.cleanup answers "cannot publish restored directory: file exists".toList
  | some message, _ => place.cleanup answers ("cannot publish restored directory: ".toList ++ message)

/-- The renames that publish the staging directory. -/
def publish (place : RestorePlace Content) (answers : RestoreAnswers Content) (tree : Tree Content) :
    RestorePlace Content × Option Name :=
  match place.destination.filter fun _ => answers.seesOld with
  | none => place.replaceDirectory answers tree
  | some old =>
      let index := freeIndex place.retired answers.inspects 0
      match answers.retireError, place.retired.find? index with
      | none, none =>
          { place with destination := none, retired := place.retired.insert index old }.replaceDirectory answers tree
      | none, some _ => place.cleanup answers "cannot retire existing destination: file exists".toList
      | some message, _ => place.cleanup answers ("cannot retire existing destination: ".toList ++ message)

end RestorePlace

/-- `restore`: what it leaves and its error, if any. -/
def MirrorStore.restore (store : MirrorStore Content) (manifest : Except Name MirrorManifest)
    (filter : List Name) (overwrite : Bool) (answers : RestoreAnswers Content) (place : RestorePlace Content) :
    RestorePlace Content × Option Name :=
  if answers.seesDestination && place.destination.isSome && !overwrite then
    (place, some "destination exists (pass overwrite to replace)".toList)
  else
  match manifest with
  | .error message => (place, some message)
  | .ok manifest =>
  let entries := (store.seen answers).plan manifest filter
  if entries.isEmpty then (place, some "nothing to restore".toList)
  else
  match entries.find? fun entry => entry.source.1 == .missing with
  | some entry => (place, some ("missing data for ".toList ++ quoted entry.path))
  | none =>
  match answers.parentError with
  | some message => (place, some ("cannot create destination parent: ".toList ++ message))
  | none =>
  match answers.stagingError with
  | some message =>
      ({ place with stagingSequence := place.uniqueStagingPath answers + 1 },
        some ("cannot create staging directory: ".toList ++ message))
  | none =>
  match copyEntries answers.copies 0 entries (place.leftover answers) with
  | .error message => place.cleanup answers message
  | .ok tree =>
  -- directories are restored with the whole point only, and not all of them may be made
  let directories := if filter.isEmpty then manifest.directories.filter answers.makes else []
  let tree := { tree with directories := tree.directories ++ directories }
  match verifyEntries hashing answers.hashes (fun entry => tree.files entry.path)
      (fun path => "cannot open file: ".toList ++ quoted path)
      (fun path => "staging hash mismatch for ".toList ++ quoted path) 0 entries with
  | some message => place.cleanup answers message
  | none => place.publish answers tree

/-! ## What a restore leaves -/

variable {hashing}

theorem freeIndex_free (taken : SortedMap Nat (Tree Content)) (inspects : Nat → Bool) (start : Nat) :
    taken.find? (freeIndex taken inspects start) = none ∨ inspects (freeIndex taken inspects start) = false := by
  have tried : ∃ index, ((List.range' start (taken.keys.length + 1)).find? fun index =>
      (taken.find? index).isNone || !inspects index) = some index := by
    rw [← Option.isSome_iff_exists, Option.isSome_iff_ne_none]
    intro all_taken
    rw [List.find?_eq_none] at all_taken
    have subset : List.range' start (taken.keys.length + 1) ⊆ taken.keys := by
      intro index member
      have occupied := all_taken index member
      rw [Bool.or_eq_true, not_or] at occupied
      rw [SortedMap.mem_keys_iff]
      exact Option.isSome_iff_exists.mp (by simpa [Option.isSome_iff_ne_none] using occupied.1)
    have bounded := ((List.nodup_range' 1).subperm subset).length_le
    rw [List.length_range'] at bounded
    omega
  obtain ⟨index, found⟩ := tried
  have chosen := List.find?_some found
  rw [freeIndex, found, Option.getD_some]
  rw [Bool.or_eq_true, Option.isNone_iff_eq_none, Bool.not_eq_true'] at chosen
  exact chosen

/-- A staging directory is new if its name could be inspected. -/
theorem RestorePlace.leftover_empty {place : RestorePlace Content} {answers : RestoreAnswers Content}
    (inspected : answers.seesPartial (place.uniqueStagingPath answers) = true) :
    place.leftover answers = .empty := by
  have free : place.partials.find? (place.uniqueStagingPath answers) = none := by
    refine (freeIndex_free place.partials answers.seesPartial place.stagingSequence).resolve_right fun hidden => ?_
    rw [uniqueStagingPath, hidden] at inspected
    cases inspected
  rw [leftover, free]
  rfl

/-- An entry is found with its size and digest. -/
def PlanEntry.FoundIn (hashing : Hashing Content) (entry : PlanEntry Content) (found : Option Content) : Prop :=
  ∃ content, found = some content ∧ hashing.size content = entry.size ∧ hashing.sha256 content = entry.sha256

/-- The loop accepts exactly if every entry is hashed and found. -/
theorem verifyEntries_eq_none {hashes : Nat → HashAnswer} {found : PlanEntry Content → Option Content}
    {missing mismatch : Name → Name} {index : Nat} {entries : List (PlanEntry Content)} :
    verifyEntries hashing hashes found missing mismatch index entries = none ↔
      (∀ n < entries.length, hashes (index + n) = .hashed) ∧
        ∀ entry ∈ entries, entry.FoundIn hashing (found entry) := by
  induction entries generalizing index with
  | nil => simp [verifyEntries]
  | cons entry rest ih =>
      rw [verifyEntries]
      have shifted : (∀ n < (entry :: rest).length, hashes (index + n) = .hashed) ↔
          hashes index = .hashed ∧ ∀ n < rest.length, hashes (index + 1 + n) = .hashed := by
        constructor
        · intro every
          refine ⟨every 0 (by simp), fun n small => ?_⟩
          have next := every (n + 1) (by simpa using small)
          rwa [show index + (n + 1) = index + 1 + n by omega] at next
        · rintro ⟨first, later⟩ n small
          cases n with
          | zero => exact first
          | succ n =>
              rw [show index + (n + 1) = index + 1 + n by omega]
              exact later n (by simpa using small)
      rw [shifted, List.forall_mem_cons]
      cases answer : hashes index with
      | cancelled => simp
      | failed message =>
          cases found entry <;> simp
      | hashed =>
          cases there : found entry with
          | none => simp [PlanEntry.FoundIn]
          | some content =>
              dsimp only
              by_cases same : hashing.size content = entry.size ∧ hashing.sha256 content = entry.sha256
              · rw [if_neg (by simp [same.1, same.2]), ih]
                have here : entry.FoundIn hashing (some content) := ⟨content, rfl, same⟩
                simp [here]
              · have differs : (hashing.size content != entry.size ||
                    hashing.sha256 content != entry.sha256) = true := by
                  rw [Bool.or_eq_true, bne_iff_ne, bne_iff_ne]
                  exact not_and_or.mp same
                rw [if_pos differs]
                have absent : ¬ entry.FoundIn hashing (some content) := by
                  rintro ⟨other, eq, agrees⟩
                  obtain rfl := Option.some.inj eq
                  exact same agrees
                simp [absent]

/-- Copying changes only the planned paths. -/
theorem files_copyEntries {copies : Nat → CopyAnswer Content} {index : Nat}
    {entries : List (PlanEntry Content)} {tree copied : Tree Content}
    (done : copyEntries copies index entries tree = .ok copied) :
    ∀ path, path ∉ entries.map PlanEntry.path → copied.files path = tree.files path := by
  induction entries generalizing index tree with
  | nil =>
      obtain rfl := Except.ok.inj done
      exact fun _ _ => rfl
  | cons entry rest ih =>
      intro path other
      rw [List.map_cons, List.mem_cons, not_or] at other
      rw [copyEntries] at done
      split at done
      · cases done
      · cases done
      · rw [ih done path other.2]
        exact Function.update_of_ne other.1 ..

/-- The tree holds the planned files with their sizes and digests, and otherwise what the
staging directory held. -/
structure Tree.Restores (hashing : Hashing Content) (tree : Tree Content)
    (entries : List (PlanEntry Content)) (leftover : Tree Content) : Prop where
  planned : ∀ entry ∈ entries, entry.FoundIn hashing (tree.files entry.path)
  others : ∀ path, path ∉ entries.map PlanEntry.path → tree.files path = leftover.files path

/-- The old destination, if there was one, stands unchanged under a name that was free. -/
def RestorePlace.Retires (place next : RestorePlace Content) : Prop :=
  match place.destination with
  | none => next.retired = place.retired
  | some old => ∃ index, place.retired.find? index = none ∧ next.retired = place.retired.insert index old

/-- What a call leaves: the plan at the destination, or the old state, or the old
destination under another name and none in its place. -/
inductive RestorePlace.Outcome (hashing : Hashing Content) (entries : List (PlanEntry Content)) (leftover : Tree Content)
    (place next : RestorePlace Content) : Option Name → Prop where
  | restored {tree : Tree Content} (destination : next.destination = some tree)
      (restores : tree.Restores hashing entries leftover) (retires : place.Retires next) :
      Outcome hashing entries leftover place next none
  | unchanged {error : Name} (destination : next.destination = place.destination)
      (retired : next.retired = place.retired) : Outcome hashing entries leftover place next (some error)
  | unpublished {error : Name} (present : place.destination.isSome = true) (destination : next.destination = none)
      (retires : place.Retires next) : Outcome hashing entries leftover place next (some error)

variable {entries : List (PlanEntry Content)} {tree leftover : Tree Content}

/-- Publishing without a destination in the way. -/
theorem RestorePlace.replaceDirectory_outcome (place : RestorePlace Content) (answers : RestoreAnswers Content)
    (restores : tree.Restores hashing entries leftover) :
    place.Outcome hashing entries leftover (place.replaceDirectory answers tree).1
      (place.replaceDirectory answers tree).2 := by
  unfold replaceDirectory
  split
  · next absent => exact .restored rfl restores (by rw [Retires, absent])
  · exact .unchanged rfl rfl
  · exact .unchanged rfl rfl

theorem RestorePlace.publish_outcome (place : RestorePlace Content) (answers : RestoreAnswers Content)
    (restores : tree.Restores hashing entries leftover) :
    place.Outcome hashing entries leftover (place.publish answers tree).1 (place.publish answers tree).2 := by
  unfold publish
  split
  · exact place.replaceDirectory_outcome answers restores
  next old there =>
  have present := (Option.filter_eq_some_iff.mp there).1
  dsimp only
  split
  · next free =>
      -- the old destination is out of the way
      have moved := RestorePlace.replaceDirectory_outcome
        { place with destination := none, retired := place.retired.insert (freeIndex place.retired answers.inspects 0) old }
        answers restores
      have retires (next : RestorePlace Content)
          (same : next.retired = place.retired.insert (freeIndex place.retired answers.inspects 0) old) :
          place.Retires next := by
        rw [Retires, present]
        exact ⟨_, free, same⟩
      revert moved
      generalize RestorePlace.replaceDirectory _ answers tree = result
      obtain ⟨after, error⟩ := result
      intro moved
      cases moved with
      | restored destination restores retired => exact .restored destination restores (retires _ retired)
      | unchanged destination retired =>
          exact .unpublished (by rw [present]; rfl) destination (retires _ retired)
      | unpublished present => cases present
  · exact .unchanged rfl rfl
  · exact .unchanged rfl rfl

/-- Whatever fails and whatever the copies write, a restore either leaves the planned files
at the destination, or loses nothing: the old destination stays, or it stands under a free
name when only the last rename failed. -/
theorem MirrorStore.outcome_restore (store : MirrorStore Content) (manifest : MirrorManifest)
    (filter : List Name) (overwrite : Bool) (answers : RestoreAnswers Content) (place : RestorePlace Content) :
    place.Outcome hashing ((store.seen answers).plan manifest filter) (place.leftover answers)
      (store.restore hashing (.ok manifest) filter overwrite answers place).1
      (store.restore hashing (.ok manifest) filter overwrite answers place).2 := by
  unfold restore
  dsimp only
  split
  · exact .unchanged rfl rfl
  split
  · exact .unchanged rfl rfl
  split
  · exact .unchanged rfl rfl
  split
  · exact .unchanged rfl rfl
  split
  · exact .unchanged rfl rfl
  split
  · exact .unchanged rfl rfl
  · next copied =>
      split
      · exact .unchanged rfl rfl
      · next verified =>
          exact place.publish_outcome answers
            ⟨(verifyEntries_eq_none.mp verified).2, fun path other => files_copyEntries copied path other⟩

/-- A restore of any point, by any manifest, with any answers: no old destination is
lost or changed, a success is exactly the plan in a staging directory that was new if its
name could be inspected, and an error leaves the old destination or none. -/
theorem MirrorStore.restore_loses_nothing (store : MirrorStore Content) (manifest : Except Name MirrorManifest)
    (filter : List Name) (overwrite : Bool) (answers : RestoreAnswers Content) (place : RestorePlace Content) :
    let (next, error) := store.restore hashing manifest filter overwrite answers place
    (∀ index tree, place.retired.find? index = some tree → next.retired.find? index = some tree) ∧
    (∀ old, place.destination = some old →
      (error.isSome = true ∧ next.destination = some old) ∨
        ∃ index, place.retired.find? index = none ∧ next.retired.find? index = some old) ∧
    (error = none → ∃ plan tree, manifest = .ok plan ∧ next.destination = some tree ∧
      tree.Restores hashing ((store.seen answers).plan plan filter) (place.leftover answers)) ∧
    (answers.seesPartial (place.uniqueStagingPath answers) = true → place.leftover answers = .empty) ∧
    (error.isSome = true → next.destination = place.destination ∨ next.destination = none) := by
  have outcome : ∃ entries, place.Outcome hashing entries (place.leftover answers)
        (store.restore hashing manifest filter overwrite answers place).1
        (store.restore hashing manifest filter overwrite answers place).2 ∧
      ∀ plan, manifest = .ok plan → entries = (store.seen answers).plan plan filter := by
    cases manifest with
    | ok plan =>
        refine ⟨(store.seen answers).plan plan filter, store.outcome_restore plan filter overwrite answers place, ?_⟩
        rintro other same
        rw [Except.ok.inj same]
    | error message =>
        refine ⟨[], ?_, nofun⟩
        unfold restore
        split
        · exact .unchanged rfl rfl
        · exact .unchanged rfl rfl
  have success : (store.restore hashing manifest filter overwrite answers place).2 = none →
      ∃ plan, manifest = .ok plan := by
    cases manifest with
    | ok plan => exact fun _ => ⟨plan, rfl⟩
    | error message =>
        unfold restore
        split
        · nofun
        · nofun
  obtain ⟨entries, outcome, planned⟩ := outcome
  generalize (store.restore hashing manifest filter overwrite answers place) = result at outcome success
  obtain ⟨next, error⟩ := result
  dsimp only at outcome success ⊢
  have retired : place.Retires next →
      (∀ index tree, place.retired.find? index = some tree → next.retired.find? index = some tree) ∧
      ∀ old, place.destination = some old →
        ∃ index, place.retired.find? index = none ∧ next.retired.find? index = some old := by
    intro retires
    unfold RestorePlace.Retires at retires
    cases before : place.destination with
    | none =>
        rw [before] at retires
        exact ⟨fun index tree there => by rw [retires]; exact there, nofun⟩
    | some old =>
        rw [before] at retires
        obtain ⟨free, absent, inserted⟩ := retires
        refine ⟨fun index tree there => ?_, fun other same => ⟨free, absent, ?_⟩⟩
        · rw [inserted, SortedMap.find?_insert]
          split
          · next same =>
              rw [← same, absent] at there
              cases there
          · exact there
        · rw [inserted, SortedMap.find?_insert, if_pos rfl]
          exact same
  cases outcome with
  | @restored tree destination restores retires =>
      obtain ⟨plan, rfl⟩ := success rfl
      obtain rfl := planned plan rfl
      exact ⟨(retired retires).1, fun old same => .inr ((retired retires).2 old same),
        fun _ => ⟨plan, tree, rfl, destination, restores⟩, RestorePlace.leftover_empty, nofun⟩
  | @unchanged error destination same =>
      exact ⟨fun index tree there => by rw [same]; exact there,
        fun old there => .inl ⟨rfl, destination.trans there⟩, nofun, RestorePlace.leftover_empty,
        fun _ => .inl destination⟩
  | @unpublished error present destination retires =>
      exact ⟨(retired retires).1, fun old same => .inr ((retired retires).2 old same), nofun,
        RestorePlace.leftover_empty, fun _ => .inr destination⟩

/-! ## Points of calm runs -/

/-- The answers of a file system that copies faithfully and refuses nothing. -/
structure RestoreAnswers.Quiet (answers : RestoreAnswers Content) (entries : List (PlanEntry Content)) : Prop where
  objects : ∀ path digest, answers.seesObject path digest = true
  data : ∀ path, answers.seesData path = true
  parent : answers.parentError = none
  partials : ∀ n, answers.seesPartial n = true
  staging : answers.stagingError = none
  copies : ∀ n entry content, entries[n]? = some entry → entry.source.2 = some content →
    answers.copies n = .copied content
  hashes : ∀ n, answers.hashes n = .hashed
  old : answers.seesOld = true
  inspects : ∀ n, answers.inspects n = true
  retire : answers.retireError = none
  publish : answers.publishError = none

/-- The answers of a file system that copies each source as it is. -/
def RestoreAnswers.faithful (entries : List (PlanEntry Content)) : RestoreAnswers Content where
  seesDestination := true
  seesObject _ _ := true
  seesData _ := true
  parentError := none
  seesPartial _ := true
  stagingError := none
  copies n := ((entries[n]?.bind fun entry => entry.source.2).map .copied).getD .cancelled
  makes _ := true
  hashes _ := .hashed
  seesOld := true
  inspects _ := true
  retireError := none
  publishError := none
  remains := none

end SearchEngine.Backup
