import SearchEngine.Runtime.DiskRules

/-!
# Commands that nothing disturbs

The run of a command in which every call succeeds and every staging name is new.
What a helper needs is on the disk, so that it returns; the disk it leaves is
given place by place.
-/

namespace SearchEngine.Runtime

open SearchEngine.Lib Coroutine

/-! ## New staging names -/

/-- The sequence number of a staging file. -/
def Place.sequence : Place → Nat
  | .data (.staging _ _ sequence) | .rollback (.staging _ _ sequence) => sequence
  | _ => 0

/-- A sequence number that no staging file has. -/
def Disk.nextSequence (disk : Disk) : Nat := (disk.keys.map Place.sequence).foldr max 0 + 1

theorem Disk.sequence_lt_nextSequence {disk : Disk} {place : Place} (member : place ∈ disk) :
    place.sequence < disk.nextSequence := by
  have bounded : ∀ keys : List Place, place ∈ keys →
      place.sequence ≤ (keys.map Place.sequence).foldr max 0 := by
    intro keys there
    induction keys with
    | nil => cases there
    | cons key keys ih =>
        rw [List.map_cons, List.foldr_cons]
        rcases List.mem_cons.mp there with rfl | later
        · exact Nat.le_max_left _ _
        · exact Nat.le_trans (ih later) (Nat.le_max_right _ _)
  exact Nat.lt_succ_of_le (bounded disk.keys (AList.mem_keys.mp member))

/-- Everything succeeds, under a new number. -/
def Disk.undisturbed (disk : Disk) : Choice := ⟨true, 0, (0, 0, disk.nextSequence, 0)⟩

/-- The name that `uniqueStagingPath` finds. -/
def Disk.newStaging (disk : Disk) : FileName := .staging 0 0 disk.nextSequence

theorem Disk.lookup_newStaging (disk : Disk) {place : Place}
    (sequence : place.sequence = disk.nextSequence) : disk.lookup place = none := by
  rw [AList.lookup_eq_none]
  intro member
  have lower := Disk.sequence_lt_nextSequence member
  omega

/-- The run in which every call succeeds. -/
def Disk.smoothly {Thrown Result : Type} (program : Coroutine Call Answer Thrown Result) (disk : Disk) :
    Except Thrown Result × Disk :=
  program.play Disk.handler Disk.undisturbed disk

section Smooth

variable {Result Next : Type} {disk after : Disk}

/-- The program returns, and leaves the disk. -/
def Returns {Thrown : Type} (program : Coroutine Call Answer Thrown Result) (disk : Disk) (result : Result) (after : Disk) :
    Prop :=
  Disk.smoothly program disk = (.ok result, after)

theorem Returns.bind {Thrown : Type} {program : Coroutine Call Answer Thrown Result}
    {next : Result → Coroutine Call Answer Thrown Next} {result : Result} {last : Next} {final : Disk}
    (first : Returns program disk result after) (second : Returns (next result) after last final) :
    Returns (program >>= next) disk last final :=
  (play_bind_of_ok first).trans second

theorem Returns.pure {Thrown : Type} {result : Result} :
    Returns (Pure.pure result : Coroutine Call Answer Thrown Result) disk result disk := rfl

theorem Returns.attempt {Thrown : Type} {program : Coroutine Call Answer Thrown Result} {result : Result}
    (returns : Returns program disk result after) : Returns program.attempt disk (.ok result) after := by
  rw [Returns, Disk.smoothly, play_attempt]
  have same : program.play Disk.handler Disk.undisturbed disk = (.ok result, after) := returns
  rw [same]

/-- A call returns what the handler answers. -/
theorem Returns.ask {made : Call} {answer : Answer made}
    (answered : Disk.respond disk made disk.undisturbed = answer) :
    Returns (ask made) disk answer (Disk.next disk made answer) := by
  subst answered
  rfl

/-! ## Throwing -/

/-- The program throws, and leaves the disk. -/
def Fails (program : Task Result) (disk after : Disk) : Prop := ∃ what, Disk.smoothly program disk = (.error what, after)

/-- The program throws, and leaves the disk as it is. -/
abbrev Throws (program : Task Result) (disk : Disk) : Prop := Fails program disk disk

theorem Fails.bind {first : Task Result} {next : Result → Task Next} (fails : Fails first disk after) :
    Fails (first >>= next) disk after := by
  obtain ⟨what, same⟩ := fails
  exact ⟨what, play_bind_of_error same⟩

theorem Returns.bind_fails {first : Task Result} {next : Result → Task Next} {result : Result} {final : Disk}
    (returns : Returns first disk result after) (fails : Fails (next result) after final) :
    Fails (first >>= next) disk final := by
  obtain ⟨what, same⟩ := fails
  exact ⟨what, (play_bind_of_ok returns).trans same⟩

theorem throws_of_meets {program : Task Result}
    (met : program.Meets (osContract (fun _ _ _ => True) fun _ => True)
      (fun outcome after => (∃ what, outcome = .error what) ∧ after = disk) disk) : Throws program disk := by
  have permitted : ∀ (disk : Disk) (call : Call), (fun _ _ _ => True : Disk → Call → Choice → Prop) disk call
      disk.undisturbed := fun _ _ => trivial
  obtain ⟨⟨what, threw⟩, same⟩ := met.of_play permitted
  exact ⟨what, Prod.ext threw same⟩

theorem returns_exitCode {body : Task Unit} (returns : Returns body disk () after) :
    Returns (exitCode body) disk 0 after :=
  Returns.bind returns.attempt Returns.pure

theorem returns_exitCode_of_fails {body : Task Unit} (fails : Fails body disk after) :
    Returns (exitCode body) disk 1 after := by
  obtain ⟨what, same⟩ := fails
  have caught : Returns body.attempt disk (.error what) after := by
    rw [Returns, Disk.smoothly, play_attempt]
    have played : body.play Disk.handler Disk.undisturbed disk = (.error what, after) := same
    rw [played]
  exact Returns.bind caught Returns.pure

/-! ## Files -/

variable {place : Place} {content : Content}

theorem isFile_of_content? (here : disk.content? place = some content) : disk.isFile place = true :=
  beq_iff_eq.mpr (Disk.kindOf_of_content? here)

theorem smooth_classify {kind : PathKind} (here : kindOf (disk.lookup place) = kind) :
    Returns (ask (.classify place)) disk kind disk :=
  Returns.ask here

theorem smooth_requireRegularFile {label : String} (here : disk.isFile place = true) :
    Returns (requireRegularFile place label) disk () disk :=
  Returns.bind (smooth_classify (beq_iff_eq.mp here)) Returns.pure

theorem smooth_requireDirectory {label : String} (here : kindOf (disk.lookup place) = .directory) :
    Returns (requireDirectory place label) disk () disk :=
  Returns.bind (smooth_classify here) Returns.pure

theorem smooth_openExistingFile (here : disk.isFile place = true) :
    Returns (openExistingFile place) disk () disk := by
  refine Returns.bind (Returns.ask ((Bool.true_and _).trans here)) ?_
  exact Returns.pure

theorem smooth_createNewFile (absent : disk.lookup place = none) (parent : disk.parentExists place = true) :
    Returns (createNewFile place) disk () (disk.insert place (.file (.bytes []))) := by
  have answered : Disk.respond disk (.createNew place) disk.undisturbed = .created := by
    simp [Disk.respond, Disk.undisturbed, parent, absent, kindOf]
  exact Returns.bind (Returns.ask answered) Returns.pure

theorem smooth_copyHandleToHandle {source destination : Place} (here : disk.content? source = some content) :
    Returns (copyHandleToHandle source destination) disk () (disk.insert destination (.file content)) := by
  have answered : Disk.respond disk (.copy source destination) disk.undisturbed = .complete := rfl
  have copied : Disk.next disk (.copy source destination) .complete =
      disk.insert destination (.file content) := by
    rw [Disk.next, here]
    rfl
  refine Returns.bind (Returns.ask answered) ?_
  rw [copied]
  exact Returns.pure

theorem smooth_writeAll : Returns (writeAll place content) disk () (disk.insert place (.file content)) :=
  Returns.bind (Returns.ask rfl) Returns.pure

theorem smooth_moveFile {source destination : Place} {failure : String}
    (here : disk.content? source = some content)
    (replaceable : kindOf (disk.lookup destination) ≠ .directory) :
    Returns (moveFile source destination failure) disk ()
      ((disk.erase source).insert destination (.file content)) := by
  have answered : Disk.respond disk (.move source destination) disk.undisturbed = true := by
    simp [Disk.respond, Disk.undisturbed, isFile_of_content? here, replaceable]
  have moved : Disk.next disk (.move source destination) true =
      (disk.erase source).insert destination (.file content) := by
    rw [Disk.next, Disk.lookup_eq_of_content? here]
  refine Returns.bind (Returns.ask answered) ?_
  rw [moved]
  exact Returns.pure

theorem smooth_delete (here : disk.isFile place = true) :
    Returns (ask (.delete place)) disk true (disk.erase place) :=
  Returns.ask ((Bool.true_and _).trans here)

theorem smooth_read (here : disk.content? place = some content) :
    Returns (ask (.read place)) disk (some content) disk :=
  Returns.ask here

/-- The first staging name that is tried is new. -/
theorem smooth_uniqueStagingPath {directory : FileName → Place}
    (numbered : (directory disk.newStaging).sequence = disk.nextSequence) :
    Returns (uniqueStagingPath directory) disk disk.newStaging disk := by
  have numbers : Returns (ask .stagingNumbers) disk (0, 0, disk.nextSequence) disk := Returns.ask rfl
  have absent : disk.lookup (directory disk.newStaging) = none := disk.lookup_newStaging numbered
  have missing : kindOf (disk.lookup (directory disk.newStaging)) = .missing := kindOf_eq_missing.mpr absent
  exact Returns.bind numbers (Returns.bind (smooth_classify missing) Returns.pure)

/-- What has become of a disk on which one file was replaced. -/
def ReplacedWith (disk : Disk) (place : Place) (content : Content) (after : Disk) : Prop :=
  ∀ other, after.lookup other = if other = place then some (.file content) else disk.lookup other

/-- A staging file that was not there, is written and renamed leaves no trace. -/
theorem replacedWith_of_staged {staging : Place} (absent : disk.lookup staging = none) :
    ReplacedWith disk place content
      ((((disk.insert staging (.file (.bytes []))).insert staging (.file content)).erase staging).insert place
        (.file content)) := by
  intro other
  by_cases here : other = place
  · subst here
    rw [if_pos rfl, AList.lookup_insert]
  · rw [if_neg here, AList.lookup_insert_ne here]
    by_cases staged : other = staging
    · subst staged
      rw [AList.lookup_erase, absent]
    · rw [AList.lookup_erase_ne staged, AList.lookup_insert_ne staged, AList.lookup_insert_ne staged]

theorem smooth_stageAndAtomicallyReplace {source destination : Place}
    (sourceHere : disk.content? source = some content) (notStaged : source ≠ .data disk.newStaging)
    (replaceable : kindOf (disk.lookup destination) = .missing ∨ kindOf (disk.lookup destination) = .file)
    (otherDestination : destination ≠ .data disk.newStaging)
    (directory : kindOf (disk.lookup .dataDir) = .directory) :
    ∃ after, Returns (stageAndAtomicallyReplace source destination .data) disk () after ∧
      ReplacedWith disk destination content after := by
  have absent : disk.lookup (.data disk.newStaging) = none := disk.lookup_newStaging rfl
  have notDirectory : kindOf (disk.lookup destination) ≠ .directory := by
    rcases replaceable with missing | file
    · rw [missing]
      decide
    · rw [file]
      decide
  have replaced : Returns (replaceThroughStaging source destination .data) disk ()
      ((((disk.insert (.data disk.newStaging) (.file (.bytes []))).insert (.data disk.newStaging)
        (.file content)).erase (.data disk.newStaging)).insert destination (.file content)) := by
    refine Returns.bind (smooth_uniqueStagingPath rfl) ?_
    refine Returns.bind (smooth_openExistingFile (isFile_of_content? sourceHere)) ?_
    refine Returns.bind (smooth_createNewFile absent (beq_iff_eq.mpr directory)) ?_
    have stillHere : Disk.content? (disk.insert (.data disk.newStaging) (.file (.bytes []))) source =
        some content := (Disk.content?_insert_ne notStaged disk _).trans sourceHere
    have stillNot : kindOf (AList.lookup destination ((disk.insert (.data disk.newStaging)
        (.file (.bytes []))).insert (.data disk.newStaging) (.file content))) ≠ .directory := by
      rw [AList.lookup_insert_ne otherDestination, AList.lookup_insert_ne otherDestination]
      exact notDirectory
    have moved : Returns (copyAndMove source (.data disk.newStaging) destination)
        (disk.insert (.data disk.newStaging) (.file (.bytes []))) () _ :=
      Returns.bind (smooth_copyHandleToHandle stillHere)
        (smooth_moveFile (Disk.content?_insert_self _ _ _) stillNot)
    exact Returns.bind (Returns.attempt moved) Returns.pure
  refine ⟨_, ?_, replacedWith_of_staged absent⟩
  refine Returns.bind (smooth_requireRegularFile (isFile_of_content? sourceHere)) ?_
  rcases replaceable with missing | file
  · exact Returns.bind (smooth_classify missing) replaced
  · exact Returns.bind (smooth_classify file) replaced

/-! ## The rollback directory -/

variable {owned : Owned}

theorem Returns.keep {task : Task Result} {result : Result} (returns : Returns task disk result after) :
    Returns (keep task owned) disk (result, owned) after := by
  refine Returns.bind ?_ Returns.pure
  have same : task.play Disk.handler Disk.undisturbed disk = (.ok result, after) := returns
  rw [Returns, Disk.smoothly, play_mapThrown, same]
  rfl

theorem Returns.owned_bind {first : OwnedTask Result} {rest : Result → OwnedTask Next} {result : Result}
    {last : Next} {between final : Owned} {ended : Disk}
    (returns : Returns (first owned) disk (result, between) after)
    (follows : Returns (rest result between) after (last, final) ended) :
    Returns ((first >>= rest) owned) disk (last, final) ended :=
  Returns.bind returns follows

theorem Returns.forgetOwned {task : OwnedTask Result} {result : Result} {between : Owned}
    (returns : Returns (task []) disk (result, between) after) : Returns (forgetOwned task) disk result after := by
  have first : Returns ((task []).mapThrown Prod.fst) disk (result, between) after := by
    have same : (task []).play Disk.handler Disk.undisturbed disk = (.ok (result, between), after) := returns
    rw [Returns, Disk.smoothly, play_mapThrown, same]
    rfl
  exact Returns.bind first Returns.pure

theorem smooth_createOwnedFile {name : FileName} (absent : disk.lookup (.rollback name) = none)
    (directory : disk.lookup .rollbackDir = some .directory) :
    ∃ between, Returns (createOwnedFile name owned) disk ((), between)
      (disk.insert (.rollback name) (.file (.bytes []))) := by
  have parent : disk.parentExists (.rollback name) = true := by
    change (kindOf (disk.lookup .rollbackDir) == .directory) = true
    rw [directory]
    rfl
  exact ⟨_, Returns.owned_bind (Returns.keep (smooth_createNewFile absent parent)) rfl⟩

theorem smooth_publish {name : FileName} {failure : String} (other : name ≠ disk.newStaging)
    (directory : disk.lookup .rollbackDir = some .directory)
    (replaceable : kindOf (disk.lookup (.rollback name)) ≠ .directory) :
    ∃ between after, Returns (publish name content failure owned) disk ((), between) after ∧
      ReplacedWith disk (.rollback name) content after := by
  have absent : disk.lookup (.rollback disk.newStaging) = none := disk.lookup_newStaging rfl
  obtain ⟨between, created⟩ := @smooth_createOwnedFile disk owned _ absent directory
  have still : kindOf (AList.lookup (.rollback name) ((disk.insert (.rollback disk.newStaging)
      (.file (.bytes []))).insert (.rollback disk.newStaging) (.file content))) ≠ .directory := by
    rw [AList.lookup_insert_ne (by simp [other]), AList.lookup_insert_ne (by simp [other])]
    exact replaceable
  refine ⟨if between.contains name then between else between ++ [name], _, ?_, replacedWith_of_staged absent⟩
  refine Returns.owned_bind (Returns.keep (smooth_uniqueStagingPath rfl)) (Returns.owned_bind created ?_)
  refine Returns.owned_bind (Returns.keep smooth_writeAll) ?_
  have moved := @smooth_moveFile _ content _ _ failure (Disk.content?_insert_self _ _ _) still
  exact Returns.owned_bind (Returns.keep moved) rfl

/-! ## Deletion -/

/-- What the enumeration finds. -/
theorem mem_listing {name : FileName} {kind : PathKind} :
    (name, kind) ∈ disk.listing ↔ ∃ node, disk.lookup (.rollback name) = some node ∧ kindOf (some node) = kind := by
  rw [Disk.listing, List.mem_filterMap]
  constructor
  · rintro ⟨⟨place, node⟩, member, here⟩
    cases place with
    | rollback found =>
        obtain ⟨rfl, rfl⟩ := Prod.mk.inj (Option.some.inj here)
        exact ⟨node, AList.mem_lookup_iff.mpr member, rfl⟩
    | dataDir => cases here
    | packageData => cases here
    | replacement file => cases here
    | packageIgnore => cases here
    | rollbackDir => cases here
    | data found => cases here
  · rintro ⟨node, there, rfl⟩
    exact ⟨⟨.rollback name, node⟩, AList.mem_lookup_iff.mp there, rfl⟩

/-- Every entry of the rollback directory is an expected file. -/
theorem allExpected_listing {expected : List FileName} : allExpected expected disk.listing = true ↔
    ∀ name, disk.lookup (.rollback name) ≠ none → disk.isFile (.rollback name) = true ∧ name ∈ expected := by
  rw [allExpected, List.all_eq_true]
  constructor
  · intro every name there
    obtain ⟨node, here⟩ := Option.ne_none_iff_exists'.mp there
    have entry := every _ (mem_listing.mpr ⟨node, here, rfl⟩)
    rw [Bool.and_eq_true, List.contains_iff_mem] at entry
    rw [Disk.isFile, here]
    exact entry
  · rintro every ⟨name, kind⟩ member
    obtain ⟨node, here, rfl⟩ := mem_listing.mp member
    obtain ⟨isFile, member⟩ := every name (by simp [here])
    rw [Disk.isFile, here] at isFile
    rw [Bool.and_eq_true, List.contains_iff_mem]
    exact ⟨isFile, member⟩

theorem smooth_deleteIfRegularFile (removable : disk.lookup place = none ∨ disk.isFile place = true) :
    ∃ after, Returns (deleteIfRegularFile place) disk true after ∧ after.lookup place = none ∧
      ∀ other, other ≠ place → after.lookup other = disk.lookup other := by
  rcases removable with absent | isFile
  · exact ⟨disk, Returns.bind (smooth_classify (kindOf_eq_missing.mpr absent)) Returns.pure, absent,
      fun _ _ => rfl⟩
  · exact ⟨disk.erase place, Returns.bind (smooth_classify (beq_iff_eq.mp isFile)) (smooth_delete isFile),
      AList.lookup_erase _ _, fun _ different => AList.lookup_erase_ne different⟩

theorem smooth_deleteEach {names : List FileName}
    (removable : ∀ name, disk.lookup (.rollback name) = none ∨ disk.isFile (.rollback name) = true) :
    ∃ after, Returns (deleteEach names) disk () after ∧
      (∀ name ∈ names, after.lookup (.rollback name) = none) ∧
      (∀ name, disk.lookup (.rollback name) = none → after.lookup (.rollback name) = none) ∧
      ∀ place, (∀ name, place ≠ .rollback name) → after.lookup place = disk.lookup place := by
  induction names generalizing disk with
  | nil => exact ⟨disk, Returns.pure, by simp, fun _ absent => absent, fun _ _ => rfl⟩
  | cons name names ih =>
      obtain ⟨first, deleted, gone, others⟩ := smooth_deleteIfRegularFile (removable name)
      have absentStays : ∀ other, disk.lookup (.rollback other) = none → first.lookup (.rollback other) = none := by
        intro other absent
        by_cases same : other = name
        · rw [same]
          exact gone
        · exact (others _ (by simp [same])).trans absent
      have stillRemovable : ∀ other, first.lookup (.rollback other) = none ∨
          first.isFile (.rollback other) = true := by
        intro other
        by_cases same : other = name
        · rw [same]
          exact .inl gone
        · rw [Disk.isFile, others _ (by simp [same]), ← Disk.isFile]
          exact removable other
      obtain ⟨after, rest, restGone, restAbsent, restSame⟩ := ih stillRemovable
      refine ⟨after, Returns.bind deleted rest, fun other member => ?_, fun other absent => ?_, fun place outside => ?_⟩
      · rcases List.mem_cons.mp member with rfl | later
        · exact restAbsent other gone
        · exact restGone other later
      · exact restAbsent other (absentStays other absent)
      · exact (restSame place outside).trans (others place (outside name))

/-- A directory that holds only expected files is deleted. -/
theorem smooth_deleteTransactionFiles {expected : List FileName}
    (directory : disk.lookup .rollbackDir = some .directory)
    (accepted : allExpected expected disk.listing = true) :
    ∃ after, Returns (deleteTransactionFiles expected) disk () after ∧ after.lookup .rollbackDir = none := by
  have every := allExpected_listing.mp accepted
  have removable : ∀ name, disk.lookup (.rollback name) = none ∨ disk.isFile (.rollback name) = true := by
    intro name
    by_cases absent : disk.lookup (.rollback name) = none
    · exact .inl absent
    · exact .inr (every name absent).1
  obtain ⟨emptied, deleted, gone, absent, same⟩ := @smooth_deleteEach disk expected removable
  have nothing : emptied.listing = [] := by
    rw [List.eq_nil_iff_forall_not_mem]
    rintro ⟨name, kind⟩ member
    obtain ⟨node, here, _⟩ := mem_listing.mp member
    have there : disk.lookup (.rollback name) ≠ none := fun none => by simp [absent name none] at here
    simp [gone name (every name there).2] at here
  have stillDirectory : emptied.lookup .rollbackDir = some .directory :=
    (same .rollbackDir fun _ => by simp).trans directory
  have removed : Disk.respond emptied .removeDirectory emptied.undisturbed = true := by
    simp [Disk.respond, Disk.undisturbed, stillDirectory, nothing, kindOf]
  have listed : Disk.respond disk .list disk.undisturbed = some disk.listing := by
    simp [Disk.respond, Disk.undisturbed, directory, kindOf]
  refine ⟨emptied.erase .rollbackDir, ?_, AList.lookup_erase _ _⟩
  have kind : kindOf (disk.lookup .rollbackDir) = .directory := by
    rw [directory]
    rfl
  refine Returns.bind (smooth_requireDirectory kind) ?_
  refine Returns.bind (Returns.bind (Returns.ask listed) Returns.pure) ?_
  rw [accepted]
  exact Returns.bind deleted (Returns.bind (Returns.ask removed) Returns.pure)

/-- A directory that holds something else is left in place. -/
theorem throws_deleteTransactionFiles {expected : List FileName} (refused : allExpected expected disk.listing ≠ true) : Throws (deleteTransactionFiles expected) disk := by
  refine throws_of_meets (then_meets (requireDirectory_meets trivial (fun _ => ?_) fun what => ⟨⟨what, rfl⟩, rfl⟩))
  refine then_meets (listDirectory_meets trivial ?_ fun what => ⟨⟨what, rfl⟩, rfl⟩)
  change (if !allExpected expected disk.listing then _ else _ : Task Unit).Meets _ _ _
  rw [Bool.eq_false_of_not_eq_true refused]
  exact ⟨⟨_, rfl⟩, rfl⟩

end Smooth

end SearchEngine.Runtime
