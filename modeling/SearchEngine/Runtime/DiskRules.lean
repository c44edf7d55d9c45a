import SearchEngine.Runtime.Files

/-!
# What the file operations do

One rule for each call, then one specification for each helper. A specification
names the places that may have changed (`SameBut`) and asks of the crash
invariant only that it does not look at them.
-/

namespace SearchEngine.Runtime

open SearchEngine.Lib Coroutine

/-! ## Places that did not change -/

/-- The disks agree except in places that are touched. -/
def SameBut (touched : Place → Bool) (before after : Disk) : Prop :=
  ∀ place, touched place = false → after.lookup place = before.lookup place

theorem SameBut.refl (touched : Place → Bool) (disk : Disk) : SameBut touched disk disk :=
  fun _ _ => rfl

theorem SameBut.trans {touched : Place → Bool} {first second third : Disk}
    (left : SameBut touched first second) (right : SameBut touched second third) :
    SameBut touched first third :=
  fun place quiet => (right place quiet).trans (left place quiet)

theorem SameBut.mono {touched wider : Place → Bool} {before after : Disk}
    (same : SameBut touched before after)
    (includes : ∀ place, touched place = true → wider place = true) : SameBut wider before after := by
  intro place quiet
  apply same place
  cases touches : touched place with
  | false => rfl
  | true => exact absurd (includes place touches) (by simp [quiet])

theorem sameBut_insert {touched : Place → Bool} {place : Place} (touches : touched place = true)
    (disk : Disk) (node : Node) : SameBut touched disk (disk.insert place node) := by
  intro other quiet
  apply AList.lookup_insert_ne
  rintro rfl
  exact absurd touches (by simp [quiet])

theorem sameBut_erase {touched : Place → Bool} {place : Place} (touches : touched place = true)
    (disk : Disk) : SameBut touched disk (disk.erase place) := by
  intro other quiet
  apply AList.lookup_erase_ne
  rintro rfl
  exact absurd touches (by simp [quiet])

theorem SameBut.content?_eq {touched : Place → Bool} {before after : Disk}
    (same : SameBut touched before after) {place : Place} (quiet : touched place = false) :
    after.content? place = before.content? place := by
  rw [Disk.content?, Disk.content?, same place quiet]

/-- The invariant does not look at the touched places. -/
def Stable (touched : Place → Bool) (safe : Disk → Prop) : Prop :=
  ∀ before after, SameBut touched before after → safe before → safe after

/-- A staging file, or the given place. -/
def orStaging (place : Place) (other : Place) : Bool := other.isStaging || other == place

theorem orStaging_of_isStaging {place other : Place} (staging : other.isStaging = true) :
    orStaging place other = true := by
  rw [orStaging, staging, Bool.true_or]

@[simp] theorem orStaging_self (place : Place) : orStaging place place = true := by
  simp [orStaging]

theorem isStaging_rollback {name : FileName} (named : ∀ p t s, name ≠ .staging p t s) :
    (Place.rollback name).isStaging = false := by
  cases name with
  | staging processId tickCount sequence => exact absurd rfl (named _ _ _)
  | managed file => rfl
  | ignore => rfl
  | logs => rfl
  | marker => rfl
  | phase => rfl
  | manifest => rfl
  | cfgMarker => rfl
  | cfgManifest => rfl
  | snapshot file => rfl
  | other name => rfl

/-- What an apply may touch before it replaces a file. -/
def duringPreparation (place : Place) : Bool :=
  match place with
  | .rollback _ | .rollbackDir => true
  | _ => place.isStaging

theorem duringPreparation_of_isStaging {place : Place} (staging : place.isStaging = true) :
    duringPreparation place = true := by
  cases place with
  | rollback name => rfl
  | rollbackDir => rfl
  | dataDir => cases staging
  | packageData => cases staging
  | replacement file => cases staging
  | packageIgnore => cases staging
  | data name => exact staging

theorem duringPreparation_of_orStaging {name : FileName} {place : Place}
    (touched : orStaging (.rollback name) place = true) : duringPreparation place = true := by
  rcases Bool.or_eq_true_iff.mp touched with staging | here
  · exact duringPreparation_of_isStaging staging
  · rw [beq_iff_eq.mp here]
    rfl

/-! ## Files -/

theorem kindOf_eq_missing {node : Option Node} : kindOf node = .missing ↔ node = none := by
  cases node with
  | none => exact ⟨fun _ => rfl, fun _ => rfl⟩
  | some node => cases node <;> exact ⟨fun wrong => (nomatch wrong), fun wrong => (nomatch wrong)⟩

namespace Disk

theorem lookup_eq_of_content? {disk : Disk} {place : Place} {content : Content}
    (here : disk.content? place = some content) : disk.lookup place = some (.file content) := by
  rw [content?] at here
  split at here
  · rename_i found eq
    rw [eq, Option.some.inj here]
  · cases here

theorem content?_eq_of_lookup {disk : Disk} {place : Place} {content : Content}
    (here : disk.lookup place = some (.file content)) : disk.content? place = some content := by
  rw [content?, here]

theorem exists_content? {disk : Disk} {place : Place} (file : kindOf (disk.lookup place) = .file) :
    ∃ content, disk.content? place = some content := by
  rw [content?]
  cases here : disk.lookup place with
  | none =>
      rw [here] at file
      cases file
  | some node =>
      rw [here] at file
      cases node with
      | file content => exact ⟨content, rfl⟩
      | directory => cases file
      | reparse => cases file
      | other => cases file

theorem kindOf_of_content? {disk : Disk} {place : Place} {content : Content}
    (here : disk.content? place = some content) : kindOf (disk.lookup place) = .file := by
  rw [lookup_eq_of_content? here]
  rfl

@[simp] theorem content?_insert_self (disk : Disk) (place : Place) (content : Content) :
    Disk.content? (disk.insert place (.file content)) place = some content :=
  content?_eq_of_lookup (AList.lookup_insert disk)

theorem content?_insert_ne {place changed : Place} (other : place ≠ changed) (disk : Disk) (node : Node) :
    Disk.content? (disk.insert changed node) place = disk.content? place := by
  rw [content?, content?, AList.lookup_insert_ne other]

end Disk

/-! ## Calls -/

section Calls

variable {permitted : Disk → Call → Choice → Prop} {safe : Disk → Prop} {disk : Disk} {place : Place}

/-- The contract of a program whose crash invariant is `safe`. -/
abbrev osContract (permitted : Disk → Call → Choice → Prop) (safe : Disk → Prop) :
    Contract Call Answer Disk :=
  Disk.handler.contract permitted safe

theorem classify_meets {post : Except String PathKind → Disk → Prop} (holds : safe disk)
    (answered : post (.ok (kindOf (disk.lookup place))) disk) (unseen : post (.ok .missing) disk) :
    (ask (.classify place)).Meets (osContract permitted safe) post disk := by
  refine ⟨holds, fun answer possible => ?_⟩
  obtain ⟨choice, _, rfl⟩ := possible
  simp only [Disk.handler, Disk.respond]
  split
  · exact answered
  · exact unseen

/-- An attribute query that finds what is there. -/
theorem classify_seen_meets {post : Except String PathKind → Disk → Prop}
    (seen : ∀ choice, permitted disk (.classify place) choice → disk.Seen place choice) (holds : safe disk)
    (answered : post (.ok (kindOf (disk.lookup place))) disk) :
    (ask (.classify place)).Meets (osContract permitted safe) post disk := by
  refine ⟨holds, fun answer possible => ?_⟩
  obtain ⟨choice, allowed, rfl⟩ := possible
  have truthful : Disk.respond disk (.classify place) choice = kindOf (disk.lookup place) := by
    simp only [Disk.respond]
    split
    · rfl
    · rename_i fails
      exact ((seen choice allowed).resolve_left fails).symm
  change post (.ok (Disk.respond disk (.classify place) choice)) disk
  rw [truthful]
  exact answered

theorem openExisting_meets {post : Except String Bool → Disk → Prop} (holds : safe disk)
    (opened : ∀ content, disk.content? place = some content → post (.ok true) disk)
    (refused : ∀ choice, permitted disk (.openExisting place) choice →
      choice.succeeds = false ∨ disk.content? place = none → post (.ok false) disk) :
    (ask (.openExisting place)).Meets (osContract permitted safe) post disk := by
  refine ⟨holds, fun answer possible => ?_⟩
  obtain ⟨choice, allowed, answer_eq⟩ := possible
  cases answer with
  | false =>
      have declined : (choice.succeeds && disk.isFile place) = false := answer_eq.symm
      refine refused choice allowed ?_
      rcases Bool.and_eq_false_iff.mp declined with fails | notFile
      · exact .inl fails
      · refine .inr ?_
        cases here : disk.content? place with
        | none => rfl
        | some content =>
            rw [Disk.isFile, Disk.kindOf_of_content? here] at notFile
            cases notFile
  | true =>
      have accepted : (choice.succeeds && disk.isFile place) = true := answer_eq.symm
      obtain ⟨content, here⟩ := Disk.exists_content? (beq_iff_eq.mp (Bool.and_eq_true_iff.mp accepted).2)
      exact opened content here

theorem createNew_meets {post : Except String Creation → Disk → Prop} (holds : safe disk)
    (created : disk.lookup place = none → post (.ok .created) (disk.insert place (.file (.bytes []))))
    (refused : ∀ answer, answer ≠ .created → post (.ok answer) disk) :
    (ask (.createNew place)).Meets (osContract permitted safe) post disk := by
  refine ⟨holds, fun answer possible => ?_⟩
  obtain ⟨choice, _, rfl⟩ := possible
  simp only [Disk.handler, Disk.respond]
  split
  · exact refused .failed (by decide)
  · split
    · rename_i missing
      exact created (kindOf_eq_missing.mp missing)
    · exact refused .exists (by decide)

theorem createDirectory_meets {post : Except String Creation → Disk → Prop} (holds : safe disk)
    (created : disk.lookup place = none → post (.ok .created) (disk.insert place .directory))
    (refused : ∀ answer, answer ≠ .created → post (.ok answer) disk) :
    (ask (.createDirectory place)).Meets (osContract permitted safe) post disk := by
  refine ⟨holds, fun answer possible => ?_⟩
  obtain ⟨choice, _, rfl⟩ := possible
  simp only [Disk.handler, Disk.respond]
  split
  · exact refused .failed (by decide)
  · split
    · rename_i missing
      exact created (kindOf_eq_missing.mp missing)
    · exact refused .exists (by decide)

theorem copy_meets {source destination : Place} {content : Content}
    {post : Except String Transfer → Disk → Prop} (holds : safe disk)
    (here : disk.content? source = some content)
    (ended : ∀ transfer,
      post (.ok transfer) (disk.insert destination (.file (Disk.arrived content transfer)))) :
    (ask (.copy source destination)).Meets (osContract permitted safe) post disk := by
  refine ⟨holds, fun answer _ => ?_⟩
  have after : Disk.next disk (.copy source destination) answer =
      disk.insert destination (.file (Disk.arrived content answer)) := by
    rw [Disk.next, here]
  change post (.ok answer) (Disk.next disk (.copy source destination) answer)
  rw [after]
  exact ended answer

theorem write_meets {content : Content} {post : Except String Transfer → Disk → Prop}
    (holds : safe disk)
    (ended : ∀ transfer, post (.ok transfer) (disk.insert place (.file (Disk.arrived content transfer)))) :
    (ask (.write place content)).Meets (osContract permitted safe) post disk :=
  ⟨holds, fun answer _ => ended answer⟩

theorem move_meets {source destination : Place} {post : Except String Bool → Disk → Prop}
    (holds : safe disk)
    (moved : ∀ content, disk.content? source = some content →
      post (.ok true) ((disk.erase source).insert destination (.file content)))
    (refused : post (.ok false) disk) :
    (ask (.move source destination)).Meets (osContract permitted safe) post disk := by
  refine ⟨holds, fun answer possible => ?_⟩
  obtain ⟨choice, _, answer_eq⟩ := possible
  cases answer with
  | false => exact refused
  | true =>
      have accepted : (choice.succeeds && disk.isFile source &&
          kindOf (disk.lookup destination) != .directory) = true := answer_eq.symm
      rw [Bool.and_eq_true, Bool.and_eq_true] at accepted
      obtain ⟨content, here⟩ := Disk.exists_content? (beq_iff_eq.mp accepted.1.2)
      have after : Disk.next disk (.move source destination) true =
          (disk.erase source).insert destination (.file content) := by
        rw [Disk.next, Disk.lookup_eq_of_content? here]
      change post (.ok true) (Disk.next disk (.move source destination) true)
      rw [after]
      exact moved content here

theorem delete_meets {post : Except String Bool → Disk → Prop} (holds : safe disk)
    (deleted : post (.ok true) (disk.erase place)) (refused : post (.ok false) disk) :
    (ask (.delete place)).Meets (osContract permitted safe) post disk := by
  refine ⟨holds, fun answer _ => ?_⟩
  cases answer with
  | false => exact refused
  | true => exact deleted

theorem read_meets {post : Except String (Option Content) → Disk → Prop} (holds : safe disk)
    (readable : ∀ choice content, permitted disk (.read place) choice →
      disk.content? place = some content → post (.ok (some content)) disk)
    (unreadable : ∀ choice, permitted disk (.read place) choice →
      choice.succeeds = false ∨ disk.content? place = none → post (.ok none) disk) :
    (ask (.read place)).Meets (osContract permitted safe) post disk := by
  refine ⟨holds, fun answer possible => ?_⟩
  obtain ⟨choice, allowed, rfl⟩ := possible
  simp only [Disk.handler, Disk.respond]
  split
  · cases here : disk.content? place with
    | none => exact unreadable choice allowed (.inr here)
    | some content => exact readable choice content allowed here
  · rename_i fails
    exact unreadable choice allowed (.inl (Bool.not_eq_true _ ▸ fails))

theorem list_meets {post : Except String (Option (List (FileName × PathKind))) → Disk → Prop}
    (holds : safe disk) (listed : post (.ok (some disk.listing)) disk) (unlisted : post (.ok none) disk) :
    (ask .list).Meets (osContract permitted safe) post disk := by
  refine ⟨holds, fun answer possible => ?_⟩
  obtain ⟨choice, _, rfl⟩ := possible
  simp only [Disk.handler, Disk.respond]
  split
  · exact listed
  · exact unlisted

theorem removeDirectory_meets {post : Except String Bool → Disk → Prop} (holds : safe disk)
    (removed : post (.ok true) (disk.erase .rollbackDir)) (refused : post (.ok false) disk) :
    (ask .removeDirectory).Meets (osContract permitted safe) post disk := by
  refine ⟨holds, fun answer _ => ?_⟩
  cases answer with
  | false => exact refused
  | true => exact removed

theorem stagingNumbers_meets {post : Except String (Nat × Nat × Nat) → Disk → Prop}
    (holds : safe disk) (answered : ∀ numbers, post (.ok numbers) disk) :
    (ask .stagingNumbers).Meets (osContract permitted safe) post disk :=
  ⟨holds, fun answer _ => answered answer⟩

/-- One step after another. -/
theorem then_meets {First Result : Type} {program : Task First} {rest : First → Task Result}
    {post : Except String Result → Disk → Prop}
    (first : program.Meets (osContract permitted safe) (Following (osContract permitted safe) rest post) disk) :
    (program >>= rest).Meets (osContract permitted safe) post disk :=
  meets_bind.mpr first

end Calls

/-! ## Checks and staging -/

section Helpers

variable {permitted : Disk → Call → Choice → Prop} {safe : Disk → Prop} {disk : Disk}

theorem requireRegularFile_meets {place : Place} {label : String}
    {post : Except String Unit → Disk → Prop} (holds : safe disk)
    (checked : ∀ content, disk.content? place = some content → post (.ok ()) disk)
    (thrown : ∀ what, post (.error what) disk) :
    (requireRegularFile place label).Meets (osContract permitted safe) post disk := by
  refine then_meets (classify_meets holds ?_ (thrown _))
  cases kind : kindOf (disk.lookup place) with
  | file =>
      obtain ⟨content, here⟩ := Disk.exists_content? kind
      exact checked content here
  | missing => exact thrown _
  | directory => exact thrown _
  | reparse => exact thrown _
  | other => exact thrown _

theorem requireDirectory_meets {place : Place} {label : String}
    {post : Except String Unit → Disk → Prop} (holds : safe disk)
    (checked : kindOf (disk.lookup place) = .directory → post (.ok ()) disk)
    (thrown : ∀ what, post (.error what) disk) :
    (requireDirectory place label).Meets (osContract permitted safe) post disk := by
  refine then_meets (classify_meets holds ?_ (thrown _))
  cases kind : kindOf (disk.lookup place) with
  | directory => exact checked kind
  | missing => exact thrown _
  | file => exact thrown _
  | reparse => exact thrown _
  | other => exact thrown _

/-- The checks on the rollback directory that both transactions make. -/
theorem checkRollbackDir_meets {mustExist : Bool} {post : Except String Unit → Disk → Prop} (holds : safe disk)
    (validated : post (.ok ()) disk) (thrown : ∀ what, post (.error what) disk) :
    (do
      match ← ask (.classify .rollbackDir) with
      | .reparse => .raise "rollback-dir is a reparse point"
      | _ => pure ()
      let kind ← ask (.classify .rollbackDir)
      if mustExist then
        if kind = .directory then pure ()
        else .raise "rollback-dir must be an existing regular directory"
      else if kind = .missing then pure ()
      else .raise "rollback-dir already exists" : Task Unit).Meets (osContract permitted safe) post disk := by
  have second : (do
      let kind ← ask (.classify .rollbackDir)
      if mustExist then
        if kind = .directory then pure ()
        else .raise "rollback-dir must be an existing regular directory"
      else if kind = .missing then pure ()
      else .raise "rollback-dir already exists" : Task Unit).Meets (osContract permitted safe) post disk := by
    refine then_meets ⟨holds, fun kind _ => ?_⟩
    change (if mustExist then (if kind = .directory then _ else _) else (if kind = .missing then _ else _) :
      Task Unit).Meets _ _ _
    split_ifs
    · exact validated
    · exact thrown _
    · exact validated
    · exact thrown _
  refine then_meets ⟨holds, fun kind _ => ?_⟩
  cases kind with
  | reparse => exact thrown _
  | missing => exact second
  | file => exact second
  | directory => exact second
  | other => exact second

theorem openExistingFile_meets {place : Place} {post : Except String Unit → Disk → Prop}
    (holds : safe disk) (opened : ∀ content, disk.content? place = some content → post (.ok ()) disk)
    (thrown : ∀ what, post (.error what) disk) :
    (openExistingFile place).Meets (osContract permitted safe) post disk :=
  then_meets (openExisting_meets holds opened fun _ _ _ => thrown _)

theorem createNewFile_meets {place : Place} {post : Except String Unit → Disk → Prop}
    (holds : safe disk)
    (created : disk.lookup place = none → post (.ok ()) (disk.insert place (.file (.bytes []))))
    (thrown : ∀ what, post (.error what) disk) :
    (createNewFile place).Meets (osContract permitted safe) post disk := by
  refine then_meets (createNew_meets holds created fun answer refused => ?_)
  cases answer with
  | created => exact absurd rfl refused
  | «exists» => exact thrown _
  | failed => exact thrown _

theorem copyHandleToHandle_meets {source destination : Place} {content : Content}
    {post : Except String Unit → Disk → Prop} (holds : safe disk)
    (here : disk.content? source = some content)
    (copied : post (.ok ()) (disk.insert destination (.file content)))
    (thrown : ∀ what part, post (.error what) (disk.insert destination (.file part))) :
    (copyHandleToHandle source destination).Meets (osContract permitted safe) post disk := by
  refine then_meets (copy_meets holds here fun transfer => ?_)
  cases transfer with
  | complete => exact copied
  | partially count => exact thrown _ _

theorem writeAll_meets {place : Place} {content : Content} {post : Except String Unit → Disk → Prop}
    (holds : safe disk) (written : post (.ok ()) (disk.insert place (.file content)))
    (thrown : ∀ what part, post (.error what) (disk.insert place (.file part))) :
    (writeAll place content).Meets (osContract permitted safe) post disk := by
  refine then_meets (write_meets holds fun transfer => ?_)
  cases transfer with
  | complete => exact written
  | partially count => exact thrown _ _

theorem moveFile_meets {source destination : Place} {failure : String}
    {post : Except String Unit → Disk → Prop} (holds : safe disk)
    (moved : ∀ content, disk.content? source = some content →
      post (.ok ()) ((disk.erase source).insert destination (.file content)))
    (thrown : ∀ what, post (.error what) disk) :
    (moveFile source destination failure).Meets (osContract permitted safe) post disk :=
  then_meets (move_meets holds moved (thrown _))

theorem tryStagingNames_meets {directory : FileName → Place} {attempts : Nat}
    {post : Except String FileName → Disk → Prop} (holds : safe disk)
    (chosen : ∀ processId tickCount sequence, post (.ok (.staging processId tickCount sequence)) disk)
    (thrown : ∀ what, post (.error what) disk) :
    (tryStagingNames directory attempts).Meets (osContract permitted safe) post disk := by
  induction attempts with
  | zero => exact thrown _
  | succ attempts ih =>
      refine then_meets (stagingNumbers_meets holds fun numbers => ?_)
      refine then_meets ⟨holds, fun kind _ => ?_⟩
      cases kind with
      | missing => exact chosen _ _ _
      | file => exact ih
      | directory => exact ih
      | reparse => exact ih
      | other => exact ih

theorem copyAndMove_meets {source staging destination : Place} {content : Content}
    {post : Except String Unit → Disk → Prop} (holds : safe disk)
    (still : ∀ part, safe (disk.insert staging (.file part))) (here : disk.content? source = some content)
    (moved : post (.ok ()) (((disk.insert staging (.file content)).erase staging).insert destination
      (.file content)))
    (thrown : ∀ what part, post (.error what) (disk.insert staging (.file part))) :
    (copyAndMove source staging destination).Meets (osContract permitted safe) post disk := by
  refine then_meets (copyHandleToHandle_meets holds here ?_ thrown)
  refine moveFile_meets (still content) (fun found staged => ?_) fun what => thrown what content
  rw [Disk.content?_insert_self] at staged
  obtain rfl := Option.some.inj staged
  exact moved

/-- The destination is replaced as a whole or not at all; staging files come and go. -/
theorem replaceThroughStaging_meets {source destination : Place} {content : Content}
    {post : Except String Unit → Disk → Prop} (stable : Stable Place.isStaging safe)
    (sourceQuiet : source.isStaging = false) (holds : safe disk) (here : disk.content? source = some content)
    (replaced : ∀ after, SameBut (orStaging destination) disk after →
      after.lookup destination = some (.file content) → post (.ok ()) after)
    (thrown : ∀ what after, SameBut Place.isStaging disk after → post (.error what) after) :
    (replaceThroughStaging source destination .data).Meets (osContract permitted safe) post disk := by
  have unchanged := SameBut.refl Place.isStaging disk
  refine then_meets (tryStagingNames_meets holds (fun processId tickCount sequence => ?_)
    fun what => thrown what _ unchanged)
  refine then_meets (openExistingFile_meets holds (fun _ _ => ?_) fun what => thrown what _ unchanged)
  refine then_meets (createNewFile_meets holds (fun _ => ?_) fun what => thrown what _ unchanged)
  let staging := Place.data (.staging processId tickCount sequence)
  have created : SameBut Place.isStaging disk (disk.insert staging (.file (.bytes []))) :=
    sameBut_insert rfl disk _
  have staged : ∀ part, SameBut Place.isStaging disk ((disk.insert staging (.file (.bytes []))).insert staging
      (.file part)) :=
    fun part => created.trans (sameBut_insert rfl _ _)
  have tried : (copyAndMove source staging destination).Meets (osContract permitted safe)
      (fun outcome after => (outcome = .ok () ∧ post (.ok ()) after) ∨
        (∃ what, outcome = .error what) ∧ SameBut Place.isStaging disk after)
      (disk.insert staging (.file (.bytes []))) := by
    refine copyAndMove_meets (stable _ _ created holds) (fun part => stable _ _ (staged part) holds)
      ((created.content?_eq sourceQuiet).trans here) (.inl ⟨rfl, ?_⟩)
      fun what part => .inr ⟨⟨what, rfl⟩, staged part⟩
    have erased : SameBut Place.isStaging disk (((disk.insert staging (.file (.bytes []))).insert staging
        (.file content)).erase staging) :=
      (staged content).trans (sameBut_erase rfl _)
    refine replaced _ ?_ (AList.lookup_insert _)
    refine (erased.mono fun _ => orStaging_of_isStaging).trans (sameBut_insert ?_ _ _)
    exact orStaging_self destination
  refine Meets.attempt tried fun outcome after ended => ?_
  rcases ended with ⟨rfl, done⟩ | ⟨⟨what, rfl⟩, same⟩
  · exact done
  · refine then_meets (delete_meets (stable _ _ same holds) ?_ (thrown what _ same))
    exact thrown what _ (same.trans (sameBut_erase rfl _))

/-- What is seen that cannot be replaced is refused. -/
theorem stageAndAtomicallyReplace_meets {source destination : Place}
    {post : Except String Unit → Disk → Prop} (stable : Stable Place.isStaging safe)
    (sourceQuiet : source.isStaging = false) (holds : safe disk)
    (replaced : ∀ content after, disk.content? source = some content →
      ((∀ choice, permitted disk (.classify destination) choice → disk.Seen destination choice) →
        kindOf (disk.lookup destination) = .missing ∨ kindOf (disk.lookup destination) = .file) →
      SameBut (orStaging destination) disk after → after.lookup destination = some (.file content) →
      post (.ok ()) after)
    (thrown : ∀ what after, SameBut Place.isStaging disk after → post (.error what) after) :
    (stageAndAtomicallyReplace source destination .data).Meets (osContract permitted safe) post disk := by
  have unchanged := SameBut.refl Place.isStaging disk
  refine then_meets (requireRegularFile_meets holds (fun content here => ?_) fun what => thrown what _ unchanged)
  have staged := fun replaceable => @replaceThroughStaging_meets permitted safe disk source destination content post
    stable sourceQuiet holds here (fun after => replaced content after here replaceable) thrown
  by_cases seen : ∀ choice, permitted disk (.classify destination) choice → disk.Seen destination choice
  · refine then_meets (classify_seen_meets seen holds ?_)
    cases kind : kindOf (disk.lookup destination) with
    | missing => exact staged fun _ => .inl kind
    | file => exact staged fun _ => .inr kind
    | directory => exact thrown _ _ unchanged
    | reparse => exact thrown _ _ unchanged
    | other => exact thrown _ _ unchanged
  · have blind := staged fun sees => absurd sees seen
    refine then_meets ⟨holds, fun kind _ => ?_⟩
    cases kind with
    | missing => exact blind
    | file => exact blind
    | directory => exact thrown _ _ unchanged
    | reparse => exact thrown _ _ unchanged
    | other => exact thrown _ _ unchanged

/-! ## The rollback directory -/

variable {owned : Owned}

theorem keep_meets {Result : Type} {task : Task Result}
    {post : Except (String × Owned) (Result × Owned) → Disk → Prop}
    (met : task.Meets (osContract permitted safe) (fun outcome after => match outcome with
      | .ok result => post (.ok (result, owned)) after
      | .error what => post (.error (what, owned)) after) disk) :
    (keep task owned).Meets (osContract permitted safe) post disk := by
  refine meets_bind.mpr (meets_mapThrown.mpr (met.mono fun outcome after ended => ?_))
  cases outcome with
  | ok result => exact ended
  | error what => exact ended

/-- One step after another, with the names that are owned after the first. -/
theorem owned_then_meets {First Result : Type} {first : OwnedTask First} {rest : First → OwnedTask Result}
    {post : Except (String × Owned) (Result × Owned) → Disk → Prop}
    (met : (first owned).Meets (osContract permitted safe) (fun outcome after => match outcome with
      | .ok (result, owned) => (rest result owned).Meets (osContract permitted safe) post after
      | .error thrown => post (.error thrown) after) disk) :
    ((first >>= rest) owned).Meets (osContract permitted safe) post disk := by
  refine meets_bind.mpr (met.mono fun outcome after ended => ?_)
  cases outcome with
  | ok result => exact ended
  | error what => exact ended

theorem attemptOwned_meets {Result : Type} {task : OwnedTask Result}
    {post : Except String (Except (String × Owned) (Result × Owned)) → Disk → Prop}
    (met : (task []).Meets (osContract permitted safe) (fun outcome => post (.ok outcome)) disk) :
    (attemptOwned task).Meets (osContract permitted safe) post disk :=
  meets_mapThrown.mpr (meets_attempt.mpr met)

theorem forgetOwned_meets {Result : Type} {task : OwnedTask Result}
    {post : Except String Result → Disk → Prop}
    (met : (task []).Meets (osContract permitted safe) (fun outcome after => match outcome with
      | .ok (result, _) => post (.ok result) after
      | .error (what, _) => post (.error what) after) disk) :
    (forgetOwned task).Meets (osContract permitted safe) post disk := by
  refine then_meets (meets_mapThrown.mpr (met.mono fun outcome after ended => ?_))
  cases outcome with
  | ok result => exact ended
  | error thrown => exact ended

theorem createOwnedFile_meets {name : FileName}
    {post : Except (String × Owned) (Unit × Owned) → Disk → Prop} (holds : safe disk)
    (created : disk.lookup (.rollback name) = none → ∀ owned,
      post (.ok ((), owned)) (disk.insert (.rollback name) (.file (.bytes []))))
    (thrown : ∀ thrown, post (.error thrown) disk) :
    (createOwnedFile name owned).Meets (osContract permitted safe) post disk := by
  refine owned_then_meets (keep_meets (createNewFile_meets holds (fun gone => ?_) fun what => thrown _))
  exact created gone _

theorem copyFileCreateNew_meets {source : Place} {name : FileName}
    {post : Except (String × Owned) (Unit × Owned) → Disk → Prop} (other : source ≠ .rollback name)
    (holds : safe disk) (still : ∀ part, safe (disk.insert (.rollback name) (.file part)))
    (copied : ∀ content owned, disk.content? source = some content →
      post (.ok ((), owned)) (disk.insert (.rollback name) (.file content)))
    (thrown : ∀ thrown, post (.error thrown) disk)
    (cut : ∀ thrown part, post (.error thrown) (disk.insert (.rollback name) (.file part))) :
    (copyFileCreateNew source name owned).Meets (osContract permitted safe) post disk := by
  refine owned_then_meets (keep_meets (requireRegularFile_meets holds (fun content here => ?_) fun _ => thrown _))
  refine owned_then_meets (keep_meets (openExistingFile_meets holds (fun _ _ => ?_) fun _ => thrown _))
  refine owned_then_meets (createOwnedFile_meets holds (fun _ owned => ?_) fun _ => thrown _)
  have there : Disk.content? (disk.insert (.rollback name) (.file (.bytes []))) source = some content :=
    (Disk.content?_insert_ne other disk _).trans here
  refine keep_meets (copyHandleToHandle_meets (still _) there ?_ fun _ part => ?_)
  · rw [AList.insert_insert]
    exact copied content owned here
  · rw [AList.insert_insert]
    exact cut _ part

/-- The file is published as a whole or not at all. -/
theorem publish_meets {name : FileName} {content : Content} {failure : String}
    {post : Except (String × Owned) (Unit × Owned) → Disk → Prop}
    (stable : Stable Place.isStaging safe) (holds : safe disk)
    (published : ∀ owned after, SameBut (orStaging (.rollback name)) disk after →
      after.lookup (.rollback name) = some (.file content) → post (.ok ((), owned)) after)
    (thrown : ∀ thrown after, SameBut Place.isStaging disk after → post (.error thrown) after) :
    (publish name content failure owned).Meets (osContract permitted safe) post disk := by
  have unchanged := SameBut.refl Place.isStaging disk
  refine owned_then_meets (keep_meets (tryStagingNames_meets holds (fun processId tickCount sequence => ?_)
    fun _ => thrown _ _ unchanged))
  let staging := Place.rollback (.staging processId tickCount sequence)
  refine owned_then_meets (createOwnedFile_meets holds (fun _ owned => ?_) fun _ => thrown _ _ unchanged)
  have staged : ∀ part, SameBut Place.isStaging disk (disk.insert staging (.file part)) :=
    fun part => sameBut_insert rfl disk _
  refine owned_then_meets (keep_meets (writeAll_meets (stable _ _ (staged _) holds) ?_ fun _ part => ?_))
  · rw [AList.insert_insert]
    refine owned_then_meets (keep_meets (moveFile_meets (stable _ _ (staged _) holds) (fun found there => ?_)
      fun _ => thrown _ _ (staged _)))
    rw [Disk.content?_insert_self] at there
    obtain rfl := Option.some.inj there
    refine published _ _ ?_ (AList.lookup_insert _)
    have isStaging : staging.isStaging = true := rfl
    have erased := (staged content).trans (sameBut_erase isStaging _)
    refine (erased.mono fun _ => orStaging_of_isStaging).trans (sameBut_insert ?_ _ _)
    exact orStaging_self _
  · rw [AList.insert_insert]
    exact thrown _ _ (staged part)

/-! ## Deletion -/

/-- The rollback directory and its names. -/
def inRollback : Place → Bool
  | .rollback _ | .rollbackDir => true
  | _ => false

/-- Nothing has changed but that names of the rollback directory, or the directory, are gone. -/
def Lost (before after : Disk) : Prop :=
  ∀ place, after.lookup place = before.lookup place ∨ inRollback place = true ∧ after.lookup place = none

theorem lost_erase {place : Place} (inside : inRollback place = true) (disk : Disk) :
    Lost disk (disk.erase place) := by
  intro other
  by_cases here : other = place
  · subst here
    exact .inr ⟨inside, AList.lookup_erase _ _⟩
  · exact .inl (AList.lookup_erase_ne here)

theorem Lost.sameBut {before after : Disk} (lost : Lost before after) : SameBut inRollback before after := by
  intro place outside
  refine (lost place).resolve_right fun gone => ?_
  exact absurd (gone.1.symm.trans outside) (by decide)

theorem Lost.lookup_eq_of_ne_none {before after : Disk} (lost : Lost before after) {place : Place}
    (there : after.lookup place ≠ none) : after.lookup place = before.lookup place :=
  (lost place).resolve_right fun gone => there gone.2

theorem duringPreparation_of_inRollback {place : Place} (inside : inRollback place = true) :
    duringPreparation place = true := by
  cases place with
  | rollback name => rfl
  | rollbackDir => rfl
  | dataDir => cases inside
  | packageData => cases inside
  | replacement file => cases inside
  | packageIgnore => cases inside
  | data name => cases inside

/-- A condition that survives the loss of what is in the rollback directory. -/
def Shrinks (gone : Disk → Prop) : Prop :=
  ∀ before after, Lost before after → gone before → gone after

theorem deleteIfRegularFile_meets {place : Place} {post : Except String Bool → Disk → Prop}
    (holds : safe disk) (missing : post (.ok true) disk)
    (deleted : post (.ok true) (disk.erase place)) (refused : post (.ok false) disk) :
    (deleteIfRegularFile place).Meets (osContract permitted safe) post disk := by
  refine then_meets ⟨holds, fun kind _ => ?_⟩
  cases kind with
  | missing => exact missing
  | file => exact delete_meets holds deleted refused
  | directory => exact refused
  | reparse => exact refused
  | other => exact refused

theorem deleteEach_meets {gone : Disk → Prop} {names : List FileName} (shrinks : Shrinks gone)
    (implies : ∀ disk, gone disk → safe disk) (holds : gone disk) :
    (deleteEach names).Meets (osContract permitted safe) (fun _ after => gone after) disk := by
  induction names generalizing disk with
  | nil => exact holds
  | cons name names ih =>
      refine then_meets (deleteIfRegularFile_meets (implies _ holds) (ih holds) ?_ holds)
      exact ih (shrinks _ _ (lost_erase rfl _) holds)

theorem listDirectory_meets {post : Except String (List (FileName × PathKind)) → Disk → Prop}
    (holds : safe disk) (listed : post (.ok disk.listing) disk) (thrown : ∀ what, post (.error what) disk) :
    listDirectory.Meets (osContract permitted safe) post disk :=
  then_meets (list_meets holds listed (thrown _))

/-- What survives the loss of names and of the directory survives its deletion. -/
theorem deleteTransactionFiles_meets {gone : Disk → Prop} {names : List FileName}
    (shrinks : Shrinks gone) (implies : ∀ disk, gone disk → safe disk) (holds : gone disk) :
    (deleteTransactionFiles names).Meets (osContract permitted safe) (fun _ after => gone after) disk := by
  have here := implies disk holds
  refine then_meets (requireDirectory_meets here (fun _ => ?_) fun _ => holds)
  refine then_meets (listDirectory_meets here ?_ fun _ => holds)
  change (if !allExpected names disk.listing then _ else _ : Task Unit).Meets _ _ _
  split
  · exact holds
  · refine then_meets ((deleteEach_meets shrinks implies holds).mono fun outcome final left => ?_)
    cases outcome with
    | error what => exact left
    | ok _ => exact then_meets (removeDirectory_meets (implies _ left) (shrinks _ _ (lost_erase rfl _) left) left)

theorem deleteOwned_meets {gone : Disk → Prop} {owned : Owned} (shrinks : Shrinks gone)
    (implies : ∀ disk, gone disk → safe disk) (holds : gone disk) :
    (deleteOwned owned).Meets (osContract permitted safe) (fun _ after => gone after) disk := by
  fun_induction deleteOwned owned generalizing disk with
  | case1 => exact holds
  | case2 names ih => exact ih holds
  | case3 names ih => exact ih holds
  | case4 names name _ _ ih =>
      refine then_meets (deleteIfRegularFile_meets (implies _ holds) (ih holds) ?_ (ih holds))
      exact ih (shrinks _ _ (lost_erase rfl _) holds)

/-- The cleanup keeps what survives every loss in the rollback directory. -/
theorem bestEffortDeleteCreatedDirectory_meets {gone : Disk → Prop} {owned : Owned} (shrinks : Shrinks gone)
    (implies : ∀ disk, gone disk → safe disk) (holds : gone disk) :
    (bestEffortDeleteCreatedDirectory owned).Meets (osContract permitted safe) (fun _ after => gone after)
      disk := by
  have created : (deleteCreated owned).Meets (osContract permitted safe) (fun _ after => gone after) disk := by
    refine then_meets (listDirectory_meets (implies _ holds) ?_ fun _ => holds)
    change (if !allExpected owned disk.listing then _ else _ : Task Unit).Meets _ _ _
    split
    · exact holds
    · refine then_meets ((deleteOwned_meets shrinks implies holds).mono fun outcome after left => ?_)
      cases outcome with
      | error what => exact left
      | ok _ =>
          refine then_meets (listDirectory_meets (implies _ left) ?_ fun _ => left)
          change (if after.listing.isEmpty then _ else _ : Task Unit).Meets _ _ _
          split
          · exact then_meets (removeDirectory_meets (implies _ left) (shrinks _ _ (lost_erase rfl _) left) left)
          · exact left
  refine then_meets ⟨implies _ holds, fun kind _ => ?_⟩
  cases kind with
  | directory => exact Meets.attempt created fun _ _ left => left
  | missing => exact holds
  | file => exact holds
  | reparse => exact holds
  | other => exact holds

end Helpers

/-! ## Histories -/

/-- A rollback has returned success. -/
def HasRestored (history : History) : Prop := (.rollback, .returned 0) ∈ history

theorem hasRestored_of_cons {history : History} {entry : Command × Ending String Nat}
    (restored : HasRestored (entry :: history)) :
    entry = (.rollback, .returned 0) ∨ HasRestored history :=
  (List.mem_cons.mp restored).imp Eq.symm id

theorem returned_zero_of_ending {outcome : Except String Nat}
    (ended : Invocations.ending outcome = .returned 0) : outcome = .ok 0 := by
  cases outcome with
  | ok result =>
      cases ended
      rfl
  | error what => cases ended

theorem lookup_of_fresh (before : FreshDisk) (name : FileName) :
    before.1.lookup (.rollback name) = none := by
  rw [AList.lookup_eq_none]
  intro member
  have kept := List.all_eq_true.mp before.2 _ (AList.mem_keys.mp member)
  cases kept

end SearchEngine.Runtime
