import SearchEngine.Auth.AuthorityRecovery

/-!
# The two phases of a re-issue

What holds of the disk while calls of `RecoverAuthority` fail and stop: until
`ready.json` is written the active files are those the re-issue began with, and from
then on every active file is either that or the prepared one. Which failures and
stops a run may meet.
-/

namespace SearchEngine.Auth

open SearchEngine.Lib

/-! ## What a run may meet -/

/-- The pending directory is empty, or shows whose it is and is complete. -/
def Disk.Marked (disk : Disk) : Prop :=
  disk.IsEmpty ∨ (disk.files .ready = none ∧ disk.files .preparing ≠ none) ∨
    (disk.files .ready ≠ none ∧ ∀ file, disk.files (.fresh file) ≠ none)

instance (disk : Disk) : Decidable disk.Marked :=
  decidable_of_iff (disk.IsEmpty ∨ ((disk.files .ready).isNone = true ∧ (disk.files .preparing).isSome = true) ∨
    ((disk.files .ready).isSome = true ∧ ∀ file ∈ [KeyFile.publicKey, .privateEnc, .metaFile, .state],
      (disk.files (.fresh file)).isSome = true)) (by
    have every (holds : KeyFile → Prop) :
        (∀ file ∈ [KeyFile.publicKey, .privateEnc, .metaFile, .state], holds file) ↔ ∀ file, holds file :=
      ⟨fun all file => all file (by cases file <;> simp), fun all file _ => all file⟩
    rw [every]
    simp [Disk.Marked, Option.isSome_iff_ne_none])

/-- `keystore.meta.json` of the new keys was written to its end. -/
def Disk.MetaComplete (dump : Content → Text) (disk : Disk) : Prop :=
  match disk.files (.fresh .metaFile) with
  | some (.text written) => written = dump (.json keystoreMeta)
  | _ => False

instance (dump : Content → Text) (disk : Disk) : Decidable (disk.MetaComplete dump) :=
  match found : disk.files (.fresh .metaFile) with
  | some (.text written) => decidable_of_iff (written = dump (.json keystoreMeta)) (by simp [Disk.MetaComplete, found])
  | some (.json _) | some (.document _) | none => isFalse (by simp [Disk.MetaComplete, found])

section Rules

variable {crypto : Crypto} (dump : Content → Text) (request : RecoveryRequest)

/-- A removal that fails leaves a marked directory, so does a failing look for
`ready.json`, and `ready.json` is not written after a cut `keystore.meta.json`. -/
def Orderly (disk : Disk) (call : Call) (choice : Choice crypto request.password) : Prop :=
  match call with
  | .removeAll => choice.fails = true → (disk.leftBy choice.left).Marked
  | .query .readyExists => choice.fails = true → disk.Marked
  | .replace .ready _ => choice.fails = false → disk.MetaComplete dump
  | _ => True

instance (disk : Disk) (call : Call) (choice : Choice crypto request.password) :
    Decidable (Orderly dump request disk call choice) :=
  match call with
  | .removeAll => inferInstanceAs (Decidable (choice.fails = true → (disk.leftBy choice.left).Marked))
  | .query .readyExists => inferInstanceAs (Decidable (choice.fails = true → disk.Marked))
  | .replace .ready _ => inferInstanceAs (Decidable (choice.fails = false → disk.MetaComplete dump))
  | .query .pendingExists | .query .pendingIsDirectory | .query .pendingIsEmpty | .query .preparingIsRegular
  | .replace .preparing _ | .replace (.fresh _) _ | .replace (.active _) _ | .createDirectories _ | .lock
  | .read _ | .createTemp _ | .writeTemp _ _ | .deleteTemp _ | .generate | .writeText _ _ | .remove _ =>
      isTrue trivial

/-- Nothing fails. -/
structure Smooth (choice : Choice crypto request.password) : Prop where
  fails : choice.fails = false
  written : choice.written = none

/-- The arguments that the checks accept; the documents can be read back. -/
structure RecoveryRequest.Accepted (crypto : Crypto) (dump : Content → Text) (request : RecoveryRequest) :
    Prop where
  paths : request.pathRefusal = none
  state : validateState request.state = .ok ()
  password : request.password ≠ []
  dump_ne_nil : ∀ content, dump content ≠ []
  marker_fits : (dump (marker request.statePath)).length ≤ fileLimit
  meta_fits : (dump (.json keystoreMeta)).length ≤ fileLimit
  state_fits : ∀ (privateKey : crypto.PrivateKey) pem next,
    nextState (crypto.signTokenPayload privateKey) request.state (crypto.fingerprint pem) = .ok next →
      (dump (.document next)).length ≤ fileLimit

/-! ## A new key pair and its state -/

/-- A key pair, the texts it is read from, and a state that verifies under it. -/
structure Issued (crypto : Crypto) (dump : Content → Text) (password : Text) where
  pem : Text
  encrypted : Text
  next : StateDocument
  publicKey : crypto.PublicKey
  privateKey : crypto.PrivateKey
  paired : crypto.Paired publicKey privateKey
  publicRsa : crypto.isRsa2048 publicKey = true
  privateRsa : crypto.isPrivateRsa2048 privateKey = true
  reads_public : crypto.readPublic pem = some publicKey
  reads_private : crypto.readPrivate encrypted password = some privateKey
  valid : validateState next = .ok ()
  verified : verifyState crypto pem next = .ok ()
  pem_bounds : 0 < pem.length ∧ pem.length ≤ fileLimit
  encrypted_bound : encrypted.length ≤ fileLimit
  next_bound : (dump (.document next)).length ≤ fileLimit

/-- What the files of the pair hold. -/
def Issued.content {password : Text} (issued : Issued crypto dump password) : KeyFile → Content
  | .publicKey => .text issued.pem
  | .privateEnc => .text issued.encrypted
  | .metaFile => .text (dump (.json keystoreMeta))
  | .state => .document issued.next

/-! ## The two phases -/

/-- No `ready.json` was written since the re-issue began. -/
structure Quiet (disk : Disk) : Prop where
  preparing : ∀ content, disk.files .preparing = some content → content = marker request.statePath
  ready : disk.files .ready = none
  committed : disk.committed = []
  active : ∀ file, disk.files (.active file) = disk.base (.active file)

/-- `ready.json` was written once, when the pending files were those of `issued`. -/
structure Committed (issued : Issued crypto dump request.password) (snapshot : Files) (disk : Disk) : Prop where
  preparing : ∀ content, disk.files .preparing = some content → content = marker request.statePath
  ready : ∀ content, disk.files .ready = some content → content = marker request.statePath
  committed : disk.committed = [snapshot]
  snapshot : ∀ file, snapshot (.fresh file) = some (issued.content dump file)
  fresh : disk.files .ready ≠ none →
    ∀ file content, disk.files (.fresh file) = some content → content = issued.content dump file
  active : ∀ file, disk.files (.active file) = disk.base (.active file) ∨
    disk.files (.active file) = some (issued.content dump file)
  published : disk.files .ready = none →
    ∀ file, disk.files (.active file) = some (issued.content dump file)

def Sound (crypto : Crypto) (disk : Disk) : Prop :=
  Quiet request disk ∨
    ∃ (issued : Issued crypto dump request.password) (snapshot : Files), Committed dump request issued snapshot disk

/-- Everything that was prepared is there. -/
structure Ready (issued : Issued crypto dump request.password) (snapshot : Files) (disk : Disk) : Prop
    extends Committed dump request issued snapshot disk where
  there : disk.files .ready = some (marker request.statePath)
  all : ∀ file, disk.files (.fresh file) = some (issued.content dump file)

end Rules

/-! ## Disks with the same files -/

/-- The files are the same; directories and temporary files may differ. -/
structure Disk.Same (disk after : Disk) : Prop where
  files : after.files = disk.files
  base : after.base = disk.base
  committed : after.committed = disk.committed

theorem Disk.Same.rfl' {disk : Disk} : disk.Same disk := ⟨rfl, rfl, rfl⟩

theorem Disk.Same.trans {first second third : Disk} (left : first.Same second) (right : second.Same third) :
    first.Same third :=
  ⟨right.files.trans left.files, right.base.trans left.base, right.committed.trans left.committed⟩

section Invariants

variable {crypto : Crypto} {dump : Content → Text} {request : RecoveryRequest} {disk after : Disk}
  {issued : Issued crypto dump request.password} {snapshot : Files}

theorem Quiet.same (quiet : Quiet request disk) (same : disk.Same after) : Quiet request after where
  preparing := by rw [same.files]; exact quiet.preparing
  ready := by rw [same.files]; exact quiet.ready
  committed := by rw [same.committed]; exact quiet.committed
  active := by rw [same.files, same.base]; exact quiet.active

theorem Committed.same (committed : Committed dump request issued snapshot disk) (same : disk.Same after) :
    Committed dump request issued snapshot after where
  preparing := by rw [same.files]; exact committed.preparing
  ready := by rw [same.files]; exact committed.ready
  committed := by rw [same.committed]; exact committed.committed
  snapshot := committed.snapshot
  fresh := by rw [same.files]; exact committed.fresh
  active := by rw [same.files, same.base]; exact committed.active
  published := by rw [same.files]; exact committed.published

theorem Sound.same (sound : Sound dump request crypto disk) (same : disk.Same after) :
    Sound dump request crypto after := by
  rcases sound with quiet | ⟨issued, snapshot, committed⟩
  · exact .inl (quiet.same same)
  · exact .inr ⟨issued, snapshot, committed.same same⟩

theorem Ready.same (ready : Ready dump request issued snapshot disk) (same : disk.Same after) :
    Ready dump request issued snapshot after where
  toCommitted := ready.toCommitted.same same
  there := by rw [same.files]; exact ready.there
  all := by rw [same.files]; exact ready.all

theorem Quiet.sound (quiet : Quiet request disk) : Sound dump request crypto disk := .inl quiet

theorem Ready.sound (ready : Ready dump request issued snapshot disk) : Sound dump request crypto disk :=
  .inr ⟨issued, snapshot, ready.toCommitted⟩

theorem Ready.marked (ready : Ready dump request issued snapshot disk) : disk.Marked := by
  refine .inr (.inr ⟨by rw [ready.there]; exact Option.some_ne_none _, fun file => ?_⟩)
  rw [ready.all file]
  exact Option.some_ne_none _

/-- While nothing is ready, files of the pending directory may be written. -/
theorem Quiet.put_fresh (quiet : Quiet request disk) (file : KeyFile) (content : Content) :
    Quiet request (disk.put (.fresh file) content) where
  preparing := by simpa [Disk.put] using quiet.preparing
  ready := by simpa [Disk.put] using quiet.ready
  committed := quiet.committed
  active := by simpa [Disk.put] using quiet.active

theorem Quiet.put_preparing (quiet : Quiet request disk) :
    Quiet request (disk.put .preparing (marker request.statePath)) where
  preparing := by simp [Disk.put]
  ready := by simpa [Disk.put] using quiet.ready
  committed := quiet.committed
  active := by simpa [Disk.put] using quiet.active

/-- A prepared file is published. -/
theorem Ready.put_active (ready : Ready dump request issued snapshot disk) (file : KeyFile) :
    Ready dump request issued snapshot (disk.put (.active file) (issued.content dump file)) where
  preparing := by simpa [Disk.put] using ready.preparing
  ready := by simpa [Disk.put] using ready.ready
  committed := ready.committed
  snapshot := ready.snapshot
  fresh := by simpa [Disk.put] using ready.fresh
  active := by
    intro other
    rcases eq_or_ne other file with rfl | different
    · right
      simp [Disk.put]
    · simpa [Disk.put, different] using ready.active other
  published := by
    intro gone
    have there := ready.there
    simp [Disk.put] at gone
    rw [gone] at there
    cases there
  there := by simpa [Disk.put] using ready.there
  all := by simpa [Disk.put] using ready.all

end Invariants

end SearchEngine.Auth
