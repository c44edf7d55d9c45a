import SearchEngine.Auth.RecoveryRuns

/-!
# The re-issue survives failures and stops

The whole of `RecoverAuthority`, in every run of calls that fail and stop: what is
published is one new key pair with the state signed by it, and a call that meets no
failure publishes it. A removal that takes the marker of the pending directory and
leaves something else, a stop before that marker is written, and a key description
that was cut short spoil this.
-/

namespace SearchEngine.Auth

open SearchEngine.Lib Coroutine

section Parts

variable {crypto : Crypto} {dump : Content → Text} {request : RecoveryRequest} {noFail : Prop}
  {disk : Disk}

/-- The pair whose files were generated and read back, with the state signed by it. -/
def issuedOf (texts : crypto.KeyTexts request.password) {publicText privateText : Text} {next : StateDocument}
    (readsPublic : crypto.readPublic publicText = some texts.publicKey)
    (readsPrivate : crypto.readPrivate privateText request.password = some texts.privateKey)
    (valid : validateState next = .ok ()) (verified : verifyState crypto publicText next = .ok ())
    (publicBounds : 0 < publicText.length ∧ publicText.length ≤ fileLimit)
    (privateBound : privateText.length ≤ fileLimit)
    (nextBound : (dump (.document next)).length ≤ fileLimit) : Issued crypto dump request.password where
  pem := publicText
  encrypted := privateText
  next := next
  publicKey := texts.publicKey
  privateKey := texts.privateKey
  paired := texts.paired
  publicRsa := texts.publicRsa
  privateRsa := texts.privateRsa
  reads_public := readsPublic
  reads_private := readsPrivate
  valid := valid
  verified := verified
  pem_bounds := publicBounds
  encrypted_bound := privateBound
  next_bound := nextBound

/-- What the generated public text says if its fingerprint can be taken. -/
theorem readPublic_of_written {texts : crypto.KeyTexts request.password} {written text : Text}
    (part : Written noFail texts.publicPem written) (taken : crypto.fingerprint written = .ok text) :
    crypto.readPublic written = some texts.publicKey := by
  obtain ⟨key, read, -⟩ := Crypto.readPublic_of_fingerprint taken
  obtain ⟨count, rfl⟩ := part.torn
  rw [read, texts.torn_public count key read]

/-- The block that prepares leaves everything ready, or nothing is ready. -/
theorem prepare_meets (accepted : request.Accepted crypto dump) (quiet : Quiet request disk) :
    (prepare dump request : Task crypto request.password Unit).Meets (rules crypto dump request noFail)
      (Post noFail
        (fun _ after => ∃ (issued : Issued crypto dump request.password) (snapshot : Files),
          Ready dump request issued snapshot after)
        (Quiet request)) disk := by
  refine then_meets (fun _ after => Quiet request after)
    (Post.mono (atomicWrite_meets .preparing _ quiet.sound) (fun _ after holds => quiet.put_preparing.same holds.1)
      fun after same => quiet.same same) fun _ marked quiet => ?_
  refine then_meets _ (generateKeyPair_meets quiet accepted.password) fun _ generated holds => ?_
  obtain ⟨quiet, texts, publicText, privateText, metaText, made⟩ := holds
  -- the keys are read back
  refine then_meets _ (Post.mono (unlockPrivateKey_meets quiet.sound made.privateFile ?_) (fun _ _ holds => holds)
    (by rintro after rfl; exact quiet)) ?_
  · intro none
    exact ⟨texts.privateKey, by rw [made.privateText.complete none]; exact unlock_of_complete⟩
  rintro privateKey after ⟨rfl, opened⟩
  obtain ⟨rfl, readsPrivate⟩ := unlock_of_written made.privateText opened
  refine then_meets _ (Post.mono (readBytes_meets (.fresh .publicKey) quiet.sound ?_) (fun _ _ holds => holds)
    (by rintro after rfl; exact quiet)) ?_
  · intro none
    exact ⟨_, made.publicFile, by rw [made.publicText.complete none]; exact texts.public_bounds⟩
  rintro pem after ⟨rfl, found, bounds⟩
  obtain rfl := Option.some.inj (made.publicFile.symm.trans found)
  have filled : publicText ≠ [] := by
    rintro rfl
    exact Nat.lt_irrefl 0 bounds.1
  -- the state is signed with them
  refine then_meets (fun next disk => disk = after ∧
      nextState (crypto.signTokenPayload texts.privateKey) request.state (crypto.fingerprint publicText) = .ok next)
    (lift_meets ?_ (fun next prepared => ⟨rfl, prepared⟩) quiet) ?_
  · intro none
    obtain ⟨next, prepared, -⟩ := nextState_of_valid
      (by rw [made.publicText.complete none]; exact texts.reads_public) filled texts.publicRsa texts.paired
      accepted.state
    exact ⟨next, prepared⟩
  rintro next disk ⟨rfl, prepared⟩
  obtain ⟨fingerprint, taken⟩ := fingerprint_of_nextState prepared
  have readsPublic := readPublic_of_written made.publicText taken
  obtain ⟨same, preparedSame, valid, verified⟩ :=
    nextState_of_valid readsPublic filled texts.publicRsa texts.paired accepted.state
  obtain rfl := Except.ok.inj (preparedSame.symm.trans prepared)
  have privateBound : privateText.length ≤ fileLimit := by
    obtain ⟨count, rfl⟩ := made.privateText.torn
    exact Nat.le_trans (by rw [List.length_take]; exact Nat.min_le_right _ _) texts.private_bounds
  let issued := issuedOf texts readsPublic readsPrivate valid verified bounds privateBound
    (accepted.state_fits _ _ _ prepared)
  -- the state and the marker are written
  refine then_meets (fun _ after => (disk.put (.fresh .state) (.document same)).Same after)
    (Post.mono (atomicWrite_meets (.fresh .state) (.document same) quiet.sound) (fun _ after holds => holds.1)
      fun after kept => quiet.same kept) fun _ written holds => ?_
  have quiet := (quiet.put_fresh .state (.document same)).same holds
  refine Post.mono (atomicWrite_meets .ready (marker request.statePath) quiet.sound) ?_
    fun after kept => quiet.same kept
  rintro - after ⟨kept, complete⟩
  refine ⟨issued, _, quiet.commit (fun file => ?_) kept⟩
  have whole := complete rfl
  cases file with
  | publicKey =>
      have there : written.files (.fresh .publicKey) = some (.text publicText) := by
        rw [holds.files]
        simpa [Disk.put] using made.publicFile
      exact there
  | privateEnc =>
      have there : written.files (.fresh .privateEnc) = some (.text privateText) := by
        rw [holds.files]
        simpa [Disk.put] using made.privateFile
      exact there
  | metaFile =>
      have there : written.files (.fresh .metaFile) = some (.text metaText) := by
        rw [holds.files]
        simpa [Disk.put] using made.metaFile
      have full : metaText = dump (.json keystoreMeta) := by
        rcases whole with none | whole
        · exact made.metaText.complete none
        · rwa [Disk.MetaComplete, there] at whole
      rw [there, full]
      rfl
  | state => rw [holds.files]; simp [Disk.put, issued, issuedOf, Issued.content]

/-! ## Removals -/

/-- Files of the pending directory may be gone. -/
structure Disk.Shrunk (disk after : Disk) : Prop where
  files : ∀ file, after.files file = disk.files file ∨ file.isPending = true ∧ after.files file = none
  base : after.base = disk.base
  committed : after.committed = disk.committed

theorem shrunk_removed : disk.Shrunk disk.removed := by
  refine ⟨fun file => ?_, rfl, rfl⟩
  cases pending : file.isPending with
  | false => left; simp [Disk.removed, pending]
  | true => right; simp [Disk.removed, pending]

theorem shrunk_leftBy (left : Left) : disk.Shrunk (disk.leftBy left) := by
  refine ⟨fun file => ?_, rfl, rfl⟩
  simp only [Disk.leftBy]
  split
  · rename_i gone
    exact .inr ⟨(Bool.and_eq_true_iff.mp gone).1, rfl⟩
  · exact .inl rfl

theorem marked_removed : disk.removed.Marked := .inl ⟨rfl, rfl, rfl, rfl, rfl⟩

theorem Disk.Shrunk.active {after : Disk} (shrunk : disk.Shrunk after) (file : KeyFile) :
    after.files (.active file) = disk.files (.active file) := by
  rcases shrunk.files (.active file) with same | ⟨pending, -⟩
  · exact same
  · cases pending

/-- What is there after a removal was there before. -/
theorem Disk.Shrunk.before {after : Disk} (shrunk : disk.Shrunk after) {file : File} {content : Content}
    (found : after.files file = some content) : disk.files file = some content := by
  rcases shrunk.files file with same | ⟨-, gone⟩
  · rw [← same, found]
  · rw [found] at gone
    cases gone

theorem Quiet.shrunk {after : Disk} (quiet : Quiet request disk) (shrunk : disk.Shrunk after) :
    Quiet request after where
  preparing := fun content found => quiet.preparing content (shrunk.before found)
  ready := by
    cases found : after.files .ready with
    | none => rfl
    | some content => exact (quiet.ready.symm.trans (shrunk.before found)).symm
  committed := shrunk.committed.trans quiet.committed
  active := fun file => by rw [shrunk.active, shrunk.base, quiet.active]

/-- Once everything is published, the prepared files may go. -/
theorem Ready.shrunk {after : Disk} {issued : Issued crypto dump request.password} {snapshot : Files}
    (ready : Ready dump request issued snapshot disk)
    (published : ∀ file, disk.files (.active file) = some (issued.content dump file))
    (shrunk : disk.Shrunk after) : Committed dump request issued snapshot after where
  preparing := fun content found => ready.preparing content (shrunk.before found)
  ready := fun content found => ready.ready content (shrunk.before found)
  committed := shrunk.committed.trans ready.committed
  snapshot := ready.snapshot
  fresh := by
    intro _ file content found
    exact (Option.some.inj ((ready.all file).symm.trans (shrunk.before found))).symm
  active := fun file => .inr ((shrunk.active file).trans (published file))
  published := fun _ file => (shrunk.active file).trans (published file)

/-- An earlier preparation is removed. -/
theorem clearPending_meets (accepted : request.Accepted crypto dump) (quiet : Quiet request disk)
    (marked : disk.Marked) :
    (clearPending dump request : Task crypto request.password Unit).Meets (rules crypto dump request noFail)
      (Post noFail (fun _ after => Quiet request after) (fun after => Quiet request after ∧ after.Marked)) disk := by
  have kept : ∀ after, after = disk → Quiet request after ∧ after.Marked := by
    rintro after rfl
    exact ⟨quiet, marked⟩
  have clear : (removePending : Task crypto request.password Unit).Meets (rules crypto dump request noFail)
      (Post noFail (fun _ after => Quiet request after) (fun after => Quiet request after ∧ after.Marked)) disk := by
    refine Post.mono (removePending_meets quiet.sound) ?_ ?_
    · rintro - after rfl
      exact quiet.shrunk shrunk_removed
    · rintro after ⟨left, rfl, markedLeft⟩
      exact ⟨quiet.shrunk (shrunk_leftBy left), markedLeft⟩
  refine then_meets _ (Post.mono (ask_meets .pendingExists quiet.sound) (fun _ _ holds => holds)
    fun after holds => kept after holds.1) ?_
  rintro found after ⟨rfl, asked⟩
  cases found with
  | false => exact quiet
  | true =>
      have standing : after.pending = true := asked.symm
      refine then_meets _ (Post.mono (ask_meets .pendingIsDirectory quiet.sound) (fun _ _ holds => holds)
        fun after holds => kept after holds.1) ?_
      rintro found disk ⟨rfl, rfl⟩
      rw [show disk.ask .pendingIsDirectory = true from standing]
      refine then_meets _ (Post.mono (ask_meets .pendingIsEmpty quiet.sound) (fun _ _ holds => holds)
        fun after holds => kept after holds.1) ?_
      rintro found after ⟨rfl, rfl⟩
      by_cases empty : after.IsEmpty
      · simpa [Disk.ask, empty] using clear
      · -- what is not empty is this recovery's own
        obtain ⟨content, there⟩ : ∃ content, after.files .preparing = some content := by
          rcases marked with none | ⟨-, own⟩ | ⟨ready, -⟩
          · exact absurd none empty
          · exact Option.ne_none_iff_exists'.mp own
          · exact absurd quiet.ready ready
        obtain rfl := quiet.preparing content there
        simp only [Disk.ask, empty, decide_false, Bool.false_eq_true, if_false]
        refine then_meets _ (Post.mono (ask_meets .preparingIsRegular quiet.sound) (fun _ _ holds => holds)
          fun after holds => kept after holds.1) ?_
        rintro found disk ⟨rfl, rfl⟩
        simp only [Disk.ask, there, Option.isSome_some, if_true]
        refine then_meets (fun path after => after = disk ∧ path = request.statePath) ?_ ?_
        · refine then_meets _ (Post.mono (readBytes_meets .preparing quiet.sound fun _ => ?_)
            (fun _ _ holds => holds) kept) ?_
          · exact ⟨_, there, List.length_pos_iff.mpr (accepted.dump_ne_nil _), accepted.marker_fits⟩
          · rintro content after ⟨rfl, found, -⟩
            obtain rfl := Option.some.inj (there.symm.trans found)
            exact ⟨rfl, rfl⟩
        · rintro path after ⟨rfl, rfl⟩
          refine then_meets (fun _ disk => disk = after) (require_meets (fun _ => by simp) (fun _ => rfl)
            (kept _ rfl)) ?_
          rintro - disk rfl
          exact clear

/-- The preparation is given up. -/
theorem discard_meets (thrown : String) (quiet : Quiet request disk) (failed : ¬noFail)
    {ok : Unit → Disk → Prop} :
    (discard request thrown : Task crypto request.password Unit).Meets (rules crypto dump request noFail)
      (Post noFail ok (fun after => Quiet request after ∧ after.Marked)) disk := by
  refine then_meets (fun found after => after = disk ∧ found = false)
    (Post.mono (ask_meets .readyExists quiet.sound) ?_ ?_) ?_
  · rintro found after ⟨rfl, rfl⟩
    exact ⟨rfl, by simp [Disk.ask, quiet.ready]⟩
  · rintro after ⟨rfl, marked⟩
    exact ⟨quiet, marked rfl⟩
  rintro found after ⟨rfl, rfl⟩
  refine then_meets (fun _ disk => Quiet request disk ∧ disk.Marked)
    (Post.mono (removePending_meets quiet.sound) ?_ ?_) fun _ removed holds => ⟨failed, holds⟩
  · rintro - disk rfl
    exact ⟨quiet.shrunk shrunk_removed, marked_removed⟩
  · rintro disk ⟨left, rfl, marked⟩
    exact ⟨quiet.shrunk (shrunk_leftBy left), marked⟩

/-! ## The publication -/

variable {issued : Issued crypto dump request.password} {snapshot : Files}

theorem unlock_issued (issued : Issued crypto dump request.password) :
    unlock crypto request.password issued.encrypted = .ok issued.privateKey := by
  simp only [unlock, issued.reads_private, issued.privateRsa, if_true]

theorem inBounds_content (accepted : request.Accepted crypto dump) (file : KeyFile) :
    (issued.content dump file).InBounds dump := by
  cases file with
  | publicKey => exact issued.pem_bounds
  | privateEnc =>
      refine ⟨List.length_pos_iff.mpr fun empty => ?_, issued.encrypted_bound⟩
      have nothing : issued.encrypted = [] := empty
      have filled := issued.reads_private
      rw [nothing, crypto.readPrivate_nil] at filled
      cases filled
  | metaFile => exact ⟨List.length_pos_iff.mpr (accepted.dump_ne_nil _), accepted.meta_fits⟩
  | state => exact ⟨List.length_pos_iff.mpr (accepted.dump_ne_nil _), issued.next_bound⟩

/-- A prepared file is read as it was prepared. -/
theorem readFresh_meets (accepted : request.Accepted crypto dump) (file : KeyFile)
    (ready : Ready dump request issued snapshot disk) :
    (readBytes dump (.fresh file) : Task crypto request.password Content).Meets (rules crypto dump request noFail)
      (Post noFail (fun content after => after = disk ∧ content = issued.content dump file)
        (fun after => after = disk)) disk := by
  refine Post.mono (readBytes_meets (.fresh file) ready.sound fun _ => ?_) ?_ fun _ same => same
  · exact ⟨_, ready.all file, inBounds_content accepted file⟩
  · rintro content after ⟨rfl, found, -⟩
    exact ⟨rfl, Option.some.inj (found.symm.trans (ready.all file))⟩

/-- What was prepared passes the checks. -/
theorem checkPrepared_meets (accepted : request.Accepted crypto dump)
    (ready : Ready dump request issued snapshot disk) :
    (checkPrepared dump request : Task crypto request.password (Content × StateDocument)).Meets
      (rules crypto dump request noFail)
      (Post noFail (fun checked after => after = disk ∧ checked = (.text issued.pem, issued.next))
        (fun after => after = disk)) disk := by
  refine then_meets (fun path after => after = disk ∧ path = request.statePath) ?_ ?_
  · refine then_meets _ (readBytes_meets .ready ready.sound fun _ => ?_) ?_
    · exact ⟨_, ready.there, List.length_pos_iff.mpr (accepted.dump_ne_nil _), accepted.marker_fits⟩
    · rintro content after ⟨rfl, found, -⟩
      obtain rfl := Option.some.inj (ready.there.symm.trans found)
      exact ⟨rfl, rfl⟩
  rintro path after ⟨rfl, rfl⟩
  refine then_meets (fun _ disk => disk = after) (require_meets (fun _ => by simp) (fun _ => rfl) rfl) ?_
  rintro - disk rfl
  refine then_meets _ (readFresh_meets accepted .state ready) ?_
  rintro content after ⟨rfl, rfl⟩
  refine then_meets (fun next disk => disk = after ∧ next = issued.next)
    (lift_meets (fun _ => ⟨_, rfl⟩) (fun next same => ⟨rfl, (Except.ok.inj same).symm⟩) rfl) ?_
  rintro next disk ⟨rfl, rfl⟩
  refine then_meets (fun _ after => after = disk) (lift_meets (fun _ => ⟨_, issued.valid⟩) (fun _ _ => rfl) rfl) ?_
  rintro - after rfl
  refine then_meets _ (unlockPrivateKey_meets ready.sound (ready.all .privateEnc)
    fun _ => ⟨_, unlock_issued issued⟩) ?_
  rintro privateKey disk ⟨rfl, opened⟩
  obtain rfl := Except.ok.inj ((unlock_issued issued).symm.trans opened)
  refine then_meets _ (readFresh_meets accepted .publicKey ready) ?_
  rintro pem after ⟨rfl, rfl⟩
  have filled : issued.pem ≠ [] := List.length_pos_iff.mp issued.pem_bounds.1
  refine then_meets (fun _ disk => disk = after) (require_meets (fun _ => ?_) (fun _ => rfl) rfl) ?_
  · exact Crypto.verifyTokenSignature_signTokenPayload issued.reads_public filled issued.paired keyCheck
  rintro - disk rfl
  refine then_meets (fun _ after => after = disk)
    (lift_meets (fun _ => ⟨_, issued.verified⟩) (fun _ _ => rfl) rfl) ?_
  rintro - after rfl
  exact ⟨rfl, rfl⟩

/-- One active file is replaced by the prepared one; those replaced before stay. -/
theorem publishFile_meets (file : KeyFile) {done : List KeyFile}
    (ready : Ready dump request issued snapshot disk)
    (published : ∀ other ∈ done, disk.files (.active other) = some (issued.content dump other)) :
    (atomicWrite (.active file) (issued.content dump file) : Task crypto request.password Unit).Meets
      (rules crypto dump request noFail)
      (Post noFail
        (fun _ after => Ready dump request issued snapshot after ∧
          ∀ other ∈ file :: done, after.files (.active other) = some (issued.content dump other))
        (Ready dump request issued snapshot)) disk := by
  refine Post.mono (atomicWrite_meets (.active file) _ ready.sound) ?_ fun after same => ready.same same
  rintro - after ⟨same, -⟩
  refine ⟨(ready.put_active file).same same, fun other member => ?_⟩
  rw [same.files]
  rcases eq_or_ne other file with rfl | different
  · simp [Disk.put, Disk.commit]
  · have before := published other (List.mem_of_ne_of_mem different member)
    simpa [Disk.put, Disk.commit, different] using before

theorem removeLegacy_meets (files : List LegacyFile) (sound : Sound dump request crypto disk) :
    (removeLegacy request files : Task crypto request.password Unit).Meets (rules crypto dump request noFail)
      (Post noFail (fun _ after => after = disk) (fun after => after = disk)) disk := by
  induction files with
  | nil => exact rfl
  | cons file rest ih =>
      refine then_meets _ (remove_meets file _ sound) ?_
      rintro - after rfl
      exact ih

/-- The active files are replaced by those of the pair. -/
theorem publish_meets (accepted : request.Accepted crypto dump) (ready : Ready dump request issued snapshot disk) :
    (publish dump request (.text issued.pem) issued.next : Task crypto request.password Unit).Meets
      (rules crypto dump request noFail)
      (Post noFail
        (fun _ after => Ready dump request issued snapshot after ∧
          ∀ file, after.files (.active file) = some (issued.content dump file))
        (Ready dump request issued snapshot)) disk := by
  refine then_meets _ (@publishFile_meets crypto dump request noFail disk issued snapshot .publicKey [] ready (by simp)) ?_
  rintro - after ⟨ready, first⟩
  refine then_meets _ (Post.mono (readFresh_meets accepted .privateEnc ready) (fun _ _ holds => holds)
    (by rintro disk rfl; exact ready)) ?_
  rintro encrypted disk ⟨rfl, rfl⟩
  refine then_meets _ (publishFile_meets .privateEnc ready first) ?_
  rintro - after ⟨ready, second⟩
  refine then_meets _ (Post.mono (readFresh_meets accepted .metaFile ready) (fun _ _ holds => holds)
    (by rintro disk rfl; exact ready)) ?_
  rintro description disk ⟨rfl, rfl⟩
  refine then_meets _ (publishFile_meets .metaFile ready second) ?_
  rintro - after ⟨ready, third⟩
  refine then_meets _ (Post.mono (removeLegacy_meets _ ready.sound) (fun _ _ holds => holds)
    (by rintro disk rfl; exact ready)) ?_
  rintro - disk rfl
  refine Post.mono (publishFile_meets .state ready third) ?_ fun _ kept => kept
  rintro - after ⟨ready, all⟩
  refine ⟨ready, fun file => all file ?_⟩
  cases file <;> simp

/-- A ready re-issue is published and ends, or stays ready. -/
theorem finish_meets (accepted : request.Accepted crypto dump) (ready : Ready dump request issued snapshot disk) :
    (finish dump request : Task crypto request.password Unit).Meets (rules crypto dump request noFail)
      (Post noFail
        (fun _ after => Committed dump request issued snapshot after ∧ after.files .ready = none ∧ after.Marked)
        (fun after => Sound dump request crypto after ∧ after.Marked)) disk := by
  have stays : ∀ after, Ready dump request issued snapshot after → Sound dump request crypto after ∧ after.Marked :=
    fun after ready => ⟨ready.sound, ready.marked⟩
  refine then_meets _ (Post.mono (checkPrepared_meets accepted ready) (fun _ _ holds => holds)
    (by rintro after rfl; exact stays _ ready)) ?_
  rintro checked after ⟨rfl, rfl⟩
  refine then_meets _ (Post.mono (publish_meets accepted ready) (fun _ _ holds => holds) stays) ?_
  rintro - disk ⟨ready, published⟩
  refine Post.mono (removePending_meets ready.sound) ?_ ?_
  · rintro - after rfl
    exact ⟨ready.shrunk published shrunk_removed, rfl, marked_removed⟩
  · rintro after ⟨left, rfl, marked⟩
    exact ⟨.inr ⟨issued, snapshot, ready.shrunk published (shrunk_leftBy left)⟩, marked⟩

/-! ## A whole call -/

theorem Disk.Marked.beginReissue (marked : disk.Marked) : disk.beginReissue.Marked := by
  unfold Disk.beginReissue
  split
  · exact marked
  · exact marked

/-- Where there is no `ready.json` a re-issue begins. -/
theorem quiet_beginReissue (sound : Sound dump request crypto disk) (gone : disk.files .ready = none) :
    Quiet request disk.beginReissue := by
  have begun : disk.beginReissue = { disk with base := disk.files, committed := [] } := by
    simp [Disk.beginReissue, gone]
  rw [begun]
  refine ⟨?_, gone, rfl, fun _ => rfl⟩
  rcases sound with quiet | ⟨issued, snapshot, committed⟩
  · exact quiet.preparing
  · exact committed.preparing

theorem beginReissue_of_ready (there : disk.files .ready ≠ none) : disk.beginReissue = disk := by
  rw [Disk.beginReissue, if_pos (Option.isSome_iff_ne_none.mpr there)]

/-- Where there is one, everything prepared is there. -/
theorem ready_of_marked (sound : Sound dump request crypto disk) (marked : disk.Marked)
    (there : disk.files .ready ≠ none) :
    ∃ (issued : Issued crypto dump request.password) (snapshot : Files), Ready dump request issued snapshot disk := by
  rcases sound with quiet | ⟨issued, snapshot, committed⟩
  · exact absurd quiet.ready there
  · refine ⟨issued, snapshot, committed, ?_, fun file => ?_⟩
    · obtain ⟨content, found⟩ := Option.ne_none_iff_exists'.mp there
      rw [found, committed.ready content found]
    · rcases marked with ⟨-, -, -, gone, -⟩ | ⟨gone, -⟩ | ⟨-, all⟩
      · exact absurd gone there
      · exact absurd gone there
      · obtain ⟨content, found⟩ := Option.ne_none_iff_exists'.mp (all file)
        rw [found, committed.fresh there file content found]

/-- A call, from any disk that earlier calls left. -/
theorem recoverAuthority_meets (accepted : request.Accepted crypto dump) (sound : Sound dump request crypto disk)
    (marked : disk.Marked) :
    (recoverAuthority dump request : Task crypto request.password Unit).Meets (rules crypto dump request noFail)
      (Post noFail
        (fun _ after => (∃ (issued : Issued crypto dump request.password) (snapshot : Files),
            Committed dump request issued snapshot after ∧
              (disk.files .ready ≠ none → disk.committed = [snapshot])) ∧
          after.files .ready = none ∧ after.Marked)
        (fun after => Sound dump request crypto after ∧ after.Marked)) disk := by
  simp only [recoverAuthority, accepted.paths]
  refine then_meets _ (Post.mono (createDirectories_meets .parentOfKeys _ sound) (fun _ _ holds => holds)
    (by rintro after rfl; exact ⟨sound, marked⟩)) ?_
  rintro - entered rfl
  refine then_meets _ (Post.mono (lock_meets _ sound) (fun _ _ holds => holds)
    (by rintro after rfl; exact ⟨sound, marked⟩)) ?_
  rintro - begun rfl
  rcases Option.eq_none_or_eq_some (entered.files .ready) with gone | ⟨content, found⟩
  · -- nothing is ready: prepare
    have quiet := quiet_beginReissue sound gone
    have markedBegun : entered.beginReissue.Marked := marked.beginReissue
    refine then_meets (fun found after => after = entered.beginReissue ∧ found = false)
      (Post.mono (ask_meets .readyExists quiet.sound) ?_
        (by rintro after ⟨rfl, -⟩; exact ⟨quiet.sound, markedBegun⟩)) ?_
    · rintro found after ⟨rfl, rfl⟩
      exact ⟨rfl, by simp [Disk.ask, quiet.ready]⟩
    rintro found after ⟨rfl, rfl⟩
    refine then_meets (fun _ after => after = entered.beginReissue)
      (lift_meets (fun _ => ⟨_, accepted.state⟩) (fun _ _ => rfl) ⟨quiet.sound, markedBegun⟩) ?_
    rintro - after rfl
    refine then_meets (fun _ after => after = entered.beginReissue)
      (require_meets (fun _ => by simpa using accepted.password) (fun _ => rfl) ⟨quiet.sound, markedBegun⟩) ?_
    rintro - after rfl
    refine then_meets _ (Post.mono (clearPending_meets accepted quiet markedBegun) (fun _ _ holds => holds)
      fun after holds => ⟨holds.1.sound, holds.2⟩) fun _ cleared quiet => ?_
    refine Meets.attempt (prepare_meets accepted quiet) fun outcome after holds => ?_
    cases outcome with
    | ok done =>
        obtain ⟨issued, snapshot, ready⟩ := holds
        refine Post.mono (finish_meets accepted ready) ?_ fun _ kept => kept
        rintro - final ⟨committed, gone', marked'⟩
        exact ⟨⟨issued, snapshot, committed, fun there => absurd gone there⟩, gone', marked'⟩
    | error thrown =>
        refine then_meets (fun _ _ => False) (Post.mono (discard_meets thrown holds.2 holds.1)
          (fun _ _ holds => holds) fun after kept => ⟨kept.1.sound, kept.2⟩) ?_
        rintro - final ⟨⟩
  · -- everything is ready: publish
    have there : entered.files .ready ≠ none := by rw [found]; exact Option.some_ne_none _
    obtain ⟨issued, snapshot, ready⟩ := ready_of_marked sound marked there
    have same : entered.beginReissue = entered := beginReissue_of_ready there
    rw [same]
    refine then_meets (fun found after => after = entered ∧ found = true)
      (Post.mono (ask_meets .readyExists sound) ?_ (by rintro after ⟨rfl, -⟩; exact ⟨sound, marked⟩)) ?_
    · rintro answer after ⟨rfl, rfl⟩
      exact ⟨rfl, by simp [Disk.ask, found]⟩
    rintro answer after ⟨rfl, rfl⟩
    refine Post.mono (finish_meets accepted ready) ?_ fun _ kept => kept
    rintro - final ⟨committed, gone, marked'⟩
    exact ⟨⟨issued, snapshot, committed, fun _ => ready.committed⟩, gone, marked'⟩

end Parts

/-! ## Runs -/

section Runs

variable (crypto : Crypto) (dump : Content → Text) (request : RecoveryRequest)

/-- Calls with the same arguments, one after the other. -/
abbrev Calls := Invocations Unit Call (Answer crypto request.password) String Unit Disk

def machine : Machine (Calls crypto request) (Invoke Unit (Choice crypto request.password)) :=
  Invocations.machine Disk.handler (fun _ _ => true) fun _ => recoverAuthority dump request

/-- Before any call: there is no pending directory. -/
def startDisk (active : KeyFile → Option Content) : Disk :=
  let files : Files := fun file => match file with
    | .active file => active file
    | .preparing | .ready | .fresh _ => none
  ⟨files, false, false, 0, files, []⟩

/-- The active files are of one key pair, and its state is signed by it. -/
def OneKeyPair (disk : Disk) : Prop :=
  ∃ issued : Issued crypto dump request.password,
    ∀ file, disk.files (.active file) = some (issued.content dump file)

/-- What the runs keep. A re-issue is over when its `ready.json` is gone; a further
call begins another. -/
structure CrashSafe (s : Calls crypto request) : Prop where
  /-- Until `ready.json` is written the active files are unchanged. -/
  unchanged : s.state.committed = [] → ∀ file, s.state.files (.active file) = s.state.base (.active file)
  /-- It is written once, and only what was prepared then is published. -/
  once : s.state.committed.length ≤ 1
  published : ∀ snapshot ∈ s.state.committed, ∀ file,
    s.state.files (.active file) = s.state.base (.active file) ∨
      s.state.files (.active file) = snapshot (.fresh file)
  /-- When it is gone everything is published. -/
  complete : s.state.files .ready = none → ∀ snapshot ∈ s.state.committed, ∀ file,
    s.state.files (.active file) = snapshot (.fresh file)
  /-- A call that meets no failure finishes what was begun. -/
  finishes : s.running = none → ∀ choose : Disk → Choice crypto request.password,
    (∀ disk, Smooth request (choose disk)) →
      ∃ final, (recoverAuthority dump request).play Disk.handler choose s.state = (.ok (), final) ∧
        OneKeyPair crypto dump request final ∧ (s.state.files .ready ≠ none →
          ∀ snapshot ∈ s.state.committed, ∀ file, final.files (.active file) = snapshot (.fresh file))

variable {crypto dump request} {disk : Disk}

theorem sound_startDisk (active : KeyFile → Option Content) : Sound dump request crypto (startDisk active) := by
  refine .inl ⟨fun content found => ?_, rfl, rfl, fun file => rfl⟩
  cases found

theorem marked_startDisk (active : KeyFile → Option Content) : (startDisk active).Marked :=
  .inl ⟨rfl, rfl, rfl, rfl, rfl⟩

/-- The calls keep the phases. -/
theorem recovery_keeps (accepted : request.Accepted crypto dump) :
    Invocations.KeepsStops Disk.handler (fun _ : Unit => recoverAuthority dump request) (fun _ _ => true)
      (@Orderly crypto dump request) Disk.Marked
      (fun _ disk => Sound dump request crypto disk ∧ disk.Marked) (fun _ _ => Sound dump request crypto) where
  meets := by
    rintro - history disk - ⟨sound, marked⟩
    have met : (recoverAuthority dump request).Meets (rules crypto dump request False) _ disk :=
      recoverAuthority_meets accepted sound marked
    refine (met.permit fun _ _ _ orderly => ⟨.inr orderly, False.elim⟩).mono fun outcome after holds => ?_
    cases outcome with
    | ok result =>
        obtain ⟨⟨issued, snapshot, committed, -⟩, -, markedAfter⟩ := holds
        have soundAfter : Sound dump request crypto after := .inr ⟨issued, snapshot, committed⟩
        exact ⟨⟨soundAfter, markedAfter⟩, soundAfter⟩
    | error thrown => exact ⟨holds.2, holds.2.1⟩
  stopped := fun _ _ _ _ sound marked => ⟨sound, marked⟩

/-- The call that meets no failure. -/
theorem finishes_of_marked (accepted : request.Accepted crypto dump) (sound : Sound dump request crypto disk)
    (marked : disk.Marked) {choose : Disk → Choice crypto request.password}
    (smooth : ∀ disk, Smooth request (choose disk)) :
    ∃ final, (recoverAuthority dump request).play Disk.handler choose disk = (.ok (), final) ∧
      OneKeyPair crypto dump request final ∧ (disk.files .ready ≠ none →
        ∀ snapshot ∈ disk.committed, ∀ file, final.files (.active file) = snapshot (.fresh file)) := by
  have met := @recoverAuthority_meets crypto dump request True disk accepted sound marked
  have allowed : ∀ disk call, (True ∨ Orderly dump request disk call (choose disk)) ∧
      (True → Smooth request (choose disk)) := fun disk _ => ⟨.inl trivial, fun _ => smooth disk⟩
  have played := met.of_play allowed
  generalize (recoverAuthority dump request).play Disk.handler choose disk = run at played ⊢
  obtain ⟨outcome, final⟩ := run
  cases outcome with
  | error thrown => exact absurd trivial played.1
  | ok result =>
      obtain ⟨⟨issued, snapshot, committed, same⟩, gone, -⟩ := played
      refine ⟨final, rfl, ⟨issued, committed.published gone⟩, fun there other member file => ?_⟩
      rw [same there, List.mem_singleton] at member
      rw [member, committed.published gone, committed.snapshot]

theorem Sound.unchanged (sound : Sound dump request crypto disk) (uncommitted : disk.committed = []) :
    ∀ file, disk.files (.active file) = disk.base (.active file) := by
  rcases sound with quiet | ⟨issued, snapshot, committed⟩
  · exact quiet.active
  · rw [committed.committed] at uncommitted
    cases uncommitted

theorem Sound.once (sound : Sound dump request crypto disk) : disk.committed.length ≤ 1 := by
  rcases sound with quiet | ⟨issued, snapshot, committed⟩
  · rw [quiet.committed]
    exact Nat.zero_le 1
  · rw [committed.committed]
    exact Nat.le_refl 1

theorem Sound.published (sound : Sound dump request crypto disk) {snapshot : Files}
    (member : snapshot ∈ disk.committed) (file : KeyFile) :
    (disk.files (.active file) = disk.base (.active file) ∨
      disk.files (.active file) = snapshot (.fresh file)) ∧
    (disk.files .ready = none → disk.files (.active file) = snapshot (.fresh file)) := by
  rcases sound with quiet | ⟨issued, other, committed⟩
  · rw [quiet.committed] at member
    cases member
  · rw [committed.committed, List.mem_singleton] at member
    subst member
    rw [committed.snapshot]
    exact ⟨committed.active file, fun gone => committed.published gone file⟩

/-- In every run of calls with the same accepted arguments that fail and stop, as long
as no removal and no stop leaves a directory without its marker and the description of
the new keys is complete when they are marked ready, the re-issue is crash-safe. -/
theorem crashSafe_of_marked (accepted : request.Accepted crypto dump) (active : KeyFile → Option Content)
    {steps : List (Invoke Unit (Choice crypto request.password))}
    (conforms : (machine crypto dump request).Conforms
      (Invocations.PermitsStops (Orderly dump request) Disk.Marked)
      (Invocations.initial (startDisk active)) steps) :
    (machine crypto dump request).Throughout (CrashSafe crypto dump request)
      (Invocations.initial (startDisk active)) steps := by
  refine Invocations.throughout_of_keepsStops (recovery_keeps accepted)
    ⟨sound_startDisk active, marked_startDisk active⟩ conforms fun s invariant => ?_
  have sound : Sound dump request crypto s.state := by
    cases running : s.running with
    | none =>
        rw [Invocations.Invariant, running] at invariant
        exact invariant.1
    | some current => exact invariant.during_of_running running
  refine ⟨sound.unchanged, sound.once, fun snapshot member file => (sound.published member file).1,
    fun gone snapshot member file => (sound.published member file).2 gone, fun idle choose smooth => ?_⟩
  rw [Invocations.Invariant, idle] at invariant
  exact finishes_of_marked accepted sound invariant.2 smooth

end Runs

/-! ## One authority -/

/-- One key pair; a signature is one byte. -/
def onePair : Crypto where
  PublicKey := Unit
  PrivateKey := Unit
  readPublic pem := if pem = ['P', '.'] then some () else none
  readPrivate pem password := if pem = ['S', '.'] ∧ password = ['x'] then some () else none
  isRsa2048 _ := true
  isPrivateRsa2048 _ := true
  digest _ := ['F']
  sign _ _ := [1]
  verify _ _ signature := signature = [1]
  Paired _ _ := True
  verify_sign _ _ _ _ := rfl
  sign_ne_nil _ _ := List.cons_ne_nil 1 []
  readPrivate_nil _ := if_neg fun same => nomatch same.1

/-- An authority with one enrolled computer. -/
def oneClient : RecoveryRequest where
  pathRefusal := none
  statePath := ['s']
  state := some
    { tokens := .present [some
        { format := .present kTokenFormat
          formatVersion := .present 1
          flashSerial := false
          clientId := .present ['c']
          clientName := .present ['n']
          deviceType := .present kDeviceTypeUsb
          deviceId := .present ['d']
          signature := .present ⟨.present kSignatureAlg, .present kBase64, .present ['A']⟩ }]
      computerUuid := .present (canonicalUuid (List.replicate 32 'A'))
      role := .present "server".toList
      services := .present []
      publicKeyFingerprint := .absent
      reissuePrepared := .absent }
  password := ['x']

/-- The text of every document, as short as it may be. -/
def shortDump (_ : Content) : Text := ['0']

theorem oneClient_accepted : oneClient.Accepted onePair shortDump where
  paths := rfl
  state := by decide +kernel
  password := by decide
  dump_ne_nil _ := List.cons_ne_nil '0' []
  marker_fits := by decide
  meta_fits := by decide
  state_fits _ _ _ _ := (by decide : 1 ≤ fileLimit)

def newTexts : onePair.KeyTexts oneClient.password where
  publicPem := ['P', '.']
  privatePem := ['S', '.']
  publicKey := ()
  privateKey := ()
  paired := trivial
  publicRsa := rfl
  privateRsa := rfl
  reads_public := rfl
  reads_private := rfl
  torn_public _ _ _ := rfl
  torn_private _ _ _ := rfl
  public_bounds := by decide
  private_bounds := by decide

/-- A step that succeeds. -/
def succeeds : Choice onePair oneClient.password := ⟨false, ⟨fun _ => false, false, 0⟩, none, newTexts⟩

/-- A step that fails; a removal leaves the marker. -/
def breaksOff : Choice onePair oneClient.password :=
  ⟨true, ⟨fun file => decide (file = .preparing), false, 0⟩, none, newTexts⟩

/-- No key is generated and the preparation is not removed, a second call stops while it
publishes, and a third one ends. -/
def interruptedTwice : List (Invoke Unit (Choice onePair oneClient.password)) :=
  [[.start ()], List.replicate 10 (.proceed succeeds),
    [.proceed breaksOff, .proceed succeeds, .proceed breaksOff, .proceed succeeds],
    [.start ()], List.replicate 40 (.proceed succeeds), [.stop],
    [.start ()], List.replicate 31 (.proceed succeeds)].flatten

theorem crashSafe_of_marked_interrupted :
    (machine onePair shortDump oneClient).Throughout (CrashSafe onePair shortDump oneClient)
      (Invocations.initial (startDisk fun _ => none)) interruptedTwice ∧
    ((machine onePair shortDump oneClient).run (Invocations.initial (startDisk fun _ => none)) interruptedTwice).map
      (fun s => s.history.map Prod.snd) = some [.returned (), .stopped, .threw "filesystem_error"] := by
  refine ⟨crashSafe_of_marked oneClient_accepted (fun _ => none) ?_, ?_⟩
  · decide +kernel
  · decide +kernel

/-- A call that stops before its first marker is written is not taken up again. -/
theorem not_crashSafe_unmarked : ¬∀ (crypto : Crypto) (dump : Content → Text) (request : RecoveryRequest)
    (active : KeyFile → Option Content) (steps : List (Invoke Unit (Choice crypto request.password))),
    request.Accepted crypto dump → (machine crypto dump request).Throughout (CrashSafe crypto dump request)
      (Invocations.initial (startDisk active)) steps := by
  intro claimed
  let steps : List (Invoke Unit (Choice onePair oneClient.password)) :=
    .start () :: (List.replicate 6 (.proceed succeeds) ++ [.stop])
  have throughout := claimed onePair shortDump oneClient (fun _ => none) steps oneClient_accepted
  have stopped : ((machine onePair shortDump oneClient).run (Invocations.initial (startDisk fun _ => none)) steps).map
      (fun s => (s.running.isNone, ((recoverAuthority shortDump oneClient).play Disk.handler (fun _ => succeeds)
        s.state).1)) =
      some (true, .error "Pending directory is not owned by this recovery; nothing was deleted") := by
    decide +kernel
  obtain ⟨s, run, outcome⟩ := Option.map_eq_some_iff.mp stopped
  obtain ⟨idle, refused⟩ := Prod.mk.inj outcome
  obtain ⟨final, played, -⟩ := (throughout.final run).finishes (Option.isNone_iff_eq_none.mp idle)
    (fun _ => succeeds) fun _ => ⟨rfl, rfl⟩
  rw [played] at refused
  cases refused

end SearchEngine.Auth
