import SearchEngine.Auth.RecoveryPhases

/-!
# Every run of the re-issue

Each part of `RecoverAuthority` keeps the phase it runs in. The same proof serves the
calls that may fail and the call that meets no failure: `noFail` says which is meant,
and a part that throws shows that something failed.
-/

namespace SearchEngine.Auth

open SearchEngine.Lib Coroutine

section Parts

variable {crypto : Crypto} {dump : Content → Text} {request : RecoveryRequest} {noFail : Prop}
  {disk : Disk} {Result Next : Type}

/-- Calls are made on sound disks and answered in order; without failures if `noFail`. -/
abbrev rules (crypto : Crypto) (dump : Content → Text) (request : RecoveryRequest) (noFail : Prop) :
    Contract Call (Answer crypto request.password) Disk :=
  Disk.handler.contract
    (fun disk call choice =>
      (noFail ∨ Orderly dump request disk call choice) ∧ (noFail → Smooth request choice))
    (Sound dump request crypto)

/-- A result satisfies `ok`; a throw satisfies `bad`, and something failed. -/
def Post (noFail : Prop) (ok : Result → Disk → Prop) (bad : Disk → Prop) : Except String Result → Disk → Prop
  | .ok result, after => ok result after
  | .error _, after => ¬noFail ∧ bad after

/-- One part after the other. -/
theorem then_meets {first : Task crypto request.password Result}
    {next : Result → Task crypto request.password Next} (middle : Result → Disk → Prop)
    {ok : Next → Disk → Prop} {bad : Disk → Prop}
    (done : first.Meets (rules crypto dump request noFail) (Post noFail middle bad) disk)
    (rest : ∀ result after, middle result after →
      (next result).Meets (rules crypto dump request noFail) (Post noFail ok bad) after) :
    (first >>= next).Meets (rules crypto dump request noFail) (Post noFail ok bad) disk :=
  Meets.bind done rest fun _ _ thrown => thrown

theorem Post.mono {ok weakOk : Result → Disk → Prop} {bad weakBad : Disk → Prop}
    {program : Task crypto request.password Result}
    (met : program.Meets (rules crypto dump request noFail) (Post noFail ok bad) disk)
    (results : ∀ result after, ok result after → weakOk result after) (throws : ∀ after, bad after → weakBad after) :
    program.Meets (rules crypto dump request noFail) (Post noFail weakOk weakBad) disk := by
  refine met.mono fun outcome after holds => ?_
  cases outcome with
  | ok result => exact results result after holds
  | error thrown => exact ⟨holds.1, throws after holds.2⟩

/-- One call. -/
theorem made_meets {call : Call} {next : Answer crypto request.password call → Task crypto request.password Next}
    {post : Except String Next → Disk → Prop} (sound : Sound dump request crypto disk)
    (answered : ∀ choice, noFail ∨ Orderly dump request disk call choice → (noFail → Smooth request choice) →
      (next (disk.respond call choice)).Meets (rules crypto dump request noFail) post
        (disk.next call (disk.respond call choice))) :
    (made call >>= next).Meets (rules crypto dump request noFail) post disk := by
  refine Meets.call sound fun answer possible => ?_
  obtain ⟨choice, ⟨orderly, smooth⟩, rfl⟩ := possible
  exact answered choice orderly smooth

/-! ## Single steps -/

theorem lift_meets {outcome : Except String Result} {ok : Result → Disk → Prop} {bad : Disk → Prop}
    (possible : noFail → ∃ result, outcome = .ok result) (returned : ∀ result, outcome = .ok result → ok result disk)
    (thrown : bad disk) :
    (lift outcome : Task crypto request.password Result).Meets (rules crypto dump request noFail)
      (Post noFail ok bad) disk := by
  cases outcome with
  | ok result => exact returned result rfl
  | error what =>
      refine ⟨fun smooth => ?_, thrown⟩
      obtain ⟨result, impossible⟩ := possible smooth
      cases impossible

theorem require_meets {value : Bool} {error : String} {ok : Unit → Disk → Prop} {bad : Disk → Prop}
    (possible : noFail → value = true) (returned : value = true → ok () disk) (thrown : bad disk) :
    (lift (require value error) : Task crypto request.password Unit).Meets (rules crypto dump request noFail)
      (Post noFail ok bad) disk := by
  refine lift_meets (fun smooth => ⟨(), ?_⟩) (fun done passed => returned (require_eq_ok.mp passed)) thrown
  exact require_eq_ok.mpr (possible smooth)

theorem not_noFail {choice : Choice crypto request.password} (smooth : noFail → Smooth request choice)
    (fails : choice.fails = true) : ¬noFail := by
  intro none
  rw [(smooth none).fails] at fails
  cases fails

/-- A directory is created. -/
theorem createDirectories_meets (folder : Folder) (error : String) (sound : Sound dump request crypto disk) :
    (must (made (.createDirectories folder)) error : Task crypto request.password Unit).Meets
      (rules crypto dump request noFail)
      (Post noFail (fun _ after => after = disk.enter folder) (fun after => after = disk)) disk := by
  refine made_meets sound fun choice _ smooth => ?_
  cases fails : choice.fails with
  | false =>
      simp only [Disk.respond, fails]
      exact rfl
  | true =>
      simp only [Disk.respond, fails]
      exact ⟨not_noFail smooth fails, rfl⟩

theorem same_enter (folder : Folder) : disk.Same (disk.enter folder) := by
  cases folder <;> exact ⟨rfl, rfl, rfl⟩

theorem lock_meets (error : String) (sound : Sound dump request crypto disk) :
    (must (made .lock) error : Task crypto request.password Unit).Meets (rules crypto dump request noFail)
      (Post noFail (fun _ after => after = disk.beginReissue) (fun after => after = disk)) disk := by
  refine made_meets sound fun choice _ smooth => ?_
  cases fails : choice.fails with
  | false =>
      simp only [Disk.respond, fails]
      exact rfl
  | true =>
      simp only [Disk.respond, fails]
      exact ⟨not_noFail smooth fails, rfl⟩

/-- An old file is removed. -/
theorem remove_meets (file : LegacyFile) (error : String) (sound : Sound dump request crypto disk) :
    (must (made (.remove file)) error : Task crypto request.password Unit).Meets
      (rules crypto dump request noFail)
      (Post noFail (fun _ after => after = disk) (fun after => after = disk)) disk := by
  refine made_meets sound fun choice _ smooth => ?_
  cases fails : choice.fails with
  | false =>
      simp only [Disk.respond, fails]
      exact rfl
  | true =>
      simp only [Disk.respond, fails]
      exact ⟨not_noFail smooth fails, rfl⟩

theorem ask_meets (query : Query) (sound : Sound dump request crypto disk) :
    (ask query : Task crypto request.password Bool).Meets (rules crypto dump request noFail)
      (Post noFail (fun found after => after = disk ∧ found = disk.ask query)
        (fun after => after = disk ∧ (query = .readyExists → disk.Marked))) disk := by
  refine made_meets sound fun choice orderly smooth => ?_
  cases fails : choice.fails with
  | false =>
      simp only [Disk.respond, fails]
      exact ⟨rfl, rfl⟩
  | true =>
      simp only [Disk.respond, fails]
      have failed := not_noFail smooth fails
      refine ⟨failed, rfl, ?_⟩
      rintro rfl
      exact orderly.resolve_left failed fails

/-- What a removal leaves is marked. -/
theorem removePending_meets (sound : Sound dump request crypto disk) :
    (removePending : Task crypto request.password Unit).Meets (rules crypto dump request noFail)
      (Post noFail (fun _ after => after = disk.removed)
        (fun after => ∃ left, after = disk.leftBy left ∧ after.Marked)) disk := by
  refine made_meets sound fun choice orderly smooth => ?_
  cases fails : choice.fails with
  | false =>
      simp only [Disk.respond, fails]
      exact rfl
  | true =>
      simp only [Disk.respond, fails]
      have failed := not_noFail smooth fails
      exact ⟨failed, choice.left, rfl, orderly.resolve_left failed fails⟩

/-- The bounds that `Bytes` checks. -/
def Content.InBounds (dump : Content → Text) (content : Content) : Prop :=
  0 < (content.bytes dump).length ∧ (content.bytes dump).length ≤ fileLimit

theorem readBytes_meets (file : File) (sound : Sound dump request crypto disk)
    (there : noFail → ∃ content, disk.files file = some content ∧ content.InBounds dump) :
    (readBytes dump file : Task crypto request.password Content).Meets (rules crypto dump request noFail)
      (Post noFail (fun content after => after = disk ∧ disk.files file = some content ∧ content.InBounds dump)
        (fun after => after = disk)) disk := by
  refine made_meets sound fun choice _ smooth => ?_
  cases found : disk.respond (.read file) choice with
  | none =>
      refine ⟨fun none => ?_, rfl⟩
      obtain ⟨content, holds, -⟩ := there none
      simp only [Disk.respond, (smooth none).fails, holds] at found
      cases found
  | some content =>
      have holds : disk.files file = some content := by
        simp only [Disk.respond] at found
        split at found
        · cases found
        · exact found
      refine then_meets (fun _ after => after = disk ∧ content.InBounds dump)
        (require_meets ?_ ?_ rfl) ?_
      · intro none
        obtain ⟨other, same, bounds⟩ := there none
        obtain rfl := Option.some.inj (holds.symm.trans same)
        simpa [Content.InBounds] using bounds
      · intro passed
        exact ⟨rfl, by simpa [Content.InBounds] using passed⟩
      · rintro - after ⟨rfl, bounds⟩
        exact ⟨rfl, holds, bounds⟩

theorem same_addTemp (file : File) : disk.Same (disk.addTemp file) := by
  unfold Disk.addTemp
  split <;> exact ⟨rfl, rfl, rfl⟩

theorem same_dropTemp (file : File) : disk.Same (disk.dropTemp file) := by
  unfold Disk.dropTemp
  split <;> exact ⟨rfl, rfl, rfl⟩

theorem Disk.Same.put {after : Disk} (same : disk.Same after) (file : File) (content : Content) :
    (disk.put file content).Same (after.put file content) :=
  ⟨by simp only [Disk.put, same.files], same.base, same.committed⟩

theorem Disk.Same.commit {after : Disk} (same : disk.Same after) (file : File) :
    (disk.commit file).Same (after.commit file) := by
  cases file with
  | ready => exact ⟨same.files, same.base, by simp only [Disk.commit, same.files, same.committed]⟩
  | preparing => exact same
  | fresh file => exact same
  | active file => exact same

theorem Disk.MetaComplete.same {after : Disk} (complete : after.MetaComplete dump) (same : disk.Same after) :
    disk.MetaComplete dump := by
  rw [MetaComplete, same.files] at complete
  exact complete

theorem abandon_meets (file : File) (sound : Sound dump request crypto disk) (failed : ¬noFail)
    {ok : Unit → Disk → Prop} :
    (abandon file : Task crypto request.password Unit).Meets (rules crypto dump request noFail)
      (Post noFail ok disk.Same) disk := by
  refine made_meets sound fun choice _ _ => ⟨failed, ?_⟩
  simp only [Disk.respond]
  cases choice.fails with
  | false => exact same_dropTemp file
  | true => exact Disk.Same.rfl'

/-- A file is replaced, or it stays. -/
theorem atomicWrite_meets (file : File) (content : Content) (sound : Sound dump request crypto disk) :
    (atomicWrite file content : Task crypto request.password Unit).Meets (rules crypto dump request noFail)
      (Post noFail
        (fun _ after => ((disk.put file content).commit file).Same after ∧
          (file = .ready → noFail ∨ disk.MetaComplete dump))
        disk.Same) disk := by
  refine then_meets (fun _ after => disk.Same after)
    (Post.mono (createDirectories_meets file.folder _ sound) (by rintro - after rfl; exact same_enter file.folder)
      (by rintro after rfl; exact Disk.Same.rfl')) fun _ entered same => ?_
  -- the temporary file is created
  refine then_meets (fun _ after => disk.Same after) ?_ fun _ created same => ?_
  · refine made_meets (sound.same same) fun choice _ smooth => ?_
    simp only [Disk.respond]
    cases fails : choice.fails with
    | false => exact same.trans (same_addTemp file)
    | true => exact ⟨not_noFail smooth fails, same⟩
  -- and written
  refine made_meets (sound.same same) fun choice _ smooth => ?_
  simp only [Disk.respond]
  cases fails : choice.fails with
  | true =>
      exact Post.mono (abandon_meets file (sound.same same) (not_noFail smooth fails)) (fun _ _ holds => holds)
        fun after kept => same.trans kept
  | false =>
      refine made_meets (sound.same same) fun choice orderly smooth => ?_
      simp only [Disk.respond]
      cases fails : choice.fails with
      | true =>
          exact Post.mono (abandon_meets file (sound.same same) (not_noFail smooth fails)) (fun _ _ holds => holds)
            fun after kept => same.trans kept
      | false =>
          refine ⟨((same.put file content).trans (same_dropTemp file)).commit file, ?_⟩
          rintro rfl
          exact orderly.imp_right fun orderly => Disk.MetaComplete.same (orderly fails) same

/-! ## The preparation -/

/-- What of a text reached its file. -/
structure Written (noFail : Prop) (text written : Text) : Prop where
  torn : ∃ count, written = text.take count
  complete : noFail → written = text

theorem writeTextFile_meets (file : KeyFile) (text : Text) (sound : Sound dump request crypto disk) :
    (writeTextFile file text : Task crypto request.password Unit).Meets (rules crypto dump request noFail)
      (Post noFail (fun _ after => ∃ written, Written noFail text written ∧ after = disk.put (.fresh file) (.text written))
        (fun after => after = disk)) disk := by
  refine made_meets sound fun choice _ smooth => ?_
  simp only [Disk.respond]
  cases fails : choice.fails with
  | true =>
      exact ⟨not_noFail smooth fails, rfl⟩
  | false =>
      cases part : choice.written with
      | none => exact ⟨text, ⟨⟨text.length, by rw [List.take_length]⟩, fun _ => rfl⟩, rfl⟩
      | some count =>
          refine ⟨text.take count, ⟨⟨count, rfl⟩, fun none => ?_⟩, rfl⟩
          rw [(smooth none).written] at part
          cases part

/-- The new key files, as far as they were written. -/
structure Generated (noFail : Prop) (dump : Content → Text) (texts : crypto.KeyTexts request.password)
    (publicText privateText metaText : Text) (disk : Disk) : Prop where
  publicFile : disk.files (.fresh .publicKey) = some (.text publicText)
  privateFile : disk.files (.fresh .privateEnc) = some (.text privateText)
  metaFile : disk.files (.fresh .metaFile) = some (.text metaText)
  publicText : Written noFail texts.publicPem publicText
  privateText : Written noFail texts.privatePem privateText
  metaText : Written noFail (dump (.json keystoreMeta)) metaText

theorem generateKeyPair_meets (quiet : Quiet request disk) (password : request.password ≠ []) :
    (generateKeyPair dump : Task crypto request.password Unit).Meets (rules crypto dump request noFail)
      (Post noFail
        (fun _ after => Quiet request after ∧
          ∃ (texts : crypto.KeyTexts request.password) (publicText privateText metaText : Text),
            Generated noFail dump texts publicText privateText metaText after)
        (Quiet request)) disk := by
  refine then_meets (fun _ after => Quiet request after)
    (require_meets (fun _ => by simpa using password) (fun _ => quiet) quiet) fun _ checked quiet => ?_
  refine then_meets (fun _ after => Quiet request after)
    (Post.mono (createDirectories_meets .freshKeys _ quiet.sound)
      (by rintro - after rfl; exact quiet.same (same_enter .freshKeys)) (by rintro after rfl; exact quiet))
    fun _ entered quiet => ?_
  refine made_meets quiet.sound fun choice _ smooth => ?_
  simp only [Disk.respond]
  cases fails : choice.fails with
  | true =>
      exact ⟨not_noFail smooth fails, quiet⟩
  | false =>
      refine then_meets _ (Post.mono (writeTextFile_meets .publicKey choice.texts.publicPem quiet.sound)
        (fun _ _ holds => holds) (by rintro after rfl; exact quiet)) fun _ after holds => ?_
      obtain ⟨publicText, publicWritten, rfl⟩ := holds
      have first := quiet.put_fresh .publicKey (.text publicText)
      refine then_meets _ (Post.mono (writeTextFile_meets .privateEnc choice.texts.privatePem first.sound)
        (fun _ _ holds => holds) (by rintro after rfl; exact first)) fun _ after holds => ?_
      obtain ⟨privateText, privateWritten, rfl⟩ := holds
      have second := first.put_fresh .privateEnc (.text privateText)
      refine Post.mono (writeTextFile_meets .metaFile (dump (.json keystoreMeta)) second.sound) ?_
        (by rintro after rfl; exact second)
      rintro - after ⟨metaText, metaWritten, rfl⟩
      refine ⟨second.put_fresh .metaFile (.text metaText), choice.texts, publicText, privateText, metaText,
        ⟨?_, ?_, ?_, publicWritten, privateWritten, metaWritten⟩⟩ <;> simp [Disk.put]

theorem unlockPrivateKey_meets {encrypted : Text} (sound : Sound dump request crypto disk)
    (there : disk.files (.fresh .privateEnc) = some (.text encrypted))
    (opens : noFail → ∃ key, unlock crypto request.password encrypted = .ok key) :
    (unlockPrivateKey dump : Task crypto request.password crypto.PrivateKey).Meets
      (rules crypto dump request noFail)
      (Post noFail (fun key after => after = disk ∧ unlock crypto request.password encrypted = .ok key)
        (fun after => after = disk)) disk := by
  refine made_meets sound fun choice _ smooth => ?_
  simp only [Disk.respond, there]
  cases fails : choice.fails with
  | true =>
      exact ⟨not_noFail smooth fails, rfl⟩
  | false => exact lift_meets opens (fun key opened => ⟨rfl, opened⟩) rfl

/-- A private key that can be read is the one that was generated. -/
theorem unlock_of_written {texts : crypto.KeyTexts request.password} {written : Text}
    (part : Written noFail texts.privatePem written) {key : crypto.PrivateKey}
    (opened : unlock crypto request.password written = .ok key) :
    key = texts.privateKey ∧ crypto.readPrivate written request.password = some key := by
  unfold unlock at opened
  split at opened
  · cases opened
  · rename_i found read
    split at opened
    · obtain rfl := Except.ok.inj opened
      obtain ⟨count, rfl⟩ := part.torn
      exact ⟨texts.torn_private count _ read, read⟩
    · cases opened

theorem unlock_of_complete {texts : crypto.KeyTexts request.password} :
    unlock crypto request.password texts.privatePem = .ok texts.privateKey := by
  simp only [unlock, texts.reads_private, texts.privateRsa, if_true]

/-- Writing `ready.json` makes the prepared files the ones to publish. -/
theorem Quiet.commit {after : Disk} {issued : Issued crypto dump request.password} (quiet : Quiet request disk)
    (all : ∀ file, disk.files (.fresh file) = some (issued.content dump file))
    (same : ((disk.put .ready (marker request.statePath)).commit .ready).Same after) :
    Ready dump request issued (disk.put .ready (marker request.statePath)).files after := by
  have kept : ∀ file, (disk.put .ready (marker request.statePath)).files (.fresh file) =
      some (issued.content dump file) := fun file => by simpa [Disk.put] using all file
  have there : (disk.put .ready (marker request.statePath)).files .ready = some (marker request.statePath) := by
    simp [Disk.put]
  suffices Ready dump request issued (disk.put .ready (marker request.statePath)).files
      ((disk.put .ready (marker request.statePath)).commit .ready) from this.same same
  refine ⟨⟨?_, ?_, ?_, kept, ?_, ?_, ?_⟩, there, kept⟩
  · simpa [Disk.put, Disk.commit] using quiet.preparing
  · simp [Disk.put, Disk.commit]
  · simp [Disk.put, Disk.commit, quiet.committed]
  · intro _ file content found
    exact (Option.some.inj ((kept file).symm.trans found)).symm
  · exact fun file => .inl (by simpa [Disk.put, Disk.commit] using quiet.active file)
  · intro gone
    cases there.symm.trans gone

end Parts

end SearchEngine.Auth
