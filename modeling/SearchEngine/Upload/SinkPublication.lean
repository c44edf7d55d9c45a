import SearchEngine.Upload.SinkPrograms
import SearchEngine.Upload.UploadContainment

/-!
# What sinks publish

A sink owns its staging file from `prepare` to `publish` or `abort`; everything else in
the file system belongs to other sinks or is public. A published file is public, and no
sink touches a public file again. So any interleaving of any number of sinks is a log of
publications at places that were free.
-/

namespace SearchEngine.Upload

open Files Lib Server

/-! ## Receptions -/

/-- What a sink has received since it was prepared; the bytes are unknown once a write
broke off. -/
structure Reception where
  target : PlannedTarget
  fileSize : Nat
  bytes : Option (List UInt8)

/-- The reception that the methods so far, the latest first, amount to. -/
def reception : List (SinkCommand × SinkResult) → Option Reception
  | [] => none
  | (.prepare target fileSize, ended) :: _ =>
      match ended.result with
      | .ok _ => some ⟨target, fileSize, some []⟩
      | .error _ => none
  | (.writeChunk chunk, ended) :: before => (reception before).map fun upload =>
      match ended.result with
      | .ok _ => { upload with bytes := upload.bytes.map (· ++ chunk) }
      | .error failure => if failure.error = .fileWriteFailed then { upload with bytes := none } else upload
  | (.publish, ended) :: before =>
      match ended.result with
      | .ok _ => none
      | .error _ => reception before
  | (.abort, _) :: _ => none

section Publication

variable {Place : Type} (locate : Path → Place) (processId : Nat) (tidy : Bool)

/-- The file that a successful `publish` gives to the public: its name is one of the planned
names, and unless a write broke off it has the bytes received, as many as advertised. -/
structure IsPublication (upload : Reception) (publishedPath : Path) (content : List UInt8) : Prop where
  name : ∃ index, publishedPath = joinPath upload.target.directory (suffixedFileName upload.target.baseName index)
  exact : ∀ bytes, upload.bytes = some bytes → content = bytes ∧ bytes.length = upload.fileSize

/-- What a method gives to the public: `publish` its file, and all others nothing. -/
def Publishes [DecidableEq Place] (past : List (SinkCommand × SinkResult)) :
    SinkCommand → SinkResult → Heap Place (List UInt8) → Prop
  | .publish, ⟨.ok _, publishedPath⟩, given => ∃ upload content, reception past = some upload ∧
      IsPublication upload publishedPath content ∧ given = Heap.single (locate publishedPath) content
  | _, _, given => given = fun _ => none

/-- The attributes of a file that was just published can be read; `tidy` asks that removals
succeed as well. -/
def Answered : SinkCall → SinkChoice → Prop
  | .checkPublished _, choice => choice.checked = .ok ()
  | .remove _, choice => tidy = true → choice.granted = true
  | _, _ => True

instance (call : SinkCall) (choice : SinkChoice) : Decidable (Answered tidy call choice) := by
  cases call <;> unfold Answered <;> infer_instance

/-! ## What a sink owns -/

/-- The sink has no file, except those it failed to remove. -/
def Clean (part : Heap Place (List UInt8)) : Prop := tidy = true → ∀ place, part place = none

/-- The sink has this file, and no other except those it failed to remove. -/
structure HoldsFile (place : Place) (content : List UInt8) (part : Heap Place (List UInt8)) : Prop where
  file : part place = some content
  alone : tidy = true → ∀ other, other ≠ place → part other = none

/-- The sink has its staging file while it is prepared. -/
structure Holds (sink : StreamingUploadSink) (part : Heap Place (List UInt8)) : Prop where
  staged : sink.prepared = true → sink.published = false ∧ sink.stagingPath.isEmpty = false ∧
    ∃ content, HoldsFile tidy (locate sink.stagingPath) content part
  idle : sink.prepared = false → Clean tidy part

/-- The prepared sink stands for the reception, and its staging file has the content. -/
structure Receives (upload : Reception) (sink : StreamingUploadSink) (content : List UInt8) : Prop where
  unpublished : sink.published = false
  named : sink.stagingPath.isEmpty = false
  directory : sink.destinationDir = upload.target.directory
  baseName : sink.requestedFileName = upload.target.baseName
  size : sink.advertisedSize = upload.fileSize
  exact : ∀ bytes, upload.bytes = some bytes → content = bytes ∧ bytes.length = sink.bytesWritten

/-- What a sink owns between its methods. -/
def Owns (past : List (SinkCommand × SinkResult)) (sink : StreamingUploadSink) (part : Heap Place (List UInt8)) : Prop :=
  if sink.prepared then ∃ upload content, reception past = some upload ∧ Receives upload sink content ∧
    HoldsFile tidy (locate sink.stagingPath) content part
  else Clean tidy part

variable {locate processId tidy} {part : Heap Place (List UInt8)} {sink : StreamingUploadSink}
  {content : List UInt8} {past : List (SinkCommand × SinkResult)}

theorem Owns.holds (owns : Owns locate tidy past sink part) : Holds locate tidy sink part := by
  unfold Owns at owns
  constructor
  · intro prepared
    rw [if_pos prepared] at owns
    obtain ⟨upload, content, -, receives, holds⟩ := owns
    exact ⟨receives.unpublished, receives.named, content, holds⟩
  · intro unprepared
    rwa [unprepared, if_neg Bool.false_ne_true] at owns

theorem owns_of_clean (unprepared : sink.prepared = false) (clean : Clean tidy part) :
    Owns locate tidy past sink part := by
  rw [Owns, unprepared, if_neg Bool.false_ne_true]
  exact clean

theorem owns_of_receives {upload : Reception} (prepared : sink.prepared = true) (received : reception past = some upload)
    (receives : Receives upload sink content) (holds : HoldsFile tidy (locate sink.stagingPath) content part) :
    Owns locate tidy past sink part := by
  rw [Owns, if_pos prepared]
  exact ⟨upload, content, received, receives, holds⟩

/-- A chunk that is refused before it is written changes nothing. -/
theorem owns_of_refused {chunk : List UInt8} {failure : Failure} (harmless : failure.error ≠ .fileWriteFailed)
    (owns : Owns locate tidy past sink part) (publishedPath : Path) :
    Owns locate tidy ((.writeChunk chunk, ⟨.error failure, publishedPath⟩) :: past) sink part := by
  have same : reception ((.writeChunk chunk, ⟨.error failure, publishedPath⟩) :: past) = reception past := by
    simp [reception, harmless]
  rw [Owns, same]
  exact owns

/-! ## Operations -/

variable [DecidableEq Place]

variable (locate processId tidy) in
/-- What the program keeps, whatever the other sinks do. -/
abbrev SinkKeeps {Ended : Type} (post : Ended → Heap Place (List UInt8) → Prop) :
    Coroutine SinkCall SinkCall.Answer Empty Ended → Heap Place (List UInt8) → Prop :=
  Agents.Keeps (sinkHandler locate processId) SinkWorld.files (Answered tidy) post

/-- A removal of the sink's file. -/
theorem keeps_remove {Ended : Type} {post : Ended → Heap Place (List UInt8) → Prop} {path : Path}
    {next : Bool → Coroutine SinkCall SinkCall.Answer Empty Ended}
    (holds : HoldsFile tidy (locate path) content part)
    (removed : ∀ answer part', Clean tidy part' → SinkKeeps locate processId tidy post (next answer) part') :
    SinkKeeps locate processId tidy post (perform (.remove path) >>= next) part := by
  intro world choice within allowed
  cases granted : choice.granted with
  | true =>
      refine ⟨Function.update part (locate path) none, ?_, removed _ _ fun isTidy place => ?_⟩
      · have owned : part (locate path) ≠ none := by rw [holds.file]; exact Option.some_ne_none content
        simpa [sinkHandler, SinkWorld.respond, SinkWorld.next, granted] using
          Heap.Trades.update within (.inl owned) none
      · by_cases same : place = locate path
        · rw [same, Function.update_self]
        · rw [Function.update_of_ne same, holds.alone isTidy place same]
  | false =>
      refine ⟨part, ?_, removed _ _ fun isTidy => ?_⟩
      · simpa [sinkHandler, SinkWorld.respond, SinkWorld.next, granted] using Heap.Trades.same within
      · have answered : choice.granted = true := allowed isTidy
        rw [granted] at answered
        cases answered

/-- `abort` leaves the sink unprepared and without a file. -/
theorem keeps_abort (holds : Holds locate tidy sink part) :
    SinkKeeps locate processId tidy (fun after part' => after.prepared = false ∧ Clean tidy part') sink.abort part := by
  unfold StreamingUploadSink.abort
  cases prepared : sink.prepared with
  | false => exact ⟨rfl, holds.idle prepared⟩
  | true =>
      obtain ⟨unpublished, named, content, file⟩ := holds.staged prepared
      simp only [unpublished, named, Bool.not_false, Bool.and_self, if_true]
      exact keeps_remove file fun _ _ clean => ⟨rfl, clean⟩

/-- A failure after `abort`. -/
theorem keeps_abandon (holds : Holds locate tidy sink part) (failure : Failure) :
    SinkKeeps locate processId tidy
      (fun ended part' => ended.1 = .error failure ∧ ended.2.prepared = false ∧ Clean tidy part')
      (sink.abandon failure) part := by
  refine Agents.Keeps.bind (keeps_abort holds) ?_
  rintro after part' ⟨unprepared, clean⟩
  exact ⟨rfl, unprepared, clean⟩

theorem isEmpty_of_composition {directory composed : Path}
    (below : compositionStaysUnderDirectory directory composed = true) : composed.isEmpty = false := by
  cases composed with
  | nil =>
      have normal : lexicallyNormal [] = [] := by decide +kernel
      simp [compositionStaysUnderDirectory, normal] at below
  | cons c rest => rfl

/-- A staging file is new and empty. -/
theorem keeps_chooseStaging (directory : Path) (attempts : Nat) (clean : Clean tidy part) :
    SinkKeeps locate processId tidy
      (fun chosen part' => match chosen with
        | .error _ => Clean tidy part'
        | .ok staging => staging.isEmpty = false ∧ HoldsFile tidy (locate staging) [] part')
      (StreamingUploadSink.chooseStaging directory attempts) part := by
  induction attempts with
  | zero => exact clean
  | succ attempts ih =>
      unfold StreamingUploadSink.chooseStaging
      refine Agents.Keeps.ask (fun _ _ => rfl) fun world choice _ => ?_
      generalize (sinkHandler locate processId).respond world .nextStagingLeaf choice = leaf
      dsimp only
      split
      · exact clean
      · next below =>
          intro world choice within _
          dsimp only [sinkHandler, SinkWorld.respond]
          cases taken : world.files (locate (joinPath directory leaf)) with
          | some other =>
              refine ⟨part, ?_, ?_⟩
              · cases choice.file <;> exact Heap.Trades.same within
              · cases choice.file with
                | done => exact ih
                | occupied => exact ih
                | failed lastError => exact clean
          | none =>
              cases choice.file with
              | done =>
                  refine ⟨Function.update part (locate (joinPath directory leaf)) (some []), ?_, ?_, ?_, ?_⟩
                  · exact Heap.Trades.update within (.inr taken) (some [])
                  · exact isEmpty_of_composition (by simpa using below)
                  · exact Function.update_self ..
                  · intro isTidy other differ
                    rw [Function.update_of_ne differ]
                    exact clean isTidy other
              | occupied => exact ⟨part, Heap.Trades.same within, ih⟩
              | failed lastError => exact ⟨part, Heap.Trades.same within, clean⟩

/-- The pieces are appended one after the other, as far as the writes go. -/
theorem keeps_storePieces {path : Path} (rounds : Nat) (rest : List UInt8) (enough : rest.length ≤ rounds)
    (holds : HoldsFile tidy (locate path) content part) :
    SinkKeeps locate processId tidy
      (fun stored part' => ∃ content', HoldsFile tidy (locate path) content' part' ∧
        (stored = true → content' = content ++ rest))
      (StreamingUploadSink.storePieces path rounds rest) part := by
  induction rounds generalizing rest content part with
  | zero =>
      obtain rfl := List.length_eq_zero_iff.mp (Nat.le_zero.mp enough)
      exact ⟨content, holds, fun _ => (List.append_nil content).symm⟩
  | succ rounds ih =>
      unfold StreamingUploadSink.storePieces
      split
      · next none' =>
          rw [List.isEmpty_iff.mp none']
          exact ⟨content, holds, fun _ => (List.append_nil content).symm⟩
      · next more =>
          have filled : rest ≠ [] := fun none' => more (List.isEmpty_iff.mpr none')
          have positive : 0 < rest.length := List.length_pos_iff.mpr filled
          refine Agents.Keeps.call fun world choice within _ => ?_
          generalize (sinkHandler locate processId).respond world (.writeFile path (rest.take (64 * 1024))) choice = answer
          obtain ⟨stored, count⟩ := answer
          have there := within _ _ holds.file
          have owned : part (locate path) ≠ none := by rw [holds.file]; exact Option.some_ne_none content
          let written := content ++ (rest.take (64 * 1024)).take count
          have holds' : HoldsFile tidy (locate path) written (Function.update part (locate path) (some written)) := by
            constructor
            · exact Function.update_self ..
            · intro isTidy other differ
              rw [Function.update_of_ne differ]
              exact holds.alone isTidy other differ
          refine ⟨Function.update part (locate path) (some written), ?_, ?_⟩
          · simpa [sinkHandler, SinkWorld.next, there] using Heap.Trades.update within (.inl owned) (some written)
          · split
            · exact ⟨written, holds', fun stored => by cases stored⟩
            · next all =>
                simp only [Bool.or_eq_true, Bool.not_eq_true', decide_eq_true_eq, not_or, ne_eq,
                  Decidable.not_not] at all
                have whole : written ++ rest.drop count = content ++ rest := by
                  have small : count ≤ 64 * 1024 := by rw [all.2]; exact List.length_take_le _ _
                  rw [List.append_assoc, List.take_take, Nat.min_eq_left small, List.take_append_drop]
                have shorter : (rest.drop count).length ≤ rounds := by
                  rw [List.length_drop, all.2, List.length_take]
                  omega
                exact (ih (rest.drop count) shorter holds').mono fun ok part' ⟨content', file, exact'⟩ =>
                  ⟨content', file, fun done => (exact' done).trans whole⟩

/-- The staging file is moved to a name that nothing has, or removed. -/
theorem keeps_chooseName (prepared : sink.prepared = true) (unpublished : sink.published = false)
    (named : sink.stagingPath.isEmpty = false) (attempts index : Nat)
    (holds : HoldsFile tidy (locate sink.stagingPath) content part) :
    SinkKeeps locate processId tidy
      (fun ended part' => ended.2.prepared = false ∧ match ended.1 with
        | .error _ => Clean tidy part'
        | .ok _ => (∃ index, ended.2.publishedPath =
              joinPath sink.destinationDir (suffixedFileName sink.requestedFileName index)) ∧
            HoldsFile tidy (locate ended.2.publishedPath) content part')
      (sink.chooseName attempts index) part := by
  have held : Holds locate tidy sink part :=
    ⟨fun _ => ⟨unpublished, named, content, holds⟩, fun unprepared => by rw [prepared] at unprepared; cases unprepared⟩
  have abandons : ∀ failure, SinkKeeps locate processId tidy
      (fun ended part' => ended.2.prepared = false ∧ match ended.1 with
        | .error _ => Clean tidy part'
        | .ok _ => (∃ index, ended.2.publishedPath =
              joinPath sink.destinationDir (suffixedFileName sink.requestedFileName index)) ∧
            HoldsFile tidy (locate ended.2.publishedPath) content part')
      (sink.abandon failure) part := by
    intro failure
    refine (keeps_abandon held failure).mono ?_
    rintro ⟨result, after⟩ part' ⟨failed, unprepared, clean⟩
    dsimp only at failed
    subst failed
    exact ⟨unprepared, clean⟩
  induction attempts generalizing index with
  | zero => exact abandons _
  | succ attempts ih =>
      unfold StreamingUploadSink.chooseName
      dsimp only
      split
      · exact abandons _
      · refine Agents.Keeps.ask (fun _ _ => rfl) fun world choice _ => ?_
        generalize (sinkHandler locate processId).respond world (.taken _) choice = taken
        split
        · exact ih (index + 1)
        · generalize spelled : joinPath sink.destinationDir (suffixedFileName sink.requestedFileName index) = dest
          refine Agents.Keeps.call fun world choice within _ => ?_
          have source := within _ _ holds.file
          dsimp only [sinkHandler, SinkWorld.respond]
          rw [source]
          cases occupied : world.files (locate dest) with
          | some other =>
              refine ⟨part, ?_, ?_⟩
              · cases choice.file <;> exact Heap.Trades.same within
              · cases choice.file with
                | done => exact ih (index + 1)
                | occupied => exact ih (index + 1)
                | failed lastError => exact abandons _
          | none =>
              cases choice.file with
              | occupied => exact ⟨part, Heap.Trades.same within, ih (index + 1)⟩
              | failed lastError => exact ⟨part, Heap.Trades.same within, abandons _⟩
              | done =>
                  have owned : part (locate sink.stagingPath) ≠ none := by
                    rw [holds.file]; exact Option.some_ne_none content
                  have taken := Heap.Trades.update within (.inl owned) none
                  have apart : locate dest ≠ locate sink.stagingPath := by
                    intro same
                    rw [same, source] at occupied
                    cases occupied
                  have free : Function.update world.files (locate sink.stagingPath) none (locate dest) = none := by
                    rw [Function.update_of_ne apart, occupied]
                  simp only [Option.isSome_none, Option.isNone_some, Bool.or_self, Bool.false_eq_true, if_false,
                    SinkWorld.next, source]
                  refine ⟨_, taken.trans (Heap.Trades.update taken.held (.inr free) (some content)), ?_⟩
                  have moved : HoldsFile tidy (locate dest) content (Function.update
                      (Function.update part (locate sink.stagingPath) none) (locate dest) (some content)) := by
                    constructor
                    · exact Function.update_self ..
                    · intro isTidy other differ
                      rw [Function.update_of_ne differ]
                      by_cases same : other = locate sink.stagingPath
                      · rw [same, Function.update_self]
                      · rw [Function.update_of_ne same, holds.alone isTidy other same]
                  refine Agents.Keeps.ask (fun _ _ => rfl) fun world choice answered => ?_
                  have checked : choice.checked = .ok () := answered
                  dsimp only [sinkHandler, SinkWorld.respond]
                  rw [checked]
                  exact ⟨rfl, ⟨index, spelled.symm⟩, moved⟩



/-! ## Methods -/

theorem keeps_openStaging (unprepared : sink.prepared = false) (clean : Clean tidy part) (target : PlannedTarget)
    (fileSize : Nat) (requested : sink.requestedFileName = target.baseName) :
    SinkKeeps locate processId tidy
      (fun ended part' => Owns locate tidy
        ((.prepare target fileSize, ⟨ended.1, ended.2.publishedPath⟩) :: past) ended.2 part')
      (sink.openStaging target fileSize) part := by
  refine Agents.Keeps.bind (keeps_chooseStaging target.directory 256 clean) fun chosen part chosenOwns => ?_
  cases chosen with
  | error failure => exact owns_of_clean unprepared chosenOwns
  | ok staging =>
      obtain ⟨named, file⟩ := chosenOwns
      refine Agents.Keeps.ask (fun _ _ => rfl) fun world choice _ => ?_
      dsimp only [sinkHandler, SinkWorld.respond]
      cases choice.checked with
      | error failure => exact keeps_remove file fun _ _ clean => owns_of_clean unprepared clean
      | ok _ =>
          refine owns_of_receives rfl rfl ?_ file
          constructor
          case unpublished => rfl
          case named => exact named
          case directory => rfl
          case baseName => exact requested
          case size => rfl
          case exact => exact fun bytes same => ⟨Option.some.inj same, by rw [← Option.some.inj same]; rfl⟩

theorem keeps_prepare (table : UpperCase) (past : List (SinkCommand × SinkResult)) (holds : Holds locate tidy sink part)
    (target : PlannedTarget) (fileSize : Nat) :
    SinkKeeps locate processId tidy
      (fun ended part' => Owns locate tidy
        ((.prepare target fileSize, ⟨ended.1, ended.2.publishedPath⟩) :: past) ended.2 part')
      (sink.prepare table target fileSize) part := by
  refine Agents.Keeps.bind (keeps_abort holds) ?_
  rintro after part ⟨unprepared, clean⟩
  split
  · exact owns_of_clean unprepared clean
  · split
    · exact owns_of_clean unprepared clean
    · dsimp only
      split
      · exact owns_of_clean unprepared clean
      · refine Agents.Keeps.ask (fun _ _ => rfl) fun world choice _ => ?_
        dsimp only [sinkHandler, SinkWorld.respond]
        cases ensureSafeDirectoryTree choice.folders target.directory target.directory with
        | error failure => exact owns_of_clean unprepared clean
        | ok _ =>
            apply keeps_openStaging
            · exact unprepared
            · exact clean
            · rfl

theorem keeps_writeChunk (owns : Owns locate tidy past sink part) (chunk : List UInt8) :
    SinkKeeps locate processId tidy
      (fun ended part' => Owns locate tidy
        ((.writeChunk chunk, ⟨ended.1, ended.2.publishedPath⟩) :: past) ended.2 part')
      (sink.writeChunk chunk) part := by
  unfold StreamingUploadSink.writeChunk
  split
  · exact owns_of_refused (by decide) owns _
  · next ready =>
      have prepared : sink.prepared = true := by
        rw [Bool.or_eq_true, not_or, Bool.not_eq_true', Bool.not_eq_false] at ready
        exact ready.1
      have whole := owns
      rw [Owns, if_pos prepared] at whole
      obtain ⟨upload, content, received, receives, file⟩ := whole
      split
      · next none' =>
          have nothing : chunk = [] := List.isEmpty_iff.mp none'
          have now : reception ((.writeChunk chunk, ⟨.ok (), sink.publishedPath⟩) :: past) =
              some { upload with bytes := upload.bytes.map (· ++ chunk) } := by simp [reception, received]
          refine owns_of_receives prepared now ?_ file
          exact ⟨receives.unpublished, receives.named, receives.directory, receives.baseName, receives.size, by
            intro bytes same
            obtain ⟨before, known, rfl⟩ := Option.map_eq_some_iff.mp same
            rw [nothing, List.append_nil]
            exact receives.exact before known⟩
      · split
        · exact owns_of_refused (by decide) owns _
        · split
          · exact owns_of_refused (by decide) owns _
          · refine Agents.Keeps.bind (keeps_storePieces chunk.length chunk (Nat.le_refl _) file) ?_
            rintro stored part' ⟨content', file', exact'⟩
            cases stored with
            | false =>
                have now : reception ((.writeChunk chunk, ⟨.error ⟨.fileWriteFailed, "staging WriteFile failed"⟩,
                    sink.publishedPath⟩) :: past) = some { upload with bytes := none } := by
                  simp [reception, received]
                refine owns_of_receives prepared now ?_ file'
                exact ⟨receives.unpublished, receives.named, receives.directory, receives.baseName, receives.size,
                  fun _ unknown => by cases unknown⟩
            | true =>
                obtain rfl := exact' rfl
                have now : reception ((.writeChunk chunk, ⟨.ok (), sink.publishedPath⟩) :: past) =
                    some { upload with bytes := upload.bytes.map (· ++ chunk) } := by simp [reception, received]
                refine owns_of_receives prepared now ?_ file'
                exact ⟨receives.unpublished, receives.named, receives.directory, receives.baseName, receives.size, by
                  intro bytes same
                  obtain ⟨before, known, rfl⟩ := Option.map_eq_some_iff.mp same
                  obtain ⟨rfl, counted⟩ := receives.exact before known
                  exact ⟨rfl, by rw [List.length_append, counted]⟩⟩

/-- A publication that fails leaves the staging file as it is or removes it. -/
theorem keeps_publish (owns : Owns locate tidy past sink part) :
    SinkKeeps locate processId tidy
      (fun ended part' => match ended.1 with
        | .error failure => Owns locate tidy
            ((.publish, ⟨.error failure, ended.2.publishedPath⟩) :: past) ended.2 part'
        | .ok _ => ended.2.prepared = false ∧ ∃ upload content, reception past = some upload ∧
            IsPublication upload ended.2.publishedPath content ∧
            HoldsFile tidy (locate ended.2.publishedPath) content part')
      sink.publish part := by
  have still : ∀ failure, Owns locate tidy ((.publish, ⟨.error failure, sink.publishedPath⟩) :: past) sink part :=
    fun _ => owns
  unfold StreamingUploadSink.publish
  split
  · exact still _
  · next ready =>
      have prepared : sink.prepared = true := by
        rw [Bool.or_eq_true, not_or, Bool.not_eq_true', Bool.not_eq_false] at ready
        exact ready.1
      have whole := owns
      rw [Owns, if_pos prepared] at whole
      obtain ⟨upload, content, received, receives, file⟩ := whole
      split
      · exact still _
      · next all =>
          have goesOn : ∀ flushed : Bool, SinkKeeps locate processId tidy
              (fun ended part' => match ended.1 with
                | .error failure => Owns locate tidy
                    ((.publish, ⟨.error failure, ended.2.publishedPath⟩) :: past) ended.2 part'
                | .ok _ => ended.2.prepared = false ∧ ∃ upload content, reception past = some upload ∧
                    IsPublication upload ended.2.publishedPath content ∧
                    HoldsFile tidy (locate ended.2.publishedPath) content part')
              (if !flushed then pure (.error ⟨.fileWriteFailed, "FlushFileBuffers failed"⟩, sink)
                else StreamingUploadSink.chooseName { sink with stagingHandle := false } 100000 0) part := by
            intro flushed
            split
            · exact still _
            · have chosen := @keeps_chooseName Place locate processId tidy part { sink with stagingHandle := false }
                content _ prepared receives.unpublished receives.named 100000 0 file
              refine chosen.mono ?_
              rintro ⟨result, after⟩ part' ⟨unprepared, ended⟩
              cases result with
              | error failure => exact owns_of_clean unprepared ended
              | ok _ =>
                  obtain ⟨⟨index, spelled⟩, file'⟩ := ended
                  refine ⟨unprepared, upload, content, received, ⟨⟨index, ?_⟩, ?_⟩, file'⟩
                  · rw [← receives.directory, ← receives.baseName]
                    exact spelled
                  · intro bytes known
                    obtain ⟨same, counted⟩ := receives.exact bytes known
                    refine ⟨same, ?_⟩
                    rw [counted, ← receives.size]
                    exact Decidable.not_not.mp all
          dsimp only
          split
          · exact Agents.Keeps.ask (fun _ _ => rfl) fun world choice _ => goesOn _
          · exact goesOn true

/-- Every method hands over what it publishes, and keeps the staging file of a prepared sink. -/
theorem keeps_command (table : UpperCase) (past : List (SinkCommand × SinkResult)) (sink : StreamingUploadSink)
    (part : Heap Place (List UInt8)) (command : SinkCommand) (owns : Owns locate tidy past sink part) :
    SinkKeeps locate processId tidy
      (Agents.Handover (Owns locate tidy) (Publishes locate) past command) (command.program table sink) part := by
  have nothing : ∀ {result : SinkResult} {after : StreamingUploadSink} {part' : Heap Place (List UInt8)},
      Publishes locate past command result (fun _ => none) → Owns locate tidy ((command, result) :: past) after part' →
      Agents.Handover (Owns locate tidy) (Publishes locate) past command (result, after) part' := by
    intro result after part' gives rests
    refine ⟨part', fun _ => none, ?_, fun _ => .inr rfl, rests, gives⟩
    ext1 place
    simp [Heap.join]
  cases command with
  | prepare target fileSize =>
      refine Agents.Keeps.bind (keeps_prepare table past owns.holds target fileSize) fun ended part' owned => ?_
      exact nothing rfl owned
  | writeChunk chunk =>
      refine Agents.Keeps.bind (keeps_writeChunk owns chunk) fun ended part' owned => ?_
      exact nothing rfl owned
  | abort =>
      have aborted : SinkKeeps locate processId tidy
          (fun ended part' => ended.2.prepared = false ∧ Clean tidy part') (SinkCommand.method table .abort sink) part :=
        Agents.Keeps.bind (keeps_abort owns.holds) fun after part' ended => ended
      refine Agents.Keeps.bind aborted ?_
      rintro ended part' ⟨unprepared, clean⟩
      exact nothing rfl (owns_of_clean unprepared clean)
  | publish =>
      refine Agents.Keeps.bind (keeps_publish owns) ?_
      rintro ⟨result, after⟩ part' ended
      cases result with
      | error failure => exact nothing rfl ended
      | ok _ =>
          obtain ⟨unprepared, upload, content, received, publication, file⟩ := ended
          refine ⟨Function.update part' (locate after.publishedPath) none,
            Heap.single (locate after.publishedPath) content, ?_, ?_, ?_, upload, content, received, publication, rfl⟩
          · ext1 place
            by_cases same : place = locate after.publishedPath
            · simp [Heap.join, Heap.single, same, file.file]
            · simp [Heap.join, Heap.single, same]
          · intro place
            by_cases same : place = locate after.publishedPath
            · exact .inl (by rw [same, Function.update_self])
            · exact .inr (if_neg same)
          · refine owns_of_clean unprepared fun isTidy place => ?_
            by_cases same : place = locate after.publishedPath
            · rw [same, Function.update_self]
            · rw [Function.update_of_ne same, file.alone isTidy place same]

/-- Any number of sinks, in any interleaving: the files are those there were at first and
those published, each put where nothing was, with a planned name and, unless a write broke
off, exactly the bytes received. Where removals succeed, every other file is the staging
file of a prepared sink or belongs to a method that has not ended. -/
theorem published_of_run {Sink : Type} [DecidableEq Sink] (table : UpperCase) (locate : Path → Place)
    (processId : Nat) (tidy : Bool) (start : SinkWorld Place) (turns : List (Turn Sink SinkCommand SinkChoice))
    (s : Agents Sink SinkCommand SinkCall SinkCall.Answer SinkResult StreamingUploadSink (SinkWorld Place))
    (answered : (sinkMachine table locate processId).Conforms (Agents.Permits (Answered tidy))
      (Agents.initial start .new) turns)
    (done : (sinkMachine table locate processId).run (Agents.initial start .new) turns = some s) :
    ∃ published : Heap Place (List UInt8),
      Agents.Log (Publishes locate) start.files s.history published ∧
      start.files.Within published ∧ published.Within s.world.files ∧
      (tidy = true → ∀ place content, s.world.files place = some content → published place = some content ∨
        ∃ sink, (s.running sink).isSome ∨
          (s.localState sink).prepared = true ∧ place = locate (s.localState sink).stagingPath) := by
  obtain ⟨published, parts, owned⟩ := Agents.owned_of_run (keeps_command table)
    (owns_of_clean rfl fun _ _ => rfl) answered done
  refine ⟨published, owned.log, owned.log.within, owned.visible, fun isTidy place content found => ?_⟩
  rcases owned.covered place content found with public' | ⟨sink, theirs⟩
  · exact .inl public'
  · right
    refine ⟨sink, ?_⟩
    cases running : s.running sink with
    | some busy => exact .inl rfl
    | none =>
        right
        have owns := owned.resting sink running
        unfold Owns at owns
        split at owns
        · next prepared =>
            obtain ⟨upload, bytes, -, -, file⟩ := owns
            refine ⟨prepared, ?_⟩
            by_contra other
            rw [file.alone isTidy place other] at theirs
            cases theirs
        · rw [owns isTidy place] at theirs
          cases theirs

/-! ## Two sinks with one name -/

/-- A call that goes well; `taken` asks for `granted := false`. -/
def grants (granted : Bool) : SinkChoice := ⟨granted, .ok (), .done, 0, 64 * 1024, willingDisk⟩

/-- The next calls of a sink. -/
def proceeds (sink : Bool) (count : Nat) : List (Turn Bool SinkCommand SinkChoice) :=
  List.replicate count (.proceed sink (grants true))

/-- Two sinks receive a byte each for one name and look it up before either has moved its
file. -/
def meetingTurns : List (Turn Bool SinkCommand SinkChoice) :=
  [[.start true (.prepare ⟨"D:\\x".toList, "n".toList⟩ 1)], proceeds true 5,
    [.start false (.prepare ⟨"D:\\x".toList, "n".toList⟩ 1)], proceeds false 5,
    [.start true (.writeChunk [7])], proceeds true 2, [.start false (.writeChunk [8])], proceeds false 2,
    [.start true .publish, .start false .publish], proceeds true 1, proceeds false 1,
    [.proceed true (grants false), .proceed false (grants false)], proceeds true 3, proceeds false 1,
    [.proceed false (grants false)], proceeds false 3].flatten

/-- The second of two sinks takes the next name. -/
theorem published_of_run_meeting :
    ∃ s, (sinkMachine asciiUpper id 1).run (Agents.initial ⟨fun _ => none, 0⟩ .new) meetingTurns = some s ∧
      s.world.files "D:\\x\\n".toList = some [7] ∧ s.world.files "D:\\x\\n(1)".toList = some [8] ∧
      ∃ published : Heap Path (List UInt8), Agents.Log (Publishes id) (fun _ => none) s.history published ∧
        published.Within s.world.files := by
  have files : ((sinkMachine asciiUpper id 1).run (Agents.initial ⟨fun _ => none, 0⟩ .new) meetingTurns).map
      (fun s => (s.world.files "D:\\x\\n".toList, s.world.files "D:\\x\\n(1)".toList)) =
        some (some [7], some [8]) := by decide +kernel
  obtain ⟨s, done, found⟩ := Option.map_eq_some_iff.mp files
  obtain ⟨first, second⟩ := Prod.mk.inj found
  obtain ⟨published, log, -, visible, -⟩ := published_of_run asciiUpper id 1 true ⟨fun _ => none, 0⟩ meetingTurns s
    (by decide +kernel) done
  exact ⟨s, done, first, second, published, log, visible⟩

end Publication

end SearchEngine.Upload
