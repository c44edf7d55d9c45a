import SearchEngine.Server.SessionSystem

/-!
# Framing of a session

`Exchange` counts what a frame did: the bytes it took, the items it queued, and
the commands it started and finished. A frame is `Framed` when it took its header
and its advertised body, the file of an upload exactly when `READY` was queued,
and queued its reply. Every frame after which the read loop goes on is framed,
unless the buffer for the metadata of an upload could not be allocated: then the
error is queued, the metadata stays in the stream, and the loop goes on.
-/

namespace SearchEngine.Server

open SearchEngine.Index SearchEngine.Lib SearchEngine.Lib.Coroutine

/-- What a frame did so far. -/
structure Exchange where
  header : Option Header
  consumed : Nat
  queued : List WriteItem
  unsent : Bool
  started : Nat
  finished : Nat
  fileSize : Nat
  unallocated : Bool
  deriving DecidableEq

/-- The item replies to the command: an error, or a payload or file under its name. -/
def WriteItem.Answers (command : Command) : WriteItem → Prop
  | responseWrite header _ => header.command = command
  | fileTransfer header => header.command = command
  | errorWrite _ _ _ => True

/-- The item is an error. -/
def WriteItem.IsError : WriteItem → Prop
  | errorWrite _ _ _ => True
  | _ => False

/-- The item ends an upload: an error, or the name under which the file was saved. -/
def WriteItem.EndsUpload (command : Command) (item : WriteItem) : Prop :=
  item.IsError ∨ ∃ savedName, item = jsonItem command (makeFinalJson savedName)

namespace Exchange

variable {e : Exchange}

/-- A frame that has done nothing. -/
def initial : Exchange := ⟨none, 0, [], false, 0, 0, 0, false⟩

/-- The frame after its header came in. -/
def opened (header : Header) : Exchange :=
  { initial with header := some header, consumed := Header.wireSize }

/-- Bytes come in; the first ones are the header. -/
def read (e : Exchange) (bytes : List Byte) : Exchange :=
  match e.header with
  | none => { e with header := some (Header.ofBytes bytes), consumed := e.consumed + bytes.length }
  | some _ => { e with consumed := e.consumed + bytes.length }

/-- An item is queued, or the channel is closed. -/
def reply (e : Exchange) (item : WriteItem) (queued : Bool) : Exchange :=
  if queued then { e with queued := e.queued ++ [item] } else { e with unsent := true }

/-- The frame after a call. -/
def next (e : Exchange) : (call : Call) → Answer call → Exchange
  | .readExactly _, some bytes => e.read bytes.val
  | .readSome _, some bytes => { e with consumed := e.consumed + bytes.val.length }
  | .send item, queued => e.reply item queued
  | .tryStartCommand, started => if started then { e with started := e.started + 1 } else e
  | .finishCommand, _ => { e with finished := e.finished + 1 }
  | .allocateMetadata _, allocated => if allocated then e else { e with unallocated := true }
  | .parseMetadata _, .succeeded metadata => { e with fileSize := metadata.fileSize }
  | _, _ => e

/-- What the frame of a trace did. -/
def of : Trace → Exchange
  | [] => initial
  | .frame :: _ => initial
  | .called call answer :: earlier => (of earlier).next call answer

/-- The bytes and the replies of a frame. -/
inductive Answered (e : Exchange) (header : Header) : Prop where
  | command (plain : isStreamingUploadCommand header.command = false) (item : WriteItem)
      (answers : item.Answers header.command) (queued : e.queued = [item])
      (consumed : e.consumed = Header.wireSize + header.size)
  | refusedUpload (upload : isStreamingUploadCommand header.command = true) (item : WriteItem)
      (error : item.IsError) (queued : e.queued = [item])
      (consumed : e.consumed = Header.wireSize + header.size)
  | upload (upload : isStreamingUploadCommand header.command = true) (item : WriteItem)
      (ends : item.EndsUpload header.command)
      (queued : e.queued = [jsonItem header.command makeReadyJson, item])
      (consumed : e.consumed = Header.wireSize + header.size + e.fileSize)

/-- The frame took what it had to take, replied, and finished what it started. -/
def Framed (e : Exchange) : Prop :=
  e.started = e.finished ∧ ∃ header, e.header = some header ∧ e.Answered header

/-- How a frame is left after which the read loop goes on. -/
structure Left (e : Exchange) : Prop where
  balanced : e.started = e.finished
  framed : e.Framed ↔ e.unallocated = false

end Exchange

/-- The contract of a frame as far as framing goes. -/
def framingContract : Contract Call Answer Exchange where
  requires e
    | .finishCommand => e.finished < e.started
    | _ => True
  answers _
    | .allocateMetadata size, allocated => allocated = true ∨ size ≠ 0
    | _, _ => True
  next := Exchange.next

/-- What a frame promises when the read loop goes on: it is left properly, or a reply
could not be queued because the session was stopped. -/
def FrameEnds : Except Thrown Bool → Exchange → Prop
  | .ok true, e => e.unsent = true ∨ e.Left
  | _, _ => True

variable {e : Exchange} {header : Header} {Result : Type}

/-- A reply was queued, or could not be. -/
def Replied (isReply : WriteItem → Prop) (e after : Exchange) : Prop :=
  (∃ item, isReply item ∧ after = { e with queued := e.queued ++ [item] }) ∨
    (after.unsent = true ∧ after.started = e.started ∧ after.finished = e.finished)

/-- A weaker requirement on the reply. -/
theorem Replied.mono {strong weak : WriteItem → Prop} {after : Exchange}
    (replied : Replied strong e after) (weaker : ∀ item, strong item → weak item) :
    Replied weak e after :=
  replied.imp_left fun ⟨item, fits, same⟩ => ⟨item, weaker item fits, same⟩

/-- Sending an item. -/
theorem replied_reply {isReply : WriteItem → Prop} {item : WriteItem} (fits : isReply item)
    (queued : Bool) : Replied isReply e (e.reply item queued) := by
  cases queued with
  | true => exact .inl ⟨item, fits, rfl⟩
  | false => exact .inr ⟨rfl, rfl, rfl⟩

/-! ## Replies -/

theorem isError_errorItem (typedResponse : Bool) (error : ErrorCode) (closeAfterWrite : Bool) :
    (errorItem typedResponse error closeAfterWrite).IsError := by
  cases typedResponse <;> trivial

/-- An error answers every command. -/
theorem WriteItem.IsError.answers {item : WriteItem} (error : item.IsError) (command : Command) :
    item.Answers command := by
  cases item with
  | errorWrite header payload closeAfterWrite => trivial
  | responseWrite header payload => nomatch error
  | fileTransfer header => nomatch error

/-- The coroutine returns, and what it leaves. -/
def Returns (left : Result → Exchange → Prop) : Except Thrown Result → Exchange → Prop
  | .ok result, after => left result after
  | .error _, _ => False

theorem queueError_replies (error : ErrorCode) (closeAfterWrite : Bool) :
    (queueError error closeAfterWrite).Meets framingContract
      (Returns fun _ after => Replied WriteItem.IsError e after) e := by
  unfold queueError
  refine Meets.call trivial fun typedResponse _ => ?_
  refine Meets.call trivial fun queued _ => ?_
  have replied : Replied WriteItem.IsError e
      (e.reply (errorItem typedResponse error closeAfterWrite) queued) :=
    replied_reply (isError_errorItem typedResponse error closeAfterWrite) queued
  split
  · exact Meets.call trivial fun _ _ => replied
  · exact replied

theorem refuse_replies (error : ErrorCode) (closeAfterWrite : Bool) (result : Result) :
    (refuse error closeAfterWrite result).Meets framingContract
      (Returns fun returned after => returned = result ∧ Replied WriteItem.IsError e after) e := by
  unfold refuse
  refine Meets.bind (queueError_replies error closeAfterWrite) ?_ fun _ _ never => never
  exact fun _ _ replied => ⟨rfl, replied⟩

/-- A handler changes nothing; it throws, or its outcome is the result. -/
theorem runHandler_keeps {Value : Type} (handled : Handled Value) :
    (runHandler handled).Meets framingContract
      (fun outcome after => after = e ∧ outcome ≠ .error .systemError) e := by
  cases handled with
  | threw what => exact ⟨rfl, fun same => nomatch same⟩
  | failed error => exact ⟨rfl, fun same => nomatch same⟩
  | succeeded value => exact ⟨rfl, fun same => nomatch same⟩

/-! ## Reading -/

/-- The commands that were started and finished are the same. -/
def SameCounts (e after : Exchange) : Prop :=
  after.started = e.started ∧ after.finished = e.finished

/-- So many bytes came in, or the socket failed. -/
def Took (count : Nat) (e : Exchange) : Except Thrown Result → Exchange → Prop
  | .ok _, after => after = { e with consumed := e.consumed + count }
  | .error thrown, after => thrown = .systemError ∧ SameCounts e after

/-- Some of the bytes came in, or the socket failed. -/
def TookSome (limit : Nat) (e : Exchange) : Except Thrown (List Byte) → Exchange → Prop
  | .ok bytes, after =>
      0 < bytes.length ∧ bytes.length ≤ limit ∧
        after = { e with consumed := e.consumed + bytes.length }
  | .error thrown, after => thrown = .systemError ∧ SameCounts e after

theorem receiveSome_took (limit : Nat) :
    (receiveSome limit).Meets framingContract (TookSome limit e) e := by
  unfold receiveSome
  refine Meets.call trivial fun answer _ => ?_
  cases answer with
  | none => exact ⟨rfl, rfl, rfl⟩
  | some bytes => exact ⟨bytes.property.1, bytes.property.2, rfl⟩

theorem receiveAll_took {rounds remaining : Nat} (enough : remaining ≤ rounds) :
    (receiveAll rounds remaining).Meets framingContract (Took remaining e) e := by
  induction rounds generalizing remaining e with
  | zero =>
      obtain rfl : remaining = 0 := by omega
      rfl
  | succ rounds ih =>
      rw [receiveAll]
      split
      case isTrue empty =>
        subst empty
        rfl
      case isFalse =>
        refine Meets.bind (receiveSome_took _) ?_ fun _ _ failed => failed
        rintro bytes after ⟨positive, fits, rfl⟩
        have within : bytes.length ≤ remaining := fits.trans (Nat.min_le_right _ _)
        refine Meets.bind (ih (by omega)) ?_ fun _ _ failed => failed
        rintro rest after rfl
        simp only [meets_pure, Took, Exchange.mk.injEq, true_and, and_true]
        omega

/-- A drained body, or a socket that failed. -/
def Drained (count : Nat) (e : Exchange) (drainOk : Bool) (after : Exchange) : Prop :=
  if drainOk then after = { e with consumed := e.consumed + count } else SameCounts e after

/-- Bytes of the body come in once the header is known. -/
theorem read_of_header (known : e.header = some header) (bytes : List Byte) :
    e.read bytes = { e with consumed := e.consumed + bytes.length } := by
  rw [Exchange.read, known]

theorem drainBody_drained {rounds remaining : Nat} (enough : remaining ≤ rounds)
    (known : e.header = some header) :
    (drainBody rounds remaining).Meets framingContract (Returns (Drained remaining e)) e := by
  induction rounds generalizing remaining e with
  | zero =>
      obtain rfl : remaining = 0 := by omega
      rfl
  | succ rounds ih =>
      rw [drainBody]
      split
      case isTrue empty =>
        subst empty
        rfl
      case isFalse nonempty =>
        refine Meets.call trivial fun answer _ => ?_
        cases answer with
        | none => exact ⟨rfl, rfl⟩
        | some bytes =>
            have step : framingContract.next e (.readExactly (min legacyDiscardChunk remaining))
                (some bytes) = { e with
                  consumed := e.consumed + min legacyDiscardChunk remaining } := by
              have length := bytes.property
              simp only [framingContract, Exchange.next, read_of_header known, length]
            rw [step]
            have positive : 0 < min legacyDiscardChunk remaining := by
              simp only [legacyDiscardChunk]
              omega
            refine (ih (by omega) (by exact known)).mono fun outcome after drained => ?_
            cases outcome with
            | error thrown => exact drained
            | ok drainOk =>
                cases drainOk with
                | false => exact drained
                | true =>
                    obtain rfl := drained
                    simp only [Returns, Drained, if_true, Exchange.mk.injEq, true_and, and_true]
                    omega

/-- A chunk or a file that came in whole, or not. -/
def Filled {Value : Type} (count : Nat) (e : Exchange) : Except Thrown (Option Value) → Exchange → Prop
  | .ok (some _), after => after = { e with consumed := e.consumed + count }
  | _, after => SameCounts e after

theorem receiveChunk_filled {rounds remaining : Nat} (enough : remaining ≤ rounds) :
    (receiveChunk rounds remaining).Meets framingContract (Filled remaining e) e := by
  induction rounds generalizing remaining e with
  | zero =>
      obtain rfl : remaining = 0 := by omega
      rfl
  | succ rounds ih =>
      rw [receiveChunk]
      split
      case isTrue empty =>
        subst empty
        rfl
      case isFalse =>
        refine Meets.bind (receiveSome_took _) ?_ fun _ _ failed => failed.2
        rintro bytes after ⟨positive, fits, rfl⟩
        split
        · exact ⟨rfl, rfl⟩
        · refine Meets.bind (ih (by omega)) ?_ fun _ _ failed => failed
          rintro rest after filled
          cases rest with
          | none => exact filled
          | some rest =>
              obtain rfl := filled
              simp only [meets_pure, Filled, Exchange.mk.injEq, true_and, and_true]
              omega

/-! ## Streaming uploads -/

/-- The file came in whole, or the upload is aborted. -/
def FileTook (count : Nat) (e : Exchange) : Except Thrown Bool → Exchange → Prop
  | .ok true, after => after = { e with consumed := e.consumed + count }
  | _, after => SameCounts e after

theorem receiveFile_took {rounds remaining : Nat} (enough : remaining ≤ rounds) :
    (receiveFile rounds remaining).Meets framingContract (FileTook remaining e) e := by
  induction rounds generalizing remaining e with
  | zero =>
      obtain rfl : remaining = 0 := by omega
      rfl
  | succ rounds ih =>
      rw [receiveFile]
      split
      case isTrue empty =>
        subst empty
        rfl
      case isFalse nonempty =>
        have positive : 0 < min chunkSize remaining := by
          simp only [chunkSize]
          omega
        refine Meets.bind (receiveChunk_filled (Nat.le_refl _)) ?_ fun _ _ failed => failed
        intro chunk after filled
        cases chunk with
        | none => exact filled
        | some chunk =>
            obtain rfl := filled
            refine Meets.call trivial fun written _ => ?_
            refine Meets.bind (runHandler_keeps written) ?_ ?_
            · rintro outcome after ⟨rfl, _⟩
              cases outcome with
              | error error => exact ⟨rfl, rfl⟩
              | ok value =>
                  refine (ih (by omega)).mono fun outcome after took => ?_
                  cases outcome with
                  | error thrown => exact took
                  | ok received =>
                      cases received with
                      | false => exact took
                      | true =>
                          obtain rfl := took
                          simp only [FileTook, Exchange.next, framingContract, Exchange.mk.injEq,
                            true_and, and_true]
                          omega
            · rintro thrown after ⟨rfl, _⟩
              exact ⟨rfl, rfl⟩

/-- The upload was answered, or it is aborted. -/
def UploadDone (command : Command) (fileSize : Nat) (e : Exchange) :
    Except Thrown Bool → Exchange → Prop
  | .ok true, after =>
      Replied (WriteItem.EndsUpload command) { e with consumed := e.consumed + fileSize } after
  | _, after => SameCounts e after

theorem completeUpload_done (metadata : Metadata) :
    (completeUpload header metadata).Meets framingContract
      (UploadDone header.command metadata.fileSize e) e := by
  unfold completeUpload
  refine Meets.bind (receiveFile_took (Nat.le_refl _)) ?_ fun _ _ failed => failed
  intro received after took
  cases received with
  | false => exact took
  | true =>
      obtain rfl := took
      refine Meets.call trivial fun published _ => ?_
      refine Meets.bind (runHandler_keeps published) ?_ ?_
      · rintro outcome after ⟨rfl, _⟩
        cases outcome with
        | error error =>
            refine (refuse_replies error false true).mono fun outcome after refused => ?_
            cases outcome with
            | error thrown => exact refused.elim
            | ok answered =>
                obtain ⟨rfl, replied⟩ := refused
                exact replied.mono fun _ isError => .inl isError
        | ok savedName =>
            refine Meets.call trivial fun queued _ => ?_
            cases queued with
            | false => exact ⟨rfl, rfl⟩
            | true =>
                refine Meets.call trivial fun credentials _ => ?_
                refine Meets.call trivial fun _ _ => ?_
                exact .inl ⟨_, .inr ⟨savedName, rfl⟩, rfl⟩
      · rintro thrown after ⟨rfl, _⟩
        exact ⟨rfl, rfl⟩

/-- How the part of an upload up to `READY` ends. -/
def Prepared (requestHeader : Header) (e : Exchange) : Except Thrown UploadStage → Exchange → Prop
  | .ok .refused, after => ∃ fileSize, Replied WriteItem.IsError { e with
      consumed := e.consumed + requestHeader.size
      fileSize := fileSize } after
  | .ok (.ready metadata), after => after = { e with
      consumed := e.consumed + requestHeader.size
      fileSize := metadata.fileSize
      queued := e.queued ++ [jsonItem requestHeader.command makeReadyJson] }
  | .error (.exception _), after =>
      (requestHeader.size ≠ 0 ∧ after = { e with unallocated := true }) ∨
        ∃ fileSize, after = { e with
          consumed := e.consumed + requestHeader.size
          fileSize := fileSize }
  | _, after => SameCounts e after

/-- A refusal before `READY`. -/
theorem refuse_prepared (error : ErrorCode) (fileSize : Nat) :
    (refuse error false UploadStage.refused).Meets framingContract (Prepared header e)
      { e with consumed := e.consumed + header.size, fileSize := fileSize } := by
  refine (refuse_replies error false UploadStage.refused).mono fun outcome after refused => ?_
  cases outcome with
  | error thrown => exact refused.elim
  | ok stage =>
      obtain ⟨rfl, replied⟩ := refused
      exact ⟨fileSize, replied⟩

/-- An exception of a handler before `READY`. -/
theorem prepared_of_thrown {thrown : Thrown} {after : Exchange} (fileSize : Nat)
    (outcome : after = { e with consumed := e.consumed + header.size, fileSize := fileSize } ∧
      (Except.error thrown : Except Thrown Result) ≠ .error .systemError) :
    Prepared header e (.error thrown) after := by
  cases thrown with
  | systemError => exact absurd rfl outcome.2
  | exception what => exact .inr ⟨fileSize, outcome.1⟩

theorem openUpload_prepared (metadata : Metadata) :
    (openUpload header metadata).Meets framingContract (Prepared header e)
      { e with consumed := e.consumed + header.size, fileSize := metadata.fileSize } := by
  unfold openUpload
  refine Meets.call trivial fun prepared _ => ?_
  refine Meets.bind (runHandler_keeps prepared) ?_ fun _ _ kept => prepared_of_thrown _ kept
  rintro outcome after ⟨rfl, _⟩
  cases outcome with
  | error error => exact refuse_prepared error _
  | ok _ =>
      refine Meets.call trivial fun queued _ => ?_
      cases queued with
      | false => exact ⟨rfl, rfl⟩
      | true => rfl

theorem planTarget_keeps (command : Command) (operatorName : List Byte) (metadata : Metadata) :
    (planTarget command operatorName metadata).Meets framingContract
      (Returns fun _ after => after = e) e := by
  unfold planTarget
  split
  · exact ⟨trivial, fun _ _ => rfl⟩
  · exact ⟨trivial, fun _ _ => rfl⟩

theorem prepareUpload_prepared :
    (prepareUpload header).Meets framingContract (Prepared header e) e := by
  unfold prepareUpload
  refine Meets.call trivial fun allocated possible => ?_
  cases allocated with
  | false => exact .inl ⟨possible.resolve_left (fun wrong => nomatch wrong), rfl⟩
  | true =>
      refine Meets.bind (receiveAll_took (Nat.le_refl _)) ?_ ?_
      · rintro metadataBytes after rfl
        refine Meets.call trivial fun parsed _ => ?_
        cases parsed with
        | threw what => exact .inr ⟨e.fileSize, rfl⟩
        | failed error => exact refuse_prepared error e.fileSize
        | succeeded metadata =>
            refine Meets.call trivial fun credentials _ => ?_
            refine Meets.call trivial fun rooted _ => ?_
            cases rooted with
            | false => exact refuse_prepared _ metadata.fileSize
            | true =>
                refine Meets.bind (planTarget_keeps _ _ _) ?_ fun _ _ never => never.elim
                rintro answer after rfl
                refine Meets.bind (runHandler_keeps answer) ?_ fun _ _ kept =>
                  prepared_of_thrown metadata.fileSize kept
                rintro plan after ⟨rfl, _⟩
                cases plan with
                | error error => exact refuse_prepared error metadata.fileSize
                | ok _ => exact openUpload_prepared metadata
      · rintro thrown after ⟨rfl, counts⟩
        exact counts

/-- Giving an upload up. -/
theorem abortUpload_ends (running : e.finished < e.started) :
    abortUpload.Meets framingContract
      (Returns fun keep after => keep = false ∧ after = { e with finished := e.finished + 1 }) e := by
  unfold abortUpload
  refine Meets.call trivial fun _ _ => ?_
  exact Meets.call running fun _ _ => ⟨rfl, rfl⟩

/-- A frame that ends the session promises nothing. -/
theorem refuse_ends (error : ErrorCode) (closeAfterWrite : Bool) :
    (refuse error closeAfterWrite false).Meets framingContract FrameEnds e := by
  refine (refuse_replies error closeAfterWrite false).mono fun outcome after refused => ?_
  cases outcome with
  | error thrown => trivial
  | ok keep =>
      obtain ⟨rfl, _⟩ := refused
      trivial

/-- A frame is left framed. -/
theorem left_of_framed (framed : e.Framed) (allocated : e.unallocated = false) : e.Left :=
  ⟨framed.1, fun _ => allocated, fun _ => framed⟩

/-- The frame of an upload after `tryStartCommand`. -/
def Exchange.uploading (header : Header) : Exchange := { opened header with started := 1 }

/-- A refusal before `READY` leaves the frame framed. -/
theorem frameEnds_of_refusedUpload {after : Exchange} {fileSize : Nat}
    (upload : isStreamingUploadCommand header.command = true)
    (replied : Replied WriteItem.IsError { Exchange.uploading header with
      consumed := Header.wireSize + header.size
      fileSize := fileSize } after) :
    FrameEnds (.ok true) { after with finished := after.finished + 1 } := by
  rcases replied with ⟨item, error, rfl⟩ | ⟨unsent, _⟩
  · exact .inr (left_of_framed ⟨rfl, header, rfl, .refusedUpload upload item error rfl rfl⟩ rfl)
  · exact .inl unsent

/-- An error before the metadata was read leaves the frame unframed. -/
theorem left_of_unallocated {item : WriteItem} (size : header.size ≠ 0) :
    Exchange.Left { Exchange.uploading header with
      unallocated := true
      finished := 1
      queued := [item] } := by
  refine ⟨rfl, fun framed => ?_, fun wrong => nomatch wrong⟩
  obtain ⟨_, other, known, answered⟩ := framed
  obtain rfl : header = other := Option.some.inj known
  cases answered with
  | command plain item answers queued consumed =>
      exact absurd (Nat.left_eq_add.mp consumed) size
  | refusedUpload upload item error queued consumed =>
      exact absurd (Nat.left_eq_add.mp consumed) size
  | upload upload item ends queued consumed => nomatch queued

theorem handleStreamingUpload_ends (upload : isStreamingUploadCommand header.command = true) :
    (handleStreamingUpload header).Meets framingContract FrameEnds (.opened header) := by
  have running : ∀ {e : Exchange}, SameCounts (.uploading header) e → e.finished < e.started := by
    rintro e ⟨started, finished⟩
    rw [started, finished]
    exact Nat.zero_lt_one
  have aborts : ∀ {e : Exchange}, SameCounts (.uploading header) e →
      abortUpload.Meets framingContract FrameEnds e := by
    intro e counts
    refine (abortUpload_ends (running counts)).mono fun outcome after ended => ?_
    cases outcome with
    | error thrown => trivial
    | ok keep =>
        obtain ⟨rfl, _⟩ := ended
        trivial
  unfold handleStreamingUpload
  split
  · exact refuse_ends _ _
  refine Meets.call trivial fun credentials _ => ?_
  dsimp only
  split
  · exact refuse_ends _ _
  split
  · exact refuse_ends _ _
  refine Meets.call trivial fun started _ => ?_
  cases started with
  | false => exact refuse_ends _ _
  | true =>
      refine Meets.attempt (prepareUpload_prepared (e := .uploading header)) ?_
      intro outcome after prepared
      cases outcome with
      | error thrown =>
          cases thrown with
          | systemError => exact aborts prepared
          | exception what =>
              have counts : SameCounts (.uploading header) after := by
                rcases prepared with ⟨_, rfl⟩ | ⟨fileSize, rfl⟩ <;> exact ⟨rfl, rfl⟩
              refine Meets.bind (abortUpload_ends (running counts)) ?_
                fun _ _ never => never.elim
              rintro keep aborted ⟨_, rfl⟩
              split
              · trivial
              refine (refuse_replies _ _ _).mono fun outcome final refused => ?_
              cases outcome with
              | error thrown => trivial
              | ok keep =>
                  obtain ⟨rfl, ⟨item, error, rfl⟩ | ⟨unsent, _⟩⟩ := refused
                  · rcases prepared with ⟨size, rfl⟩ | ⟨fileSize, rfl⟩
                    · exact .inr (left_of_unallocated size)
                    · refine .inr (left_of_framed ⟨rfl, header, rfl, ?_⟩ rfl)
                      exact .refusedUpload upload item error rfl rfl
                  · exact .inl unsent
      | ok stage =>
          cases stage with
          | refused =>
              obtain ⟨fileSize, replied⟩ := prepared
              have counts : SameCounts (.uploading header) after := by
                rcases replied with ⟨item, error, rfl⟩ | ⟨_, counts⟩
                · exact ⟨rfl, rfl⟩
                · exact counts
              exact Meets.call (running counts) fun _ _ => frameEnds_of_refusedUpload upload replied
          | unsent => exact aborts prepared
          | ready metadata =>
              obtain rfl := prepared
              refine Meets.attempt (completeUpload_done metadata) ?_
              intro completed final done
              cases completed with
              | error thrown => exact aborts done
              | ok answered =>
                  cases answered with
                  | false => exact aborts done
                  | true =>
                      rcases done with ⟨item, ends, rfl⟩ | ⟨unsent, counts⟩
                      · refine Meets.call Nat.zero_lt_one fun _ _ => .inr (left_of_framed ?_ rfl)
                        exact ⟨rfl, header, rfl, .upload upload item ends rfl rfl⟩
                      · exact Meets.call (running counts) fun _ _ => .inl unsent

/-! ## Commands -/

/-- An answer is ready, an error was queued instead, or an exception came first. -/
def AnswerReady {Value : Type} (e : Exchange) : Except Thrown (Option Value) → Exchange → Prop
  | .ok none, after => Replied WriteItem.IsError e after
  | _, after => after = e

theorem refuse_answerReady {Value : Type} (error : ErrorCode) (closeAfterWrite : Bool) :
    (refuse error closeAfterWrite (none : Option Value)).Meets framingContract (AnswerReady e) e := by
  refine (refuse_replies error closeAfterWrite none).mono fun outcome after refused => ?_
  cases outcome with
  | error thrown => exact refused.elim
  | ok answer =>
      obtain ⟨rfl, replied⟩ := refused
      exact replied

theorem registerUser_ready (requestData : List Byte) :
    (registerUser requestData).Meets framingContract (AnswerReady e) e := by
  unfold registerUser
  split
  · exact refuse_answerReady _ _
  refine Meets.call trivial fun isLocal _ => ?_
  split
  · exact refuse_answerReady _ _
  · exact Meets.call trivial fun _ _ => rfl

theorem refusedAdmin_keeps (clientName : List Byte) :
    (refusedAdmin clientName).Meets framingContract (Returns fun _ after => after = e) e := by
  unfold refusedAdmin
  split
  · exact Meets.call trivial fun _ _ => rfl
  · rfl

theorem authenticateClient_ready (requestData : List Byte) :
    (authenticateClient requestData).Meets framingContract (AnswerReady e) e := by
  unfold authenticateClient
  refine Meets.call trivial fun initialized _ => ?_
  split
  · exact refuse_answerReady _ _
  refine Meets.call trivial fun handled _ => ?_
  cases handled with
  | threw what => rfl
  | failed error => exact refuse_answerReady _ _
  | succeeded payload =>
      refine Meets.call trivial fun parsed _ => ?_
      cases parsed with
      | none => exact refuse_answerReady _ _
      | some clientName =>
          refine Meets.bind (refusedAdmin_keeps clientName) ?_ fun _ _ never => never.elim
          rintro refused after rfl
          split
          · exact refuse_answerReady _ _
          · exact Meets.call trivial fun _ _ => rfl

theorem executeCommand_ready (command : Command) (requestData : List Byte) :
    (executeCommand command requestData).Meets framingContract (AnswerReady e) e := by
  unfold executeCommand
  refine Meets.call trivial fun result _ => ?_
  cases result with
  | error error => exact refuse_answerReady _ _
  | ok answer => rfl

theorem answerCommand_ready (command : Command) (requestData : List Byte) :
    (answerCommand command requestData).Meets framingContract (AnswerReady e) e := by
  unfold answerCommand
  split
  · rfl
  split
  · exact registerUser_ready requestData
  split
  · exact authenticateClient_ready requestData
  · exact executeCommand_ready command requestData

/-- The reply is queued, an error was queued instead, or an exception came first. -/
def Dispatched {Value : Type} (command : Command) (e : Exchange) :
    Except Thrown (Option Value) → Exchange → Prop
  | .ok _, after => Replied (WriteItem.Answers command) e after
  | .error _, after => after = e ∨ (after.unsent = true ∧ SameCounts e after)

theorem refuse_dispatched {Value : Type} (command : Command) (error : ErrorCode)
    (closeAfterWrite : Bool) :
    (refuse error closeAfterWrite (none : Option Value)).Meets framingContract
      (Dispatched command e) e := by
  refine (refuse_replies error closeAfterWrite none).mono fun outcome after refused => ?_
  cases outcome with
  | error thrown => exact refused.elim
  | ok answer => exact refused.2.mono fun _ isError => isError.answers command

/-- Queueing the reply. -/
theorem sendResponse_dispatched {Value : Type} {command : Command} (item : WriteItem)
    (answers : item.Answers command) (result : Option Value) :
    (sendResponse item >>= fun _ => pure result).Meets framingContract (Dispatched command e) e := by
  unfold sendResponse
  refine Meets.call trivial fun queued _ => ?_
  cases queued with
  | true => exact .inl ⟨item, answers, rfl⟩
  | false => exact .inr ⟨rfl, rfl, rfl⟩

theorem transferFile_dispatched (requestData : List Byte) :
    (transferFile header requestData).Meets framingContract (Dispatched header.command e) e := by
  unfold transferFile
  refine Meets.call trivial fun resolved _ => ?_
  cases resolved with
  | threw what => exact .inl rfl
  | failed error => exact refuse_dispatched _ _ _
  | succeeded size => exact sendResponse_dispatched (.fileTransfer ⟨size, header.command⟩) rfl _

theorem respondCommand_dispatched (requestData : List Byte) :
    (respondCommand header requestData).Meets framingContract (Dispatched header.command e) e := by
  unfold respondCommand
  refine Meets.bind (answerCommand_ready header.command requestData) ?_ ?_
  · intro response after ready
    cases response with
    | none => exact ready.mono fun _ isError => isError.answers header.command
    | some response =>
        obtain rfl := ready
        exact sendResponse_dispatched (.responseWrite ⟨_, header.command⟩ _) rfl _
  · rintro thrown after rfl
    exact .inl rfl

theorem dispatchCommand_dispatched (requestData : List Byte) :
    (dispatchCommand header requestData).Meets framingContract (Dispatched header.command e) e := by
  unfold dispatchCommand
  split
  · exact refuse_dispatched _ _ _
  refine Meets.call trivial fun credentials _ => ?_
  dsimp only
  split
  · exact refuse_dispatched _ _ _
  refine Meets.call trivial fun archiveMode _ => ?_
  split
  · exact refuse_dispatched _ _ _
  split
  · exact refuse_dispatched _ _ _
  split
  · exact transferFile_dispatched requestData
  · exact respondCommand_dispatched requestData

theorem finishResponse_keeps (request : List Byte) (enableTypedErrors : Bool) :
    (finishResponse header request enableTypedErrors).Meets framingContract
      (Returns fun _ after => after = e) e := by
  unfold finishResponse
  split
  · refine Meets.call trivial fun _ _ => ?_
    refine Meets.call trivial fun _ _ => ?_
    exact ⟨trivial, fun _ _ => rfl⟩
  · refine Meets.call trivial fun _ _ => ?_
    exact ⟨trivial, fun _ _ => rfl⟩

theorem commandExec_replies (requestData : List Byte) :
    (commandExec header requestData).Meets framingContract
      (Returns fun _ after => Replied (WriteItem.Answers header.command) e after) e := by
  unfold commandExec
  refine Meets.attempt (dispatchCommand_dispatched requestData) ?_
  intro outcome after dispatched
  cases outcome with
  | error thrown =>
      refine (refuse_replies _ _ _).mono fun outcome final refused => ?_
      cases outcome with
      | error thrown => exact refused
      | ok result =>
          obtain ⟨_, replied⟩ := refused
          rcases dispatched with rfl | ⟨unsent, counts⟩
          · exact replied.mono fun _ isError => isError.answers header.command
          · rcases replied with ⟨item, error, rfl⟩ | ⟨stillUnsent, started, finished⟩
            · exact .inr ⟨unsent, counts⟩
            · exact .inr ⟨stillUnsent, started.trans counts.1, finished.trans counts.2⟩
  | ok response =>
      cases response with
      | none => exact dispatched
      | some response =>
          refine (finishResponse_keeps _ _).mono fun outcome final kept => ?_
          cases outcome with
          | error thrown => exact kept
          | ok result =>
              obtain rfl := kept
              exact dispatched

/-! ## The read loop -/

/-- A refusal after the body was taken. -/
theorem refuse_framed {body : Exchange} (error : ErrorCode)
    (plain : isStreamingUploadCommand header.command = false)
    (known : body.header = some header) (consumed : body.consumed = Header.wireSize + header.size)
    (queued : body.queued = []) (balanced : body.started = body.finished)
    (allocated : body.unallocated = false) :
    (refuse error false true).Meets framingContract FrameEnds body := by
  refine (refuse_replies error false true).mono fun outcome after refused => ?_
  cases outcome with
  | error thrown => trivial
  | ok keep =>
      obtain ⟨rfl, ⟨item, error, rfl⟩ | ⟨unsent, _⟩⟩ := refused
      · refine .inr (left_of_framed ⟨balanced, header, known, ?_⟩ allocated)
        exact .command plain item (error.answers header.command) (by rw [queued]; rfl) consumed
      · exact .inl unsent

theorem handleLegacyMessage_ends (normalizedCommand : Command)
    (plain : isStreamingUploadCommand header.command = false) :
    (handleLegacyMessage header normalizedCommand).Meets framingContract FrameEnds
      (.opened header) := by
  unfold handleLegacyMessage
  refine Meets.call trivial fun credentials _ => ?_
  dsimp only
  split
  · exact refuse_ends _ _
  refine Meets.bind (drainBody_drained (Nat.le_refl _) rfl) ?_ fun _ _ never => never.elim
  intro drainOk after drained
  cases drainOk with
  | false => trivial
  | true =>
      obtain rfl := drained
      exact refuse_framed _ plain rfl rfl rfl rfl rfl

theorem handleLegacyUpload_ends (plain : isStreamingUploadCommand header.command = false) :
    (handleLegacyUpload header).Meets framingContract FrameEnds (.opened header) := by
  unfold handleLegacyUpload
  refine Meets.call trivial fun credentials _ => ?_
  dsimp only
  split
  · exact refuse_ends _ _
  refine Meets.call trivial fun started _ => ?_
  cases started with
  | false => exact refuse_ends _ _
  | true =>
      refine Meets.bind (drainBody_drained (e := .uploading header) (Nat.le_refl _) rfl) ?_
        fun _ _ never => never.elim
      intro drainOk after drained
      cases drainOk with
      | false =>
          obtain ⟨started, finished⟩ := drained
          refine Meets.call ?_ fun _ _ => trivial
          change after.finished < after.started
          rw [started, finished]
          exact Nat.zero_lt_one
      | true =>
          obtain rfl := drained
          refine Meets.call Nat.zero_lt_one fun _ _ => ?_
          exact refuse_framed _ plain rfl rfl rfl rfl rfl

theorem handleCommand_ends (plain : isStreamingUploadCommand header.command = false) :
    (handleCommand header).Meets framingContract FrameEnds (.opened header) := by
  unfold handleCommand
  refine Meets.call trivial fun allocated _ => ?_
  split
  · trivial
  refine Meets.bind (receiveAll_took (Nat.le_refl _)) ?_ fun _ _ _ => trivial
  rintro requestData after rfl
  refine Meets.call trivial fun started _ => ?_
  cases started with
  | false => exact refuse_ends _ _
  | true =>
      refine Meets.attempt (commandExec_replies requestData) ?_
      intro outcome after replied
      cases outcome with
      | error thrown => exact replied.elim
      | ok result =>
          rcases replied with ⟨item, answers, rfl⟩ | ⟨unsent, started, finished⟩
          · refine Meets.call Nat.zero_lt_one fun _ _ => .inr (left_of_framed ?_ rfl)
            exact ⟨rfl, header, rfl, .command plain item answers rfl rfl⟩
          · refine Meets.call ?_ fun _ _ => .inl unsent
            change after.finished < after.started
            rw [started, finished]
            exact Nat.zero_lt_one

/-- The header came in. -/
def Opened : Except Thrown (List Byte) → Exchange → Prop
  | .ok bytes, after => after = .opened (Header.ofBytes bytes)
  | .error _, _ => True

theorem receive_opened : (receive Header.wireSize).Meets framingContract Opened .initial := by
  unfold receive
  refine Meets.call trivial fun answer _ => ?_
  cases answer with
  | none => trivial
  | some bytes =>
      have length := bytes.property
      simp only [meets_pure, Opened, framingContract, Exchange.next, Exchange.read,
        Exchange.initial, Exchange.opened, length, Nat.zero_add]

/-- Every frame after which the read loop goes on is left properly. -/
theorem readFrame_ends : readFrame.Meets framingContract FrameEnds .initial := by
  unfold readFrame
  refine Meets.bind receive_opened ?_ fun _ _ _ => trivial
  rintro bytes after rfl
  dsimp only
  split
  case isTrue upload => exact handleStreamingUpload_ends upload
  case isFalse notUpload =>
    have plain : isStreamingUploadCommand (Header.ofBytes bytes).command = false := by
      simpa using notUpload
    split
    · exact refuse_ends _ _
    cases disabledLegacyMessage (Header.ofBytes bytes).command with
    | some normalizedCommand => exact handleLegacyMessage_ends normalizedCommand plain
    | none =>
        dsimp only
        split
        · exact refuse_ends _ _
        split
        · exact handleLegacyUpload_ends plain
        · exact handleCommand_ends plain

/-! ## Runs -/

/-- The frames after which the read loop went on, newest first. -/
def Trace.continued : Trace → List Exchange
  | [] => []
  | [.frame] => []
  | .frame :: earlier => Exchange.of earlier :: Trace.continued earlier
  | .called _ _ :: earlier => Trace.continued earlier

/-- The bytes that were taken off the stream, in order. -/
def Trace.taken : Trace → List Byte
  | [] => []
  | .frame :: earlier => Trace.taken earlier
  | .called call answer :: earlier => Trace.taken earlier ++ bytesOf call answer

/-- The items that were queued, in order. -/
def Trace.queued : Trace → List WriteItem
  | [] => []
  | .frame :: earlier => Trace.queued earlier
  | .called call answer :: earlier => Trace.queued earlier ++ queuedBy call answer

/-- Framing of a session to which a client sends `input`. -/
structure Session.FramingKept (input : List Byte) (s : Session) : Prop where
  /-- Every frame after which the session goes on is framed. -/
  frames : ∀ e ∈ s.trace.continued, e.Framed
  /-- Between frames only commands of other sessions are counted. -/
  count : s.reader = .loopTop → s.stopped = false → s.activity.activeCommands = s.otherCommands
  /-- What the frames took is the beginning of what the client sends. -/
  stream : s.trace.taken ++ s.input = input
  /-- The replies leave in the order in which they were queued. -/
  order : s.written <+: s.trace.queued

/-- What holds between a session and the exchanges of its trace. -/
structure Session.Exchanging (input : List Byte) (s : Session) : Prop where
  follows : Session.Follows framingContract FrameEnds (Exchange.of s.trace) s.reader
  ended : s.reader = .loopTop → s.trace = [] ∨ FrameEnds (.ok true) (Exchange.of s.trace)
  unsent : (Exchange.of s.trace).unsent = true → s.stopped = true
  bounded : (Exchange.of s.trace).finished ≤ (Exchange.of s.trace).started
  count : s.activity.activeCommands + (Exchange.of s.trace).finished =
    s.otherCommands + (Exchange.of s.trace).started
  frames : ∀ e ∈ s.trace.continued, e.Left
  stream : s.trace.taken ++ s.input = input
  delivered : s.Delivered s.trace.queued

theorem exchanging_start (input : List Byte) (peerLocal : Bool) (otherCommands : Nat)
    (stopping : Bool) :
    (Session.start input peerLocal otherCommands stopping).Exchanging input where
  follows := trivial
  ended _ := .inl rfl
  unsent wrong := nomatch wrong
  bounded := Nat.le_refl 0
  count := rfl
  frames e member := nomatch member
  stream := rfl
  delivered := ⟨[], rfl, rfl⟩

section Step

variable {s next : Session} {call : Call} {answer : Answer call} {input : List Byte}

/-- A buffer is refused only when its size is not zero. -/
theorem framingAnswers_perform (done : s.perform call answer = some next) :
    framingContract.answers e call answer := by
  cases call with
  | allocateMetadata size =>
      simp only [Session.perform] at done
      split at done
      case isTrue possible => simpa [framingContract] using possible
      case isFalse => nomatch done
  | _ => trivial

/-- A channel that refuses an item belongs to a stopped session. -/
theorem unsent_perform (done : s.perform call answer = some next)
    (known : e.unsent = true → s.stopped = true) (unsent : (e.next call answer).unsent = true) :
    next.stopped = true := by
  have kept : next.stopped = s.stopped := by rw [Session.perform_eq done]
  have read : ∀ bytes, (e.read bytes).unsent = e.unsent := by
    intro bytes
    unfold Exchange.read
    split <;> rfl
  rw [kept]
  cases call with
  | send item =>
      cases answer with
      | true => exact known unsent
      | false =>
          have refused : s.sendItem item false = some next := done
          exact (Session.sendItem_eq refused).2 rfl
  | readExactly count =>
      cases answer with
      | none => exact known unsent
      | some bytes => exact known ((read bytes.val).symm.trans unsent)
  | readSome limit => cases answer <;> exact known unsent
  | tryStartCommand => cases answer <;> exact known unsent
  | allocateMetadata size => cases answer <;> exact known unsent
  | parseMetadata bytes => cases answer <;> exact known unsent
  | _ => exact known unsent

/-- Only starting and finishing a command are counted. -/
theorem sameCounts_next (notStart : call ≠ .tryStartCommand) (notFinish : call ≠ .finishCommand) :
    SameCounts e (e.next call answer) := by
  cases call with
  | tryStartCommand => exact absurd rfl notStart
  | finishCommand => exact absurd rfl notFinish
  | readExactly count =>
      cases answer with
      | none => exact ⟨rfl, rfl⟩
      | some bytes => cases known : e.header <;> simp [SameCounts, Exchange.next, Exchange.read, known]
  | readSome limit => cases answer <;> exact ⟨rfl, rfl⟩
  | send item => cases answer <;> exact ⟨rfl, rfl⟩
  | allocateMetadata size => cases answer <;> exact ⟨rfl, rfl⟩
  | parseMetadata bytes => cases answer <;> exact ⟨rfl, rfl⟩
  | _ => exact ⟨rfl, rfl⟩

/-- The count of commands follows the exchange. -/
theorem count_perform (done : s.perform call answer = some next)
    (permitted : framingContract.requires e call) (bounded : e.finished ≤ e.started)
    (count : s.activity.activeCommands + e.finished = s.otherCommands + e.started) :
    (e.next call answer).finished ≤ (e.next call answer).started ∧
      next.activity.activeCommands + (e.next call answer).finished =
        next.otherCommands + (e.next call answer).started := by
  have others : next.otherCommands = s.otherCommands := by rw [Session.perform_eq done]
  by_cases starts : call = .tryStartCommand
  · subst starts
    simp only [Session.perform] at done
    split at done
    case isTrue same =>
      obtain rfl := Option.some.inj done
      cases answer with
      | true =>
          have counted := ServerActivity.tryStartCommand_of_started same
          simp only [Exchange.next, if_true, counted]
          omega
      | false =>
          have refused := ServerActivity.tryStartCommand_of_refused same
          simp only [Exchange.next, refused]
          exact ⟨bounded, count⟩
    case isFalse => nomatch done
  · by_cases finishes : call = .finishCommand
    · subst finishes
      obtain rfl := Option.some.inj done
      have running : e.finished < e.started := permitted
      simp only [Exchange.next, ServerActivity.activeCommands_finishCommand]
      omega
    · obtain ⟨started, finished⟩ : SameCounts e (e.next call answer) :=
        sameCounts_next starts finishes
      rw [started, finished, others, Session.activity_perform done starts finishes]
      exact ⟨bounded, count⟩

/-- What a call queues comes last. -/
theorem delivered_perform (done : s.perform call answer = some next)
    (delivered : s.Delivered s.trace.queued) :
    next.Delivered (s.trace.queued ++ queuedBy call answer) := by
  obtain ⟨between, order, place⟩ := delivered
  have written : next.written = s.written := by rw [Session.perform_eq done]
  have writer : next.writer = s.writer := by rw [Session.perform_eq done]
  refine ⟨between, ?_, by rwa [writer]⟩
  rw [written, Session.writeChannel_perform done, ← order]
  simp only [List.append_assoc]

/-- A frame that begins behind an unstopped one finds it left properly. -/
theorem continued_begin (ended : s.trace = [] ∨ FrameEnds (.ok true) (Exchange.of s.trace))
    (unsent : (Exchange.of s.trace).unsent = true → s.stopped = true) (alive : s.stopped = false)
    (frames : ∀ e ∈ s.trace.continued, e.Left) :
    (∀ e ∈ Trace.continued (.frame :: s.trace), e.Left) ∧
      (Exchange.of s.trace).started = (Exchange.of s.trace).finished := by
  rcases ended with first | unsentOrLeft
  · rw [first]
    exact ⟨(fun e member => nomatch member), rfl⟩
  · have left : (Exchange.of s.trace).Left := by
      refine unsentOrLeft.resolve_left fun refused => ?_
      rw [unsent refused] at alive
      nomatch alive
    refine ⟨fun e member => ?_, left.balanced⟩
    cases past : s.trace with
    | nil =>
        rw [past] at member
        nomatch member
    | cons event earlier =>
        have listed : Trace.continued (.frame :: s.trace) =
            Exchange.of s.trace :: Trace.continued s.trace := by
          rw [past, Trace.continued]
          exact List.cons_ne_nil event earlier
        rw [listed] at member
        rcases List.mem_cons.mp member with rfl | older
        · exact left
        · exact frames e older

/-- Every action keeps what holds between a session and the exchanges of its trace. -/
theorem Session.Exchanging.step {action : Action} (exchanging : s.Exchanging input)
    (stepped : s.step action = some next) : next.Exchanging input := by
  cases Session.moved_of_step stepped with
  | began atTop alive eq =>
      subst eq
      have before := continued_begin (exchanging.ended atTop) exchanging.unsent alive
        exchanging.frames
      have count := exchanging.count
      refine ⟨Session.follows_ofTask readFrame_ends, (fun wrong => nomatch wrong),
        (fun wrong => nomatch wrong), Nat.le_refl 0, ?_, before.1, ?_, exchanging.delivered⟩
      · change s.activity.activeCommands + 0 = s.otherCommands + 0
        rw [before.2] at count
        omega
      · exact exchanging.stream
  | @answered call answer resume after chosen waiting performed eq =>
      subst eq
      have follows := exchanging.follows
      rw [waiting] at follows
      have trace : after.trace = s.trace := by rw [Session.perform_eq performed]
      have met := follows.2 answer (framingAnswers_perform performed)
      have counts := count_perform performed follows.1 exchanging.bounded exchanging.count
      refine ⟨?_, ?_, ?_, ?_, ?_, ?_, ?_, ?_⟩
      · simp only [Session.resumeWith, trace]
        exact Session.follows_ofTask met
      · simp only [Session.resumeWith, trace]
        intro atTop
        refine .inr ?_
        cases left : resume answer with
        | done keep =>
            rw [left] at met atTop
            cases keep with
            | true => exact met
            | false => nomatch atTop
        | raise thrown =>
            rw [left] at atTop
            nomatch atTop
        | suspend call resume =>
            rw [left] at atTop
            nomatch atTop
      · simp only [Session.resumeWith, trace]
        exact unsent_perform performed exchanging.unsent
      · simp only [Session.resumeWith, trace]
        exact counts.1
      · simp only [Session.resumeWith, trace]
        exact counts.2
      · simp only [Session.resumeWith, trace]
        exact exchanging.frames
      · simp only [Session.resumeWith, trace, Trace.taken]
        rw [List.append_assoc, Session.input_perform performed]
        exact exchanging.stream
      · have delivered := delivered_perform performed exchanging.delivered
        simp only [Session.resumeWith, trace]
        exact delivered
  | aside beside =>
      have bounded := exchanging.bounded
      have count := exchanging.count
      have activity := beside.activity (by omega)
      refine ⟨?_, ?_, ?_, ?_, ?_, ?_, ?_, ?_⟩
      · rcases beside.reader with same | gone | gone
        · rw [beside.trace, same]
          exact exchanging.follows
        · rw [gone]
          trivial
        · rw [gone]
          trivial
      · rw [beside.trace]
        intro atTop
        rcases beside.reader with same | gone | gone
        · exact exchanging.ended (same.symm.trans atTop)
        · nomatch gone.symm.trans atTop
        · nomatch gone.symm.trans atTop
      · rw [beside.trace]
        exact fun unsent => beside.stopped (exchanging.unsent unsent)
      · rw [beside.trace]
        exact bounded
      · rw [beside.trace]
        omega
      · rw [beside.trace]
        exact exchanging.frames
      · rw [beside.trace, beside.input]
        exact exchanging.stream
      · rw [beside.trace]
        exact beside.delivered _ exchanging.delivered

end Step

/-- What holds between a session and its exchanges in every run. -/
theorem exchanging_of_run {input : List Byte} {peerLocal : Bool} {otherCommands : Nat}
    {stopping : Bool} {actions : List Action} {final : Session}
    (ran : Session.machine.run (Session.start input peerLocal otherCommands stopping) actions =
      some final) : final.Exchanging input :=
  Machine.invariant_reachable (fun _ _ _ exchanging stepped => exchanging.step stepped)
    (exchanging_start input peerLocal otherCommands stopping) ran

/-- A run keeps its frames framed exactly when the metadata of every upload after which
it went on could be read. -/
theorem framingKept_iff (input : List Byte) (peerLocal : Bool) (otherCommands : Nat)
    (stopping : Bool) (actions : List Action) (final : Session)
    (ran : Session.machine.run (Session.start input peerLocal otherCommands stopping) actions =
      some final) :
    final.FramingKept input ↔ ∀ e ∈ final.trace.continued, e.unallocated = false := by
  have exchanging : final.Exchanging input := exchanging_of_run ran
  refine ⟨fun kept e member => ?_, fun allocated => ⟨fun e member => ?_, ?_, exchanging.stream, ?_⟩⟩
  · exact (exchanging.frames e member).framed.mp (kept.frames e member)
  · exact (exchanging.frames e member).framed.mpr (allocated e member)
  · intro atTop alive
    have balanced : (Exchange.of final.trace).started = (Exchange.of final.trace).finished :=
      (continued_begin (exchanging.ended atTop) exchanging.unsent alive exchanging.frames).2
    have count := exchanging.count
    omega
  · obtain ⟨between, order, _⟩ := exchanging.delivered
    exact ⟨between ++ final.writeChannel, by rw [← order, List.append_assoc]⟩

/-- A local "admin" uploads five bytes of metadata. -/
def uploadingAdmin : List Byte :=
  Header.bytes ⟨5, .userRegistry⟩ ++ adminName ++ Header.bytes ⟨5, .uploadRaznV1⟩ ++ adminName

/-- The upload frame is taken up; `allocated` tells about its metadata buffer. -/
def startsUpload (allocated : Bool) : List Action :=
  registersAdmin ++ [.nextFrame, takesHeader ⟨5, .uploadRaznV1⟩,
    .answer .credentials ⟨adminName, true, true⟩, .answer .tryStartCommand true,
    .answer (.allocateMetadata 5) allocated]

/-- The metadata is read and refused. -/
def refusesMetadata : List Action :=
  [takesAdminName, .answer (.parseMetadata adminName) (.failed .invalidJson),
    .answer .typedErrorsEnabled false,
    .answer (.send (errorItem false .invalidJson false)) true, .answer .finishCommand (), .nextFrame]

theorem framingKept_iff_refusedMetadata :
    ∃ final, Session.machine.run (Session.start uploadingAdmin true 0 false)
        (startsUpload true ++ refusesMetadata) = some final ∧ final.input = [] ∧
      (final.FramingKept uploadingAdmin ↔ ∀ e ∈ final.trace.continued, e.unallocated = false) := by
  have ends : (Session.machine.run (Session.start uploadingAdmin true 0 false)
      (startsUpload true ++ refusesMetadata)).map (fun final => final.input) = some [] := by
    decide +kernel
  obtain ⟨final, ran, empty⟩ := Option.map_eq_some_iff.mp ends
  exact ⟨final, ran, empty, framingKept_iff _ true 0 false _ final ran⟩

/-- The allocation fails: the error is queued and the next frame begins in the metadata. -/
def failsAllocation : List Action :=
  [.answer .abort (), .answer .finishCommand (), .answer .typedErrorsEnabled false,
    .answer (.send (errorItem false .internalError false)) true, .nextFrame]

theorem not_framingKept_failedAllocation :
    ∃ final, Session.machine.run (Session.start uploadingAdmin true 0 false)
        (startsUpload false ++ failsAllocation) = some final ∧ final.stopped = false ∧
      final.input = adminName ∧ ¬ final.FramingKept uploadingAdmin := by
  have ends : (Session.machine.run (Session.start uploadingAdmin true 0 false)
      (startsUpload false ++ failsAllocation)).map
      (fun final => (final.stopped, final.input,
        final.trace.continued.any fun e => e.unallocated)) = some (false, adminName, true) := by
    decide +kernel
  obtain ⟨final, ran, values⟩ := Option.map_eq_some_iff.mp ends
  simp only [Prod.mk.injEq] at values
  obtain ⟨alive, rest, failed⟩ := values
  obtain ⟨e, member, unallocated⟩ := List.any_eq_true.mp failed
  refine ⟨final, ran, alive, rest, fun kept => ?_⟩
  have allocated := ((exchanging_of_run ran).frames e member).framed.mp (kept.frames e member)
  rw [allocated] at unallocated
  nomatch unallocated

end SearchEngine.Server
