import SearchEngine.Server.SessionSystem

/-!
# What a frame may do

`FrameView` is what the events so far tell about the frame that is being handled.
`Permitted` says when each call may be made; every frame keeps to it, whatever
the client sends and whatever the handlers answer (`readFrame_meets`). A command,
an upload or a change of the credentials needs a header that the read loop lets
through, and a handler needs the session to be authenticated before the frame.
-/

namespace SearchEngine.Server

open SearchEngine.Index SearchEngine.Lib SearchEngine.Lib.Coroutine

/-- The frame is `LOAD_TLG_TO_SEND` or `LOAD_RAZN`. -/
def Header.isLegacyUpload (header : Header) : Bool :=
  header.command = .loadTlgToSend || header.command = .loadRazn

/-- The read loop hands the frame on to a command or an upload. -/
def Header.startsCommand (header : Header) (authenticated : Bool) : Bool :=
  let gate := evaluateSessionCommandGate header.command authenticated
  if isStreamingUploadCommand header.command then
    trustCommand header && gate.allowExecute && header.size ≤ maxMetadataBytes
  else
    header.size ≤ maxPayload && (disabledLegacyMessage header.command).isNone &&
      trustCommand header && (!header.isLegacyUpload || gate.allowExecute)

/-- What the events tell about the current frame: its header and the bytes read after
it, the credentials before it and now, and what its handlers confirmed. -/
structure FrameView where
  header : Option Header
  body : List Byte
  before : Credentials
  credentials : Credentials
  localPeer : Bool
  accepted : Option (List Byte)
  clientName : Option (List Byte)

namespace FrameView

variable {v : FrameView}

/-- Nothing happened yet. -/
def initial : FrameView where
  header := none
  body := []
  before := .initial
  credentials := .initial
  localPeer := false
  accepted := none
  clientName := none

/-- The view when a frame begins. -/
def begin (v : FrameView) : FrameView := { initial with
  before := v.credentials
  credentials := v.credentials }

/-- The bytes of `async_read` come in; the first ones are the header. -/
def read (v : FrameView) (bytes : List Byte) : FrameView :=
  match v.header with
  | none => { v with header := some (Header.ofBytes bytes) }
  | some _ => { v with body := v.body ++ bytes }

/-- The view after a call. -/
def next (v : FrameView) : (call : Call) → Answer call → FrameView
  | .readExactly _, some bytes => v.read bytes.val
  | .readSome _, some bytes => { v with body := v.body ++ bytes.val }
  | .authorize credentials, _ => { v with credentials := credentials }
  | .isLocalAdminPeer, isLocal => { v with localPeer := isLocal }
  | .authenticate _, .succeeded payload => { v with accepted := some payload }
  | .parseClientName payload, name =>
      { v with clientName := if v.accepted = some payload then name else none }
  | _, _ => v

/-- The view of a trace. -/
def of : Trace → FrameView
  | [] => initial
  | .frame :: earlier => (of earlier).begin
  | .called call answer :: earlier => (of earlier).next call answer

/-- The frame is a `USER_REGISTRY` of "admin" from the local peer. -/
structure Registers (v : FrameView) (credentials : Credentials) : Prop where
  command : ∃ header, v.header = some header ∧ header.command = .userRegistry
  payload : v.body = adminName
  localPeer : v.localPeer = true
  granted : credentials = ⟨adminName, true, true⟩

/-- The frame is an `AUTHENTICATE_V1` that succeeded; "admin" comes from the local peer. -/
structure Authenticates (v : FrameView) (credentials : Credentials) : Prop where
  command : ∃ header, v.header = some header ∧ header.command = .authenticateV1
  clientName : v.clientName = some credentials.userName
  localPeer : credentials.userName = adminName → v.localPeer = true
  granted : credentials = ⟨credentials.userName, true, credentials.userName = adminName⟩

/-- The frame is one that the read loop hands on. -/
def Startable (v : FrameView) : Prop :=
  ∃ header, v.header = some header ∧ header.startsCommand v.before.authenticated = true

/-- The frame is handed on in a session that was authenticated before it. -/
def Authorized (v : FrameView) : Prop := v.Startable ∧ v.before.authenticated = true

/-- When a call may be made. -/
def Permitted (v : FrameView) : Call → Prop
  | .tryStartCommand => v.Startable
  | .execCommand command _ => v.Startable ∧ (command = .ping ∨ v.before.authenticated = true)
  | .resolveFile _ _ => v.Authorized
  | .authenticate request => v.Startable ∧ request = v.body
  | .authorize credentials => v.Startable ∧ (v.Registers credentials ∨ v.Authenticates credentials)
  | .parseMetadata _ => v.Authorized
  | .outputRoot _ => v.Authorized
  | .planRaznTarget _ => v.Authorized
  | .planTlgTarget operatorName _ => v.Authorized ∧ operatorName = v.credentials.userName
  | .prepare _ => v.Authorized
  | .writeChunk _ => v.Authorized
  | .publish => v.Authorized
  | .logRequest request => request.userName = v.credentials.userName
  | _ => True

/-- What the session answers about itself. -/
def Answers (v : FrameView) : (call : Call) → Answer call → Prop
  | .credentials, credentials => credentials = v.credentials
  | _, _ => True

end FrameView

/-- The contract of a frame. -/
def gateContract : Contract Call Answer FrameView where
  requires := FrameView.Permitted
  answers := FrameView.Answers
  next := FrameView.next

/-- Nothing is promised about the end. -/
def Anything {Result : Type} (_ : Except Thrown Result) (_ : FrameView) : Prop := True

/-- The view did not change. -/
def Unchanged {Result : Type} (v : FrameView) (_ : Except Thrown Result) (after : FrameView) : Prop :=
  after = v

/-- The same frame of the same user; its body may have grown. -/
def SameFrame {Result : Type} (v : FrameView) (_ : Except Thrown Result) (after : FrameView) : Prop :=
  ∃ body, after = { v with body := body }

/-- The bytes that came back are the next of the body. -/
def BodyRead (v : FrameView) : Except Thrown (List Byte) → FrameView → Prop
  | .ok bytes, after => after = { v with body := v.body ++ bytes }
  | .error _, after => ∃ body, after = { v with body := body }

variable {v : FrameView} {requestHeader : Header} {Result : Type}

/-! ## Reading and replying -/

theorem queueError_meets (error : ErrorCode) (closeAfterWrite : Bool) :
    (queueError error closeAfterWrite).Meets gateContract (Unchanged v) v := by
  unfold queueError
  refine Meets.call trivial fun typedResponse _ => ?_
  refine Meets.call trivial fun queued _ => ?_
  split
  · exact Meets.call trivial fun _ _ => rfl
  · rfl

theorem refuse_meets (error : ErrorCode) (closeAfterWrite : Bool) (result : Result) :
    (refuse error closeAfterWrite result).Meets gateContract (Unchanged v) v := by
  refine Meets.bind (queueError_meets error closeAfterWrite) ?_ fun _ _ same => same
  exact fun _ _ same => same

/-- A refusal may come at any point. -/
theorem refuse_anything (error : ErrorCode) (closeAfterWrite : Bool) (result : Result) :
    (refuse error closeAfterWrite result).Meets gateContract Anything v :=
  (refuse_meets error closeAfterWrite result).mono fun _ _ _ => trivial

theorem runHandler_meets {Value : Type} (handled : Handled Value) :
    (runHandler handled).Meets gateContract (Unchanged v) v := by
  cases handled with
  | threw what => rfl
  | failed error => rfl
  | succeeded value => rfl

theorem receiveSome_meets (limit : Nat) :
    (receiveSome limit).Meets gateContract (BodyRead v) v := by
  unfold receiveSome
  refine Meets.call trivial fun answer _ => ?_
  cases answer with
  | none => exact ⟨v.body, rfl⟩
  | some bytes => rfl

theorem receiveAll_meets (rounds remaining : Nat) :
    (receiveAll rounds remaining).Meets gateContract (BodyRead v) v := by
  have nothing : BodyRead v (.ok []) v := by simp [BodyRead]
  induction rounds generalizing remaining v with
  | zero => exact nothing
  | succ rounds ih =>
      rw [receiveAll]
      split
      · exact nothing
      · refine Meets.bind (receiveSome_meets _) ?_ fun _ _ same => same
        rintro bytes after rfl
        refine Meets.bind (ih _ (by simp [BodyRead])) ?_ ?_
        · rintro rest after rfl
          simp [meets_pure, BodyRead]
        · exact fun _ _ same => same

theorem drainBody_meets (rounds remaining : Nat) :
    (drainBody rounds remaining).Meets gateContract Anything v := by
  induction rounds generalizing remaining v with
  | zero => trivial
  | succ rounds ih =>
      rw [drainBody]
      split
      · trivial
      · refine Meets.call trivial fun answer _ => ?_
        cases answer with
        | none => trivial
        | some bytes => exact ih _

theorem receiveChunk_meets (rounds remaining : Nat) :
    (receiveChunk rounds remaining).Meets gateContract (SameFrame v) v := by
  induction rounds generalizing remaining v with
  | zero => exact ⟨v.body, rfl⟩
  | succ rounds ih =>
      rw [receiveChunk]
      split
      · exact ⟨v.body, rfl⟩
      · refine Meets.bind (receiveSome_meets _) ?_ fun _ _ same => same
        rintro bytes after rfl
        split
        · exact ⟨_, rfl⟩
        · refine Meets.bind (ih _) ?_ fun _ _ same => same
          rintro rest after ⟨body, rfl⟩
          cases rest with
          | none => exact ⟨body, rfl⟩
          | some rest => exact ⟨body, rfl⟩

/-! ## Streaming uploads -/

/-- An authorized frame stays authorized while its body comes in. -/
theorem FrameView.Authorized.withBody (authorized : v.Authorized) (body : List Byte) :
    { v with body := body }.Authorized := authorized

theorem receiveFile_meets (rounds remaining : Nat) (authorized : v.Authorized) :
    (receiveFile rounds remaining).Meets gateContract (SameFrame v) v := by
  induction rounds generalizing remaining v with
  | zero => exact ⟨v.body, rfl⟩
  | succ rounds ih =>
      rw [receiveFile]
      split
      · exact ⟨v.body, rfl⟩
      · refine Meets.bind (receiveChunk_meets _ _) ?_ fun _ _ same => same
        rintro chunk after ⟨body, rfl⟩
        cases chunk with
        | none => exact ⟨body, rfl⟩
        | some chunk =>
            refine Meets.call (authorized.withBody body) fun written _ => ?_
            refine Meets.bind (runHandler_meets written) ?_ ?_
            · rintro outcome after rfl
              cases outcome with
              | error error => exact ⟨body, rfl⟩
              | ok value => exact ih _ (authorized.withBody body)
            · rintro thrown after rfl
              exact ⟨body, rfl⟩

theorem completeUpload_meets (metadata : Metadata) (authorized : v.Authorized) :
    (completeUpload requestHeader metadata).Meets gateContract Anything v := by
  unfold completeUpload
  refine Meets.bind (receiveFile_meets _ _ authorized) ?_ fun _ _ _ => trivial
  rintro received after ⟨body, rfl⟩
  split
  · trivial
  · refine Meets.call (authorized.withBody body) fun published _ => ?_
    refine Meets.bind (runHandler_meets published) ?_ fun _ _ _ => trivial
    rintro outcome after rfl
    cases outcome with
    | error error => exact refuse_anything _ _ _
    | ok savedName =>
        refine Meets.call trivial fun queued _ => ?_
        split
        · trivial
        · refine Meets.call trivial fun credentials current => ?_
          exact Meets.call (congrArg Credentials.userName current) fun _ _ => trivial

theorem planTarget_meets (command : Command) (metadata : Metadata) (authorized : v.Authorized) :
    (planTarget command v.credentials.userName metadata).Meets gateContract (Unchanged v) v := by
  unfold planTarget
  split
  · exact ⟨authorized, fun _ _ => rfl⟩
  · exact ⟨⟨authorized, rfl⟩, fun _ _ => rfl⟩

theorem openUpload_meets (metadata : Metadata) (authorized : v.Authorized) :
    (openUpload requestHeader metadata).Meets gateContract (Unchanged v) v := by
  unfold openUpload
  refine Meets.call authorized fun prepared _ => ?_
  refine Meets.bind (runHandler_meets prepared) ?_ fun _ _ same => same
  rintro outcome after rfl
  cases outcome with
  | error error => exact refuse_meets _ _ _
  | ok _ => exact Meets.call trivial fun _ _ => rfl

theorem prepareUpload_meets (authorized : v.Authorized) :
    (prepareUpload requestHeader).Meets gateContract (SameFrame v) v := by
  unfold prepareUpload
  refine Meets.call trivial fun allocated _ => ?_
  split
  · exact ⟨v.body, rfl⟩
  refine Meets.bind (receiveAll_meets _ _) ?_ fun _ _ same => same
  rintro metadataBytes read rfl
  have still := authorized.withBody (v.body ++ metadataBytes)
  refine Meets.call still fun parsed _ => ?_
  refine Meets.bind (runHandler_meets parsed) ?_ fun _ _ same => ⟨_, same⟩
  rintro outcome after rfl
  cases outcome with
  | error error => exact (refuse_meets _ _ _).mono fun _ _ same => ⟨_, same⟩
  | ok metadata =>
      refine Meets.call trivial fun credentials current => ?_
      obtain rfl := current
      refine Meets.call still fun rooted _ => ?_
      split
      · exact (refuse_meets _ _ _).mono fun _ _ same => ⟨_, same⟩
      refine Meets.bind (planTarget_meets _ _ still) ?_ fun _ _ same => ⟨_, same⟩
      rintro answer after rfl
      refine Meets.bind (runHandler_meets answer) ?_ fun _ _ same => ⟨_, same⟩
      rintro plan after rfl
      cases plan with
      | error error => exact (refuse_meets _ _ _).mono fun _ _ same => ⟨_, same⟩
      | ok _ => exact (openUpload_meets _ still).mono fun _ _ same => ⟨_, same⟩

theorem abortUpload_meets : abortUpload.Meets gateContract Anything v := by
  unfold abortUpload
  refine Meets.call trivial fun _ _ => ?_
  exact Meets.call trivial fun _ _ => trivial

/-- The upload is over: the command is finished and the frame is left. -/
theorem finishCommand_meets (result : Result) :
    (ask .finishCommand >>= fun _ => pure result).Meets gateContract Anything v :=
  Meets.call trivial fun _ _ => trivial

theorem handleStreamingUpload_meets (known : v.header = some requestHeader)
    (upload : isStreamingUploadCommand requestHeader.command = true)
    (current : v.credentials = v.before) :
    (handleStreamingUpload requestHeader).Meets gateContract Anything v := by
  unfold handleStreamingUpload
  split
  · exact refuse_anything _ _ _
  rename_i trusted
  refine Meets.call trivial fun credentials answered => ?_
  obtain rfl := answered
  dsimp only
  split
  · exact refuse_anything _ _ _
  rename_i allowed
  split
  · exact refuse_anything _ _ _
  rename_i small
  rw [current] at allowed
  have startable : v.Startable := by
    refine ⟨requestHeader, known, ?_⟩
    simp only [Header.startsCommand, upload]
    simp_all
  have authenticated : v.before.authenticated = true := by
    have bootstrap : isSessionBootstrapCommand requestHeader.command = false := by
      cases command : requestHeader.command <;> simp_all [isStreamingUploadCommand] <;> rfl
    have either := (allowExecute_iff _ _).mp (by simpa using allowed)
    exact either.resolve_left (by simp [bootstrap])
  refine Meets.call startable fun started _ => ?_
  split
  · exact refuse_anything _ _ _
  refine Meets.attempt (prepareUpload_meets ⟨startable, authenticated⟩) ?_
  rintro outcome after ⟨body, rfl⟩
  cases outcome with
  | error thrown =>
      cases thrown with
      | systemError => exact abortUpload_meets
      | exception what =>
          refine Meets.bind abortUpload_meets ?_ fun _ _ _ => trivial
          intro aborted after _
          split
          · trivial
          · exact refuse_anything _ _ _
  | ok stage =>
      cases stage with
      | refused => exact finishCommand_meets true
      | unsent => exact abortUpload_meets
      | ready metadata =>
          refine Meets.attempt (completeUpload_meets metadata ⟨startable, authenticated⟩) ?_
          intro completed after _
          cases completed with
          | error thrown => exact abortUpload_meets
          | ok answered =>
              cases answered with
              | false => exact abortUpload_meets
              | true => exact finishCommand_meets true

/-! ## Commands -/

theorem registerUser_meets (known : v.header = some requestHeader)
    (command : requestHeader.command = .userRegistry) (startable : v.Startable) :
    (registerUser v.body).Meets gateContract Anything v := by
  unfold registerUser
  split
  · exact refuse_anything _ _ _
  rename_i admin
  have payload : v.body = adminName := by simpa [isLegacyAdminUserRegistryPayload] using admin
  refine Meets.call trivial fun isLocal _ => ?_
  split
  · exact refuse_anything _ _ _
  rename_i confirmed
  have registers : ({ v with localPeer := isLocal } : FrameView).Registers ⟨adminName, true, true⟩ :=
    ⟨⟨requestHeader, known, command⟩, payload, by simpa using confirmed, rfl⟩
  exact Meets.call ⟨startable, .inl registers⟩ fun _ _ => trivial

/-- What `refusedAdmin` leaves: a client that may be "admin" is local. -/
def AdminChecked (v : FrameView) (clientName : List Byte) (outcome : Except Thrown Bool)
    (after : FrameView) : Prop :=
  ∃ isLocal, after = { v with localPeer := isLocal } ∧
    (outcome = .ok false → clientName = adminName → isLocal = true)

theorem refusedAdmin_meets (clientName : List Byte) :
    (refusedAdmin clientName).Meets gateContract (AdminChecked v clientName) v := by
  unfold refusedAdmin
  split
  · refine Meets.call trivial fun isLocal _ => ⟨isLocal, rfl, fun passed _ => ?_⟩
    simpa using passed
  · rename_i other
    exact ⟨v.localPeer, rfl, fun _ admin => absurd admin other⟩

theorem authenticateClient_meets (known : v.header = some requestHeader)
    (command : requestHeader.command = .authenticateV1) (startable : v.Startable) :
    (authenticateClient v.body).Meets gateContract Anything v := by
  unfold authenticateClient
  refine Meets.call trivial fun initialized _ => ?_
  split
  · exact refuse_anything _ _ _
  refine Meets.call ⟨startable, rfl⟩ fun handled _ => ?_
  cases handled with
  | threw what => trivial
  | failed error => exact refuse_anything _ _ _
  | succeeded payload =>
      refine Meets.call trivial fun parsed _ => ?_
      cases parsed with
      | none => exact refuse_anything _ _ _
      | some clientName =>
          refine Meets.bind (refusedAdmin_meets clientName) ?_ fun _ _ _ => trivial
          rintro refused after ⟨isLocal, rfl, checked⟩
          split
          · exact refuse_anything _ _ _
          rename_i passed
          refine Meets.call ⟨startable, .inr ?_⟩ fun _ _ => trivial
          refine ⟨⟨requestHeader, known, command⟩, ?_, ?_, rfl⟩
          · exact if_pos rfl
          · exact checked (by simpa using passed)

theorem executeCommand_meets (command : Command) (requestData : List Byte)
    (startable : v.Startable) (allowed : command = .ping ∨ v.before.authenticated = true) :
    (executeCommand command requestData).Meets gateContract Anything v := by
  unfold executeCommand
  refine Meets.call ⟨startable, allowed⟩ fun result _ => ?_
  cases result with
  | error error => exact refuse_anything _ _ _
  | ok answer => trivial

theorem sendResponse_meets (item : WriteItem) :
    (sendResponse item).Meets gateContract Anything v := by
  unfold sendResponse
  refine Meets.call trivial fun queued _ => ?_
  split <;> trivial

theorem answerCommand_meets (known : v.header = some requestHeader) (startable : v.Startable)
    (allowed : isSessionBootstrapCommand requestHeader.command = true ∨
      v.before.authenticated = true) :
    (answerCommand requestHeader.command v.body).Meets gateContract Anything v := by
  unfold answerCommand
  split
  · trivial
  rename_i notNegotiate
  split
  · rename_i command
    exact registerUser_meets known command startable
  rename_i notRegistry
  split
  · rename_i command
    exact authenticateClient_meets known command startable
  · rename_i notAuthenticate
    refine executeCommand_meets _ _ startable (allowed.imp_left fun bootstrap => ?_)
    cases command : requestHeader.command <;> simp_all [isSessionBootstrapCommand]

theorem transferFile_meets (requestData : List Byte) (authorized : v.Authorized) :
    (transferFile requestHeader requestData).Meets gateContract Anything v := by
  unfold transferFile
  refine Meets.call authorized fun resolved _ => ?_
  refine Meets.bind (runHandler_meets resolved) ?_ fun _ _ _ => trivial
  rintro outcome after rfl
  cases outcome with
  | error error => exact refuse_anything _ _ _
  | ok size => exact Meets.bind (sendResponse_meets _) (fun _ _ _ => trivial) fun _ _ _ => trivial

theorem respondCommand_meets (known : v.header = some requestHeader) (startable : v.Startable)
    (allowed : isSessionBootstrapCommand requestHeader.command = true ∨
      v.before.authenticated = true) :
    (respondCommand requestHeader v.body).Meets gateContract Anything v := by
  unfold respondCommand
  refine Meets.bind (answerCommand_meets known startable allowed) ?_ fun _ _ _ => trivial
  intro response after _
  cases response with
  | none => trivial
  | some response =>
      exact Meets.bind (sendResponse_meets _) (fun _ _ _ => trivial) fun _ _ _ => trivial

theorem dispatchCommand_meets (known : v.header = some requestHeader) (startable : v.Startable)
    (current : v.credentials = v.before) :
    (dispatchCommand requestHeader v.body).Meets gateContract Anything v := by
  unfold dispatchCommand
  split
  · exact refuse_anything _ _ _
  refine Meets.call trivial fun credentials answered => ?_
  obtain rfl := answered
  dsimp only
  split
  · exact refuse_anything _ _ _
  rename_i gate
  have allowed : isSessionBootstrapCommand requestHeader.command = true ∨
      v.before.authenticated = true := by
    rw [current] at gate
    exact (allowExecute_iff _ _).mp (by simpa using gate)
  refine Meets.call trivial fun archiveMode _ => ?_
  split
  · exact refuse_anything _ _ _
  split
  · exact refuse_anything _ _ _
  split
  · rename_i fileCommand
    refine transferFile_meets v.body ⟨startable, allowed.resolve_left ?_⟩
    rcases fileCommand with command | command | command <;> rw [command] <;> simp
      [isSessionBootstrapCommand]
  · exact respondCommand_meets known startable allowed

theorem finishResponse_meets (request : List Byte) (enableTypedErrors : Bool) :
    (finishResponse requestHeader request enableTypedErrors).Meets gateContract Anything v := by
  have logged : Coroutine.Meets gateContract Anything
      (ask .credentials >>= fun credentials =>
        ask (.logRequest ⟨credentials.userName, request, requestHeader.command⟩)) v :=
    Meets.call trivial fun credentials current =>
      ⟨congrArg Credentials.userName current, fun _ _ => trivial⟩
  unfold finishResponse
  split
  · exact Meets.call trivial fun _ _ => logged
  · exact logged

theorem commandExec_meets (known : v.header = some requestHeader) (startable : v.Startable)
    (current : v.credentials = v.before) :
    (commandExec requestHeader v.body).Meets gateContract Anything v := by
  unfold commandExec
  refine Meets.attempt (dispatchCommand_meets known startable current) ?_
  intro outcome after _
  cases outcome with
  | error thrown => exact refuse_anything _ _ _
  | ok response =>
      cases response with
      | none => trivial
      | some response => exact finishResponse_meets _ _

/-! ## The read loop -/

theorem handleLegacyMessage_meets (normalizedCommand : Command) :
    (handleLegacyMessage requestHeader normalizedCommand).Meets gateContract Anything v := by
  unfold handleLegacyMessage
  refine Meets.call trivial fun credentials _ => ?_
  dsimp only
  split
  · exact refuse_anything _ _ _
  refine Meets.bind (drainBody_meets _ _) ?_ fun _ _ _ => trivial
  intro drained after _
  split
  · trivial
  · exact refuse_anything _ _ _

theorem handleLegacyUpload_meets (known : v.header = some requestHeader)
    (starts : (evaluateSessionCommandGate requestHeader.command
      v.before.authenticated).allowExecute = true →
      requestHeader.startsCommand v.before.authenticated = true)
    (current : v.credentials = v.before) :
    (handleLegacyUpload requestHeader).Meets gateContract Anything v := by
  unfold handleLegacyUpload
  refine Meets.call trivial fun credentials answered => ?_
  obtain rfl := answered
  dsimp only
  split
  · exact refuse_anything _ _ _
  rename_i gate
  rw [current] at gate
  have startable : v.Startable := ⟨requestHeader, known, starts (by simpa using gate)⟩
  refine Meets.call startable fun started _ => ?_
  split
  · exact refuse_anything _ _ _
  refine Meets.bind (drainBody_meets _ _) ?_ fun _ _ _ => trivial
  intro drained after _
  refine Meets.call trivial fun _ _ => ?_
  split
  · trivial
  · exact refuse_anything _ _ _

theorem handleCommand_meets (known : v.header = some requestHeader) (empty : v.body = [])
    (starts : requestHeader.startsCommand v.before.authenticated = true)
    (current : v.credentials = v.before) :
    (handleCommand requestHeader).Meets gateContract Anything v := by
  unfold handleCommand
  refine Meets.call trivial fun allocated _ => ?_
  split
  · trivial
  refine Meets.bind (receiveAll_meets _ _) ?_ fun _ _ _ => trivial
  rintro requestData read rfl
  have startable : ({ v with body := v.body ++ requestData } : FrameView).Startable :=
    ⟨requestHeader, known, starts⟩
  refine Meets.call startable fun started _ => ?_
  split
  · exact refuse_anything _ _ _
  have executed : Coroutine.Meets gateContract Anything (commandExec requestHeader requestData)
      { v with body := v.body ++ requestData } := by
    rw [empty, List.nil_append]
    exact commandExec_meets (v := { v with body := requestData }) known
      ⟨requestHeader, known, starts⟩ current
  refine Meets.attempt executed ?_
  exact fun _ _ _ => finishCommand_meets true

/-- The bytes of `async_read` came in. -/
def Received (v : FrameView) : Except Thrown (List Byte) → FrameView → Prop
  | .ok bytes, after => after = v.read bytes
  | .error _, _ => True

theorem receive_meets (count : Nat) : (receive count).Meets gateContract (Received v) v := by
  unfold receive
  refine Meets.call trivial fun answer _ => ?_
  cases answer with
  | none => trivial
  | some bytes => rfl

/-- Every frame keeps to the contract. -/
theorem readFrame_meets (v : FrameView) : readFrame.Meets gateContract Anything v.begin := by
  unfold readFrame
  refine Meets.bind (receive_meets _) ?_ fun _ _ _ => trivial
  rintro bytes read rfl
  dsimp only
  have known : (v.begin.read bytes).header = some (Header.ofBytes bytes) := rfl
  have before : (v.begin.read bytes).before = v.credentials := rfl
  split
  · rename_i upload
    exact handleStreamingUpload_meets known upload rfl
  rename_i notUpload
  split
  · exact refuse_anything _ _ _
  rename_i small
  cases message : disabledLegacyMessage (Header.ofBytes bytes).command with
  | some normalizedCommand => exact handleLegacyMessage_meets normalizedCommand
  | none =>
      dsimp only
      split
      · exact refuse_anything _ _ _
      rename_i trusted
      split
      · refine handleLegacyUpload_meets known (fun allowed => ?_) rfl
        rw [before] at allowed ⊢
        simp_all [Header.startsCommand]
      · rename_i notLegacy
        refine handleCommand_meets known rfl ?_ rfl
        simp_all [Header.startsCommand, Header.isLegacyUpload]

/-! ## Runs -/

/-- Every call of the trace was permitted when it was made. -/
def Trace.EveryCallPermitted (trace : Trace) : Prop :=
  ∀ call answer earlier, .called call answer :: earlier <:+ trace →
    (FrameView.of earlier).Permitted call

/-- What holds between a session and its trace. -/
structure Session.Gated (s : Session) : Prop where
  follows : Session.Follows gateContract Anything (FrameView.of s.trace) s.reader
  credentials : s.credentials = (FrameView.of s.trace).credentials
  localPeer : ∀ earlier, earlier <:+ s.trace →
    (FrameView.of earlier).localPeer = true → s.peerLocal = true
  permitted : s.trace.EveryCallPermitted

theorem gated_start (input : List Byte) (peerLocal : Bool) (otherCommands : Nat) (stopping : Bool) :
    (Session.start input peerLocal otherCommands stopping).Gated where
  follows := trivial
  credentials := rfl
  localPeer earlier part isLocal := by
    obtain rfl : earlier = [] := List.suffix_nil.mp part
    nomatch isLocal
  permitted call answer earlier part := nomatch List.suffix_nil.mp part

/-- The credentials after a call. -/
def Call.granted : Call → Credentials → Credentials
  | .authorize latest, _ => latest
  | _, current => current

theorem FrameView.credentials_read (bytes : List Byte) :
    (v.read bytes).credentials = v.credentials := by
  unfold FrameView.read
  split <;> rfl

theorem FrameView.credentials_next (call : Call) (answer : Answer call) :
    (v.next call answer).credentials = call.granted v.credentials := by
  cases call with
  | readExactly count =>
      cases answer with
      | none => rfl
      | some bytes => exact credentials_read bytes.val
  | readSome limit => cases answer <;> rfl
  | authenticate request => cases answer <;> rfl
  | _ => rfl

section Step

variable {s next : Session} {call : Call} {answer : Answer call}

theorem Session.credentials_perform (done : s.perform call answer = some next) :
    next.credentials = call.granted s.credentials := by
  unfold Session.perform at done
  split at done
  all_goals first
    | (obtain rfl := Option.some.inj done; rfl)
    | (obtain ⟨rfl, _⟩ := takeInput_eq done; rfl)
    | (obtain ⟨rfl, _⟩ := sendItem_eq done; rfl)
    | (split at done
       · obtain rfl := Option.some.inj done
         rfl
       · nomatch done)

/-- An answer about the session is the truth. -/
theorem answers_perform (done : s.perform call answer = some next)
    (current : s.credentials = v.credentials) : v.Answers call answer := by
  cases call with
  | credentials =>
      simp only [Session.perform] at done
      split at done
      case isTrue same => exact same.symm.trans current
      case isFalse => nomatch done
  | _ => trivial

/-- The local peer is confirmed only when it is local. -/
theorem localPeer_perform (done : s.perform call answer = some next)
    (known : v.localPeer = true → s.peerLocal = true)
    (confirmed : (v.next call answer).localPeer = true) : s.peerLocal = true := by
  have read : ∀ bytes, (v.read bytes).localPeer = v.localPeer := by
    intro bytes
    unfold FrameView.read
    split <;> rfl
  cases call with
  | isLocalAdminPeer =>
      obtain rfl : answer = true := confirmed
      simp only [Session.perform] at done
      split at done
      case isTrue isLocal => simpa using isLocal
      case isFalse => nomatch done
  | readExactly count =>
      cases answer with
      | none => exact known confirmed
      | some bytes => exact known ((read bytes.val).symm.trans confirmed)
  | readSome limit => cases answer <;> exact known confirmed
  | authenticate request => cases answer <;> exact known confirmed
  | _ => exact known confirmed

/-- Every action keeps what holds between a session and its trace. -/
theorem Session.Gated.step {action : Action} (gated : s.Gated)
    (stepped : s.step action = some next) : next.Gated := by
  cases Session.moved_of_step stepped with
  | began atTop alive eq =>
      subst eq
      refine ⟨Session.follows_ofTask (readFrame_meets _), gated.credentials, ?_, ?_⟩
      · intro earlier part isLocal
        rcases List.suffix_cons_iff.mp part with rfl | older
        · nomatch isLocal
        · exact gated.localPeer earlier older isLocal
      · intro call answer earlier part
        rcases List.suffix_cons_iff.mp part with same | older
        · nomatch same
        · exact gated.permitted call answer earlier older
  | @answered call answer resume after chosen waiting performed eq =>
      subst eq
      have follows := gated.follows
      rw [waiting] at follows
      have shared := Session.perform_eq performed
      have trace : after.trace = s.trace := by rw [shared]
      have peer : after.peerLocal = s.peerLocal := by rw [shared]
      have possible : (FrameView.of s.trace).Answers call answer :=
        answers_perform performed gated.credentials
      refine ⟨?_, ?_, ?_, ?_⟩
      · simp only [Session.resumeWith, trace]
        exact Session.follows_ofTask (follows.2 answer possible)
      · simp only [Session.resumeWith, trace, FrameView.of, FrameView.credentials_next]
        rw [Session.credentials_perform performed, gated.credentials]
      · simp only [Session.resumeWith, trace, peer]
        intro earlier part isLocal
        rcases List.suffix_cons_iff.mp part with rfl | older
        · exact localPeer_perform performed (gated.localPeer _ List.suffix_rfl) isLocal
        · exact gated.localPeer earlier older isLocal
      · simp only [Session.resumeWith, trace]
        intro made given earlier part
        rcases List.suffix_cons_iff.mp part with same | older
        · injection same with event past
          injection event with sameCall
          subst sameCall past
          exact follows.1
        · exact gated.permitted made given earlier older
  | aside beside =>
      refine ⟨?_, ?_, ?_, ?_⟩
      · rcases beside.reader with same | gone | gone
        · rw [beside.trace, same]
          exact gated.follows
        · rw [gone]
          trivial
        · rw [gone]
          trivial
      · rw [beside.trace, beside.credentials, gated.credentials]
      · rw [beside.trace, beside.peerLocal]
        exact gated.localPeer
      · rw [beside.trace]
        exact gated.permitted

end Step

/-- What holds between a session and its trace in every run. -/
theorem gated_of_run {input : List Byte} {peerLocal : Bool} {otherCommands : Nat} {stopping : Bool}
    {actions : List Action} {final : Session}
    (ran : Session.machine.run (Session.start input peerLocal otherCommands stopping) actions =
      some final) : final.Gated :=
  Machine.invariant_reachable (fun _ _ _ gated stepped => gated.step stepped)
    (gated_start input peerLocal otherCommands stopping) ran

end SearchEngine.Server
