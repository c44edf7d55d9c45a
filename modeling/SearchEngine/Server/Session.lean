import SearchEngine.Lib.Coroutine
import SearchEngine.Server.Protocol

/-!
# The read loop of a session

`readLoop`, `handleStreamingUpload` and `commandExec` are coroutines of one
session: the read loop awaits each of them, so they never run side by side. A
`Call` is a point where they touch what is shared or outside: the socket, the
write channel, the members of the session, `ServerActivity`, and the handlers,
whose outcome is left open. Of the allocations only those of a buffer for an
advertised size may fail.
-/

namespace SearchEngine.Server

open SearchEngine.Index SearchEngine.Lib

/-- The text of an exception. -/
abbrev What := List Char

/-- `boost::system::system_error`, or any other exception. -/
inductive Thrown where
  | systemError
  | exception (what : What)
  deriving DecidableEq

/-- The outcome of a handler. -/
inductive Handled (Value : Type) where
  | threw (what : What)
  | failed (error : ErrorCode)
  | succeeded (value : Value)
  deriving DecidableEq

/-- `WriteItem`. -/
inductive WriteItem where
  | responseWrite (header : Header) (payload : List Byte)
  | fileTransfer (header : Header)
  | errorWrite (header : Header) (payload : List Byte) (closeAfterWrite : Bool)
  deriving DecidableEq

/-- The item makes the writer close the session. -/
def WriteItem.closesAfterWrite : WriteItem → Bool
  | responseWrite _ _ => false
  | fileTransfer _ => false
  | errorWrite _ _ closeAfterWrite => closeAfterWrite

/-- `userName_`, `authenticated_` and `admin_session_`. -/
structure Credentials where
  userName : List Byte
  authenticated : Bool
  adminSession : Bool
  deriving DecidableEq

/-- The members of a new session. -/
def Credentials.initial : Credentials := ⟨Word.ofAscii "default_user", false, false⟩

/-- `PersonalRequest`. -/
structure PersonalRequest where
  userName : List Byte
  request : List Byte
  requestType : Command
  deriving DecidableEq

/-- `streaming_upload::Metadata`. -/
structure Metadata where
  fileName : List Byte
  fileSize : Nat
  deriving DecidableEq

/-- What the read loop asks of its surroundings. -/
inductive Call where
  | readExactly (count : Nat)
  | readSome (limit : Nat)
  | allocateRequestData (size : Nat)
  | allocateMetadata (size : Nat)
  | send (item : WriteItem)
  | typedErrorsEnabled
  | enableTypedErrors
  | markTerminalErrorQueued
  | credentials
  | authorize (credentials : Credentials)
  | isLocalAdminPeer
  | tryStartCommand
  | finishCommand
  | isArchiveMode
  | execCommand (command : Command) (request : List Byte)
  | resolveFile (command : Command) (request : List Byte)
  | isAuthInitialized
  | authenticate (request : List Byte)
  | parseClientName (payload : List Byte)
  | parseMetadata (bytes : List Byte)
  | outputRoot (command : Command)
  | planRaznTarget (metadata : Metadata)
  | planTlgTarget (operatorName : List Byte) (metadata : Metadata)
  | prepare (fileSize : Nat)
  | writeChunk (chunk : List Byte)
  | publish
  | abort
  | logRequest (request : PersonalRequest)
  deriving DecidableEq

/-- What comes back. A read that fails gives no bytes; `async_read_some` gives at
least one. A path or a name that cannot be had is `none`. -/
abbrev Answer : Call → Type
  | .readExactly count => Option { bytes : List Byte // bytes.length = count }
  | .readSome limit => Option { bytes : List Byte // 0 < bytes.length ∧ bytes.length ≤ limit }
  | .allocateRequestData _ => Bool
  | .allocateMetadata _ => Bool
  | .send _ => Bool
  | .typedErrorsEnabled => Bool
  | .enableTypedErrors => Unit
  | .markTerminalErrorQueued => Unit
  | .credentials => Credentials
  | .authorize _ => Unit
  | .isLocalAdminPeer => Bool
  | .tryStartCommand => Bool
  | .finishCommand => Unit
  | .isArchiveMode => Bool
  | .execCommand _ _ => Except ErrorCode (List Byte)
  | .resolveFile _ _ => Handled Nat
  | .isAuthInitialized => Bool
  | .authenticate _ => Handled (List Byte)
  | .parseClientName _ => Option (List Byte)
  | .parseMetadata _ => Handled Metadata
  | .outputRoot _ => Bool
  | .planRaznTarget _ => Handled Unit
  | .planTlgTarget _ _ => Handled Unit
  | .prepare _ => Handled Unit
  | .writeChunk _ => Handled Unit
  | .publish => Handled (List Byte)
  | .abort => Unit
  | .logRequest _ => Unit

/-- A coroutine of the session. -/
abbrev Task := Coroutine Call Answer Thrown

/-- Make a call. -/
def ask (call : Call) : Task (Answer call) := Coroutine.call call

/-- `max_length`. -/
def maxLength : Nat := 64 * 1024

/-- `MAX_PAYLOAD`. -/
def maxPayload : Nat := 1000 * 1024 * 1024

/-- `kLegacyDiscardChunk`. -/
def legacyDiscardChunk : Nat := 64 * 1024

/-- `kMaxMetadataBytes`. -/
def maxMetadataBytes : Nat := 16 * 1024

/-- `streaming_upload::kChunkSize`. -/
def chunkSize : Nat := 64 * 1024

/-- `kWriteChannelCapacity`. -/
def writeChannelCapacity : Nat := 8

/-! ## Reading -/

/-- `async_read` that throws. -/
def receive (count : Nat) : Task (List Byte) := do
  match ← ask (.readExactly count) with
  | none => .raise .systemError
  | some bytes => return bytes.val

/-- `async_read_some` that throws. -/
def receiveSome (limit : Nat) : Task (List Byte) := do
  match ← ask (.readSome limit) with
  | none => .raise .systemError
  | some bytes => return bytes.val

/-- The loop that fills a buffer of `remaining` bytes; each round reads at least one. -/
def receiveAll : (rounds remaining : Nat) → Task (List Byte)
  | 0, _ => return []
  | rounds + 1, remaining =>
      if remaining = 0 then return [] else do
        let bytes ← receiveSome (min maxLength remaining)
        let rest ← receiveAll rounds (remaining - bytes.length)
        return bytes ++ rest

/-- The loop that drains a body through a fixed buffer; `drainOk`. -/
def drainBody : (rounds remaining : Nat) → Task Bool
  | 0, _ => return true
  | rounds + 1, remaining =>
      if remaining = 0 then return true else do
        match ← ask (.readExactly (min legacyDiscardChunk remaining)) with
        | none => return false
        | some _ => drainBody rounds (remaining - min legacyDiscardChunk remaining)

/-- The loop that fills one chunk of a file; nothing when a read brought nothing. -/
def receiveChunk : (rounds remaining : Nat) → Task (Option (List Byte))
  | 0, _ => return some []
  | rounds + 1, remaining =>
      if remaining = 0 then return some [] else do
        let bytes ← receiveSome remaining
        if bytes.length = 0 then return none
        match ← receiveChunk rounds (remaining - bytes.length) with
        | none => return none
        | some rest => return some (bytes ++ rest)

/-! ## Replies -/

/-- A handler that may throw. -/
def runHandler {Value : Type} : Handled Value → Task (Except ErrorCode Value)
  | .threw what => .raise (.exception what)
  | .failed error => return .error error
  | .succeeded value => return .ok value

/-- The error as typed or legacy clients see it. -/
def errorItem (typedResponse : Bool) (error : ErrorCode) (closeAfterWrite : Bool) : WriteItem :=
  if typedResponse then
    .errorWrite ⟨(makeTypedErrorResponse error).length, .errorResponse⟩
      (makeTypedErrorResponse error) closeAfterWrite
  else .errorWrite (makeLegacyErrorHeader error) [] closeAfterWrite

/-- `session::queueError`. -/
def queueError (error : ErrorCode) (closeAfterWrite : Bool) : Task Bool := do
  let typedResponse ← ask .typedErrorsEnabled
  let queued : Bool ← ask (.send (errorItem typedResponse error closeAfterWrite))
  if queued && closeAfterWrite then ask .markTerminalErrorQueued
  return queued

/-- `queueError` followed by `co_return result`. -/
def refuse {Result : Type} (error : ErrorCode) (closeAfterWrite : Bool) (result : Result) :
    Task Result := do
  let _ ← queueError error closeAfterWrite
  return result

/-- The escape of one byte in a JSON string. -/
def jsonEscape (byte : Byte) : List Byte :=
  match (byte : Nat) with
  | 34 => Word.ofAscii "\\\""
  | 92 => Word.ofAscii "\\\\"
  | 8 => Word.ofAscii "\\b"
  | 12 => Word.ofAscii "\\f"
  | 10 => Word.ofAscii "\\n"
  | 13 => Word.ofAscii "\\r"
  | 9 => Word.ofAscii "\\t"
  | code =>
      if code < 16 then Word.ofAscii "\\u000" ++ Word.ofAscii (String.ofList [code.digitChar])
      else if code < 32 then
        Word.ofAscii "\\u001" ++ Word.ofAscii (String.ofList [(code - 16).digitChar])
      else [byte]

/-- `makeReadyJson`; the keys of an object are written in their order. -/
def makeReadyJson : List Byte := Word.ofAscii "\x7b\"ready\":true,\"version\":1\x7d"

/-- `makeFinalJson`. -/
def makeFinalJson (savedName : List Byte) : List Byte :=
  Word.ofAscii "\x7b\"ok\":true,\"saved_name\":\"" ++ savedName.flatMap jsonEscape ++
    Word.ofAscii "\",\"version\":1\x7d"

/-- The item of `queueJsonResponse`. -/
def jsonItem (command : Command) (json : List Byte) : WriteItem :=
  .responseWrite ⟨json.length, command⟩ json

/-- `session::queueJsonResponse`. -/
def queueJsonResponse (command : Command) (json : List Byte) : Task Bool :=
  ask (.send (jsonItem command json))

/-! ## Streaming upload -/

/-- How the part of `handleStreamingUpload` up to `READY` ended. -/
inductive UploadStage where
  | refused
  | unsent
  | ready (metadata : Metadata)

/-- `planRaznTarget` or `planTlgTarget`. -/
def planTarget (command : Command) (operatorName : List Byte) (metadata : Metadata) :
    Task (Handled Unit) :=
  if command = .uploadRaznV1 then ask (.planRaznTarget metadata)
  else ask (.planTlgTarget operatorName metadata)

/-- Open the staging file and queue `READY`. -/
def openUpload (requestHeader : Header) (metadata : Metadata) : Task UploadStage := do
  match ← runHandler (← ask (.prepare metadata.fileSize)) with
  | .error error => refuse error false .refused
  | .ok _ => do
  let queued ← queueJsonResponse requestHeader.command makeReadyJson
  return if queued then .ready metadata else .unsent

/-- Read the metadata, plan the target and open it. -/
def prepareUpload (requestHeader : Header) : Task UploadStage := do
  if !(← ask (.allocateMetadata requestHeader.size)) then
    .raise (.exception "bad allocation".toList)
  else
  let metadataBytes ← receiveAll requestHeader.size requestHeader.size
  match ← runHandler (← ask (.parseMetadata metadataBytes)) with
  | .error error => refuse error false .refused
  | .ok metadata => do
  let operatorName := (← ask .credentials).userName
  if !(← ask (.outputRoot requestHeader.command)) then refuse .configurationError false .refused
  else
  match ← runHandler (← planTarget requestHeader.command operatorName metadata) with
  | .error error => refuse error false .refused
  | .ok _ => openUpload requestHeader metadata

/-- The loop that receives the file and writes it chunk by chunk. -/
def receiveFile : (rounds remaining : Nat) → Task Bool
  | 0, _ => return true
  | rounds + 1, remaining =>
      if remaining = 0 then return true else do
        match ← receiveChunk (min chunkSize remaining) (min chunkSize remaining) with
        | none => return false
        | some chunk =>
            match ← runHandler (← ask (.writeChunk chunk)) with
            | .error _ => return false
            | .ok _ => receiveFile rounds (remaining - min chunkSize remaining)

/-- Receive and publish the file; whether the upload was answered. -/
def completeUpload (requestHeader : Header) (metadata : Metadata) : Task Bool := do
  if !(← receiveFile metadata.fileSize metadata.fileSize) then return false
  else
  match ← runHandler (← ask .publish) with
  | .error error => refuse error false true
  | .ok savedName => do
  if !(← queueJsonResponse requestHeader.command (makeFinalJson savedName)) then return false
  else
  let userName := (← ask .credentials).userName
  ask (.logRequest ⟨userName, savedName, requestHeader.command⟩)
  return true

/-- `abortPrepared`, then `co_return false`. -/
def abortUpload : Task Bool := do
  ask .abort
  ask .finishCommand
  return false

/-- `session::handleStreamingUpload`; whether the session is kept. -/
def handleStreamingUpload (requestHeader : Header) : Task Bool := do
  if !trustCommand requestHeader then refuse .invalidCommand true false
  else
  let gate := evaluateSessionCommandGate requestHeader.command (← ask .credentials).authenticated
  if !gate.allowExecute then refuse .authRequired gate.closeAfterAuthRequired false
  else if maxMetadataBytes < requestHeader.size then refuse .payloadTooLarge true false
  else if !(← ask .tryStartCommand) then refuse .serverStopping true false
  else
  match ← (prepareUpload requestHeader).attempt with
  | .ok .refused =>
      ask .finishCommand
      return true
  | .ok .unsent => abortUpload
  | .error .systemError => abortUpload
  | .error (.exception what) =>
      let _ ← abortUpload
      if what = [] then return false
      else refuse .internalError false true
  | .ok (.ready metadata) =>
      match ← (completeUpload requestHeader metadata).attempt with
      | .ok true =>
          ask .finishCommand
          return true
      | .ok false => abortUpload
      | .error _ => abortUpload

/-! ## Commands -/

/-- What a command answers, and `enableTypedErrorsAfterResponse`. -/
structure Response where
  answer : List Byte
  enableTypedErrors : Bool

/-- `USER_REGISTRY`. -/
def registerUser (requestData : List Byte) : Task (Option Response) := do
  if !isLegacyAdminUserRegistryPayload requestData then refuse .authFailed true none
  else if !(← ask .isLocalAdminPeer) then refuse .authFailed true none
  else
  ask (.authorize ⟨adminName, true, true⟩)
  return some ⟨Word.ofAscii "OK", false⟩

/-- `client_name == "admin" && !isLocalAdminPeer()`. -/
def refusedAdmin (clientName : List Byte) : Task Bool :=
  if clientName = adminName then return !(← ask .isLocalAdminPeer) else return false

/-- `AUTHENTICATE_V1`. -/
def authenticateClient (requestData : List Byte) : Task (Option Response) := do
  if !(← ask .isAuthInitialized) then refuse .configurationError true none
  else
  match ← runHandler (← ask (.authenticate requestData)) with
  | .error error => refuse error true none
  | .ok payload => do
  match ← ask (.parseClientName payload) with
  | none => refuse .serializationFailed true none
  | some clientName => do
  if ← refusedAdmin clientName then refuse .authFailed true none
  else
  ask (.authorize ⟨clientName, true, clientName = adminName⟩)
  return some ⟨payload, false⟩

/-- `Interface::execCommand` and its answer. -/
def executeCommand (command : Command) (requestData : List Byte) : Task (Option Response) := do
  match ← ask (.execCommand command requestData) with
  | .error error => refuse error false none
  | .ok answer => return some ⟨answer, false⟩

/-- The commands that answer with a payload. -/
def answerCommand (command : Command) (requestData : List Byte) : Task (Option Response) :=
  if command = .negotiateProtocolV1 then return some ⟨protocolCapabilities, true⟩
  else if command = .userRegistry then registerUser requestData
  else if command = .authenticateV1 then authenticateClient requestData
  else executeCommand command requestData

/-- `async_send` that throws. -/
def sendResponse (item : WriteItem) : Task Unit := do
  let queued : Bool ← ask (.send item)
  if queued then return () else .raise .systemError

/-- The text that is logged for a request. -/
def loggedRequest (requestData : List Byte) : List Byte :=
  if requestData = [] then Word.ofAscii "EMPTY" else requestData

/-- The commands that answer with a file; the text to log once the reply is queued. -/
def transferFile (requestHeader : Header) (requestData : List Byte) :
    Task (Option (List Byte × Bool)) := do
  match ← runHandler (← ask (.resolveFile requestHeader.command requestData)) with
  | .error error => refuse error false none
  | .ok size => do
  sendResponse (.fileTransfer ⟨size, requestHeader.command⟩)
  return some (requestData, false)

/-- The commands that answer with a payload, and the reply. -/
def respondCommand (requestHeader : Header) (requestData : List Byte) :
    Task (Option (List Byte × Bool)) := do
  match ← answerCommand requestHeader.command requestData with
  | none => return none
  | some response => do
  sendResponse
    (.responseWrite ⟨response.answer.length, requestHeader.command⟩ response.answer)
  return some (loggedRequest requestData, response.enableTypedErrors)

/-- `commandExec` up to `responseQueued = true`; nothing when an error was queued instead. -/
def dispatchCommand (requestHeader : Header) (requestData : List Byte) :
    Task (Option (List Byte × Bool)) := do
  if requestHeader.command = .someError then refuse .invalidCommand false none
  else
  let credentials ← ask .credentials
  let gate := evaluateSessionCommandGate requestHeader.command credentials.authenticated
  if !gate.allowExecute then refuse .authRequired gate.closeAfterAuthRequired none
  else
  let archiveMode ← ask .isArchiveMode
  match archiveCommandRejection requestHeader.command archiveMode credentials.adminSession with
  | some rejection => refuse rejection false none
  | none =>
  if requestHeader.command = .getBinFile ∨ requestHeader.command = .fileText then
    refuse .invalidCommand false none
  else if requestHeader.command = .getSingleAtachment ∨ requestHeader.command = .getTelegaText ∨
      requestHeader.command = .getIshPdtvText then
    transferFile requestHeader requestData
  else respondCommand requestHeader requestData

/-- What follows the queued reply. -/
def finishResponse (requestHeader : Header) (request : List Byte) (enableTypedErrors : Bool) :
    Task Unit := do
  if enableTypedErrors then ask .enableTypedErrors
  let userName := (← ask .credentials).userName
  ask (.logRequest ⟨userName, request, requestHeader.command⟩)

/-- `session::commandExec`. Nothing after the reply throws, so the branch of the
source that only logs a late exception has nothing to catch. -/
def commandExec (requestHeader : Header) (requestData : List Byte) : Task Unit := do
  match ← (dispatchCommand requestHeader requestData).attempt with
  | .error _ => refuse .internalError false ()
  | .ok none => return ()
  | .ok (some (request, enableTypedErrors)) =>
      finishResponse requestHeader request enableTypedErrors

/-! ## The read loop -/

/-- A frame of the retired message queue: drained and refused. -/
def handleLegacyMessage (requestHeader : Header) (normalizedCommand : Command) : Task Bool := do
  let gate := evaluateSessionCommandGate normalizedCommand (← ask .credentials).authenticated
  if !gate.allowExecute then refuse .authRequired gate.closeAfterAuthRequired false
  else if !(← drainBody requestHeader.size requestHeader.size) then return false
  else refuse .invalidCommand false true

/-- A frame of `LOAD_TLG_TO_SEND` or `LOAD_RAZN`: drained and refused. -/
def handleLegacyUpload (requestHeader : Header) : Task Bool := do
  let legacyGate :=
    evaluateSessionCommandGate requestHeader.command (← ask .credentials).authenticated
  if !legacyGate.allowExecute then
    refuse .authRequired legacyGate.closeAfterAuthRequired false
  else if !(← ask .tryStartCommand) then refuse .serverStopping true false
  else
  let drainOk ← drainBody requestHeader.size requestHeader.size
  ask .finishCommand
  if !drainOk then return false
  else refuse .invalidCommand false true

/-- A frame whose body is read whole and given to `commandExec` on the pool. -/
def handleCommand (requestHeader : Header) : Task Bool := do
  if !(← ask (.allocateRequestData requestHeader.size)) then
    .raise (.exception "bad allocation".toList)
  else
  let requestData ← receiveAll requestHeader.size requestHeader.size
  if !(← ask .tryStartCommand) then refuse .serverStopping true false
  else
  let _ ← (commandExec requestHeader requestData).attempt
  ask .finishCommand
  return true

/-- One round of the loop of `session::readLoop`; whether it goes on. -/
def readFrame : Task Bool := do
  let requestHeader := Header.ofBytes (← receive Header.wireSize)
  if isStreamingUploadCommand requestHeader.command then handleStreamingUpload requestHeader
  else if maxPayload < requestHeader.size then refuse .payloadTooLarge true false
  else
  match disabledLegacyMessage requestHeader.command with
  | some normalizedCommand => handleLegacyMessage requestHeader normalizedCommand
  | none =>
  if !trustCommand requestHeader then refuse .invalidCommand true false
  else if requestHeader.command = .loadTlgToSend ∨ requestHeader.command = .loadRazn then
    handleLegacyUpload requestHeader
  else handleCommand requestHeader

end SearchEngine.Server
