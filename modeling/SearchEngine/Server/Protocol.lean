import SearchEngine.Index.PostingList

/-!
# The wire protocol of the server

A frame is a header of two 64-bit numbers, the size of its body and the command,
followed by the body. `Header.ofBytes` reads the 16 bytes as the little-endian
machine stores them; a number without a name is still a `COMMAND`.
-/

namespace SearchEngine.Server

open SearchEngine.Index

/-- `enum class COMMAND`: the named values 0 to 35 in their order, the marker of the
retired message queue, and every other 64-bit value. -/
inductive Command where
  | someError
  | soloRequest
  | fileText
  | jsonReguest
  | addResolution
  | update
  | getResolutions
  | getResolution
  | getDocs
  | getDoc
  | getSqlJsonAnswear
  | getBinFile
  | getVhTelegiFromSql
  | getIshTelegiFromSql
  | startUpdateBase
  | loadTlgToSend
  | getMessage
  | userRegistry
  | ping
  | getVhTelegaWay
  | getIshTelegaWay
  | getOpisBase
  | loadRazn
  | getAttachments
  | getIshPdtv
  | getTelegaAtachments
  | getSingleAtachment
  | serverBusyError
  | endCommand
  | errorResponse
  | negotiateProtocolV1
  | authenticateV1
  | getTelegaText
  | getIshPdtvText
  | uploadTlgToSendV1
  | uploadRaznV1
  | saveMessageTo
  | unnamed (value : Nat)
  deriving DecidableEq

namespace Command

/-- The marker of `SAVE_MESSAGE_TO`. -/
def saveMessageToValue : Nat := 2781032419

/-- The names of the values 0 to 35. -/
def named : List Command :=
  [.someError, .soloRequest, .fileText, .jsonReguest, .addResolution, .update, .getResolutions,
    .getResolution, .getDocs, .getDoc, .getSqlJsonAnswear, .getBinFile, .getVhTelegiFromSql,
    .getIshTelegiFromSql, .startUpdateBase, .loadTlgToSend, .getMessage, .userRegistry, .ping,
    .getVhTelegaWay, .getIshTelegaWay, .getOpisBase, .loadRazn, .getAttachments, .getIshPdtv,
    .getTelegaAtachments, .getSingleAtachment, .serverBusyError, .endCommand, .errorResponse,
    .negotiateProtocolV1, .authenticateV1, .getTelegaText, .getIshPdtvText, .uploadTlgToSendV1,
    .uploadRaznV1]

/-- `static_cast<COMMAND>(value)`. -/
def ofValue (value : Nat) : Command :=
  if value = saveMessageToValue then .saveMessageTo else named.getD value (.unnamed value)

/-- `static_cast<uint_fast64_t>(command)`. -/
def value : Command → Nat
  | saveMessageTo => saveMessageToValue
  | unnamed value => value
  | command => named.idxOf command

/-- A named value is read as its name. -/
theorem ofValue_value_of_named : ∀ command ∈ named, ofValue command.value = command := by
  decide +kernel

end Command

/-- `command_execution::ErrorCode`, numbered from 1 in this order. -/
inductive ErrorCode where
  | payloadTooLarge
  | invalidCommand
  | commandNotRegistered
  | serverBusy
  | serverStopping
  | invalidRequest
  | invalidJson
  | invalidBinaryPayload
  | fileNotFound
  | fileMetadataFailed
  | fileOpenFailed
  | fileReadFailed
  | fileWriteFailed
  | directoryCreateFailed
  | configurationError
  | databaseOpenFailed
  | databaseBusy
  | databaseQueryFailed
  | databaseSchemaFailed
  | serializationFailed
  | indexUnavailable
  | indexDataInconsistent
  | indexUpdateInProgress
  | indexUpdateFailed
  | operatorNotRegistered
  | attachmentNotFound
  | messageNotFound
  | messageSaveFailed
  | messageReadFailed
  | responseQueueFull
  | commandExecutionFailed
  | internalError
  | authFailed
  | authClientDisabled
  | authRequired
  | authClientIdMissing
  | authClientNameMissing
  | authDeviceTypeMissing
  | authDeviceIdMissing
  | authSignatureMissing
  | authClientIdNotFound
  | authClientNameMismatch
  | authDeviceTypeMismatch
  | authDeviceIdMismatch
  | authSignatureInvalid
  | dataSourceDisabled
  | dataSourceUnavailable
  | archiveAdminRequired
  deriving DecidableEq

/-- `static_cast<std::uint32_t>(error)`. -/
def ErrorCode.value (error : ErrorCode) : Nat := error.ctorIdx + 1

/-- A number in `width` bytes, lowest first. -/
def littleEndian : Nat → Nat → List Byte
  | 0, _ => []
  | width + 1, number => Byte.ofNat number :: littleEndian width (number / 256)

/-- The number that bytes, lowest first, stand for. -/
def ofLittleEndian : List Byte → Nat
  | [] => 0
  | byte :: rest => (byte : Nat) + 256 * ofLittleEndian rest

@[simp] theorem length_littleEndian (width number : Nat) :
    (littleEndian width number).length = width := by
  induction width generalizing number with
  | zero => rfl
  | succ width ih => rw [littleEndian, List.length_cons, ih]

/-- Writing and reading a number. -/
theorem ofLittleEndian_littleEndian (width number : Nat) :
    ofLittleEndian (littleEndian width number) = number % 256 ^ width := by
  induction width generalizing number with
  | zero => simp [littleEndian, ofLittleEndian, Nat.mod_one]
  | succ width ih =>
      have low : ((Byte.ofNat number : Byte) : Nat) = number % 256 := rfl
      rw [littleEndian, ofLittleEndian, ih, low, pow_succ', Nat.mod_mul]

/-- `Header`. -/
structure Header where
  size : Nat
  command : Command
  deriving DecidableEq

namespace Header

/-- `sizeof(Header)`. -/
def wireSize : Nat := 16

/-- `async_read` into a `Header`. -/
def ofBytes (bytes : List Byte) : Header where
  size := ofLittleEndian (bytes.take 8)
  command := Command.ofValue (ofLittleEndian (bytes.drop 8))

/-- The bytes of a header. -/
def bytes (header : Header) : List Byte :=
  littleEndian 8 header.size ++ littleEndian 8 header.command.value

/-- A header is read back as it was written. -/
theorem ofBytes_bytes {header : Header} (fits : header.size < 2 ^ 64)
    (known : header.command ∈ Command.named) : ofBytes header.bytes = header := by
  have size : ofLittleEndian (littleEndian 8 header.size) = header.size := by
    rw [ofLittleEndian_littleEndian]
    exact Nat.mod_eq_of_lt (by omega)
  have small : ∀ command ∈ Command.named, command.value < 256 ^ 8 := by decide +kernel
  have value : ofLittleEndian (littleEndian 8 header.command.value) = header.command.value := by
    rw [ofLittleEndian_littleEndian]
    exact Nat.mod_eq_of_lt (small header.command known)
  have front : header.bytes.take 8 = littleEndian 8 header.size := by
    rw [bytes, List.take_left' (length_littleEndian 8 header.size)]
  have back : header.bytes.drop 8 = littleEndian 8 header.command.value := by
    rw [bytes, List.drop_left' (length_littleEndian 8 header.size)]
  rw [ofBytes, front, back, size, value, Command.ofValue_value_of_named header.command known]

end Header

/-- `isRequestCommand`. -/
def isRequestCommand : Command → Bool
  | .soloRequest | .fileText | .getSqlJsonAnswear | .getBinFile | .getVhTelegiFromSql
  | .getIshTelegiFromSql | .startUpdateBase | .loadTlgToSend | .userRegistry | .ping
  | .getVhTelegaWay | .getIshTelegaWay | .getOpisBase | .loadRazn | .getAttachments
  | .getIshPdtv | .getTelegaAtachments | .getSingleAtachment | .getTelegaText
  | .getIshPdtvText | .uploadTlgToSendV1 | .uploadRaznV1 | .negotiateProtocolV1
  | .authenticateV1 => true
  | _ => false

/-- `isDisabledLegacyMessageWireCommand`; the normalized command when it is one. -/
def disabledLegacyMessage (rawCommand : Command) : Option Command :=
  if rawCommand = .getMessage then some .getMessage
  else if rawCommand = .saveMessageTo then some .saveMessageTo
  else if Command.ofValue (rawCommand.value >>> 32) = .saveMessageTo then some .saveMessageTo
  else none

/-- `isStreamingUploadCommand`. -/
def isStreamingUploadCommand : Command → Bool
  | .uploadTlgToSendV1 | .uploadRaznV1 => true
  | _ => false

/-- `isSessionBootstrapCommand`. -/
def isSessionBootstrapCommand : Command → Bool
  | .negotiateProtocolV1 | .userRegistry | .authenticateV1 | .ping => true
  | _ => false

/-- The bytes of `"admin"`. -/
def adminName : List Byte := Word.ofAscii "admin"

/-- `isLegacyAdminUserRegistryPayload`. -/
def isLegacyAdminUserRegistryPayload (payload : List Byte) : Bool := payload = adminName

/-- `SessionCommandGateDecision`. -/
structure SessionCommandGateDecision where
  allowExecute : Bool
  closeAfterAuthRequired : Bool

/-- `evaluateSessionCommandGate`. -/
def evaluateSessionCommandGate (command : Command) (authenticated : Bool) :
    SessionCommandGateDecision :=
  if isSessionBootstrapCommand command || authenticated then ⟨true, true⟩ else ⟨false, true⟩

/-- `archiveCommandRejection`. -/
def archiveCommandRejection (command : Command) (archiveMode adminSession : Bool) :
    Option ErrorCode :=
  if archiveMode && command = .startUpdateBase && !adminSession then some .archiveAdminRequired
  else none

/-- `session::trustCommand`. -/
def trustCommand (requestHeader : Header) : Bool :=
  if requestHeader.command = .negotiateProtocolV1 then requestHeader.size = 0
  else isRequestCommand requestHeader.command

/-- `legacyErrorCommand`. -/
def legacyErrorCommand (error : ErrorCode) : Command :=
  if error = .serverBusy then .serverBusyError else .someError

/-- `makeLegacyErrorHeader`. -/
def makeLegacyErrorHeader (error : ErrorCode) : Header := ⟨0, legacyErrorCommand error⟩

/-- The bytes of `makeTypedErrorResponse`: `ERROR_RESPONSE_VERSION` and the code. -/
def makeTypedErrorResponse (error : ErrorCode) : List Byte :=
  littleEndian 4 1 ++ littleEndian 4 error.value

/-- The bytes of `ProtocolCapabilitiesV1`: its version, and typed errors with client
authentication. -/
def protocolCapabilities : List Byte := littleEndian 4 1 ++ littleEndian 4 3

/-- The gate lets a command through that is a bootstrap command or comes from an
authenticated session. -/
theorem allowExecute_iff (command : Command) (authenticated : Bool) :
    (evaluateSessionCommandGate command authenticated).allowExecute = true ↔
      isSessionBootstrapCommand command = true ∨ authenticated = true := by
  rw [evaluateSessionCommandGate, ← Bool.or_eq_true]
  split <;> simp_all

end SearchEngine.Server
