import SearchEngine.Upload.UploadTarget

/-!
# Files of a telegram

A client asks for an attachment or for the text of a telegram by its number and kind.
The archive row names the directory; the file in it is named by the row, or by the
request and advertised by the row. Texts are Unicode characters.
-/

namespace SearchEngine.Commands

open Files Server Upload

/-- `Telega::TYPE`, as far as a request can name it. -/
inductive TelegramType where
  | vhod
  | ishod
  deriving DecidableEq

/-- `TelegramArchiveRecord`. -/
structure TelegramArchiveRecord where
  prilName : Path
  directTo : Path
  fileName : Path
  deriving DecidableEq

/-- A row as `queryRows` returns it: the text of each column. -/
abbrev Row := List (String × Path)

/-- What Windows says about a path. -/
inductive AttributesAnswer where
  | missing
  | failed (lastError : Nat)
  | found (reparsePoint directory : Bool)

/-- The archive databases and the disk during one request. -/
structure TelegramSources where
  isSourceConfigured : TelegramType → Bool
  ensureBasesLoaded : TelegramType → Except Failure Unit
  bases : TelegramType → List Path
  /-- The rows of the base with this number in their column `index`. -/
  queryRows : Path → Nat → Except Failure (List Row)
  attributes : Path → AttributesAnswer
  /-- The size of the stream, if the file opens and its end is found. -/
  opens : Path → Bool
  endOffset : Path → Option Nat

/-- `ResolvedTelegramFile`. -/
structure ResolvedTelegramFile where
  path : Path
  size : Nat

def kForbiddenFilesystemKeys : List String := ["path", "dir", "DirectTo", "FileName", "remotePath"]

/-- `request.contains(key)`. -/
def member (request : JsonDocument) (key : String) : Option JsonMember :=
  match request with
  | .object members => members.lookup key
  | .other => none

/-- `jsonContainsForbiddenFilesystemField`. -/
def jsonContainsForbiddenFilesystemField (request : JsonDocument) : Bool :=
  kForbiddenFilesystemKeys.any fun key => (member request key).isSome

/-- `get<std::int64_t>` of an integer. -/
def wireInteger : JsonMember → Option Int
  | .integer value => some value
  | .unsigned value => some (BitVec.ofNat 64 value).toInt
  | _ => none

/-- `parseTelegramIdType`. -/
def parseTelegramIdType (request : JsonDocument) : Except String (Nat × TelegramType) :=
  match (member request "id").bind wireInteger, (member request "type").bind wireInteger with
  | some wireId, some wireType =>
      if wireId < 0 ∨ wireId > 2147483647 then .error "id or type is outside the supported range"
      else if wireType = 0 then .ok (wireId.toNat, .vhod)
      else if wireType = 1 then .ok (wireId.toNat, .ishod)
      else .error "id or type is outside the supported range"
  | _, _ => .error "request requires integer id and type"

/-- `has_root_name`, `has_root_directory` and `has_root_path`. -/
def hasRootName (path : Path) : Bool := !(splitRootName path).1.isEmpty

def hasRootDirectory (path : Path) : Bool := (splitRootName path).2.head?.any isSeparator

def hasRootPath (path : Path) : Bool := hasRootName path || hasRootDirectory path

/-- `isValidAttachmentBaseName`. -/
def isValidAttachmentBaseName (name : Path) : Bool :=
  if name.isEmpty || name = ['.'] || name = ['.', '.'] then false
  else if name.contains '/' || name.contains '\\' || name.contains ':' || name.contains '\x00' then false
  else !(isAbsolutePath name || hasRootPath name || hasRootName name || hasRootDirectory name ||
    !(parentPath name).isEmpty || filename name ≠ name)

/-- The items that `std::getline` reads from a list with semicolons. -/
def advertisedNames (prilName : Path) : List Path :=
  let items := prilName.splitOnP (· == ';')
  if items.getLast?.all (·.isEmpty) then items.dropLast else items

/-- `isAdvertisedAttachmentName`. -/
def isAdvertisedAttachmentName (type : TelegramType) (telegramId : Nat) (prilName fileName : Path) :
    Bool :=
  match type with
  | .vhod => (advertisedNames prilName).contains fileName
  | .ishod => fileName = Nat.toDigits 10 telegramId ++ ['.', 'z', 'i', 'p']

/-- `dbFileNameEscapesDirectory`. -/
def dbFileNameEscapesDirectory (fileName : Path) : Bool :=
  fileName.isEmpty || isAbsolutePath fileName || hasRootPath fileName || hasRootName fileName ||
    hasRootDirectory fileName

/-- `compositionStaysUnderDirectory`: unlike that of an upload, the directory itself is not
under it. -/
def staysUnderDirectory (directory composed : Path) : Bool :=
  let root := lexicallyNormal directory
  let full := lexicallyNormal composed
  if root.isEmpty || full.isEmpty then false
  else
    let relative := lexicallyRelative full root
    if relative.isEmpty || relative = [['.']] then false else !relative.any isDotDot

variable (sources : TelegramSources)

/-- `openTelegramFile`. -/
def openTelegramFile (directory name : Path) (missingFileError : ErrorCode) :
    Except Failure ResolvedTelegramFile :=
  if directory.isEmpty then .error ⟨.databaseSchemaFailed, "archive row has empty DirectTo"⟩
  else if name.isEmpty then .error ⟨.databaseSchemaFailed, "archive row has empty FileName"⟩
  else
    let composed := joinPath directory name
    if !staysUnderDirectory directory composed then
      .error ⟨.databaseSchemaFailed, "archive FileName escapes DirectTo"⟩
    else
      match sources.attributes composed with
      | .missing => .error ⟨missingFileError, String.ofList composed⟩
      | .failed lastError =>
          .error ⟨.fileMetadataFailed, "GetFileAttributesW failed: " ++ toString lastError⟩
      | .found reparsePoint directory =>
          if reparsePoint then .error ⟨.fileOpenFailed, "telegram file is a reparse point"⟩
          else if directory then .error ⟨.fileOpenFailed, "telegram path is not a regular file"⟩
          else if !sources.opens composed then .error ⟨.fileOpenFailed, String.ofList composed⟩
          else
            match sources.endOffset composed with
            | none => .error ⟨.fileMetadataFailed, String.ofList composed⟩
            | some size => .ok ⟨composed, size⟩

/-- The record of the first base that has rows with this number. -/
def lookupIn (telegramId : Nat) : List Path → Except Failure (Option TelegramArchiveRecord)
  | [] => .ok none
  | baseName :: rest =>
      match sources.queryRows baseName telegramId with
      | .error failure => .error failure
      | .ok [] => lookupIn telegramId rest
      | .ok (row :: _) =>
          match row.lookup "PrilName", row.lookup "DirectTo", row.lookup "FileName" with
          | some prilName, some directTo, some fileName => .ok (some ⟨prilName, directTo, fileName⟩)
          | _, _, _ => .error ⟨.databaseSchemaFailed,
              "archive row has no PrilName, DirectTo, or FileName column"⟩

/-- `lookupTelegramArchive`. -/
def lookupTelegramArchive (telegramId : Nat) (type : TelegramType) :
    Except Failure (Option TelegramArchiveRecord) :=
  lookupIn sources telegramId (sources.bases type)

variable (parse : List UInt8 → Except String JsonDocument)

/-- `resolveAttachment`. -/
def resolveAttachment (request : List UInt8) : Except Failure ResolvedTelegramFile :=
  match parse request with
  | .error text => .error ⟨.invalidJson, text⟩
  | .ok jsonRequest =>
      if jsonContainsForbiddenFilesystemField jsonRequest then
        .error ⟨.invalidRequest, "attachment request must not contain a server filesystem path"⟩
      else
        match parseTelegramIdType jsonRequest with
        | .error diagnostic => .error ⟨.invalidRequest, diagnostic⟩
        | .ok (telegramId, telegramType) =>
            match member jsonRequest "file_name" with
            | some (.string fileName) =>
                if !isValidAttachmentBaseName fileName then
                  .error ⟨.invalidRequest, "file_name must contain only an attachment basename"⟩
                else if !sources.isSourceConfigured telegramType then
                  .error ⟨.attachmentNotFound, "telegram has no attachments"⟩
                else do
                  sources.ensureBasesLoaded telegramType
                  match ← lookupTelegramArchive sources telegramId telegramType with
                  | none => .error ⟨.attachmentNotFound, "telegram has no attachments"⟩
                  | some record =>
                      if record.prilName.isEmpty then
                        .error ⟨.attachmentNotFound, "telegram has no attachments"⟩
                      else if !isAdvertisedAttachmentName telegramType telegramId record.prilName
                          fileName then
                        .error ⟨.attachmentNotFound, "requested file is not advertised by the telegram"⟩
                      else openTelegramFile sources record.directTo fileName .attachmentNotFound
            | _ => .error ⟨.invalidRequest,
                "single attachment request requires integer id/type and file_name"⟩

/-- `resolveText`. -/
def resolveText (request : List UInt8) : Except Failure ResolvedTelegramFile :=
  match parse request with
  | .error text => .error ⟨.invalidJson, text⟩
  | .ok jsonRequest =>
      if jsonContainsForbiddenFilesystemField jsonRequest then
        .error ⟨.invalidRequest, "text request must not contain a server filesystem path"⟩
      else
        match parseTelegramIdType jsonRequest with
        | .error diagnostic => .error ⟨.invalidRequest, diagnostic⟩
        | .ok (telegramId, telegramType) => do
            sources.ensureBasesLoaded telegramType
            match ← lookupTelegramArchive sources telegramId telegramType with
            | none => .error ⟨.fileNotFound, "telegram archive row was not found"⟩
            | some record =>
                if record.directTo.isEmpty || record.fileName.isEmpty then
                  .error ⟨.databaseSchemaFailed, "archive row has empty DirectTo or FileName"⟩
                else if dbFileNameEscapesDirectory record.fileName then
                  .error ⟨.databaseSchemaFailed, "archive FileName is absolute or rooted"⟩
                else openTelegramFile sources record.directTo record.fileName .fileNotFound

end SearchEngine.Commands
