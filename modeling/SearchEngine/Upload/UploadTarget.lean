import SearchEngine.Server.Protocol
import SearchEngine.Upload.FileNames

/-!
# Where an upload goes

The metadata of an upload names the file, the configuration the root, and the clock and
the client the folders between. The sink writes to a staging file in the planned folder
and moves it to the first name that is free.
-/

namespace SearchEngine.Upload

open Files Server

/-- `CommandResult::failure`. -/
structure Failure where
  error : ErrorCode
  diagnostic : String
  deriving DecidableEq

/-! ## Paths of std::filesystem -/

/-- What iterating over the path gives: an empty name at the end stands for the
separator that the path ends in. -/
def elements (path : Path) : List Path :=
  let rest := (splitRootName path).2
  let names := (rest.splitOnP isSeparator).filter (!·.isEmpty)
  (if (splitRootName path).1.isEmpty then [] else [(splitRootName path).1]) ++
    (if rest.head?.any isSeparator then [['\\']] else []) ++ names ++
    if !names.isEmpty && rest.getLast?.any isSeparator then [[]] else []

/-- What is left of two lists after the elements that they start with in common. -/
def afterCommon : List Path → List Path → List Path × List Path
  | left :: moreLeft, right :: moreRight =>
      if left = right then afterCommon moreLeft moreRight else (left :: moreLeft, right :: moreRight)
  | lefts, rights => (lefts, rights)

/-- A drive among the names makes a path that cannot be taken relative to another. -/
def containsRootName (path : Path) : Bool :=
  ((splitRootName path).2.splitOnP isSeparator).any fun name => !(splitRootName name).1.isEmpty

/-- The names that lead down from a base, less one for each `..`. -/
def depth : List Path → Int
  | [] => 0
  | name :: rest => (if name.isEmpty || isDot name then 0 else if isDotDot name then -1 else 1) + depth rest

/-- `lexically_relative`, as its elements. -/
def lexicallyRelative (path base : Path) : List Path :=
  if (splitRootName path).1 ≠ (splitRootName base).1 || isAbsolutePath path ≠ isAbsolutePath base ||
      (!(splitRootName path).2.head?.any isSeparator && (splitRootName base).2.head?.any isSeparator) ||
      containsRootName path || containsRootName base then []
  else
    let (down, up) := afterCommon (elements path) (elements base)
    if down.isEmpty && up.isEmpty then [['.']]
    else if depth up = 0 && down.head?.all (·.isEmpty) then [['.']]
    else if depth up < 0 then []
    else List.replicate (depth up).toNat ['.', '.'] ++ down

/-! ## StreamingUpload -/

/-- `compositionStaysUnderDirectory`. -/
def compositionStaysUnderDirectory (directory composed : Path) : Bool :=
  let root := lexicallyNormal directory
  let full := lexicallyNormal composed
  if root.isEmpty || full.isEmpty then false
  else if full = root then true
  else
    let relative := lexicallyRelative full root
    if relative.isEmpty || relative = [['.']] then full = root
    else !relative.any isDotDot

/-- A value of the JSON reader; what lies deeper than a member of an object is no matter. -/
inductive JsonMember where
  | string (text : Path)
  | integer (value : Int)
  | unsigned (value : Nat)
  | other

/-- The document that `nlohmann::json::parse` makes. An object keeps one member for each key. -/
inductive JsonDocument where
  | object (members : List (String × JsonMember))
  | other

/-- `Metadata`. -/
structure Metadata where
  version : Nat
  fileName : Path
  fileSize : Nat

def kProtocolVersion : Nat := 1

def kMaxMetadataBytes : Nat := 16 * 1024

/-- The number of an integer field that has to be unsigned. -/
def unsignedField (name : String) : JsonMember → Except Failure Nat
  | .unsigned value => .ok value
  | .integer value =>
      if value < 0 then .error ⟨.invalidRequest, name ++ " must be unsigned"⟩ else .ok value.toNat
  | _ => .error ⟨.invalidRequest, name ++ " must be an integer"⟩

variable (table : UpperCase)

/-- `parseMetadata`. -/
def parseMetadata (parse : List UInt8 → Except String JsonDocument) (bytes : List UInt8) : Except Failure Metadata :=
  if bytes.length > kMaxMetadataBytes then .error ⟨.payloadTooLarge, "metadata exceeds 16 KiB"⟩
  else
    match parse bytes with
    | .error text => .error ⟨.invalidJson, text⟩
    | .ok .other => .error ⟨.invalidRequest, "metadata must contain exactly version, file_name, file_size"⟩
    | .ok (.object members) =>
        if members.length ≠ 3 then
          .error ⟨.invalidRequest, "metadata must contain exactly version, file_name, file_size"⟩
        else
          match members.lookup "version", members.lookup "file_name", members.lookup "file_size" with
          | some version, some fileName, some fileSize => do
              let version ← unsignedField "version" version
              if version ≠ kProtocolVersion then
                .error ⟨.invalidRequest, "unsupported metadata version"⟩
              else
                match fileName with
                | .string fileName => do
                    let fileSize ← unsignedField "file_size" fileSize
                    if isSafeFileComponent table fileName then
                      .ok { version := kProtocolVersion, fileName, fileSize }
                    else .error ⟨.invalidRequest, "unsafe file_name"⟩
                | _ => .error ⟨.invalidRequest, "file_name must be a string"⟩
          | _, _, _ => .error ⟨.invalidRequest, "metadata missing required field"⟩

/-- `TimeParts`. -/
structure TimeParts where
  monthUpper : Path
  date : Path
  hhmm : Path

/-- `PlannedTarget`. -/
structure PlannedTarget where
  directory : Path
  baseName : Path
  deriving DecidableEq

/-- The answer to `CreateFileW` or `MoveFileExW`. -/
inductive FileAnswer where
  | done
  | occupied
  | failed (lastError : Nat)

/-- What the file system and the process say during one upload. -/
structure UploadDisk where
  ensureDirectoryExistsSafe : Path → Except Failure Unit
  processId : Nat
  /-- The clock at the name with this number. -/
  ticks : Nat → Nat
  /-- The number of the last name that the process gave. -/
  sequence : Nat
  createNew : Path → FileAnswer
  checkExistingFile : Path → Except Failure Unit
  flushes : Bool
  taken : Path → Bool
  moveFile : Path → Path → FileAnswer

variable (disk : UploadDisk)

/-- The walk of `ensureSafeDirectoryTree` over the names below the root. -/
def ensureBelow (current : Path) : List Path → Except Failure Unit
  | [] => .ok ()
  | part :: rest =>
      if part.isEmpty || isDot part || isDotDot part then
        .error ⟨.configurationError, "unsafe destination directory component"⟩
      else do
        disk.ensureDirectoryExistsSafe (joinPath current part)
        ensureBelow (joinPath current part) rest

/-- `ensureSafeDirectoryTree`. -/
def ensureSafeDirectoryTree (root directory : Path) : Except Failure Unit :=
  if !compositionStaysUnderDirectory root directory && lexicallyNormal directory ≠ lexicallyNormal root then
    .error ⟨.configurationError, "destination escapes configured root"⟩
  else do
    disk.ensureDirectoryExistsSafe (lexicallyNormal root)
    let relative := lexicallyRelative (lexicallyNormal directory) (lexicallyNormal root)
    if relative.isEmpty || relative = [['.']] then pure ()
    else ensureBelow disk (lexicallyNormal root) relative

/-- `planRaznTarget`. -/
def planRaznTarget (raznRoot : Path) (metadata : Metadata) : Except Failure PlannedTarget :=
  if raznRoot.isEmpty || !isAbsolutePath raznRoot then
    .error ⟨.configurationError, "razn_output_dir is missing or not absolute"⟩
  else if !isSafeFileComponent table metadata.fileName then .error ⟨.invalidRequest, "unsafe file_name"⟩
  else
    let directory := lexicallyNormal raznRoot
    if !compositionStaysUnderDirectory directory (joinPath directory metadata.fileName) then
      .error ⟨.configurationError, "RAZN destination escapes razn_output_dir"⟩
    else do
      ensureSafeDirectoryTree disk directory directory
      pure { directory, baseName := metadata.fileName }

/-- The folder of an operator: its name and the time. -/
def operatorFolder (operatorName : Path) (time : TimeParts) : Path := operatorName ++ '_' :: time.hhmm

/-- `planTlgTarget`. -/
def planTlgTarget (tlgRoot operatorName : Path) (metadata : Metadata) (time : TimeParts) :
    Except Failure PlannedTarget :=
  if tlgRoot.isEmpty || !isAbsolutePath tlgRoot then
    .error ⟨.configurationError, "tlg_send_root is missing or not absolute"⟩
  else if !isSafeFileComponent table operatorName then
    .error ⟨.operatorNotRegistered, "authenticated operator is not a safe directory component"⟩
  else if !isSafeFileComponent table metadata.fileName then .error ⟨.invalidRequest, "unsafe file_name"⟩
  else if time.monthUpper.isEmpty || time.date.isEmpty || time.hhmm.isEmpty then
    .error ⟨.internalError, "upload time parts are empty"⟩
  else if !isSafeFileComponent table time.monthUpper || !isSafeFileComponent table time.date then
    .error ⟨.internalError, "generated date folder is unsafe"⟩
  else if !isSafeFileComponent table (operatorFolder operatorName time) then
    .error ⟨.operatorNotRegistered, "operator time folder is not a safe directory component"⟩
  else
    let root := lexicallyNormal tlgRoot
    let directory := joinPath (joinPath (joinPath root time.monthUpper) time.date) (operatorFolder operatorName time)
    let composed := joinPath directory metadata.fileName
    if !compositionStaysUnderDirectory root directory || !compositionStaysUnderDirectory root composed then
      .error ⟨.configurationError, "TLG destination escapes tlg_send_root"⟩
    else do
      ensureSafeDirectoryTree disk root directory
      pure { directory, baseName := metadata.fileName }

/-! ## StreamingUploadSink -/

/-- `StreamingUploadSink`. -/
structure UploadSink where
  destinationDir : Path
  stagingPath : Path
  publishedPath : Path
  requestedFileName : Path
  savedName : Path
  advertisedSize : Nat
  bytesWritten : Nat
  prepared : Bool
  published : Bool

def stagingStart : Path := ".se-upload-".toList

def stagingEnd : Path := ".tmp".toList

/-- `nextStagingLeaf`, for the name with this number. -/
def stagingLeaf (number : Nat) : Path :=
  stagingStart ++ (Nat.toDigits 10 disk.processId ++ '-' :: (Nat.toDigits 10 (disk.ticks number) ++
    '-' :: (Nat.toDigits 10 number ++ stagingEnd)))

/-- The attempts of `prepare` at a staging file, with the number of the next name. -/
def chooseStaging (directory : Path) : Nat → Nat → Except Failure Path
  | 0, _ => .error ⟨.fileOpenFailed, "failed to choose unique staging name"⟩
  | attempts + 1, number =>
      let staging := joinPath directory (stagingLeaf disk number)
      if !compositionStaysUnderDirectory directory staging then
        .error ⟨.configurationError, "staging path escapes destination directory"⟩
      else
        match disk.createNew staging with
        | .done => .ok staging
        | .occupied => chooseStaging directory attempts (number + 1)
        | .failed lastError =>
            .error ⟨.fileOpenFailed, "failed to create staging file: " ++ toString lastError⟩

/-- `StreamingUploadSink::prepare`. -/
def prepare (target : PlannedTarget) (fileSize : Nat) : Except Failure UploadSink :=
  if target.directory.isEmpty || target.baseName.isEmpty then
    .error ⟨.internalError, "upload target is empty"⟩
  else if !isSafeFileComponent table target.baseName then .error ⟨.invalidRequest, "unsafe file_name"⟩
  else if !compositionStaysUnderDirectory target.directory (joinPath target.directory target.baseName) then
    .error ⟨.configurationError, "upload target escapes destination directory"⟩
  else do
    ensureSafeDirectoryTree disk target.directory target.directory
    let staging ← chooseStaging disk target.directory 256 (disk.sequence + 1)
    disk.checkExistingFile staging
    pure {
      destinationDir := target.directory, stagingPath := staging, publishedPath := [],
      requestedFileName := target.baseName, savedName := [], advertisedSize := fileSize,
      bytesWritten := 0, prepared := true, published := false }

/-- `StreamingUploadSink::writeChunk`, for a chunk of this size that `WriteFile` takes or not. -/
def writeChunk (sink : UploadSink) (size : Nat) (stored : Bool) : Except Failure UploadSink :=
  if !sink.prepared || sink.published then .error ⟨.internalError, "upload sink is not writable"⟩
  else if size = 0 then .ok sink
  else if sink.bytesWritten > sink.advertisedSize || size > sink.advertisedSize - sink.bytesWritten then
    .error ⟨.invalidRequest, "upload exceeded advertised file_size"⟩
  else if !stored then .error ⟨.fileWriteFailed, "staging WriteFile failed"⟩
  else .ok { sink with bytesWritten := sink.bytesWritten + size }

/-- The chunks of an upload one after the other. -/
def receive (sink : UploadSink) (chunks : List (Nat × Bool)) : Except Failure UploadSink :=
  chunks.foldlM (fun sink chunk => writeChunk sink chunk.1 chunk.2) sink

/-- The attempts of `publish` at a name, from the one with this index. -/
def chooseName (sink : UploadSink) : Nat → Nat → Except Failure UploadSink
  | 0, _ => .error ⟨.fileWriteFailed, "failed to choose a unique published name"⟩
  | attempts + 1, index =>
      let candidateName := suffixedFileName sink.requestedFileName index
      let dest := joinPath sink.destinationDir candidateName
      if !compositionStaysUnderDirectory sink.destinationDir dest then
        .error ⟨.configurationError, "publish candidate escapes destination directory"⟩
      else if disk.taken dest then chooseName sink attempts (index + 1)
      else
        match disk.moveFile sink.stagingPath dest with
        | .occupied => chooseName sink attempts (index + 1)
        | .failed lastError => .error ⟨.fileWriteFailed, "MoveFileExW failed: " ++ toString lastError⟩
        | .done => do
            disk.checkExistingFile dest
            pure { sink with
              savedName := candidateName, publishedPath := dest, stagingPath := [],
              prepared := false, published := true }

/-- `StreamingUploadSink::publish`. -/
def publish (sink : UploadSink) : Except Failure UploadSink :=
  if !sink.prepared || sink.published then .error ⟨.internalError, "upload sink is not ready to publish"⟩
  else if sink.bytesWritten ≠ sink.advertisedSize then
    .error ⟨.fileWriteFailed, "advertised file_size was not fully received"⟩
  else if !disk.flushes then .error ⟨.fileWriteFailed, "FlushFileBuffers failed"⟩
  else chooseName disk sink 100000 0

end SearchEngine.Upload
