import SearchEngine.Auth.AuthorityState
import SearchEngine.Runtime.Disk

/-!
# The re-issue of an authority

`RecoverAuthority` prepares a new key pair and the state signed with it in a pending
directory, marks them ready, replaces the active files one by one, and removes the
directory. Every file-system step may fail, a removal may leave any part of what it
was to remove, and a text file may be cut short unnoticed; a file that is replaced is
replaced at once. The text of a JSON document is represented by its value.
-/

namespace SearchEngine.Auth

open SearchEngine.Lib
open SearchEngine.Runtime (Json)

/-- The files of a key store and the state document. -/
inductive KeyFile where
  | publicKey
  | privateEnc
  | metaFile
  | state
deriving DecidableEq

/-- `fresh` files are in the pending directory, the three of the key store in its
`keys`; `active` files are those of the arguments. -/
inductive File where
  | preparing
  | ready
  | fresh (file : KeyFile)
  | active (file : KeyFile)
deriving DecidableEq

def File.isPending : File → Bool
  | .active _ => false
  | .preparing | .ready | .fresh _ => true

/-- In the directory `keys` of the pending directory. -/
def File.isFreshKey : File → Bool
  | .fresh .state | .preparing | .ready | .active _ => false
  | .fresh _ => true

inductive Content where
  | text (text : Text)
  | json (value : Json)
  | document (state : StateDocument)

abbrev Files := File → Option Content

inductive Folder where
  | parentOfKeys
  | pending
  | freshKeys
  | keystore
  | parentOfState
deriving DecidableEq

def File.folder : File → Folder
  | .active .state => .parentOfState
  | .active _ => .keystore
  | .preparing | .ready | .fresh .state => .pending
  | .fresh _ => .freshKeys

/-- The arguments. `pathRefusal` is the first check of the paths that fails. -/
structure RecoveryRequest where
  pathRefusal : Option String
  statePath : Text
  state : StateDocument
  password : Text

/-- The disk. `keys` and `temps` tell of the directory `keys` and the temporary files
in the pending directory. `base` are the files when the re-issue began, `committed`
the files each time that `ready.json` was written since. -/
structure Disk where
  files : Files
  pending : Bool
  keys : Bool
  temps : Nat
  base : Files
  committed : List Files

namespace Disk

/-- Nothing is in the pending directory. -/
def IsEmpty (disk : Disk) : Prop :=
  disk.keys = false ∧ disk.temps = 0 ∧ disk.files .preparing = none ∧ disk.files .ready = none ∧
    disk.files (.fresh .state) = none

instance (disk : Disk) : Decidable disk.IsEmpty :=
  decidable_of_iff (disk.keys = false ∧ disk.temps = 0 ∧ (disk.files .preparing).isNone = true ∧
    (disk.files .ready).isNone = true ∧ (disk.files (.fresh .state)).isNone = true) (by simp [IsEmpty])

/-- A file is written. -/
def put (disk : Disk) (file : File) (content : Content) : Disk :=
  { disk with files := Function.update disk.files file (some content) }

end Disk

/-! ## Calls -/

/-- What a removal that fails leaves. -/
structure Left where
  files : File → Bool
  keys : Bool
  temps : Nat

inductive Query where
  | readyExists
  | pendingExists
  | pendingIsDirectory
  | pendingIsEmpty
  | preparingIsRegular

/-- `private.pem`, `private.stub.raw`, `private.stub.enc` and `public.stub.pem`. -/
inductive LegacyFile where
  | privatePem
  | privateStubRaw
  | privateStubEnc
  | publicStubPem

inductive Call where
  | createDirectories (folder : Folder)
  | lock
  | query (query : Query)
  | removeAll
  | read (file : File)
  | createTemp (file : File)
  | writeTemp (file : File) (content : Content)
  | replace (file : File) (content : Content)
  | deleteTemp (file : File)
  | generate
  | writeText (file : KeyFile) (text : Text)
  | remove (file : LegacyFile)

variable (crypto : Crypto) (password : Text)

/-- Whether it succeeded; what was found, if the query succeeded; what a failing
removal left; what is in a file that can be opened; what of a text was written, if the
file could be opened. -/
abbrev Answer : Call → Type
  | .createDirectories _ | .lock | .createTemp _ | .writeTemp _ _ | .replace _ _ | .deleteTemp _ | .remove _ => Bool
  | .query _ => Option Bool
  | .removeAll => Option Left
  | .read _ => Option Content
  | .generate => Option (crypto.KeyTexts password)
  | .writeText _ _ => Option Text

/-- What the program cannot know. -/
structure Choice where
  fails : Bool
  left : Left
  /-- How much of a text reaches the file; `none` for all of it -/
  written : Option Nat
  texts : crypto.KeyTexts password

namespace Disk

def ask (disk : Disk) : Query → Bool
  | .readyExists => (disk.files .ready).isSome
  | .pendingExists => disk.pending
  | .pendingIsDirectory => disk.pending
  | .pendingIsEmpty => decide disk.IsEmpty
  | .preparingIsRegular => (disk.files .preparing).isSome

variable {crypto password}

def respond (disk : Disk) (call : Call) (choice : Choice crypto password) : Answer crypto password call :=
  match call with
  | .createDirectories _ | .lock | .createTemp _ | .writeTemp _ _ | .replace _ _ | .deleteTemp _ | .remove _ =>
      !choice.fails
  | .query query => if choice.fails then none else some (disk.ask query)
  | .removeAll => if choice.fails then some choice.left else none
  | .read file => if choice.fails then none else disk.files file
  | .generate => if choice.fails then none else some choice.texts
  | .writeText _ text =>
      if choice.fails then none
      else some (match choice.written with
        | none => text
        | some count => text.take count)

/-- The directory is created, and the pending directory around it. -/
def enter (disk : Disk) : Folder → Disk
  | .pending => { disk with pending := true }
  | .freshKeys => { disk with pending := true, keys := true }
  | .parentOfKeys | .keystore | .parentOfState => disk

/-- A call that finds no `ready.json` begins a re-issue, or begins it again. -/
def beginReissue (disk : Disk) : Disk :=
  if (disk.files .ready).isSome then disk else { disk with base := disk.files, committed := [] }

def removed (disk : Disk) : Disk :=
  { disk with
    files := fun file => if file.isPending then none else disk.files file
    pending := false
    keys := false
    temps := 0 }

def leftBy (disk : Disk) (left : Left) : Disk :=
  { disk with
    files := fun file =>
      if file.isPending && !(left.files file && (!file.isFreshKey || left.keys)) then none else disk.files file
    keys := disk.keys && left.keys
    temps := min disk.temps left.temps }

/-- One temporary file more, or one less. -/
def addTemp (disk : Disk) (file : File) : Disk :=
  if file.isPending then { disk with temps := disk.temps + 1 } else disk

def dropTemp (disk : Disk) (file : File) : Disk :=
  if file.isPending then { disk with temps := disk.temps - 1 } else disk

/-- The files with which `ready.json` appears are noted. -/
def commit (disk : Disk) : File → Disk
  | .ready => { disk with committed := disk.files :: disk.committed }
  | _ => disk

def next (disk : Disk) (call : Call) (answer : Answer crypto password call) : Disk :=
  match call, answer with
  | .createDirectories folder, true => disk.enter folder
  | .lock, true => disk.beginReissue
  | .removeAll, none => disk.removed
  | .removeAll, some left => disk.leftBy left
  | .createTemp file, true => disk.addTemp file
  | .replace file content, true => ((disk.put file content).dropTemp file).commit file
  | .deleteTemp file, true => disk.dropTemp file
  | .writeText file _, some written => disk.put (.fresh file) (.text written)
  | .createDirectories _, false | .lock, false | .createTemp _, false | .replace _ _, false
  | .deleteTemp _, false | .writeText _ _, none | .query _, _ | .read _, _ | .writeTemp _ _, _ | .generate, _
  | .remove _, _ => disk

def handler : Handler Call (Answer crypto password) Disk (Choice crypto password) where
  respond := respond
  next := next

end Disk

/-! ## Files -/

/-- `keystore.meta.json`. -/
def keystoreMeta : Json :=
  .object
    [("version", .integer 2),
      ("kty", .string "RSA".toList),
      ("bits", .integer 2048),
      ("private_protection", .string "PKCS8-AES-256-CBC".toList),
      ("public_file", .string "public.pem".toList),
      ("private_file", .string "private.enc.pem".toList),
      ("signature_alg", .string kSignatureAlg),
      ("note", .string
        "RSA-2048 keystore; tokens use RS256 over identity message; server verifies".toList)]

/-- `{"state_path": …}`. -/
def marker (statePath : Text) : Content := .json (.object [("state_path", .string statePath)])

/-- The bytes of a file; `dump` writes a JSON document. -/
def Content.bytes (dump : Content → Text) : Content → Text
  | .text written => written
  | .json value => dump (.json value)
  | .document state => dump (.document state)

/-- The programs of a call with this password. -/
abbrev Task := Coroutine Call (Answer crypto password) String

variable {crypto password}

def made (call : Call) : Task crypto password (Answer crypto password call) := Coroutine.call call

/-- What fails is thrown. -/
def must (step : Task crypto password Bool) (error : String) : Task crypto password Unit := do
  match ← step with
  | true => pure ()
  | false => .raise error

/-- A check that throws. -/
def lift {Result : Type} : Except String Result → Task crypto password Result
  | .ok result => .done result
  | .error error => .raise error

def ask (query : Query) : Task crypto password Bool := do
  match ← made (.query query) with
  | some found => pure found
  | none => .raise "filesystem_error"

def removePending : Task crypto password Unit := do
  match ← made .removeAll with
  | none => pure ()
  | some _ => .raise "filesystem_error"

section Files

variable (dump : Content → Text)

/-- `Bytes`; what was read is kept as it was written. -/
def readBytes (file : File) : Task crypto password Content := do
  match ← made (.read file) with
  | none => .raise "Cannot read recovery file"
  | some content => do
      lift (require (0 < (content.bytes dump).length && (content.bytes dump).length ≤ fileLimit)
        "Invalid recovery file size")
      pure content

/-- The temporary file is deleted. -/
def abandon (file : File) : Task crypto password Unit := do
  let _ ← made (.deleteTemp file)
  .raise "Cannot publish recovery file; repeat recovery to continue"

/-- `AtomicWrite`. -/
def atomicWrite (file : File) (content : Content) : Task crypto password Unit := do
  must (made (.createDirectories file.folder)) "filesystem_error"
  must (made (.createTemp file)) "Cannot create new recovery file"
  match ← made (.writeTemp file content) with
  | false => abandon file
  | true =>
      match ← made (.replace file content) with
      | false => abandon file
      | true => pure ()

/-- `WriteTextFile`; what `output << text` does not write goes unnoticed. -/
def writeTextFile (file : KeyFile) (text : Text) : Task crypto password Unit := do
  match ← made (.writeText file text) with
  | some _ => pure ()
  | none => .raise "cannot write"

/-- `GenerateKeyPair`. The removals of files with other names are left out: the
directory is new, and their errors are ignored. -/
def generateKeyPair : Task crypto password Unit := do
  lift (require (password ≠ []) "password must not be empty")
  must (made (.createDirectories .freshKeys)) "cannot create keystore directory"
  match ← made .generate with
  | none => .raise "EVP_PKEY_keygen failed"
  | some texts => do
      writeTextFile .publicKey texts.publicPem
      writeTextFile .privateEnc texts.privatePem
      writeTextFile .metaFile (dump (.json keystoreMeta))

/-- `UnlockPrivateKey` on the text of the file. -/
def unlock (crypto : Crypto) (password encrypted : Text) : Except String crypto.PrivateKey :=
  match crypto.readPrivate encrypted password with
  | none => .error "cannot decrypt private key (bad password or PEM)"
  | some key =>
      if crypto.isPrivateRsa2048 key then .ok key else .error "unlocked key is not RSA-2048"

def unlockPrivateKey : Task crypto password crypto.PrivateKey := do
  match ← made (.read (.fresh .privateEnc)) with
  | none => .raise "cannot read private key"
  | some content => lift (unlock crypto password (content.bytes dump))

/-- The value at `state_path`. -/
def statePathOf : Content → Except String Text
  | .json value =>
      match value.field? "state_path" with
      | some (.string path) => .ok path
      | _ => .error "json exception"
  | .text _ | .document _ => .error "json exception"

/-- `ReadRecoveryDocument` of a marker. -/
def readMarker (file : File) : Task crypto password Text := do
  let content ← readBytes dump file
  lift (statePathOf content)

def stateOf : Content → Except String StateDocument
  | .document state => .ok state
  | .json _ | .text _ => .error "json exception"

end Files

/-! ## RecoverAuthority -/

section Program

variable (dump : Content → Text) (request : RecoveryRequest)

/-- An earlier preparation is removed if it is this recovery's own. -/
def clearPending : Task crypto request.password Unit := do
  if ← ask .pendingExists then
    if !(← ask .pendingIsDirectory) then .raise "Pending recovery path is not a directory"
    else if ← ask .pendingIsEmpty then removePending
    else if ← ask .preparingIsRegular then do
      let path ← readMarker dump .preparing
      lift (require (path = request.statePath)
        "Pending directory is not owned by this recovery; nothing was deleted")
      removePending
    else .raise "Pending directory is not owned by this recovery; nothing was deleted"
  else pure ()

/-- The block that prepares the new keys and the new state. -/
def prepare : Task crypto request.password Unit := do
  atomicWrite .preparing (marker request.statePath)
  generateKeyPair dump
  let privateKey ← unlockPrivateKey dump
  let pem ← readBytes dump (.fresh .publicKey)
  let next ← lift (nextState (crypto.signTokenPayload privateKey) request.state
    (crypto.fingerprint (pem.bytes dump)))
  atomicWrite (.fresh .state) (.document next)
  atomicWrite .ready (marker request.statePath)

/-- `catch (...)`. -/
def discard (thrown : String) : Task crypto request.password Unit := do
  if ← ask .readyExists then .raise thrown
  else do
    removePending
    .raise thrown

def keyCheck : Text := "searchengine-recovery-key-check".toList

/-- The checks of the prepared keys and the prepared state. -/
def checkPrepared : Task crypto request.password (Content × StateDocument) := do
  let path ← readMarker dump .ready
  lift (require (path = request.statePath) "Pending recovery belongs to another authority state")
  let content ← readBytes dump (.fresh .state)
  let next ← lift (stateOf content)
  lift (validateState next)
  let privateKey ← unlockPrivateKey dump
  let pem ← readBytes dump (.fresh .publicKey)
  lift (require (crypto.verifyTokenSignature keyCheck (crypto.signTokenPayload privateKey keyCheck).value
    (pem.bytes dump)) "New key pair does not match")
  lift (verifyState crypto (pem.bytes dump) next)
  pure (pem, next)

def removeLegacy : List LegacyFile → Task crypto request.password Unit
  | [] => pure ()
  | file :: rest => do
      must (made (.remove file)) "filesystem_error"
      removeLegacy rest

/-- The active files are replaced one by one. -/
def publish (pem : Content) (next : StateDocument) : Task crypto request.password Unit := do
  atomicWrite (.active .publicKey) pem
  let encrypted ← readBytes dump (.fresh .privateEnc)
  atomicWrite (.active .privateEnc) encrypted
  let meta' ← readBytes dump (.fresh .metaFile)
  atomicWrite (.active .metaFile) meta'
  removeLegacy request [.privatePem, .privateStubRaw, .privateStubEnc, .publicStubPem]
  atomicWrite (.active .state) (.document next)

def finish : Task crypto request.password Unit := do
  let (pem, next) ← checkPrepared dump request
  publish dump request pem next
  removePending

def recoverAuthority : Task crypto request.password Unit := do
  match request.pathRefusal with
  | some error => .raise error
  | none => do
      must (made (.createDirectories .parentOfKeys)) "filesystem_error"
      must (made .lock) "Another recovery is already running"
      if ← ask .readyExists then finish dump request
      else do
        lift (validateState request.state)
        lift (require (request.password ≠ []) "New password must not be empty")
        clearPending dump request
        match ← (prepare dump request).attempt with
        | .ok () => finish dump request
        | .error thrown => do
            discard request thrown
            finish dump request

end Program

end SearchEngine.Auth
