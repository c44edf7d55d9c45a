import Mathlib.Data.Char
import Mathlib.Data.List.Lex
import SearchEngine.Lib.Machine
import SearchEngine.Lib.SortedMap
import SearchEngine.Upload.UploadTarget

/-!
# Handing out the attachments of an operator

The command reads the directory of an operator file by file, removes the directory, and
then serializes what it read. Other processes write to the directory meanwhile. Each of
their changes, each entry that the iterator stands on and each removal is one action.
-/

namespace SearchEngine.Commands

open Files Lib Server Upload

/-- `PrefixMap`. -/
structure PrefixMap where
  prefixText : Path
  map_ : List (Path × Path)

/-- The code page of `path::string`. It never stands another character for one that it
lacks, so what it narrows is widened again. -/
structure CodePage where
  narrow : Path → Option (List UInt8)
  widen : List UInt8 → Path
  widen_narrow : ∀ {path text}, narrow path = some text → widen text = path

/-- `AttachmentPackage`. -/
abbrev AttachmentPackage := SortedMap Path (List UInt8)

/-- What `fs::status` says. -/
inductive StatusAnswer where
  | failed (noSuchFile : Bool) (text : String)
  | missing
  | directory
  | other

/-- What the command meets before it looks into the directory, and its libraries. -/
structure AttachmentSources where
  loadAttachmentConfiguration : Except String PrefixMap
  status : Path → StatusAnswer
  /-- The error of the iterator's constructor. -/
  iterationError : Option String
  codePage : CodePage
  serializeToBytes : AttachmentPackage → Except String (List UInt8)

/-- How a call ends: with a `CommandResult`, or with an exception. -/
inductive CallEnd where
  | success (payload : List UInt8)
  | failure (failure : Failure)
  | threw
  deriving DecidableEq

variable (sources : AttachmentSources)

/-- A failure with a path as its text. -/
def pathFailure (error : ErrorCode) (path : Path) : CallEnd :=
  if (sources.codePage.narrow path).isSome then .failure ⟨error, String.ofList path⟩ else .threw

/-- The directory that `executeResult` goes through. -/
def attachmentDirectory (data : List UInt8) : Except CallEnd Path :=
  if data.isEmpty || data.contains 0 then
    .error (.failure ⟨.invalidRequest, "operator name is empty or contains a null byte"⟩)
  else
    match sources.loadAttachmentConfiguration with
    | .error text => .error (.failure ⟨.configurationError, text⟩)
    | .ok configuration =>
        match configuration.map_.lookup (data.map fun byte => Char.ofNat byte.toNat) with
        | none => .error (.failure ⟨.operatorNotRegistered,
            "operator is not registered in attachment configuration"⟩)
        | some operatorPath =>
            let directory := configuration.prefixText ++ operatorPath
            if directory.isEmpty then
              .error (.failure ⟨.configurationError, "configured attachment directory is empty"⟩)
            else
              match sources.status directory with
              | .failed noSuchFile text =>
                  if noSuchFile then .error (pathFailure sources .attachmentNotFound directory)
                  else .error (.failure ⟨.fileMetadataFailed, text⟩)
              | .missing => .error (pathFailure sources .attachmentNotFound directory)
              | .other => .error (.failure ⟨.configurationError,
                  "configured attachment path is not a directory"⟩)
              | .directory =>
                  match sources.iterationError with
                  | some text => .error (.failure ⟨.fileOpenFailed, text⟩)
                  | none => .ok directory

inductive CallPhase where
  | iterating
  | deleting
  | deleted
  | finished (result : CallEnd)
  deriving DecidableEq

/-- A call and the files below its directory, by their relative paths. -/
structure AttachmentCall where
  directory : Path
  phase : CallPhase
  attachments : AttachmentPackage
  files : SortedMap Path (List UInt8)
  /-- The files that have been there since the iterator was made. -/
  steady : List Path
  visited : List Path
  /-- What the call removed. -/
  removed : List (Path × List UInt8)

/-- What the system says about an entry. -/
structure EntryAnswer where
  isRegularFile : Except String Bool
  isOpen : Bool
  /-- What the stream delivers. `istreambuf_iterator` leaves the state of the stream alone,
  so a read that breaks off is not `bad`. -/
  fileContent : List UInt8
  bad : Bool
  relativePath : Except String Path
  incrementError : Option String

/-- An action of another process, of the iterator or of the removal. -/
inductive AttachmentAction where
  | write (path : Path) (content : List UInt8)
  | erase (path : Path)
  | visit (path : Path) (answer : EntryAnswer)
  | enumerated
  | remove (path : Path)
  | directoryDeleted
  | deleteFailed
  | serialize

namespace AttachmentCall

/-- The call begins in a directory with these files. -/
def start (data : List UInt8) (files : SortedMap Path (List UInt8)) : AttachmentCall :=
  let (directory, phase) := match attachmentDirectory sources data with
    | .error result => ([], .finished result)
    | .ok directory => (directory, .iterating)
  { directory, phase, attachments := ∅, files, steady := files.keys, visited := [], removed := [] }

def finish (call : AttachmentCall) (result : CallEnd) : AttachmentCall :=
  { call with phase := .finished result }

/-- `entry.increment`. -/
def increment (call : AttachmentCall) (path : Path) (answer : EntryAnswer) : AttachmentCall :=
  match answer.incrementError with
  | some text => call.finish (.failure ⟨.fileReadFailed, text⟩)
  | none => { call with visited := path :: call.visited }

/-- The body of the loop. -/
def visit (call : AttachmentCall) (path : Path) (answer : EntryAnswer) : AttachmentCall :=
  match answer.isRegularFile with
  | .error text => call.finish (.failure ⟨.fileMetadataFailed, text⟩)
  | .ok false => call.increment path answer
  | .ok true =>
      if !answer.isOpen then call.finish (pathFailure sources .fileOpenFailed (joinPath call.directory path))
      else if answer.bad then call.finish (pathFailure sources .fileReadFailed (joinPath call.directory path))
      else
        match answer.relativePath with
        | .error text => call.finish (.failure ⟨.fileMetadataFailed, text⟩)
        | .ok relativePath =>
            match sources.codePage.narrow relativePath with
            | none => call.finish .threw
            | some text =>
                { call with
                  attachments := call.attachments.insert (sources.codePage.widen text) answer.fileContent
                }.increment path answer

/-- The end of the call. -/
def result (call : AttachmentCall) : CallEnd :=
  match sources.serializeToBytes call.attachments with
  | .ok payload => .success payload
  | .error text => .failure ⟨.serializationFailed, text⟩

/-- Membership among paths is decided name by name. -/
local instance decidableMemPaths (path : Path) (paths : List Path) : Decidable (path ∈ paths) :=
  decidable_of_iff (paths.any (· = path) = true) (by simp)

/-- One action. An iterator passes every file that was there all the time. -/
def step (call : AttachmentCall) : AttachmentAction → Option AttachmentCall
  | .write path content => some { call with files := call.files.insert path content }
  | .erase path =>
      some { call with files := call.files.erase path, steady := call.steady.filter (· ≠ path) }
  | .visit path answer => if call.phase = .iterating then some (call.visit sources path answer) else none
  | .enumerated =>
      if call.phase = .iterating ∧ ∀ path ∈ call.steady, path ∈ call.visited then
        some { call with phase := .deleting }
      else none
  | .remove path =>
      if call.phase = .deleting then
        (call.files.find? path).map fun content =>
          { call with files := call.files.erase path, removed := call.removed ++ [(path, content)] }
      else none
  | .directoryDeleted =>
      if call.phase = .deleting ∧ call.files.keys = [] then some { call with phase := .deleted } else none
  | .deleteFailed =>
      if call.phase = .deleting then
        -- the failure is logged with the path, and else passed over
        if (sources.codePage.narrow call.directory).isSome then some { call with phase := .deleted }
        else some (call.finish .threw)
      else none
  | .serialize => if call.phase = .deleted then some (call.finish (call.result sources)) else none

def machine : Machine AttachmentCall AttachmentAction := ⟨step sources⟩

end AttachmentCall

end SearchEngine.Commands
