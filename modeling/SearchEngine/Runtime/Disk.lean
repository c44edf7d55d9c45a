import Mathlib.Data.List.AList
import SearchEngine.Index.PostingList
import SearchEngine.Lib.Invocations

/-!
# The disk under a transaction

The files that the runtime and settings transactions touch, and the calls they
make. Every call may fail: an attribute query that fails reports a missing file,
and a write or a copy that fails leaves the beginning of its content. Renames are
atomic. The text of a JSON file is represented by the value it parses to.
-/

namespace SearchEngine.Runtime

open SearchEngine.Index (Byte)
open SearchEngine.Lib

abbrev Text := List Char

/-- The part of `nlohmann::json` that the manifests use. -/
inductive Json where
  | boolean (value : Bool)
  | integer (value : Int)
  | string (value : Text)
  | object (fields : List (String × Json))

/-- `contains` and `operator[]` of an object. -/
def Json.field? (name : String) : Json → Option Json
  | .object fields => (fields.find? fun field => field.1 == name).map Prod.snd
  | _ => none

/-- What a file holds. `torn` is the beginning of the text of a JSON value. -/
inductive Content where
  | bytes (data : List Byte)
  | json (value : Json)
  | torn (value : Json) (count : Nat)

def Content.take (count : Nat) : Content → Content
  | .bytes data => .bytes (data.take count)
  | .json value => .torn value count
  | .torn value before => .torn value (min before count)

inductive Node where
  | file (content : Content)
  | directory
  | reparse
  | other

inductive PathKind where
  | missing
  | file
  | directory
  | reparse
  | other
deriving DecidableEq

/-- `classifyPath` where `GetFileAttributesW` succeeds, or finds nothing. -/
def kindOf : Option Node → PathKind
  | none => .missing
  | some (.file _) => .file
  | some .directory => .directory
  | some .reparse => .reparse
  | some .other => .other

/-- `Settings.json`, `OEM866.INI` and `client-endpoint.txt`. -/
inductive ManagedFile where
  | settings
  | oem
  | endpoint
deriving DecidableEq

/-- The names in the data directory and in the rollback directory. -/
inductive FileName where
  | managed (file : ManagedFile)
  | ignore
  | logs
  | marker
  | phase
  | manifest
  | cfgMarker
  | cfgManifest
  | snapshot (file : ManagedFile)
  /-- `.se-rt-<process>-<tick count>-<sequence>` -/
  | staging (processId tickCount sequence : Nat)
  | other (name : Text)
deriving DecidableEq

inductive Place where
  | dataDir
  | packageData
  /-- `generatedSettings`, `packageOem`, `generatedEndpoint`; `settingsTemp`, `endpointTemp` -/
  | replacement (file : ManagedFile)
  | packageIgnore
  | rollbackDir
  | data (name : FileName)
  | rollback (name : FileName)
deriving DecidableEq

/-- A staging file of either directory. -/
def Place.isStaging : Place → Bool
  | .data (.staging _ _ _) => true
  | .rollback (.staging _ _ _) => true
  | _ => false

/-- What there is on the disk. -/
abbrev Disk := AList fun _ : Place => Node

/-- The directory a place is in, where the commands create files. -/
def Place.parent : Place → Option Place
  | .data _ => some .dataDir
  | .rollback _ => some .rollbackDir
  | _ => none

/-! ## Calls -/

/-- How a creation ends. -/
inductive Creation where
  | created
  | exists
  | failed
deriving DecidableEq

/-- How a write or a copy ends: with everything, or after some bytes. -/
inductive Transfer where
  | complete
  | partially (count : Nat)
deriving DecidableEq

/-- The calls of the transactions to the operating system. -/
inductive Call where
  | classify (place : Place)
  | openExisting (place : Place)
  | createNew (place : Place)
  | copy (source destination : Place)
  | write (place : Place) (content : Content)
  | move (source destination : Place)
  | delete (place : Place)
  | createDirectory (place : Place)
  | removeDirectory
  | list
  | read (place : Place)
  | stagingNumbers
  | transactionNumbers

/-- What comes back. -/
abbrev Answer : Call → Type
  | .classify _ => PathKind
  | .openExisting _ => Bool
  | .createNew _ => Creation
  | .copy _ _ => Transfer
  | .write _ _ => Transfer
  | .move _ _ => Bool
  | .delete _ => Bool
  | .createDirectory _ => Creation
  | .removeDirectory => Bool
  | .list => Option (List (FileName × PathKind))
  | .read _ => Option Content
  | .stagingNumbers => Nat × Nat × Nat
  | .transactionNumbers => Nat × Nat × Nat × Nat

/-- What the disk and the clock decide: whether a call succeeds, how much of a
transfer arrives otherwise, and process, tick count, sequence and counter. -/
structure Choice where
  succeeds : Bool
  count : Nat
  numbers : Nat × Nat × Nat × Nat

namespace Disk

/-- The parent of a place is a directory. -/
def parentExists (disk : Disk) (place : Place) : Bool :=
  match place.parent with
  | some parent => kindOf (disk.lookup parent) == .directory
  | none => true

/-- `FindFirstFileW` and `FindNextFileW` over the rollback directory. -/
def listing (disk : Disk) : List (FileName × PathKind) :=
  disk.entries.filterMap fun entry =>
    match entry.1 with
    | .rollback name => some (name, kindOf (some entry.2))
    | _ => none

def isFile (disk : Disk) (place : Place) : Bool := kindOf (disk.lookup place) == .file

/-- The content of a file. -/
def content? (disk : Disk) (place : Place) : Option Content :=
  match disk.lookup place with
  | some (.file content) => some content
  | _ => none

/-- The answer of a call. `classifyPath` takes every error for a missing file. -/
def respond (disk : Disk) (call : Call) (choice : Choice) : Answer call :=
  match call with
  | .classify place => if choice.succeeds then kindOf (disk.lookup place) else .missing
  | .openExisting place => choice.succeeds && disk.isFile place
  | .createNew place =>
      if !(choice.succeeds && disk.parentExists place) then Creation.failed
      else if kindOf (disk.lookup place) = .missing then .created else .exists
  | .copy _ _ => if choice.succeeds then Transfer.complete else .partially choice.count
  | .write _ _ => if choice.succeeds then Transfer.complete else .partially choice.count
  | .move source destination =>
      choice.succeeds && disk.isFile source && kindOf (disk.lookup destination) != .directory
  | .delete place => choice.succeeds && disk.isFile place
  | .createDirectory place =>
      if !(choice.succeeds && disk.parentExists place) then Creation.failed
      else if kindOf (disk.lookup place) = .missing then .created else .exists
  | .removeDirectory =>
      choice.succeeds && kindOf (disk.lookup .rollbackDir) == .directory && disk.listing.isEmpty
  | .list =>
      if choice.succeeds && kindOf (disk.lookup .rollbackDir) == .directory then some disk.listing
      else none
  | .read place => if choice.succeeds then disk.content? place else none
  | .stagingNumbers => (choice.numbers.1, choice.numbers.2.1, choice.numbers.2.2.1)
  | .transactionNumbers => choice.numbers

/-- An attribute query finds what is there: it succeeds, or there is nothing. -/
def Seen (disk : Disk) (place : Place) (choice : Choice) : Prop :=
  choice.succeeds = true ∨ kindOf (disk.lookup place) = .missing

instance (disk : Disk) (place : Place) (choice : Choice) : Decidable (disk.Seen place choice) :=
  inferInstanceAs (Decidable (_ ∨ _))

/-- What has arrived of a content. -/
def arrived (content : Content) : Transfer → Content
  | .complete => content
  | .partially count => content.take count

/-- The disk after a call. -/
def next (disk : Disk) : (call : Call) → Answer call → Disk
  | .createNew place, .created => disk.insert place (.file (.bytes []))
  | .copy source destination, transfer =>
      match disk.content? source with
      | some content => disk.insert destination (.file (arrived content transfer))
      | none => disk
  | .write place content, transfer => disk.insert place (.file (arrived content transfer))
  | .move source destination, true =>
      match disk.lookup source with
      | some node => (disk.erase source).insert destination node
      | none => disk
  | .delete place, true => disk.erase place
  | .createDirectory place, .created => disk.insert place .directory
  | .removeDirectory, true => disk.erase .rollbackDir
  | _, _ => disk

/-- The operating system as the transactions see it. -/
def handler : Handler Call Answer Disk Choice where
  respond := respond
  next := next

end Disk

/-- A program of a transaction; it throws the text of an exception. -/
abbrev Task := Coroutine Call Answer String

def ask (call : Call) : Task (Answer call) := Coroutine.call call

end SearchEngine.Runtime
