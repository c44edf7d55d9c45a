import Mathlib.Algebra.Order.Ring.Nat
import Mathlib.Data.Char
import Mathlib.Data.List.Lex
import Mathlib.Data.List.Sort
import SearchEngine.Lib.FileTree

/-!
# Merging a restored tree

`publishMergedTree` moves the files of a staging tree into a target tree. It creates the
directories first, then moves each file or drops it where the target already has it, and
removes what is left of the staging tree. Every step of the file system may fail. Names are
those that the file system tells apart, contents are what SHA-256 tells apart. Reparse points
are entries of a tree like files; most queries follow them.
-/

namespace SearchEngine.Archive

open SearchEngine.Lib

universe u

/-- A file name. -/
abbrev Name := List Char

/-- The names below the root of a tree. -/
abbrev RelativePath := List Name

/-- The directory iterators: every entry below the root comes once, in some order. -/
structure DirectoryWalk (Content : Type u) where
  list : FileTree Name Content → List RelativePath
  nodup : ∀ tree, (list tree).Nodup
  complete : ∀ tree path, path ∈ list tree ↔ path ≠ [] ∧ (tree.node path).isSome

/-- What an entry is that is neither a directory nor a regular file. -/
inductive Entry (Content : Type u) where
  | special
  /-- a reparse point; it may lead to a file -/
  | fileLink (content : Option Content)
  /-- a reparse point of a directory; it may lead to one -/
  | directoryLink (leads : Bool)

/-- What the paths lead to that follow the reparse points of a tree, when a merge begins. -/
structure Links (Content : Type u) where
  /-- The path of the root is that of a reparse point; the tree is the one it leads to. -/
  root : Bool
  entry : RelativePath → Entry Content
  /-- The places behind the links to directories. -/
  beyond : RelativePath → Option (Node Content)

/-- The steps of a merge that may fail. `attributes` stands for `GetFileAttributesW`. -/
inductive MergeStep where
  | inspectStaging
  | inspectTarget
  | stagingAttributes (path : RelativePath)
  | targetAttributes (path : RelativePath)
  | iterateStaging
  | inspectDirectory (path : RelativePath)
  | createDirectory (path : RelativePath)
  | inspectFile (path : RelativePath)
  | hashFile (path : RelativePath)
  | removeDuplicate (path : RelativePath)
  | rename (path : RelativePath)
  | inspectRoot
  | iterateDirectories
  | removeDirectory (path : RelativePath)
deriving DecidableEq

/-- A thrown error: what it says and about which place. -/
structure MergeError where
  message : String
  path : RelativePath
deriving DecidableEq

/-- The staging tree and the target tree. -/
structure MergeTrees (Content : Type u) where
  staging : FileTree Name Content
  target : FileTree Name Content

variable {Content : Type u}

/-- Which directories cannot be created. -/
def failsToCreate (fails : MergeStep → Bool) (path : RelativePath) : Bool := fails (.createDirectory path)

/-! ## Following links -/

/-- What `status` finds at an entry. -/
def Entry.seen : Entry Content → Option (Node Content)
  | special => some .other
  | fileLink content => content.map .file
  | directoryLink leads => if leads then some .directory else none

def Entry.isLink : Entry Content → Bool
  | special => false
  | fileLink _ | directoryLink _ => true

/-- The place lies behind a link to a directory. -/
def Links.isBeyond (links : Links Content) (tree : FileTree Name Content) (path : RelativePath) : Bool :=
  path.dropLast.inits.any fun front => (tree.node front).any Node.isOther && (links.entry front).isLink

/-- What `exists`, `is_directory` and `is_regular_file` find at a place. -/
def Links.status (links : Links Content) (tree : FileTree Name Content) (path : RelativePath) : Option (Node Content) :=
  match tree.node path with
  | some .other => (links.entry path).seen
  | some node => some node
  | none => if links.isBeyond tree path then links.beyond path else none

/-- `isReparsePoint`; `unread` tells that the attributes cannot be read. -/
def Links.isReparsePoint (links : Links Content) (tree : FileTree Name Content) (path : RelativePath) (unread : Bool) :
    Bool :=
  !unread && (if path = [] then links.root else (tree.node path).any Node.isOther && (links.entry path).isLink)

/-- The links of both trees. -/
structure MergeLinks (Content : Type u) where
  staging : Links Content
  target : Links Content

/-! ## publishMergedTree -/

/-- `fs::create_directories` for a directory of the staging tree; behind a link nothing of the
target changes. -/
def createTargetDirectories (links : Links Content) (fails : MergeStep → Bool) (target : FileTree Name Content)
    (directory : RelativePath) : FileTree Name Content × Bool :=
  if links.isBeyond target directory then (target, !fails (.createDirectory directory))
  else if (target.node directory).any Node.isOther then
    (target, (links.entry directory).seen.any Node.isDirectory && !fails (.createDirectory directory))
  else target.createDirectories (failsToCreate fails) [] directory

/-- The loop over the directories of the staging tree. -/
def mergeDirectories (links : MergeLinks Content) (fails : MergeStep → Bool) :
    List RelativePath → MergeTrees Content → MergeTrees Content × Option MergeError
  | [], trees => (trees, none)
  | directory :: rest, trees =>
      let reparse := links.target.isReparsePoint trees.target directory (fails (.targetAttributes directory))
      if fails (.inspectDirectory directory) then (trees, some ⟨"filesystem_error", directory⟩)
      else if (links.target.status trees.target directory).any (fun node => !node.isDirectory || reparse) then
        (trees, some ⟨"restore merge directory already differs: ", directory⟩)
      else
        match createTargetDirectories links.target fails trees.target directory with
        | (target, false) => (⟨trees.staging, target⟩, some ⟨"filesystem_error", directory⟩)
        | (target, true) => mergeDirectories links fails rest ⟨trees.staging, target⟩

/-- What `fs::rename` makes of the target: behind a link nothing of it changes, and a link to a
file is replaced, unlike one to a directory. -/
def putStaged (links : Links Content) (target : FileTree Name Content) (file : RelativePath)
    (staged : Node Content) : Option (FileTree Name Content) :=
  match target.node file with
  | none => if links.isBeyond target file then some target else target.create file staged
  | some .other =>
      match links.entry file, staged with
      | .fileLink _, .file content => target.overwrite file content
      | .fileLink _, _ => some target
      | .special, _ | .directoryLink _, _ => none
  | some _ => none

/-- `fs::rename` of a staged file. -/
def renameFile (links : MergeLinks Content) (fails : MergeStep → Bool) (trees : MergeTrees Content) (file : RelativePath)
    (staged : Node Content) : MergeTrees Content × Option MergeError :=
  if fails (.rename file) then (trees, some ⟨"cannot publish restored file: ", file⟩)
  else
    match putStaged links.target trees.target file staged, trees.staging.remove file with
    | some target, some staging => (⟨staging, target⟩, none)
    | _, _ => (trees, some ⟨"cannot publish restored file: ", file⟩)

/-- A staged file that the target has as well. -/
def dropDuplicate (fails : MergeStep → Bool) (trees : MergeTrees Content) (file : RelativePath) :
    MergeTrees Content × Option MergeError :=
  if fails (.removeDuplicate file) then (trees, some ⟨"cannot remove duplicate restore staging file: ", file⟩)
  else
    match trees.staging.remove file with
    | some staging => (⟨staging, trees.target⟩, none)
    | none => (trees, some ⟨"cannot remove duplicate restore staging file: ", file⟩)

/-- The removals of `removeEmptyDirectoryTree`. -/
def removeDirectories (fails : MergeStep → Bool) (message : String) :
    List RelativePath → FileTree Name Content → FileTree Name Content × Option MergeError
  | [], tree => (tree, none)
  | directory :: rest, tree =>
      if fails (.removeDirectory directory) then (tree, some ⟨message, directory⟩)
      else
        match tree.remove directory with
        | none => (tree, some ⟨message, directory⟩)
        | some next => removeDirectories fails message rest next

/-- How long the text of a path is, over that of its root. -/
def textLength (path : RelativePath) : Nat := (path.map fun name => name.length + 1).sum

/-- The longest paths first. -/
def longestFirst (paths : List RelativePath) : List RelativePath :=
  paths.mergeSort fun left right => decide (textLength right ≤ textLength left)

/-- `removeEmptyDirectoryTree`; `driveRoot` tells whether the root is one of a drive. -/
def removeEmptyDirectoryTree (walk : DirectoryWalk Content) (links : Links Content) (fails : MergeStep → Bool)
    (driveRoot : Bool) (tree : FileTree Name Content) : FileTree Name Content × Option MergeError :=
  let reparse path := links.isReparsePoint tree path (fails (.stagingAttributes path))
  if fails .inspectRoot then (tree, some ⟨"filesystem_error", []⟩)
  else
    match tree.node [] with
    | none => (tree, none)
    | some (.file _) | some .other => (tree, some ⟨"restore target is not a safe directory: ", []⟩)
    | some .directory =>
        if driveRoot || reparse [] then (tree, some ⟨"restore target is not a safe directory: ", []⟩)
        else if fails .iterateDirectories then (tree, some ⟨"filesystem_error", []⟩)
        else
          match (walk.list tree).find? fun path => reparse path || !(links.status tree path).any Node.isDirectory with
          | some path => (tree, some ⟨"restore target contains a file or reparse point: ", path⟩)
          | none =>
              match removeDirectories fails "cannot remove empty restore directory: " (longestFirst (walk.list tree))
                  tree with
              | (after, some error) => (after, some error)
              | (after, none) => removeDirectories fails "cannot remove empty restore root: " [[]] after

/-- The directories below a root, as the iterator meets them. -/
def DirectoryWalk.directories (walk : DirectoryWalk Content) (links : Links Content) (tree : FileTree Name Content) :
    List RelativePath :=
  (walk.list tree).filter fun path => (links.status tree path).any Node.isDirectory

/-- Everything else below a root. -/
def DirectoryWalk.files (walk : DirectoryWalk Content) (links : Links Content) (tree : FileTree Name Content) :
    List RelativePath :=
  (walk.list tree).filter fun path => !(links.status tree path).any Node.isDirectory

/-- Why the loop over the staging tree stops at an entry, if it does. -/
def refusedEntry (links : Links Content) (fails : MergeStep → Bool) (tree : FileTree Name Content)
    (path : RelativePath) : Option MergeError :=
  if links.isReparsePoint tree path (fails (.stagingAttributes path)) then
    some ⟨"reparse point in restore staging: ", path⟩
  else
    match links.status tree path with
    | some .directory | some (.file _) => none
    | some .other | none => some ⟨"unsupported entry in restore staging: ", path⟩

section Comparison

variable [DecidableEq Content]

/-- One file of the staging tree. -/
def mergeFile (links : MergeLinks Content) (fails : MergeStep → Bool) (trees : MergeTrees Content) (file : RelativePath) :
    MergeTrees Content × Option MergeError :=
  if fails (.inspectFile file) then (trees, some ⟨"filesystem_error", file⟩)
  else
    match trees.staging.node file with
    | some .directory | none => (trees, some ⟨"filesystem_error", file⟩)
    | some staged =>
        match links.target.status trees.target file with
        | none => renameFile links fails trees file staged
        | some (.file stored) =>
            if links.target.isReparsePoint trees.target file (fails (.targetAttributes file)) || fails (.hashFile file) ||
                decide (links.staging.status trees.staging file ≠ some (.file stored)) then
              (trees, some ⟨"restore merge target already differs: ", file⟩)
            else dropDuplicate fails trees file
        | some .directory | some .other => (trees, some ⟨"restore merge target already differs: ", file⟩)

/-- The loop over the files of the staging tree. -/
def mergeFiles (links : MergeLinks Content) (fails : MergeStep → Bool) :
    List RelativePath → MergeTrees Content → MergeTrees Content × Option MergeError
  | [], trees => (trees, none)
  | file :: rest, trees =>
      match mergeFile links fails trees file with
      | (after, some error) => (after, some error)
      | (after, none) => mergeFiles links fails rest after

/-- What follows the inspection of both roots. -/
def mergeEntries (walk : DirectoryWalk Content) (links : MergeLinks Content) (fails : MergeStep → Bool) (driveRoot : Bool)
    (trees : MergeTrees Content) : MergeTrees Content × Option MergeError :=
  if fails .iterateStaging then (trees, some ⟨"filesystem_error", []⟩)
  else
    match (walk.list trees.staging).findSome? (refusedEntry links.staging fails trees.staging) with
    | some error => (trees, some error)
    | none =>
        match mergeDirectories links fails (walk.directories links.staging trees.staging) trees with
        | (after, some error) => (after, some error)
        | (after, none) =>
            match mergeFiles links fails (walk.files links.staging trees.staging) after with
            | (moved, some error) => (moved, some error)
            | (moved, none) =>
                match removeEmptyDirectoryTree walk links.staging fails driveRoot moved.staging with
                | (staging, outcome) => (⟨staging, moved.target⟩, outcome)

/-- `publishMergedTree`: the trees afterwards and the error, if one is thrown. -/
def publishMergedTree (walk : DirectoryWalk Content) (links : MergeLinks Content) (fails : MergeStep → Bool)
    (driveRoot : Bool) (trees : MergeTrees Content) : MergeTrees Content × Option MergeError :=
  let stagingLink := links.staging.isReparsePoint trees.staging [] (fails (.stagingAttributes []))
  let targetLink := links.target.isReparsePoint trees.target [] (fails (.targetAttributes []))
  if fails .inspectStaging || !(trees.staging.node []).any Node.isDirectory || stagingLink then
    (trees, some ⟨"restore staging is not a safe directory: ", []⟩)
  else if fails .inspectTarget ||
      (links.target.status trees.target []).any (fun node => !node.isDirectory || targetLink) then
    (trees, some ⟨"restore merge target is not a safe directory: ", []⟩)
  else
    match trees.target.ensureDirectory (failsToCreate fails) [] with
    | none => (trees, some ⟨"filesystem_error", []⟩)
    | some target => mergeEntries walk links fails driveRoot ⟨trees.staging, target⟩

end Comparison

end SearchEngine.Archive
