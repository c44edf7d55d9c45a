import Mathlib.Data.List.Basic

/-!
# The file scanner

`FileScanner` walks every index root with a `recursive_directory_iterator` and
lists the files to index. What the iterator meets is a `Listing`: it may end, and
it may report an error, which leaves the end iterator and so ends the loop of
`scanDirectory` with the files listed until then.
-/

namespace SearchEngine.Files

/-- A path, as its characters. -/
abbrev Path := List Char

/-- What an iterator meets in a directory, in its order. -/
inductive Listing where
  /-- The directory has no more entries. -/
  | ended
  /-- The increment, or entering the directory, reports an error. -/
  | failed
  /-- An entry that is no directory: whether it is a regular file, and its size; an
  error of either question is the answer `false` or `none`. -/
  | file (path : Path) (regular : Bool) (size : Option Nat) (rest : Listing)
  /-- A directory; one that may not be entered, or is reached through a link, has no
  content. -/
  | directory (path : Path) (content rest : Listing)
deriving DecidableEq

/-- Which paths are excluded and which file names are selected. -/
structure ScanRules where
  isPathExcluded : Path → Bool
  matchesPath : Path → Bool

/-- The smallest file that is indexed, in bytes. -/
def minimumSize : Nat := 10

/-- The tests of `scanDirectory` on an entry that is no directory. -/
def lists (rules : ScanRules) (path : Path) (regular : Bool) (size : Option Nat) : Bool :=
  regular && !rules.isPathExcluded path && size.any (minimumSize ≤ ·) && rules.matchesPath path

/-- The loop of `scanDirectory`: the listed files, and whether it was broken off. -/
def walk (rules : ScanRules) : Listing → List Path × Bool
  | .ended => ([], false)
  | .failed => ([], true)
  | .file path regular size rest =>
      let later := walk rules rest
      (if lists rules path regular size then path :: later.1 else later.1, later.2)
  | .directory path content rest =>
      -- `disable_recursion_pending`: the content is not visited.
      if rules.isPathExcluded path then walk rules rest
      else
        let inner := walk rules content
        if inner.2 then inner
        else
          let later := walk rules rest
          (inner.1 ++ later.1, later.2)

/-- What the enumeration of an index root comes to; `none` when it cannot be opened. -/
structure RootScan where
  root : Path
  found : Option Listing
deriving DecidableEq

/-- `scanDirectory`. -/
def scanDirectory (rules : ScanRules) (scan : RootScan) : List Path :=
  match scan.found with
  | none => []
  | some listing => (walk rules listing).1

/-- The enumeration of the root reached its end. -/
def RootScan.completed (rules : ScanRules) (scan : RootScan) : Bool :=
  scan.found.any fun listing => !(walk rules listing).2

/-- `scanDirectories`. -/
def scanDirectories (rules : ScanRules) (scans : List RootScan) : List Path :=
  scans.flatMap (scanDirectory rules)

def isSeparator (c : Char) : Bool := c == '/' || c == '\\'

/-- The path lies below the directory. -/
def isBelow (root path : Path) : Bool :=
  let rest := path.drop root.length
  root.isPrefixOf path && !rest.isEmpty &&
    (root.getLast?.any isSeparator || rest.head?.any isSeparator)

end SearchEngine.Files
