import SearchEngine.Files.WindowsPath

/-!
# Paths taken as text

The operations of `std::filesystem::path` that look at nothing but the text, for the
Windows form of a path.
-/

namespace SearchEngine.Files

/-- `path::is_absolute`: a drive needs its separator, a server does not. -/
def isAbsolutePath (path : Path) : Bool :=
  if (splitRootName path).1.length = 2 then (splitRootName path).2.head?.any isSeparator
  else !(splitRootName path).1.isEmpty

/-- `operator/`. -/
def joinPath (left right : Path) : Path :=
  if isAbsolutePath right || (!(splitRootName right).1.isEmpty && (splitRootName right).1 ≠ (splitRootName left).1) then
    right
  else if (splitRootName right).2.head?.any isSeparator then (splitRootName left).1 ++ (splitRootName right).2
  else if (splitRootName left).2.isEmpty then
    -- a drive without a separator is continued as it stands
    if left.length < 3 then left ++ (splitRootName right).2 else left ++ '\\' :: (splitRootName right).2
  else if left.getLast?.any isSeparator then left ++ (splitRootName right).2
  else left ++ '\\' :: (splitRootName right).2

def isDot (name : Path) : Bool := name = ['.']

def isDotDot (name : Path) : Bool := name = ['.', '.']

/-- One name of `lexically_normal`: `..` takes the name before it away, if there is one. -/
def lexicalStep (rooted : Bool) (names : List Path) (name : Path) : List Path :=
  if isDot name then names
  else if isDotDot name then
    if names.getLast?.any (!isDotDot ·) then names.dropLast
    else if rooted then names else names ++ [name]
  else names ++ [name]

/-- The names that `lexically_normal` keeps of what follows the root name. -/
def lexicalNames (rest : Path) : List Path :=
  ((rest.splitOnP isSeparator).filter (!·.isEmpty)).foldl (lexicalStep (rest.head?.any isSeparator)) []

/-- The text ends in a separator, or in a dot name that leaves one. -/
def endsAsDirectory (rest : Path) : Bool :=
  match (rest.splitOnP isSeparator).getLast? with
  | none => false
  | some last => last.isEmpty || isDot last || isDotDot last

/-- `lexically_normal`. -/
def lexicallyNormal (path : Path) : Path :=
  let root := (splitRootName path).1.map fun c => if isSeparator c then '\\' else c
  let rest := (splitRootName path).2
  let names := lexicalNames rest
  let text := root ++ (if rest.head?.any isSeparator then ['\\'] else []) ++ ['\\'].intercalate names ++
    if endsAsDirectory rest && names.getLast?.any (!isDotDot ·) then ['\\'] else []
  if text.isEmpty && !path.isEmpty then ['.'] else text

example : lexicallyNormal "C:\\a\\.\\b\\..\\c\\".toList = "C:\\a\\c\\".toList := by decide +kernel
example : lexicallyNormal "C:/a/..".toList = "C:\\".toList := by decide +kernel

end SearchEngine.Files
