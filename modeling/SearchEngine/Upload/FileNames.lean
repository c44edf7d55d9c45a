import Mathlib.Data.List.DropRight
import SearchEngine.Files.LexicalPath

/-!
# Names of uploaded files

A name that a client sends becomes a component of a path. It is checked as text, and
it is given a number when a file of that name is there already.
-/

namespace SearchEngine.Upload

open Files

/-- `CharUpperBuffW`, which has a table of its own beyond ASCII. -/
structure UpperCase where
  upper : Char → Char
  upper_ascii : ∀ c : Char, c.toNat < 128 → upper c = c.toUpper

variable (table : UpperCase)

/-! ## StreamingUpload -/

/-- `hasAsciiControlOrForbidden`. -/
def hasAsciiControlOrForbidden (name : Path) : Bool :=
  name.any fun c => c.toNat < 32 || c.toNat = 127 || "/\\:<>\"|?*".toList.contains c

/-- `toUpperAsciiAware`. -/
def toUpperAsciiAware (value : Path) : Path := value.map table.upper

def plainDevices : List Path := ["CON".toList, "PRN".toList, "AUX".toList, "NUL".toList]

def devicePorts : List Path := ["COM".toList, "LPT".toList]

/-- `isReservedDeviceStem`. -/
def isReservedDeviceStem (stem : Path) : Bool :=
  let stem := toUpperAsciiAware table (stem.rdropWhile fun c => c = ' ' || c = '.')
  plainDevices.contains stem ||
    (stem.length = 4 && devicePorts.contains (stem.take 3) && "123456789".toList.contains (stem.getLastD ' '))

/-- `path::stem` and `path::extension` of a name: the last dot parts them, unless the
name starts with it. -/
def splitExtension (name : Path) : Path × Path :=
  let front := (name.reverse.dropWhile (· ≠ '.')).tail
  if name = ['.', '.'] || front.isEmpty then (name, [])
  else (front.reverse, '.' :: name.rtakeWhile (· ≠ '.'))

/-- `isReservedWindowsDeviceName`. -/
def isReservedWindowsDeviceName (filename : Path) : Bool :=
  isReservedDeviceStem table filename || isReservedDeviceStem table (splitExtension filename).1 ||
    (filename.contains '.' && isReservedDeviceStem table (filename.takeWhile (· ≠ '.')))

/-- `isSafeFileComponent`. -/
def isSafeFileComponent (name : Path) : Bool :=
  if name.isEmpty || isDot name || isDotDot name then false
  else if name.contains '\x00' then false
  else if hasAsciiControlOrForbidden name then false
  else if name.getLast? = some ' ' || name.getLast? = some '.' then false
  else if isAbsolutePath name || !(rootPath name).isEmpty || !(parentPath name).isEmpty ||
      filename name ≠ name then false
  else !isReservedWindowsDeviceName table name

/-- `suffixedFileName`. -/
def suffixedFileName (filename : Path) (index : Nat) : Path :=
  if index = 0 then filename
  else (splitExtension filename).1 ++ '(' :: (Nat.toDigits 10 index ++ [')']) ++ (splitExtension filename).2

example : suffixedFileName "note.txt".toList 12 = "note(12).txt".toList := by decide +kernel
example : suffixedFileName ".note".toList 1 = ".note(1)".toList := by decide +kernel

/-! ## Names as Windows takes them -/

/-- The names that Windows keeps for devices. The superscript digits of ISO 8859-1 are
digits of a port. -/
def deviceNames : List Path :=
  plainDevices ++ devicePorts.flatMap fun port => "123456789¹²³".toList.map fun digit => port ++ [digit]

/-- What Windows compares with the device names: the name up to its first dot, without
the spaces at the end. -/
def deviceStem (name : Path) : Path :=
  ((name.takeWhile (· ≠ '.')).rdropWhile (· = ' ')).map table.upper

/-- The name of a port with a superscript digit. -/
def IsSuperscriptPort (name : Path) : Prop :=
  deviceStem table name ∈ devicePorts.flatMap fun port => "¹²³".toList.map fun digit => port ++ [digit]

instance (name : Path) : Decidable (IsSuperscriptPort table name) := inferInstanceAs (Decidable (_ ∈ _))

/-- A name that stands for an ordinary entry of its directory. -/
structure ProperComponent (name : Path) : Prop where
  filled : name ≠ []
  noSeparator : ∀ c ∈ name, isSeparator c = false
  noDrive : ':' ∉ name
  notDot : name ≠ ['.']
  notDotDot : name ≠ ['.', '.']
  noDevice : deviceStem table name ∉ deviceNames
  closed : name.getLast? ≠ some ' ' ∧ name.getLast? ≠ some '.'

end SearchEngine.Upload
