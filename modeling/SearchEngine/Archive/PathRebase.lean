import SearchEngine.Archive.ServiceCommandLine
import SearchEngine.Upload.UploadTarget

/-!
# Rebasing stored paths

`rebasePath` finds the mapping with the longest source at or above a path and moves the
rest of the path below the target of that mapping. Paths are compared component by
component, without regard to the case of ASCII letters.
-/

namespace SearchEngine.Archive

open SearchEngine.Files SearchEngine.Upload

variable (windows : WindowsSystem)

/-! ## Comparing paths -/

/-- `towlower`. The tool stays in the C locale, whose table is that of ASCII. -/
def towlower (c : Char) : Char := c.toLower

/-- `lowerPathComponent`. -/
def lowerPathComponent (value : Path) : Path :=
  (value.map fun c => if c = '/' then '\\' else c).map towlower

/-- `normalizedWindowsPath`; trailing separators go, but not the one of a drive. -/
def normalizedWindowsPath (value : Path) : Path :=
  let result := windows.absoluteNormalized value
  lowerPathComponent (result.take 3 ++ ((result.drop 3).reverse.dropWhile isSeparator).reverse)

/-- `pathComponentBoundary`. -/
def pathComponentBoundary (value : Path) (offset : Nat) : Bool :=
  decide (offset = value.length) || (decide (0 < offset) && decide (value[offset - 1]? = some '\\')) ||
    decide (value[offset]? = some '\\')

/-- `isPathEqualOrBelow`. -/
def isPathEqualOrBelow (candidate root : Path) : Bool :=
  let value := normalizedWindowsPath windows candidate
  let start := normalizedWindowsPath windows root
  start.isPrefixOf value && pathComponentBoundary value start.length

/-- The loop of `withoutTrailingSeparator`, for paths of at most this length. -/
def trimSeparators : Nat → Path → Path
  | 0, result => result
  | left + 1, result =>
      if result ≠ rootPath result ∧ (filename result).isEmpty then trimSeparators left (parentPath result)
      else result

/-- `withoutTrailingSeparator`. -/
def withoutTrailingSeparator (path : Path) : Path :=
  trimSeparators (lexicallyNormal path).length (lexicallyNormal path)

/-- The loop of `relativePathCaseInsensitive`: the components left when those of the root agree. -/
def relativeParts : List Path → List Path → Option (List Path)
  | parts, [] => some parts
  | [], _ :: _ => none
  | part :: parts, root :: roots =>
      if lowerPathComponent part ≠ lowerPathComponent root then none else relativeParts parts roots

/-- The components put together again by `operator/=`. -/
def joinParts (parts : List Path) : Path :=
  parts.foldl (fun relative part => if part.isEmpty || isDot part then relative else joinPath relative part) []

/-- `relativePathCaseInsensitive`; `none` is a path outside the root. -/
def relativePathCaseInsensitive (value root : Path) : Option Path :=
  (relativeParts (elements (withoutTrailingSeparator (windows.absoluteNormalized value)))
    (elements (withoutTrailingSeparator (windows.absoluteNormalized root)))).map joinParts

/-! ## Rebasing -/

/-- A `PathMapping`. -/
structure PathMapping where
  source : Path
  target : Path
  deriving DecidableEq

/-- One turn of the loop of `rebasePath`. -/
def betterMapping (source : Path) (best : Option PathMapping × Nat) (mapping : PathMapping) :
    Option PathMapping × Nat :=
  let length := (normalizedWindowsPath windows mapping.source).length
  if isPathEqualOrBelow windows source mapping.source && decide (best.2 < length) then (some mapping, length)
  else best

/-- The loop of `rebasePath`: `best` and `bestLength`. -/
def bestMapping (source : Path) (mappings : List PathMapping) : Option PathMapping × Nat :=
  mappings.foldl (betterMapping windows source) (none, 0)

/-- `rebasePath`. -/
def rebasePath (source : Path) (mappings : List PathMapping) : Except String Path :=
  match (bestMapping windows source mappings).1 with
  | none => .error ("path is outside the move plan: " ++ String.ofList source)
  | some best =>
      match relativePathCaseInsensitive windows source best.source with
      | none => .error ("path is outside the selected mapping root: " ++ String.ofList source)
      | some relative => .ok (if relative.isEmpty then best.target else joinPath best.target relative)

variable {windows} {source : Path} {mappings : List PathMapping}

/-- What the loop has found: no seen mapping above the path has a longer source. -/
structure Deepest (windows : WindowsSystem) (source : Path) (seen : List PathMapping)
    (best : Option PathMapping × Nat) : Prop where
  length : best.2 = best.1.elim 0 fun mapping => (normalizedWindowsPath windows mapping.source).length
  covers : ∀ mapping, best.1 = some mapping →
    mapping ∈ seen ∧ isPathEqualOrBelow windows source mapping.source = true
  longest : ∀ mapping ∈ seen, isPathEqualOrBelow windows source mapping.source = true →
    (normalizedWindowsPath windows mapping.source).length ≤ best.2

theorem Deepest.better {seen : List PathMapping} {best : Option PathMapping × Nat}
    (deepest : Deepest windows source seen best) (mapping : PathMapping) :
    Deepest windows source (seen ++ [mapping]) (betterMapping windows source best mapping) := by
  unfold betterMapping
  by_cases improves : isPathEqualOrBelow windows source mapping.source = true ∧
      best.2 < (normalizedWindowsPath windows mapping.source).length
  · rw [if_pos (by simpa using improves)]
    constructor
    case length => rfl
    case covers =>
      intro other same
      obtain rfl := Option.some.inj same
      exact ⟨by simp, improves.1⟩
    case longest =>
      intro other member below
      rcases List.mem_append.mp member with earlier | last
      · exact (deepest.longest other earlier below).trans improves.2.le
      · rw [List.mem_singleton.mp last]
  · rw [if_neg (by simpa using improves)]
    constructor
    case length => exact deepest.length
    case covers =>
      intro other same
      obtain ⟨member, below⟩ := deepest.covers other same
      exact ⟨List.mem_append_left _ member, below⟩
    case longest =>
      intro other member below
      rcases List.mem_append.mp member with earlier | last
      · exact deepest.longest other earlier below
      · rw [List.mem_singleton.mp last] at below ⊢
        exact not_lt.mp fun longer => improves ⟨below, longer⟩

theorem deepest_bestMapping (windows : WindowsSystem) (source : Path) (mappings : List PathMapping) :
    Deepest windows source mappings (bestMapping windows source mappings) := by
  induction mappings using List.reverseRecOn with
  | nil => exact ⟨rfl, by simp [bestMapping], by simp⟩
  | append_singleton earlier mapping ih =>
      rw [bestMapping, List.foldl_append]
      exact ih.better mapping

/-- The target is that of a mapping with the longest source at or above the path, followed by what
the path has below that source. -/
def MovesTo (windows : WindowsSystem) (mappings : List PathMapping) (source target : Path) : Prop :=
  ∃ mapping ∈ mappings, isPathEqualOrBelow windows source mapping.source = true ∧
    (∀ other ∈ mappings, isPathEqualOrBelow windows source other.source = true →
      (normalizedWindowsPath windows other.source).length ≤
        (normalizedWindowsPath windows mapping.source).length) ∧
    ∃ relative, relativePathCaseInsensitive windows source mapping.source = some relative ∧
      target = if relative.isEmpty then mapping.target else joinPath mapping.target relative

theorem movesTo_of_rebasePath {target : Path} (rebased : rebasePath windows source mappings = .ok target) :
    MovesTo windows mappings source target := by
  have deepest := deepest_bestMapping windows source mappings
  unfold rebasePath at rebased
  split at rebased
  · cases rebased
  rename_i mapping found
  split at rebased
  · cases rebased
  rename_i relative inside
  obtain ⟨member, below⟩ := deepest.covers mapping found
  refine ⟨mapping, member, below, ?_, relative, inside, (Except.ok.inj rebased).symm⟩
  intro other isOther otherBelow
  have shorter := deepest.longest other isOther otherBelow
  rwa [deepest.length, found] at shorter

end SearchEngine.Archive
