import Mathlib.Data.List.DropRight
import SearchEngine.Lib.Glob

/-!
# The exclusion filter of backups

`validateExcludePattern` brings a pattern of the settings into its normal form,
`BackupPathFilter` compiles it and matches the relative paths of a source tree against
it. Texts are their characters; `lexically_normal` has been applied to the paths.
-/

namespace SearchEngine.Backup

open SearchEngine.Lib

/-- A text of the filter. -/
abbrev FilterText := List Char

/-- `normalizeForMatch`: `towlower` on Windows, nothing elsewhere. -/
structure CaseFolding where
  fold : Char → Char
  fold_slash : fold '/' = '/'
  fold_star : fold '*' = '*'
  fold_question : fold '?' = '?'

/-- Outside Windows. -/
def CaseFolding.none : CaseFolding := ⟨id, rfl, rfl, rfl⟩

/-! ## Patterns of the settings -/

def isFilterSpace (c : Char) : Bool := c == ' ' || (9 ≤ c.toNat && c.toNat ≤ 13)

def trimPattern (value : FilterText) : FilterText := (value.dropWhile isFilterSpace).rdropWhile isFilterSpace

def replaceBackslashes (value : FilterText) : FilterText := value.map fun c => if c = '\\' then '/' else c

def hasDriveOrScheme (pattern : FilterText) : Bool := pattern.contains ':'

def isUncPattern : FilterText → Bool
  | '/' :: '/' :: _ => true
  | _ => false

def splitUtf8Components (current : FilterText) : FilterText → List FilterText
  | [] => [current]
  | ch :: rest =>
      if ch = '/' then current :: splitUtf8Components [] rest else splitUtf8Components (current ++ [ch]) rest

/-- The checks of one component. -/
def componentError (component : FilterText) : Option String :=
  if component.isEmpty then some "must not contain empty path components"
  else if component = ['.'] || component = ['.', '.'] then
    some "must not contain \".\" or \"..\" path components"
  else if component.contains '\\' then some "must use '/' as the path separator"
  else none

/-- `validateExcludePattern`: the normal form, or the message. -/
def validateExcludePattern (pattern : FilterText) : Except String FilterText :=
  let trimmed := trimPattern pattern
  if trimmed.isEmpty then .error "must not be empty"
  else if trimmed.head? = some '!' then .error "negative patterns (!pattern) are not supported"
  else if hasDriveOrScheme trimmed then
    .error "must be a relative pattern (absolute paths are not allowed)"
  else
    let normalized := replaceBackslashes trimmed
    if isUncPattern normalized then .error "UNC paths are not allowed"
    else
      let shortened := normalized.rdropWhile (· == '/')
      let body := shortened.dropWhile (· == '/')
      if body.isEmpty then .error "must not be empty"
      else
        match (splitUtf8Components [] body).findSome? componentError with
        | some message => .error message
        | none => .ok ((if shortened.head? = some '/' then ['/'] else []) ++ body ++
            if normalized.getLast? = some '/' then ['/'] else [])

/-! ## The filter -/

inductive Segment where
  | doubleStar
  | text (pattern : FilterText)
deriving DecidableEq

structure CompiledPattern where
  directoryOnly : Bool
  nameOnly : Bool
  segments : List Segment
deriving DecidableEq

/-- The non-empty parts between the separators. -/
def flushParts (current : FilterText) : FilterText → List FilterText
  | [] => if current.isEmpty then [] else [current]
  | ch :: rest =>
      if ch = '/' then if current.isEmpty then flushParts [] rest else current :: flushParts [] rest
      else flushParts (current ++ [ch]) rest

def splitPathComponents (path : FilterText) : List FilterText := flushParts [] path

def toSegment (part : FilterText) : Segment := if part = ['*', '*'] then .doubleStar else .text part

/-- `compileValidated`. -/
def compileValidated (folding : CaseFolding) (pattern : FilterText) : CompiledPattern :=
  let directoryOnly := pattern.getLast? = some '/'
  let body := if directoryOnly then pattern.dropLast else pattern
  let rooted := body.head? = some '/'
  let wide := (if rooted then body.tail else body).map folding.fold
  let segments := (flushParts [] wide).map toSegment
  { directoryOnly := directoryOnly
    nameOnly := !rooted && segments.length = 1 && segments.head? ≠ some .doubleStar
    segments := segments }

/-- The rest of the pattern holds nothing but stars. -/
def onlyStars (pattern : FilterText) : Bool := pattern.all (· == '*')

/-- The loop of `matchComponent` over what is left of the pattern and of the value. `star`
holds what follows the last star of the pattern, and the characters read since. -/
def matchLoop (star : Option (FilterText × FilterText)) (pattern value : FilterText) : Bool :=
  match pattern, value with
  | pattern, [] => onlyStars pattern
  | p :: rest, v :: values =>
      if p = '?' || p = v then matchLoop (star.map fun s => (s.1, s.2 ++ [v])) rest values
      else if p = '*' then matchLoop (some (rest, [])) rest (v :: values)
      else
        match star with
        | none => false
        | some (after, taken) => matchLoop (some (after, [])) after (taken ++ v :: values).tail
  | [], v :: values =>
      match star with
      | none => false
      | some (after, taken) => matchLoop (some (after, [])) after (taken ++ v :: values).tail
termination_by (fromRun (star.map fun s => (s.1.map some, s.2)) value, pattern.length + value.length)
decreasing_by
  · rw [Prod.lex_def]
    rcases star with _ | ⟨after, taken⟩ <;>
      simp only [fromRun, Option.map_none, Option.map_some, List.length_append, List.length_cons,
        List.length_nil] <;> omega
  · rw [Prod.lex_def]
    rcases star with _ | ⟨after, taken⟩ <;>
      simp only [fromRun, Option.map_none, Option.map_some, List.length_cons, List.length_nil] <;> omega
  · rw [Prod.lex_def]
    simp only [fromRun, Option.map_some, List.length_append, List.length_cons, List.length_nil, List.length_tail]
    omega
  · rw [Prod.lex_def]
    simp only [fromRun, Option.map_some, List.length_append, List.length_cons, List.length_nil, List.length_tail]
    omega

def matchComponent (pattern value : FilterText) : Bool := matchLoop none pattern value

/-- `matchSegments` on what is left of the segments and of the path. -/
def matchSegments : List Segment → List FilterText → Bool
  | [], path => path.isEmpty
  | .doubleStar :: rest, path => rest.isEmpty || path.tails.any fun next => matchSegments rest next
  | .text _ :: _, [] => false
  | .text pattern :: rest, component :: path => matchComponent pattern component && matchSegments rest path

def isPathSeparator (c : Char) : Bool := c == '/' || c == '\\'

/-- `pathToMatchString` on the generic string of the normal form. -/
def pathToMatchString (folding : CaseFolding) (value : FilterText) : FilterText :=
  (replaceBackslashes ((value.rdropWhile isPathSeparator).dropWhile isPathSeparator)).map folding.fold

/-- `matches` for one pattern. -/
def CompiledPattern.matchesPath (pattern : CompiledPattern) (components : List FilterText) (isDirectory : Bool) :
    Bool :=
  if pattern.directoryOnly && !isDirectory then false
  else if pattern.nameOnly then
    match pattern.segments, components.getLast? with
    | [.text text], some name => matchComponent text name
    | _, _ => false
  else matchSegments pattern.segments components

/-- `BackupPathFilter::matches`. -/
def filterMatches (folding : CaseFolding) (patterns : List FilterText) (value : FilterText) (isDirectory : Bool) :
    Bool :=
  let components := splitPathComponents (pathToMatchString folding value)
  !components.isEmpty &&
    (patterns.map (compileValidated folding)).any fun pattern => pattern.matchesPath components isDirectory

end SearchEngine.Backup
