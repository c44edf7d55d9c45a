import Mathlib.Data.List.Basic
import Mathlib.Data.List.TakeWhile
import SearchEngine.Files.FileScanner

/-!
# Paths and the filters on them

The text of a path decides three things: which names `std::filesystem::path` takes
apart and puts together, whether the path lies in an excluded subtree, and whether
its extension is selected. Case is folded by the tables of the system.
-/

namespace SearchEngine.Files

/-! ## std::filesystem::path -/

/-- The root name, a drive or a server, and what follows it. -/
def splitRootName : Path → Path × Path
  | [] => ([], [])
  | [c] => ([], [c])
  | first :: second :: rest =>
      if first.isAlpha && second == ':' then ([first, second], rest)
      else if isSeparator first && isSeparator second && !(rest.head?.all isSeparator) then
        (first :: second :: rest.takeWhile (!isSeparator ·), rest.dropWhile (!isSeparator ·))
      else ([], first :: second :: rest)

/-- The root name and the separators that follow it. -/
def rootPath (path : Path) : Path :=
  (splitRootName path).1 ++ (splitRootName path).2.takeWhile isSeparator

def relativePath (path : Path) : Path := (splitRootName path).2.dropWhile isSeparator

/-- `path::parent_path`. -/
def parentPath (path : Path) : Path :=
  rootPath path ++
    (((relativePath path).reverse.dropWhile (!isSeparator ·)).dropWhile isSeparator).reverse

/-- `path::filename`. -/
def filename (path : Path) : Path := ((relativePath path).reverse.takeWhile (!isSeparator ·)).reverse

/-- `operator/` with a name or a relative path. -/
def append (path name : Path) : Path :=
  if path.getLast?.any isSeparator then path ++ name else path ++ '\\' :: name

/-- The name of a directory entry. -/
abbrev FileName := { name : Path // name ≠ [] ∧ (∀ c ∈ name, isSeparator c = false) ∧
  name ≠ ['.'] ∧ name ≠ ['.', '.'] }

/-! ## WindowsPath, SettingsPathContract -/

/-- `isAbsoluteWindowsLocalPath`. -/
def isAbsoluteWindowsLocalPath : Path → Bool
  | drive :: ':' :: slash :: _ => drive.isAlpha && isSeparator slash
  | _ => false

/-- `isUncWindowsPath`. -/
def isUncWindowsPath : Path → Bool
  | first :: second :: rest =>
      isSeparator first && isSeparator second && !(rest.head?.all isSeparator) &&
        (match rest.dropWhile (!isSeparator ·) with
          | _ :: share :: _ => !isSeparator share
          | _ => false)
  | _ => false

/-- `isAbsoluteWindowsFilesystemPath`. -/
def isAbsoluteWindowsFilesystemPath (path : Path) : Bool :=
  isAbsoluteWindowsLocalPath path || isUncWindowsPath path

/-- `validateConfiguredIndexPaths`: the error, if any. -/
def validateConfiguredIndexPaths (indexRoots excludedSubtrees : List Path) : Option String :=
  if indexRoots.isEmpty then some "config.index_roots is empty"
  else if !indexRoots.all isAbsoluteWindowsFilesystemPath then
    some "config.index_roots must contain absolute Windows paths"
  else if !excludedSubtrees.all isAbsoluteWindowsFilesystemPath then
    some "config.excluded_subtrees must contain non-empty absolute Windows paths"
  else none

/-! ## PathExclusion -/

/-- The case tables of the system: `CharLowerBuffW`, which maps separators to themselves,
and the upper-case table of `CompareStringOrdinal`. -/
structure CaseTable where
  lower : Char → Char
  upper : Char → Char
  lower_slash : lower '/' = '/'

/-- A component after the ones before it, in `lexically_normal` of a rooted path. -/
def normalStep (names : List Path) (name : Path) : List Path :=
  if name = ['.', '.'] then names.dropLast else names ++ [name]

/-- The components of `lexically_normal` of a rooted path. -/
def normalComponents (path : Path) : List Path :=
  (((splitRootName path).2.splitOnP isSeparator).filter fun name => name ≠ [] ∧ name ≠ ['.']).foldl
    normalStep []

/-- `toComparableWstring` of a rooted path: generic, folded, without trailing separators. -/
def toComparable (table : CaseTable) (path : Path) : Path :=
  (((splitRootName path).1.map fun c => if isSeparator c then '/' else c) ++
    (normalComponents path).flatMap ('/' :: ·)).map table.lower

/-- `isPathInsideExcludedSubtree`. -/
def isPathInsideExcludedSubtree (table : CaseTable) (candidate excludedRoot : Path) : Bool :=
  let normalizedCandidate := toComparable table candidate
  let normalizedExcluded := toComparable table excludedRoot
  if normalizedCandidate.isEmpty || normalizedExcluded.isEmpty then false
  else if normalizedCandidate = normalizedExcluded then true
  else if normalizedCandidate.length ≤ normalizedExcluded.length then false
  else if (normalizedCandidate.take normalizedExcluded.length).map table.lower ≠
      normalizedExcluded.map table.lower then false
  else normalizedCandidate[normalizedExcluded.length]? == some '/'

/-- `isPathExcluded`. -/
def isPathExcluded (table : CaseTable) (excludedSubtrees : List Path) (candidate : Path) : Bool :=
  excludedSubtrees.any fun excluded =>
    !excluded.isEmpty && isPathInsideExcludedSubtree table candidate excluded

/-! ## FileExtensionContract -/

/-- `Selection`. -/
structure Selection where
  indexedExtensions : List Path
  includeExtensionlessFiles : Bool

/-- `finalExtension`: what follows the last dot of the file name, unless it starts the name. -/
def finalExtension (path : Path) : Path :=
  let reversed := (filename path).reverse
  let extension := reversed.takeWhile (· ≠ '.')
  if extension.length + 1 < reversed.length then extension.reverse else []

/-- `matchesPath`. -/
def matchesPath (table : CaseTable) (selection : Selection) (path : Path) : Bool :=
  if selection.indexedExtensions.isEmpty && !selection.includeExtensionlessFiles then false
  else
    let extension := finalExtension path
    if extension.isEmpty then selection.includeExtensionlessFiles
    else selection.indexedExtensions.any fun configured =>
      extension.map table.upper == configured.map table.upper

/-! ## Rooted paths -/

/-- The path has a root name and a root directory. -/
def Rooted (path : Path) : Prop :=
  (splitRootName path).1 ≠ [] ∧ (splitRootName path).2.head?.any isSeparator = true

instance (path : Path) : Decidable (Rooted path) := inferInstanceAs (Decidable (_ ∧ _ = true))

/-- What follows a rooted path leaves its root name alone. -/
theorem splitRootName_append {path : Path} (rooted : Rooted path) (rest : Path) :
    splitRootName (path ++ rest) = ((splitRootName path).1, (splitRootName path).2 ++ rest) := by
  obtain ⟨named, slash⟩ := rooted
  match path with
  | [] => exact absurd rfl named
  | [c] => exact absurd rfl named
  | first :: second :: more =>
      simp only [List.cons_append, splitRootName] at named slash ⊢
      split
      · rfl
      · rename_i noDrive
        rw [if_neg noDrive] at named slash
        split at named
        · rename_i server
          rw [if_pos server] at slash
          obtain ⟨c, tail, rfl⟩ : ∃ c tail, more = c :: tail := by
            cases more with
            | nil => simp at server
            | cons c tail => exact ⟨c, tail, rfl⟩
          have ends : ∃ x ∈ c :: tail, ¬ (!isSeparator x) = true := by
            by_contra none
            push Not at none
            rw [List.dropWhile_eq_nil_iff.mpr none] at slash
            cases slash
          rw [if_pos server]
          rw [if_pos (by simpa using server)]
          obtain ⟨x, member, separator⟩ := ends
          rw [List.takeWhile_append, List.dropWhile_append]
          have proper : ((c :: tail).takeWhile (!isSeparator ·)).length ≠ (c :: tail).length := by
            intro full
            have all := List.takeWhile_eq_self_iff.mp
              ((List.takeWhile_prefix _).eq_of_length full)
            exact separator (all x member)
          have nonempty : ((c :: tail).dropWhile (!isSeparator ·)).isEmpty = false := by
            rw [Bool.eq_false_iff]
            intro empty
            have all := List.dropWhile_eq_nil_iff.mp (List.isEmpty_iff.mp empty)
            exact separator (all x member)
          rw [if_neg proper, nonempty]
          rfl
        · exact absurd rfl named

/-- A path is its root name and what follows it. -/
theorem splitRootName_join (path : Path) : (splitRootName path).1 ++ (splitRootName path).2 = path := by
  match path with
  | [] => rfl
  | [c] => rfl
  | first :: second :: more =>
      simp only [splitRootName]
      split
      · rfl
      · split
        · simp [List.takeWhile_append_dropWhile]
        · rfl

/-- An absolute path is rooted. -/
theorem rooted_of_isAbsolute {path : Path} (absolute : isAbsoluteWindowsFilesystemPath path = true) :
    Rooted path := by
  rw [isAbsoluteWindowsFilesystemPath, Bool.or_eq_true] at absolute
  rcases absolute with drive | server
  · unfold isAbsoluteWindowsLocalPath at drive
    split at drive
    · rename_i letter slash rest
      rw [Bool.and_eq_true] at drive
      have parsed : splitRootName (letter :: ':' :: slash :: rest) = ([letter, ':'], slash :: rest) := by
        simp [splitRootName, drive.1]
      exact ⟨by simp [parsed], by simp [parsed, drive.2]⟩
    · cases drive
  · unfold isUncWindowsPath at server
    split at server
    · rename_i first second rest
      simp only [Bool.and_eq_true] at server
      obtain ⟨⟨⟨firstSlash, secondSlash⟩, named⟩, share⟩ := server
      have noDrive : (first.isAlpha && second == ':') = false := by
        rw [Bool.and_eq_false_iff]
        right
        rw [beq_eq_false_iff_ne]
        rintro rfl
        exact absurd secondSlash (by decide)
      have parsed : splitRootName (first :: second :: rest) =
          (first :: second :: rest.takeWhile (!isSeparator ·), rest.dropWhile (!isSeparator ·)) := by
        simp only [splitRootName, noDrive, firstSlash, secondSlash, named, Bool.and_self, if_pos]
        rfl
      refine ⟨by simp [parsed], ?_⟩
      rw [parsed]
      dsimp only
      split at share
      · rename_i slash next more found
        have stops := List.head?_dropWhile_not (!isSeparator ·) rest
        rw [found] at stops ⊢
        simpa using stops
      · cases share
    · cases server

/-- Appending to a rooted path appends after its root name. -/
theorem Rooted.append {path : Path} (rooted : Rooted path) (rest : Path) : Rooted (path ++ rest) := by
  rw [Rooted, splitRootName_append rooted]
  refine ⟨rooted.1, ?_⟩
  cases first : (splitRootName path).2 with
  | nil =>
      have slash := rooted.2
      rw [first] at slash
      cases slash
  | cons c tail =>
      have slash := rooted.2
      rw [first] at slash
      exact slash

/-- A name in a directory becomes its last component. -/
theorem normalComponents_append {dir : Path} (rooted : Rooted dir) (name : FileName) :
    normalComponents (Files.append dir name.1) = normalComponents dir ++ [name.1] := by
  obtain ⟨nonempty, plain, notDot, notDots⟩ := name.2
  have alone : name.1.splitOnP isSeparator = [name.1] := List.splitOnP_eq_singleton plain
  have keeps : [name.1].filter (fun name => name ≠ [] ∧ name ≠ ['.']) = [name.1] :=
    List.filter_cons_of_pos (by simp [nonempty, notDot])
  have last : ∀ names : List Path, (names ++ [name.1]).foldl normalStep [] =
      names.foldl normalStep [] ++ [name.1] := by
    intro names
    rw [List.foldl_append, List.foldl_cons, List.foldl_nil, normalStep, if_neg notDots]
  unfold Files.append normalComponents
  split
  · rename_i closed
    -- The last separator of the directory is the one in front of the name.
    have follows : (splitRootName dir).2 ≠ [] := by
      intro nothing
      have slash := rooted.2
      rw [nothing] at slash
      cases slash
    obtain ⟨front, slash, ended⟩ : ∃ front slash, (splitRootName dir).2 = front ++ [slash] := by
      rcases List.eq_nil_or_concat (splitRootName dir).2 with nothing | ⟨front, slash, ended⟩
      · exact absurd nothing follows
      · exact ⟨front, slash, by simpa using ended⟩
    have separator : isSeparator slash = true := by
      rw [← splitRootName_join dir, ended, ← List.append_assoc, List.getLast?_append] at closed
      exact closed
    rw [splitRootName_append rooted, ended, List.append_assoc, List.singleton_append,
      List.splitOnP_append_cons _ _ separator, List.splitOnP_append_cons _ _ separator, alone,
      List.filter_append, List.filter_append, keeps, last, List.splitOnP_nil]
    simp
  · rw [splitRootName_append rooted]
    dsimp only
    rw [List.splitOnP_append_cons _ _ (by decide : isSeparator '\\' = true), alone, List.filter_append,
      keeps, last]

theorem splitRootName_append_name {dir : Path} (rooted : Rooted dir) (name : Path) :
    (splitRootName (append dir name)).1 = (splitRootName dir).1 := by
  unfold append
  split <;> rw [splitRootName_append rooted]

theorem Rooted.append_name {dir : Path} (rooted : Rooted dir) (name : Path) :
    Rooted (Files.append dir name) := by
  unfold Files.append
  split <;> exact rooted.append _

theorem toComparable_append (table : CaseTable) {dir : Path} (rooted : Rooted dir) (name : FileName) :
    toComparable table (append dir name.1) =
      toComparable table dir ++ '/' :: name.1.map table.lower := by
  rw [toComparable, toComparable, normalComponents_append rooted, splitRootName_append_name rooted]
  simp [table.lower_slash]

/-- What lies in an excluded directory is excluded. -/
theorem isPathInside_append (table : CaseTable) {dir excluded : Path} (rooted : Rooted dir)
    (name : FileName) (inside : isPathInsideExcludedSubtree table dir excluded = true) :
    isPathInsideExcludedSubtree table (append dir name.1) excluded = true := by
  unfold isPathInsideExcludedSubtree at inside ⊢
  simp only [toComparable_append table rooted name]
  generalize toComparable table dir = outer at inside ⊢
  generalize toComparable table excluded = root at inside ⊢
  dsimp only at inside ⊢
  split at inside
  · cases inside
  · rename_i nonempty
    simp only [Bool.or_eq_true, List.isEmpty_iff, not_or] at nonempty
    have proper : ¬ ((outer ++ '/' :: name.1.map table.lower).isEmpty || root.isEmpty) = true := by
      simp [nonempty.2]
    rw [if_neg proper]
    split at inside
    · rename_i same
      subst same
      simp
    · split at inside
      · cases inside
      · rename_i long
        split at inside
        · cases inside
        · rename_i same
          have longer : ¬ (outer ++ '/' :: name.1.map table.lower).length ≤ root.length := by
            rw [List.length_append]
            omega
          have apart : outer ++ '/' :: name.1.map table.lower ≠ root := by
            intro equal
            exact longer (equal ▸ le_rfl)
          have start : (outer ++ '/' :: name.1.map table.lower).take root.length =
              outer.take root.length := List.take_append_of_le_length (by omega)
          rw [if_neg apart, if_neg longer, start, if_neg same,
            List.getElem?_append_left (by omega)]
          exact inside

theorem isPathExcluded_append (table : CaseTable) (excludedSubtrees : List Path) {dir : Path}
    (rooted : Rooted dir) (name : FileName) (excluded : isPathExcluded table excludedSubtrees dir = true) :
    isPathExcluded table excludedSubtrees (append dir name.1) = true := by
  obtain ⟨root, member, inside⟩ := List.any_eq_true.mp excluded
  rw [Bool.and_eq_true] at inside
  refine List.any_eq_true.mpr ⟨root, member, ?_⟩
  rw [inside.1, isPathInside_append table rooted name inside.2]
  rfl

/-! ## Places below a directory -/

/-- The path an iterator gives to the entry at these names below a directory. -/
def iteratedPath (dir : Path) (names : List FileName) : Path :=
  names.foldl (fun path name => append path name.1) dir

theorem isPathExcluded_iteratedPath (table : CaseTable) (excludedSubtrees : List Path) {dir : Path}
    (rooted : Rooted dir) (names : List FileName)
    (excluded : isPathExcluded table excludedSubtrees dir = true) :
    isPathExcluded table excludedSubtrees (iteratedPath dir names) = true := by
  induction names generalizing dir with
  | nil => exact excluded
  | cons name rest ih =>
      exact ih (rooted.append_name name.1) (isPathExcluded_append table excludedSubtrees rooted name excluded)

/-- The relative path of a notification. -/
def relativeName (names : List FileName) : Path :=
  List.intercalate ['\\'] (names.map Subtype.val)

/-- A notification names an entry as an iterator would. -/
theorem append_relativeName (dir : Path) {names : List FileName} (nonempty : names ≠ []) :
    append dir (relativeName names) = iteratedPath dir names := by
  induction names generalizing dir with
  | nil => exact absurd rfl nonempty
  | cons name rest ih =>
      cases rest with
      | nil => simp [relativeName, iteratedPath, List.intercalate]
      | cons next more =>
          have later := ih (append dir name.1) (List.cons_ne_nil _ _)
          have closes : (append dir name.1).getLast?.any isSeparator = false := by
            obtain ⟨front, c, ended⟩ : ∃ front c, name.1 = front ++ [c] := by
              rcases List.eq_nil_or_concat name.1 with nothing | ⟨front, c, ended⟩
              · exact absurd nothing name.2.1
              · exact ⟨front, c, by simpa using ended⟩
            have plain : isSeparator c = false := name.2.2.1 c (by simp [ended])
            have ending : ∃ before, append dir name.1 = before ++ [c] := by
              unfold append
              split
              · exact ⟨dir ++ front, by rw [ended, List.append_assoc]⟩
              · exact ⟨dir ++ '\\' :: front, by rw [ended, List.append_assoc, List.cons_append]⟩
            obtain ⟨before, same⟩ := ending
            rw [same, List.getLast?_concat, Option.any_some, plain]
          have joined : relativeName (name :: next :: more) =
              name.1 ++ '\\' :: relativeName (next :: more) := by
            simp [relativeName, List.intercalate]
          rw [iteratedPath, List.foldl_cons, ← iteratedPath, ← later, joined]
          conv_rhs => rw [append, if_neg (by simp [closes])]
          unfold append
          split <;> simp

end SearchEngine.Files
