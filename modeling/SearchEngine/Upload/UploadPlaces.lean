import SearchEngine.Upload.SafeNames
import SearchEngine.Upload.UploadTarget

/-!
# Uploads stay below their root

Planned folders, staging files and published names are written name by name below the
normal form of the configured root.
-/

namespace SearchEngine.Upload

open Files Lib Server

variable {table : UpperCase} {root : Path} {names : List Path} {closed : Bool} {name : Path}

/-! ## Compositions -/

/-- The separator between the root name and the names. -/
def rootElement (names : List Path) (closed : Bool) : List Path := if names.isEmpty && !closed then [] else [['\\']]

/-- The separator at the end. -/
def closingElement (names : List Path) (closed : Bool) : List Path := if !names.isEmpty && closed then [[]] else []

theorem elements_place (place : IsPlace root names closed) :
    elements (placeText root names closed) =
      root :: (rootElement names closed ++ names ++ closingElement names closed) := by
  have named : root.isEmpty = false := by cases place.isRoot <;> rfl
  have read := words_names place.entries closed
  rw [words] at read
  simp only [elements, splitRootName_place place, read, named]
  cases names with
  | nil => cases closed <;> simp [rootElement, closingElement, separator_backslash]
  | cons first more =>
      cases closed with
      | true =>
          have ends : ((first :: more).flatMap ('\\' :: ·) ++ ['\\']).getLast?.any isSeparator = true := by
            rw [List.getLast?_concat]
            exact separator_backslash
          simp only [if_true, ends]
          simp [rootElement, closingElement, separator_backslash]
      | false =>
          obtain ⟨front, last, parts⟩ : ∃ front last, first :: more = front ++ [last] := by
            rcases List.eq_nil_or_concat (first :: more) with empty | ⟨front, last, parts⟩
            · cases empty
            · exact ⟨front, last, by simpa using parts⟩
          obtain ⟨before, c, spelled⟩ : ∃ before c, last = before ++ [c] := by
            rcases List.eq_nil_or_concat last with empty | ⟨before, c, spelled⟩
            · exact absurd empty (place.entries last (by simp [parts])).isWord.1
            · exact ⟨before, c, by simpa using spelled⟩
          have plain : isSeparator c = false :=
            (place.entries last (by simp [parts])).isWord.2 c (by simp [spelled])
          have open_ : ((first :: more).flatMap ('\\' :: ·)).getLast?.any isSeparator = false := by
            rw [parts, spelled, List.flatMap_append, List.flatMap_cons, List.flatMap_nil, List.append_nil,
              ← List.cons_append, ← List.append_assoc, List.getLast?_concat]
            simpa using plain
          simp only [Bool.false_eq_true, if_false, List.append_nil, open_]
          simp [rootElement, closingElement, separator_backslash]

/-- A place contains a root name when one of its names does. -/
theorem containsRootName_place (place : IsPlace root names closed) :
    containsRootName (placeText root names closed) = names.any fun name => !(splitRootName name).1.isEmpty := by
  rw [containsRootName, splitRootName_place place, splitOnP_names place.entries]
  cases closed <;> simp [splitRootName]

theorem afterCommon_append (common left right : List Path) :
    afterCommon (common ++ left) (common ++ right) = afterCommon left right := by
  induction common with
  | nil => rfl
  | cons first rest ih => simp [afterCommon, ih]

theorem isAbsolutePath_place (place : IsPlace root names closed) : isAbsolutePath (placeText root names closed) = true := by
  rw [isAbsolutePath_iff, splitRootName_place place]
  exact ⟨place.isRoot, place.follows⟩

/-- A name relative to its directory is the name, after the separator of a server. -/
theorem lexicallyRelative_child (place : IsPlace root names closed) (entry : IsEntry name) (noDrive : ':' ∉ name)
    (noRoots : containsRootName (placeText root names closed) = false) :
    ∃ separators, (separators = [] ∨ separators = [['\\']]) ∧
      lexicallyRelative (placeText root (names ++ [name]) false) (placeText root names closed) =
        separators ++ [name] := by
  have child := place.child entry
  have noRootsChild : containsRootName (placeText root (names ++ [name]) false) = false := by
    rw [containsRootName_place place] at noRoots
    rw [containsRootName_place child, List.any_append, noRoots]
    simp [splitRootName_name entry noDrive]
  have depths : depth [] = 0 ∧ depth [[]] = 0 := by decide
  have slash : ((names ++ [name]).flatMap ('\\' :: ·) ++ if false = true then ['\\'] else []).head?.any isSeparator = true := by
    cases names <;> simp [separator_backslash]
  have filled : name.isEmpty = false := by simpa using entry.isWord.1
  unfold lexicallyRelative
  rw [isAbsolutePath_place place, isAbsolutePath_place child, splitRootName_place place, splitRootName_place child,
    noRoots, noRootsChild, slash, elements_place place, elements_place child]
  have start : rootElement (names ++ [name]) false = [['\\']] := by simp [rootElement]
  have finish : closingElement (names ++ [name]) false = [] := by simp [closingElement]
  rw [start, finish, List.append_nil]
  by_cases bare : names.isEmpty && !closed
  · -- a server alone has no separator yet
    rw [Bool.and_eq_true, Bool.not_eq_true'] at bare
    obtain ⟨empty, rfl⟩ := bare
    rw [List.isEmpty_iff] at empty
    subst empty
    refine ⟨[['\\']], .inr rfl, ?_⟩
    simp [rootElement, closingElement, afterCommon, depths]
  · have opened : rootElement names closed = [['\\']] := by simp [rootElement, bare]
    have common : afterCommon (root :: ([['\\']] ++ (names ++ [name]))) (root :: ([['\\']] ++ names ++ closingElement names closed)) =
        ([name], closingElement names closed) := by
      have shared := afterCommon_append (root :: (['\\'] :: names)) [name] (closingElement names closed)
      have last : afterCommon [name] (closingElement names closed) = ([name], closingElement names closed) := by
        unfold closingElement
        split
        · simp [afterCommon, entry.isWord.1]
        · rfl
      rw [last] at shared
      simpa using shared
    have level : depth (closingElement names closed) = 0 := by
      unfold closingElement
      split
      · exact depths.2
      · exact depths.1
    refine ⟨[], .inl rfl, ?_⟩
    rw [opened, common]
    simp [level, filled]

/-- A name stays below its directory. -/
theorem composition_child (place : IsPlace root names closed) (entry : IsEntry name) (noDrive : ':' ∉ name)
    (noRoots : containsRootName (placeText root names closed) = false) :
    compositionStaysUnderDirectory (placeText root names closed) (placeText root (names ++ [name]) false) = true := by
  obtain ⟨separators, shape, relative⟩ := lexicallyRelative_child place entry noDrive noRoots
  have filled : (placeText root names closed).isEmpty = false ∧ (placeText root (names ++ [name]) false).isEmpty = false := by
    simp [place.text_ne_nil, (place.child entry).text_ne_nil]
  have down : (separators ++ [name]).isEmpty = false ∧ separators ++ [name] ≠ [['.']] ∧
      (separators ++ [name]).any isDotDot = false := by
    have notDot : name ≠ ['.'] := by simpa [isDot] using entry.notDot
    rcases shape with rfl | rfl
    · simp [notDot, entry.notDotDot]
    · simp [entry.notDotDot, show isDotDot ['\\'] = false by decide]
  unfold compositionStaysUnderDirectory
  simp only [lexicallyNormal_place place, lexicallyNormal_place (place.child entry), relative, filled]
  simp [down.1, down.2.1, down.2.2]

/-- A composition that is accepted has no drive among its names. -/
theorem noRoots_of_composition {otherNames : List Path} {otherClosed : Bool} (place : IsPlace root names closed)
    (other : IsPlace root otherNames otherClosed)
    (stays : compositionStaysUnderDirectory (placeText root names closed) (placeText root otherNames otherClosed) = true)
    (different : placeText root otherNames otherClosed ≠ placeText root names closed) :
    containsRootName (placeText root otherNames otherClosed) = false := by
  by_contra roots
  rw [Bool.not_eq_false] at roots
  have relative : lexicallyRelative (placeText root otherNames otherClosed) (placeText root names closed) = [] := by
    unfold lexicallyRelative
    rw [if_pos (by simp [roots])]
  unfold compositionStaysUnderDirectory at stays
  simp only [lexicallyNormal_place place, lexicallyNormal_place other, relative] at stays
  simp [different] at stays

theorem lexicallyRelative_self (path : Path) (noRoots : containsRootName path = false) :
    lexicallyRelative path path = [['.']] := by
  have same := afterCommon_append (elements path) [] []
  rw [List.append_nil] at same
  unfold lexicallyRelative
  simp [noRoots, same, afterCommon]

end SearchEngine.Upload
