import SearchEngine.Files.LexicalPath
import SearchEngine.Lib.Words

/-!
# The text of a rooted path

A rooted path in normal form is its root name and its names, each after a separator.
On such texts the operations of `std::filesystem::path` work name by name.
-/

namespace SearchEngine.Files

open Lib

/-! ## Root names -/

/-- A drive, or a server. -/
inductive IsRootName : Path → Prop
  | drive {letter : Char} (alpha : letter.isAlpha = true) : IsRootName [letter, ':']
  | server {first second : Char} {name : Path} (firstSeparator : isSeparator first = true)
      (secondSeparator : isSeparator second = true) (filled : name ≠ []) (plain : ∀ c ∈ name, isSeparator c = false) :
      IsRootName (first :: second :: name)

/-- What may follow a root name: nothing after a server, or a separator. -/
def FollowsRoot (root rest : Path) : Prop := rest.head?.any isSeparator = true ∨ (rest = [] ∧ 3 ≤ root.length)

theorem isSeparator_alpha {c : Char} (alpha : c.isAlpha = true) : isSeparator c = false := by
  rw [isSeparator, Bool.or_eq_false_iff, beq_eq_false_iff_ne, beq_eq_false_iff_ne]
  constructor
  · rintro rfl
    exact absurd alpha (by decide)
  · rintro rfl
    exact absurd alpha (by decide)

theorem not_alpha_of_separator {c : Char} (separator : isSeparator c = true) : c.isAlpha = false := by
  by_contra alpha
  rw [isSeparator_alpha (by simpa using alpha)] at separator
  cases separator

theorem not_isRootName_nil : ¬ IsRootName [] := nofun

/-- The root name of a path is a drive or a server, if there is one. -/
theorem splitRootName_cases (path : Path) :
    (splitRootName path).1 = [] ∨
      (∃ letter, letter.isAlpha = true ∧ (splitRootName path).1 = [letter, ':']) ∨
        IsRootName (splitRootName path).1 ∧ 3 ≤ (splitRootName path).1.length ∧
          FollowsRoot (splitRootName path).1 (splitRootName path).2 := by
  match path with
  | [] => exact .inl rfl
  | [_] => exact .inl rfl
  | first :: second :: rest =>
      simp only [splitRootName]
      split
      · rename_i drive
        rw [Bool.and_eq_true, beq_iff_eq] at drive
        obtain ⟨alpha, rfl⟩ := drive
        exact .inr (.inl ⟨first, alpha, rfl⟩)
      · split
        · rename_i server
          simp only [Bool.and_eq_true, Bool.not_eq_true'] at server
          obtain ⟨⟨firstSeparator, secondSeparator⟩, named⟩ := server
          have filled : rest.takeWhile (!isSeparator ·) ≠ [] := by
            cases rest with
            | nil => simp at named
            | cons c more =>
                rw [List.head?_cons, Option.all_some] at named
                rw [List.takeWhile_cons_of_pos (by simp [named])]
                simp
          have long : 3 ≤ (first :: second :: rest.takeWhile (!isSeparator ·)).length := by
            have := List.length_pos_of_ne_nil filled
            simp only [List.length_cons]
            omega
          refine .inr (.inr ⟨.server firstSeparator secondSeparator filled ?_, long, ?_⟩)
          · intro c member
            simpa using List.mem_takeWhile_imp member
          · have stops := List.head?_dropWhile_not (!isSeparator ·) rest
            cases remaining : rest.dropWhile (!isSeparator ·) with
            | nil => exact .inr ⟨rfl, long⟩
            | cons c more =>
                rw [remaining] at stops
                exact .inl (by simpa using stops)
        · exact .inl rfl

/-- A root name is read back from the path that starts with it. -/
theorem splitRootName_rootName {root rest : Path} (isRoot : IsRootName root) (follows : FollowsRoot root rest) :
    splitRootName (root ++ rest) = (root, rest) := by
  cases isRoot with
  | drive alpha => simp [splitRootName, alpha]
  | @server first second name firstSeparator secondSeparator filled plain =>
      obtain ⟨c, more, rfl⟩ := List.exists_cons_of_ne_nil filled
      have ends : (c :: more ++ rest).takeWhile (!isSeparator ·) = c :: more ∧
          (c :: more ++ rest).dropWhile (!isSeparator ·) = rest := by
        have all : ∀ x ∈ c :: more, (!isSeparator x) = true := fun x member => by simp [plain x member]
        rw [List.takeWhile_append_of_pos all, List.dropWhile_append_of_pos all]
        rcases follows with separator | ⟨rfl, -⟩
        · cases rest with
          | nil => simp
          | cons x tail =>
              have stop : isSeparator x = true := by simpa using separator
              rw [List.takeWhile_cons_of_neg (by simp [stop]), List.dropWhile_cons_of_neg (by simp [stop])]
              simp
        · simp
      have noDrive : (first.isAlpha && second == ':') = false := by simp [not_alpha_of_separator firstSeparator]
      have named : isSeparator c = false := plain c (List.mem_cons_self ..)
      simp only [List.cons_append] at ends ⊢
      rw [splitRootName, if_neg (by simp [noDrive]),
        if_pos (by simp [firstSeparator, secondSeparator, named]), ends.1, ends.2]

/-- An absolute path has a root name, and a separator after it unless it is a server alone. -/
theorem isAbsolutePath_iff (path : Path) :
    isAbsolutePath path = true ↔
      IsRootName (splitRootName path).1 ∧ FollowsRoot (splitRootName path).1 (splitRootName path).2 := by
  rw [isAbsolutePath]
  rcases splitRootName_cases path with empty | ⟨letter, alpha, drive⟩ | ⟨isRoot, long, follows⟩
  · simp [empty, not_isRootName_nil]
  · simp [drive, FollowsRoot, IsRootName.drive alpha]
  · have notDrive : ¬ (splitRootName path).1.length = 2 := by omega
    have filled : (splitRootName path).1 ≠ [] := by
      intro empty
      simp [empty] at long
    simp [notDrive, filled, isRoot, follows]

/-- The same root name with the separators that Windows prefers. -/
def spelledRoot (root : Path) : Path := root.map fun c => if isSeparator c then '\\' else c

theorem IsRootName.spelled {root : Path} (isRoot : IsRootName root) : IsRootName (spelledRoot root) := by
  cases isRoot with
  | drive alpha =>
      simpa [spelledRoot, isSeparator_alpha alpha, show isSeparator ':' = false by decide] using IsRootName.drive alpha
  | @server first second name firstSeparator secondSeparator filled plain =>
      have kept : (name.map fun c => if isSeparator c then '\\' else c) = name := by
        apply (List.map_congr_left _).trans (List.map_id' name)
        exact fun c member => if_neg (by simp [plain c member])
      rw [spelledRoot, List.map_cons, List.map_cons, if_pos firstSeparator, if_pos secondSeparator, kept]
      exact .server (by decide) (by decide) filled plain

theorem slash_not_mem_spelledRoot (root : Path) : '/' ∉ spelledRoot root := by
  intro slash
  obtain ⟨c, -, spelled⟩ := List.mem_map.mp slash
  split at spelled
  · cases spelled
  · rename_i plain
    exact plain (spelled ▸ by decide)

/-! ## Normal texts -/

/-- A root name, the names below it, and whether a separator ends the text. -/
def placeText (root : Path) (names : List Path) (closed : Bool) : Path :=
  root ++ (names.flatMap ('\\' :: ·) ++ if closed then ['\\'] else [])

/-- A name that stands for an entry of its directory. -/
structure IsEntry (name : Path) : Prop where
  isWord : IsWord isSeparator name
  notDot : isDot name = false
  notDotDot : isDotDot name = false

/-- The parts of a normal text. -/
structure IsPlace (root : Path) (names : List Path) (closed : Bool) : Prop where
  isRoot : IsRootName root
  spelled : '/' ∉ root
  entries : ∀ name ∈ names, IsEntry name
  rooted : names ≠ [] ∨ closed = true ∨ 3 ≤ root.length

variable {root : Path} {names : List Path} {closed : Bool}

theorem separator_backslash : isSeparator '\\' = true := by decide

theorem splitOnP_plain {name : Path} (plain : ∀ c ∈ name, isSeparator c = false) (rest : Path) :
    (name ++ rest).splitOnP isSeparator = (rest.splitOnP isSeparator).modifyHead (name ++ ·) := by
  induction name with
  | nil =>
      rw [List.nil_append]
      cases rest.splitOnP isSeparator <;> rfl
  | cons c more ih =>
      rw [List.cons_append, List.splitOnP_cons_eq_if_modifyHead, if_neg (by simp [plain c (List.mem_cons_self ..)]),
        ih fun x member => plain x (List.mem_cons_of_mem _ member)]
      cases rest.splitOnP isSeparator <;> rfl

/-- What follows the root name, cut at the separators. -/
theorem splitOnP_names (entries : ∀ name ∈ names, IsEntry name) (closed : Bool) :
    (names.flatMap ('\\' :: ·) ++ if closed then ['\\'] else []).splitOnP isSeparator =
      [] :: (names ++ if closed then [[]] else []) := by
  induction names with
  | nil => cases closed <;> decide
  | cons name rest ih =>
      have plain := (entries name (List.mem_cons_self ..)).isWord.2
      have after := ih fun other member => entries other (List.mem_cons_of_mem _ member)
      rw [List.flatMap_cons, List.cons_append, List.cons_append, List.append_assoc,
        List.splitOnP_cons_eq_if_modifyHead, if_pos separator_backslash, splitOnP_plain plain, after,
        List.modifyHead_cons, List.append_nil, List.cons_append]

theorem words_names (entries : ∀ name ∈ names, IsEntry name) (closed : Bool) :
    words isSeparator (names.flatMap ('\\' :: ·) ++ if closed then ['\\'] else []) = names := by
  have filled : names.filter (!·.isEmpty) = names :=
    List.filter_eq_self.mpr fun name member => by simpa using (entries name member).isWord.1
  rw [words, splitOnP_names entries, List.filter_cons_of_neg (by simp), List.filter_append, filled]
  cases closed <;> simp

/-- Entries are kept as they stand. -/
theorem foldl_lexicalStep (isRooted : Bool) (before : List Path) :
    (∀ name ∈ names, IsEntry name) → names.foldl (lexicalStep isRooted) before = before ++ names := by
  induction names generalizing before with
  | nil => simp
  | cons name rest ih =>
      intro entries
      have entry := entries name (List.mem_cons_self ..)
      rw [List.foldl_cons, ih _ fun other member => entries other (List.mem_cons_of_mem _ member), lexicalStep,
        entry.notDot, entry.notDotDot]
      simp

theorem lexicalNames_names (entries : ∀ name ∈ names, IsEntry name) (closed : Bool) :
    lexicalNames (names.flatMap ('\\' :: ·) ++ if closed then ['\\'] else []) = names := by
  have read := words_names entries closed
  rw [words] at read
  rw [lexicalNames, read, foldl_lexicalStep _ _ entries, List.nil_append]

/-- Below a root every name that `lexically_normal` keeps is an entry. -/
theorem isEntry_of_mem_lexicalNames {rest : Path} (isRooted : rest.head?.any isSeparator = true) :
    ∀ name ∈ lexicalNames rest, IsEntry name := by
  have step : ∀ before name, (∀ name ∈ before, IsEntry name) → IsWord isSeparator name →
      ∀ kept ∈ lexicalStep true before name, IsEntry kept := by
    intro before name all isWord kept member
    rw [lexicalStep] at member
    split at member
    · exact all kept member
    · rename_i notDot
      split at member
      · split at member
        · exact all kept (List.dropLast_subset _ member)
        · exact all kept member
      · rename_i notDotDot
        rcases List.mem_append.mp member with old | new
        · exact all kept old
        · rw [List.mem_singleton] at new
          exact new ▸ ⟨isWord, by simpa using notDot, by simpa using notDotDot⟩
  have run : ∀ parts before : List Path, (∀ name ∈ before, IsEntry name) → (∀ part ∈ parts, IsWord isSeparator part) →
      ∀ kept ∈ parts.foldl (lexicalStep true) before, IsEntry kept := by
    intro parts
    induction parts with
    | nil => exact fun before all _ => all
    | cons part more ih =>
        intro before all isWords
        exact ih _ (step before part all (isWords part (List.mem_cons_self ..)))
          fun other member => isWords other (List.mem_cons_of_mem _ member)
  rw [lexicalNames, isRooted]
  exact run _ [] (by simp) fun part member => isWord_of_mem_words member

theorem IsPlace.follows (place : IsPlace root names closed) :
    FollowsRoot root (names.flatMap ('\\' :: ·) ++ if closed then ['\\'] else []) := by
  cases names with
  | cons name rest => exact .inl (by simp [separator_backslash])
  | nil =>
      cases closed with
      | true => exact .inl (by simp [separator_backslash])
      | false =>
          rcases place.rooted with named | ends | long
          · exact absurd rfl named
          · cases ends
          · exact .inr ⟨rfl, long⟩

theorem IsPlace.text_ne_nil (place : IsPlace root names closed) : placeText root names closed ≠ [] := by
  cases place.isRoot <;> simp [placeText]

theorem splitRootName_place (place : IsPlace root names closed) :
    splitRootName (placeText root names closed) =
      (root, names.flatMap ('\\' :: ·) ++ if closed then ['\\'] else []) :=
  splitRootName_rootName place.isRoot place.follows

theorem intercalate_names (filled : names ≠ []) : '\\' :: ['\\'].intercalate names = names.flatMap ('\\' :: ·) := by
  induction names with
  | nil => exact absurd rfl filled
  | cons name rest ih =>
      cases rest with
      | nil => simp [List.intercalate]
      | cons second more =>
          rw [List.intercalate_cons_cons, List.flatMap_cons, ← ih (by simp)]
          simp

theorem endsAsDirectory_names (entries : ∀ name ∈ names, IsEntry name) (filled : names ≠ []) (closed : Bool) :
    endsAsDirectory (names.flatMap ('\\' :: ·) ++ if closed then ['\\'] else []) = closed := by
  have last : ∀ (front : List Path) (part : Path), ([] :: (front ++ [part])).getLast? = some part := by
    intro front part
    rw [← List.cons_append, List.getLast?_concat]
  rw [endsAsDirectory, splitOnP_names entries]
  cases closed with
  | true => simp [last]
  | false =>
      obtain ⟨front, part, rfl⟩ : ∃ front part, names = front ++ [part] := by
        rcases List.eq_nil_or_concat names with empty | ⟨front, part, parts⟩
        · exact absurd empty filled
        · exact ⟨front, part, by simpa using parts⟩
      have entry := entries part (by simp)
      simp [last, entry.isWord.1, entry.notDot, entry.notDotDot]

theorem spelledRoot_eq_self (spelled : '/' ∉ root) : spelledRoot root = root := by
  apply (List.map_congr_left _).trans (List.map_id' root)
  intro c member
  split
  · rename_i separator
    rw [isSeparator, Bool.or_eq_true, beq_iff_eq, beq_iff_eq] at separator
    rcases separator with rfl | rfl
    · exact absurd member spelled
    · rfl
  · rfl

/-- What `lexically_normal` writes is a normal text. -/
theorem normalText_eq {rest : Path} (front : Path) (shape : rest.head?.any isSeparator = true ∨ rest = [])
    (kept : List Path) (entries : ∀ name ∈ kept, IsEntry name) (read : lexicalNames rest = kept) :
    front ++ (if rest.head?.any isSeparator then ['\\'] else []) ++ ['\\'].intercalate kept ++
        (if endsAsDirectory rest && kept.getLast?.any (!isDotDot ·) then ['\\'] else []) =
      placeText front kept
        (if kept = [] then rest.head?.any isSeparator else endsAsDirectory rest) := by
  rcases shape with separator | rfl
  · rw [separator, placeText]
    by_cases empty : kept = []
    · subst empty
      simp [List.intercalate]
    · obtain ⟨first, last, rfl⟩ : ∃ first last, kept = first ++ [last] := by
        rcases List.eq_nil_or_concat kept with none | ⟨first, last, parts⟩
        · exact absurd none empty
        · exact ⟨first, last, by simpa using parts⟩
      rw [if_neg empty, ← intercalate_names empty]
      simp [(entries last (by simp)).notDotDot]
  · have none : kept = [] := by rw [← read]; decide
    subst none
    simp [placeText, List.intercalate]

/-- A normal text is left as it is. -/
theorem lexicallyNormal_place (place : IsPlace root names closed) :
    lexicallyNormal (placeText root names closed) = placeText root names closed := by
  have filled := place.text_ne_nil
  have shape : (names.flatMap ('\\' :: ·) ++ if closed then ['\\'] else []).head?.any isSeparator = true ∨
      (names.flatMap ('\\' :: ·) ++ if closed then ['\\'] else []) = [] := by
    rcases place.follows with separator | ⟨empty, -⟩
    · exact .inl separator
    · exact .inr empty
  have text := normalText_eq root shape names place.entries (lexicalNames_names place.entries closed)
  have same : (if names = [] then
      (names.flatMap ('\\' :: ·) ++ if closed then ['\\'] else []).head?.any isSeparator
      else endsAsDirectory (names.flatMap ('\\' :: ·) ++ if closed then ['\\'] else [])) = closed := by
    split
    · rename_i empty
      subst empty
      cases closed <;> decide
    · rename_i some
      exact endsAsDirectory_names place.entries some closed
  rw [same] at text
  have spelled := spelledRoot_eq_self place.spelled
  rw [spelledRoot] at spelled
  unfold lexicallyNormal
  simp only [splitRootName_place place, lexicalNames_names place.entries, spelled]
  rw [text, if_neg (by simp)]

/-- The normal form of an absolute path. -/
theorem lexicallyNormal_absolute {path : Path} (absolute : isAbsolutePath path = true) :
    ∃ closed, IsPlace (spelledRoot (splitRootName path).1) (lexicalNames (splitRootName path).2) closed ∧
      lexicallyNormal path =
        placeText (spelledRoot (splitRootName path).1) (lexicalNames (splitRootName path).2) closed := by
  obtain ⟨isRoot, follows⟩ := (isAbsolutePath_iff path).mp absolute
  have shape : (splitRootName path).2.head?.any isSeparator = true ∨ (splitRootName path).2 = [] := by
    rcases follows with separator | ⟨empty, -⟩
    · exact .inl separator
    · exact .inr empty
  have entries : ∀ name ∈ lexicalNames (splitRootName path).2, IsEntry name := by
    rcases shape with separator | empty
    · exact isEntry_of_mem_lexicalNames separator
    · rw [empty, show lexicalNames [] = [] by decide]
      simp
  have filled : spelledRoot (splitRootName path).1 ≠ [] := by
    intro empty
    exact not_isRootName_nil (empty ▸ isRoot.spelled)
  have text := normalText_eq (spelledRoot (splitRootName path).1) shape _ entries rfl
  refine ⟨if lexicalNames (splitRootName path).2 = [] then (splitRootName path).2.head?.any isSeparator
    else endsAsDirectory (splitRootName path).2, ⟨isRoot.spelled, slash_not_mem_spelledRoot _, entries, ?_⟩, ?_⟩
  rotate_left
  · unfold lexicallyNormal
    rw [spelledRoot] at text filled ⊢
    simp only
    rw [text, if_neg (by simp [placeText, filled])]
  · rcases follows with separator | ⟨-, long⟩
    · by_cases empty : lexicalNames (splitRootName path).2 = []
      · exact .inr (.inl (by rw [if_pos empty, separator]))
      · exact .inl empty
    · exact .inr (.inr (by simpa [spelledRoot] using long))

/-! ## A name below a place -/

theorem IsPlace.child (place : IsPlace root names closed) {name : Path} (entry : IsEntry name) :
    IsPlace root (names ++ [name]) false where
  isRoot := place.isRoot
  spelled := place.spelled
  entries := by
    intro other member
    rcases List.mem_append.mp member with old | new
    · exact place.entries other old
    · exact List.mem_singleton.mp new ▸ entry
  rooted := .inl (by simp)

theorem splitRootName_name {name : Path} (entry : IsEntry name) (noDrive : ':' ∉ name) : splitRootName name = ([], name) := by
  match name with
  | [] => rfl
  | [_] => rfl
  | first :: second :: rest =>
      have plain : isSeparator first = false := entry.isWord.2 first (List.mem_cons_self ..)
      have notColon : (second == ':') = false := by
        rw [beq_eq_false_iff_ne]
        rintro rfl
        exact noDrive (by simp)
      simp [splitRootName, plain, notColon]

/-- `operator/` with a name writes the name after the others. -/
theorem joinPath_place (place : IsPlace root names closed) {name : Path} (entry : IsEntry name) (noDrive : ':' ∉ name) :
    joinPath (placeText root names closed) name = placeText root (names ++ [name]) false := by
  have plainHead : name.head?.any isSeparator = false := by
    cases name with
    | nil => rfl
    | cons c more => simpa using entry.isWord.2 c (List.mem_cons_self ..)
  have joined : ∀ front, front ++ '\\' :: name = placeText root (names ++ [name]) false ↔
      front = root ++ names.flatMap ('\\' :: ·) := by
    intro front
    rw [placeText, List.flatMap_append]
    simp only [List.flatMap_cons, List.flatMap_nil, List.append_nil, Bool.false_eq_true, if_false]
    rw [← List.append_assoc, List.append_left_inj]
  rw [joinPath, splitRootName_place place, splitRootName_name entry noDrive, isAbsolutePath,
    splitRootName_name entry noDrive]
  simp only [List.length_nil, List.isEmpty_nil, Bool.not_true, Bool.false_and, Bool.false_eq_true, plainHead,
    show ¬ (0 = 2) by omega, if_false, Bool.or_self]
  cases closed with
  | true =>
      have ends : (placeText root names true).getLast?.any isSeparator = true := by
        simp [placeText, separator_backslash, ← List.append_assoc]
      have rest : (names.flatMap ('\\' :: ·) ++ if true = true then ['\\'] else []).isEmpty = false := by simp
      rw [rest, if_neg (by simp), if_pos ends]
      simp [placeText]
  | false =>
      have text : placeText root names false = root ++ names.flatMap ('\\' :: ·) := by simp [placeText]
      rcases List.eq_nil_or_concat names with empty | ⟨front, last, parts⟩
      · have long : ¬ (placeText root names false).length < 3 := by
          rcases place.rooted with named | ends | long
          · exact absurd empty named
          · cases ends
          · simp only [placeText, List.length_append]
            omega
        rw [if_pos (by simp [empty]), if_neg long]
        exact (joined _).mpr text
      · have entry := place.entries last (by simp [parts])
        have notEnded : (placeText root names false).getLast?.any isSeparator = false := by
          obtain ⟨before, c, spelled⟩ : ∃ before c, last = before ++ [c] := by
            rcases List.eq_nil_or_concat last with empty | ⟨before, c, spelled⟩
            · exact absurd empty entry.isWord.1
            · exact ⟨before, c, by simpa using spelled⟩
          have plain := entry.isWord.2 c (by simp [spelled])
          rw [text, parts, spelled, List.concat_eq_append, List.flatMap_append, List.flatMap_cons, List.flatMap_nil, List.append_nil,
            ← List.cons_append, ← List.append_assoc, ← List.append_assoc, List.getLast?_concat]
          simpa using plain
        have rest : (names.flatMap ('\\' :: ·) ++ if false = true then ['\\'] else []).isEmpty = false := by
          simp [parts]
        rw [rest, if_neg (by simp), notEnded, if_neg (by simp)]
        exact (joined _).mpr text

end SearchEngine.Files
