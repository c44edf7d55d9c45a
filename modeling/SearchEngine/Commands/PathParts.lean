import SearchEngine.Files.PathText
import SearchEngine.Upload.UploadTarget

/-!
# The elements of a normal path

`lexically_normal` writes a text that is read again. Its elements are the root name, the
separator after it and the kept names, unless the path has no root name and its first
name reads as a drive.
-/

namespace SearchEngine.Commands

open Files Lib Upload

/-- The names that are left of a path begin as a drive, which the path itself has not. -/
def startsAsDrive (path : Path) : Bool :=
  (splitRootName path).1.isEmpty && !(splitRootName path).2.head?.any isSeparator &&
    (lexicalNames (splitRootName path).2).head?.any fun name => !(splitRootName name).1.isEmpty

/-- An element that leads somewhere: not the end of a path in a separator, and not a dot. -/
def isProper (name : Path) : Bool := !name.isEmpty && !isDot name

/-! ## Kept names -/

/-- A run of `..` and then names. -/
structure Kept (rooted : Bool) (ups : Nat) (names rest : List Path) : Prop where
  split : names = List.replicate ups ['.', '.'] ++ rest
  plain : ∀ name ∈ rest, isDotDot name = false
  top : rooted = true → ups = 0

/-- A step adds to the leading `..` or to the names behind them. -/
theorem Kept.step {rooted : Bool} {ups : Nat} {names rest : List Path}
    (kept : Kept rooted ups names rest) (name : Path) :
    ∃ more next, Kept rooted (ups + more) (lexicalStep rooted names name) next := by
  obtain ⟨rfl, plain, top⟩ := kept
  unfold lexicalStep
  split
  · exact ⟨0, rest, rfl, plain, top⟩
  · split
    case isTrue up =>
      have dots : name = ['.', '.'] := by simpa [isDotDot] using up
      rcases List.eq_nil_or_concat rest with rfl | ⟨front, last, rfl⟩
      · have none : (List.replicate ups ['.', '.'] ++ []).getLast?.any (!isDotDot ·) = false := by
          cases ups with
          | zero => rfl
          | succ ups => simp [List.replicate_succ', isDotDot]
        rw [none, if_neg (by decide)]
        split
        · exact ⟨0, [], rfl, plain, top⟩
        case isFalse unrooted =>
          refine ⟨1, [], ?_, plain, fun rooted => absurd rooted unrooted⟩
          rw [dots, List.append_nil, List.append_nil, List.replicate_succ']
      · have some : (List.replicate ups ['.', '.'] ++ front.concat last).getLast?.any (!isDotDot ·) = true := by
          simp [plain last (by simp)]
        rw [if_pos some]
        refine ⟨0, front, ?_, fun name member => plain name (by simp [member]), top⟩
        rw [List.concat_eq_append, ← List.append_assoc, List.dropLast_concat]
        rfl
    case isFalse down =>
      refine ⟨0, rest ++ [name], by simp, ?_, top⟩
      intro other member
      obtain old | new := List.mem_append.mp member
      · exact plain other old
      · obtain rfl := List.mem_singleton.mp new
        simpa using down

theorem Kept.foldl {rooted : Bool} {ups : Nat} {names rest : List Path}
    (kept : Kept rooted ups names rest) (parts : List Path) :
    ∃ more next, Kept rooted (ups + more) (parts.foldl (lexicalStep rooted) names) next := by
  induction parts generalizing ups names rest with
  | nil => exact ⟨0, rest, kept⟩
  | cons part parts ih =>
      obtain ⟨more, next, stepped⟩ := kept.step part
      obtain ⟨further, last, ran⟩ := ih stepped
      exact ⟨more + further, last, Nat.add_assoc ups more further ▸ ran⟩

/-- The names that `lexically_normal` keeps. -/
theorem kept_lexicalNames (rest : Path) :
    ∃ ups names, Kept (rest.head?.any isSeparator) ups (lexicalNames rest) names := by
  have start : Kept (rest.head?.any isSeparator) 0 [] [] := ⟨rfl, by simp, fun _ => rfl⟩
  obtain ⟨more, names, kept⟩ := start.foldl (words isSeparator rest)
  exact ⟨0 + more, names, kept⟩

/-- Every kept name is a word and no dot. -/
theorem isWord_of_mem_lexicalNames (rest : Path) :
    ∀ name ∈ lexicalNames rest, IsWord isSeparator name ∧ isDot name = false := by
  have step (rooted : Bool) (names : List Path) (name : Path)
      (all : ∀ name ∈ names, IsWord isSeparator name ∧ isDot name = false)
      (isWord : IsWord isSeparator name) :
      ∀ kept ∈ lexicalStep rooted names name, IsWord isSeparator kept ∧ isDot kept = false := by
    intro kept member
    unfold lexicalStep at member
    split at member
    · exact all kept member
    case isFalse notDot =>
      have new (inside : kept ∈ names ++ [name]) : IsWord isSeparator kept ∧ isDot kept = false := by
        obtain old | here := List.mem_append.mp inside
        · exact all kept old
        · obtain rfl := List.mem_singleton.mp here
          exact ⟨isWord, by simpa using notDot⟩
      split at member
      · split at member
        · exact all kept (List.dropLast_subset _ member)
        · split at member
          · exact all kept member
          · exact new member
      · exact new member
  have run (rooted : Bool) (parts names : List Path)
      (all : ∀ name ∈ names, IsWord isSeparator name ∧ isDot name = false)
      (isWords : ∀ part ∈ parts, IsWord isSeparator part) :
      ∀ kept ∈ parts.foldl (lexicalStep rooted) names, IsWord isSeparator kept ∧ isDot kept = false := by
    induction parts generalizing names with
    | nil => exact all
    | cons part parts ih =>
        obtain ⟨first, more⟩ := List.forall_mem_cons.mp isWords
        exact ih _ (step rooted names part all first) more
  exact run _ _ [] (by simp) fun part member => isWord_of_mem_words member

/-! ## The normal text -/

/-- What `lexically_normal` writes after the root name. -/
def normalRest (rest : Path) : Path :=
  (if rest.head?.any isSeparator then ['\\'] else []) ++ ['\\'].intercalate (lexicalNames rest) ++
    if endsAsDirectory rest && (lexicalNames rest).getLast?.any (!isDotDot ·) then ['\\'] else []

theorem lexicallyNormal_eq (path : Path) (some : path ≠ []) :
    lexicallyNormal path =
      if spelledRoot (splitRootName path).1 ++ normalRest (splitRootName path).2 = [] then ['.']
      else spelledRoot (splitRootName path).1 ++ normalRest (splitRootName path).2 := by
  unfold lexicallyNormal normalRest spelledRoot
  simp [some, List.append_assoc]

/-- The text after the root name is empty, or begins as the first kept name does. -/
theorem head_normalRest (rest : Path) :
    (normalRest rest).head?.any isSeparator = rest.head?.any isSeparator := by
  have names := isWord_of_mem_lexicalNames rest
  unfold normalRest
  cases rooted : rest.head?.any isSeparator with
  | true => simp [separator_backslash]
  | false =>
      cases kept : lexicalNames rest with
      | nil => simp [List.intercalate]
      | cons name more =>
          rw [kept] at names
          obtain ⟨filled, plain⟩ := (names name List.mem_cons_self).1
          obtain ⟨c, tail, rfl⟩ := List.exists_cons_of_ne_nil filled
          have first : isSeparator c = false := plain c List.mem_cons_self
          cases more with
          | nil => simp [List.intercalate, first]
          | cons second more => simp [List.intercalate_cons_cons, first]

theorem words_normalRest (rest : Path) : words isSeparator (normalRest rest) = lexicalNames rest := by
  have names := isWord_of_mem_lexicalNames rest
  have inner : words isSeparator (['\\'].intercalate (lexicalNames rest) ++
      if endsAsDirectory rest && (lexicalNames rest).getLast?.any (!isDotDot ·) then ['\\'] else []) =
      lexicalNames rest := by
    have joined := words_intercalate separator_backslash (lexicalNames rest) fun name member =>
      (names name member).1
    split
    · rw [words_concat _ separator_backslash, joined]
    · rw [List.append_nil, joined]
  unfold normalRest
  rw [List.append_assoc]
  split
  · rw [List.singleton_append, words_stop _ separator_backslash, inner]
  · exact inner

/-- A text without a root name of its own. -/
theorem splitRootName_bare {text : Path}
    (noDrive : ∀ c rest, text = c :: ':' :: rest → c.isAlpha = false)
    (noServer : ∀ c d rest, text = c :: d :: rest → isSeparator c = true → isSeparator d = false) :
    splitRootName text = ([], text) := by
  match text with
  | [] => rfl
  | [_] => rfl
  | first :: second :: rest =>
      have drive : (first.isAlpha && second == ':') = false := by
        by_cases colon : second = ':'
        · subst colon
          simp [noDrive first rest rfl]
        · simp [colon]
      have server : (isSeparator first && isSeparator second) = false := by
        by_cases slash : isSeparator first = true
        · simp [noServer first second rest rfl slash]
        · simp [slash]
      simp [splitRootName, drive, server]

/-- The separator, and the first kept name up to a separator or the end. -/
theorem normalRest_shape (rest : Path) :
    ∃ tail, (tail = [] ∨ ∃ more, tail = '\\' :: more) ∧ normalRest rest =
      (if rest.head?.any isSeparator then ['\\'] else []) ++
        ((lexicalNames rest).head?.map (· ++ tail)).getD [] := by
  unfold normalRest
  cases lexicalNames rest with
  | nil => exact ⟨[], .inl rfl, by simp [List.intercalate]⟩
  | cons name names =>
      cases names with
      | nil =>
          refine ⟨if endsAsDirectory rest && [name].getLast?.any (!isDotDot ·) then ['\\'] else [], ?_, ?_⟩
          · split
            · exact .inr ⟨[], rfl⟩
            · exact .inl rfl
          · simp [List.intercalate]
      | cons second names =>
          refine ⟨'\\' :: (['\\'].intercalate (second :: names) ++ if endsAsDirectory rest &&
            (name :: second :: names).getLast?.any (!isDotDot ·) then ['\\'] else []), .inr ⟨_, rfl⟩, ?_⟩
          simp [List.intercalate_cons_cons]

/-- A name and what follows it read as a drive only if the name does. -/
theorem not_alpha_of_plain {name tail more : Path} {c : Char} (noDrive : (splitRootName name).1 = [])
    (filled : name ≠ []) (ends : tail = [] ∨ ∃ more, tail = '\\' :: more)
    (same : name ++ tail = c :: ':' :: more) : c.isAlpha = false := by
  match name, filled with
  | [first], _ =>
      obtain ⟨-, rest⟩ := List.cons.inj same
      obtain rfl | ⟨others, rfl⟩ := ends
      · cases rest
      · exact absurd (List.cons.inj rest).1 (by decide)
  | first :: second :: others, _ =>
      obtain ⟨rfl, rest⟩ := List.cons.inj same
      obtain ⟨rfl, -⟩ := List.cons.inj rest
      by_contra alpha
      rw [Bool.not_eq_false] at alpha
      simp [splitRootName, alpha] at noDrive

/-- Without a root name the normal text has none either. -/
theorem splitRootName_normalRest {rest : Path} (clean : rest.head?.any isSeparator = false →
    ∀ name, (lexicalNames rest).head? = some name → (splitRootName name).1 = []) :
    splitRootName (normalRest rest) = ([], normalRest rest) := by
  have names := isWord_of_mem_lexicalNames rest
  obtain ⟨tail, ends, text⟩ := normalRest_shape rest
  cases rooted : rest.head?.any isSeparator with
  | true =>
      apply splitRootName_bare
      · intro c more same
        rw [text, rooted, if_pos rfl, List.singleton_append] at same
        obtain ⟨rfl, -⟩ := List.cons.inj same
        decide
      · intro c d more same _
        rw [text, rooted, if_pos rfl, List.singleton_append] at same
        obtain ⟨-, rest_eq⟩ := List.cons.inj same
        cases kept : (lexicalNames rest).head? with
        | none =>
            rw [kept] at rest_eq
            cases rest_eq
        | some name =>
            obtain ⟨filled, plain⟩ := (names name (List.mem_of_mem_head? kept)).1
            obtain ⟨first, letters, rfl⟩ := List.exists_cons_of_ne_nil filled
            rw [kept] at rest_eq
            obtain ⟨rfl, -⟩ := List.cons.inj rest_eq
            exact plain first List.mem_cons_self
  | false =>
      have bare : normalRest rest = ((lexicalNames rest).head?.map (· ++ tail)).getD [] := by
        rw [text, rooted, if_neg (by decide), List.nil_append]
      cases kept : (lexicalNames rest).head? with
      | none =>
          rw [bare, kept]
          rfl
      | some name =>
          have noDrive := clean rooted name kept
          obtain ⟨filled, plain⟩ := (names name (List.mem_of_mem_head? kept)).1
          have whole : normalRest rest = name ++ tail := by
            rw [bare, kept]
            rfl
          rw [whole]
          apply splitRootName_bare
          · intro c more same
            exact not_alpha_of_plain noDrive filled ends same
          · intro c d more same slash
            obtain ⟨first, letters, rfl⟩ := List.exists_cons_of_ne_nil filled
            obtain ⟨rfl, -⟩ := List.cons.inj same
            rw [plain first List.mem_cons_self] at slash
            cases slash

/-- The normal text has the root name that it was written with. -/
theorem splitRootName_normal {path : Path} (clean : startsAsDrive path = false) :
    splitRootName (spelledRoot (splitRootName path).1 ++ normalRest (splitRootName path).2) =
      (spelledRoot (splitRootName path).1, normalRest (splitRootName path).2) := by
  obtain bare | ⟨letter, alpha, drive⟩ | ⟨isRoot, long, follows⟩ := splitRootName_cases path
  · have none : spelledRoot (splitRootName path).1 = [] := by rw [bare]; rfl
    rw [none, List.nil_append]
    apply splitRootName_normalRest
    intro unrooted name first
    rw [startsAsDrive, bare, unrooted, first] at clean
    simpa using clean
  · have spelled : spelledRoot [letter, ':'] = [letter, ':'] := by
      have colon : isSeparator ':' = false := by decide
      simp [spelledRoot, isSeparator_alpha alpha, colon]
    rw [drive, spelled]
    simp [splitRootName, alpha]
  · apply splitRootName_rootName isRoot.spelled
    obtain separator | ⟨empty, -⟩ := follows
    · left
      rw [head_normalRest, separator]
    · right
      rw [empty]
      exact ⟨by decide, by simpa [spelledRoot] using long⟩

/-- The elements that stand for the root of a path. -/
def rootElements (path : Path) : List Path :=
  (if (splitRootName path).1.isEmpty then [] else [spelledRoot (splitRootName path).1]) ++
    if (splitRootName path).2.head?.any isSeparator then [['\\']] else []

/-- The elements of a normal path. -/
theorem elements_normal {path : Path} (some : path ≠ []) (clean : startsAsDrive path = false) :
    (elements (lexicallyNormal path) = [['.']] ∧ lexicalNames (splitRootName path).2 = []) ∨
    ∃ closing, (closing = [] ∨ closing = [[]]) ∧ elements (lexicallyNormal path) =
      rootElements path ++ lexicalNames (splitRootName path).2 ++ closing := by
  rw [lexicallyNormal_eq path some]
  have read := words_normalRest (splitRootName path).2
  split
  case isTrue empty =>
    left
    have nothing : normalRest (splitRootName path).2 = [] := (List.append_eq_nil_iff.mp empty).2
    rw [nothing, words_nil] at read
    exact ⟨by decide, read.symm⟩
  case isFalse =>
    right
    have length : (spelledRoot (splitRootName path).1).isEmpty = (splitRootName path).1.isEmpty := by
      rw [spelledRoot, List.isEmpty_map]
    rw [words] at read
    unfold elements
    rw [splitRootName_normal clean]
    dsimp only
    rw [head_normalRest, read, length]
    refine ⟨_, ?_, rfl⟩
    split
    · exact .inr rfl
    · exact .inl rfl

end SearchEngine.Commands
