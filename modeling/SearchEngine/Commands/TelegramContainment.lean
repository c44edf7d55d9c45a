import SearchEngine.Commands.PathParts
import SearchEngine.Commands.TelegramFiles
import SearchEngine.Upload.UploadPlaces

/-!
# Downloads stay below the directory of their row

The check on a composed path compares the elements of two normal forms. It can be misled
only by a directory without a root name whose normal form begins like a drive, as
`.\C:..\a` does.
-/

namespace SearchEngine.Commands

open Files Lib Server Upload

/-- The elements of the normal form that lead somewhere. -/
def properParts (path : Path) : List Path := (elements (lexicallyNormal path)).filter isProper

/-- The normal form of the path goes on from that of the directory, and only downwards. -/
def LiesStrictlyBelow (directory path : Path) : Prop :=
  ∃ names, names ≠ [] ∧ (∀ name ∈ names, isDotDot name = false) ∧
    properParts path = properParts directory ++ names

/-- Behind the elements that both normal forms begin with, the directory has no `..`, and
the path still has a name. -/
def Descends (directory path : Path) : Prop :=
  let (down, up) := afterCommon (elements (lexicallyNormal path)) (elements (lexicallyNormal directory))
  (∀ name ∈ up, isDotDot name = false) ∧ ∃ name ∈ down, isProper name = true

/-! ## What the check accepts -/

theorem afterCommon_split (left right : List Path) :
    ∃ common, left = common ++ (afterCommon left right).1 ∧ right = common ++ (afterCommon left right).2 := by
  induction left generalizing right with
  | nil => exact ⟨[], rfl, rfl⟩
  | cons first left ih =>
      cases right with
      | nil => exact ⟨[], rfl, rfl⟩
      | cons second right =>
          rw [afterCommon]
          split
          case isTrue same =>
            obtain ⟨common, lefts, rights⟩ := ih right
            refine ⟨first :: common, ?_, ?_⟩
            · rw [List.cons_append, ← lefts]
            · rw [List.cons_append, ← rights, same]
          case isFalse => exact ⟨[], rfl, rfl⟩

theorem isProper_of_isDotDot {name : Path} (up : isDotDot name = true) : isProper name = true := by
  obtain rfl : name = ['.', '.'] := by simpa [isDotDot] using up
  decide

/-- Without `..` the depth counts the names. -/
theorem depth_eq_length (names : List Path) (plain : ∀ name ∈ names, isDotDot name = false) :
    depth names = (names.filter isProper).length := by
  induction names with
  | nil => rfl
  | cons name names ih =>
      obtain ⟨here, behind⟩ := List.forall_mem_cons.mp plain
      rw [depth, ih behind, here]
      cases empty : name.isEmpty <;> cases dot : isDot name <;>
        simp [isProper, empty, dot, Int.add_comm]

/-- A relative path: none, the directory itself, or first up and then down. -/
theorem lexicallyRelative_cases (path base : Path) :
    lexicallyRelative path base = [] ∨ lexicallyRelative path base = [['.']] ∨
    ∃ down up, afterCommon (elements path) (elements base) = (down, up) ∧
      (splitRootName path).1 = (splitRootName base).1 ∧
      ¬ (depth up = 0 ∧ down.head?.all (·.isEmpty) = true) ∧ 0 ≤ depth up ∧
      lexicallyRelative path base = List.replicate (depth up).toNat ['.', '.'] ++ down := by
  unfold lexicallyRelative
  split
  case isTrue => exact .inl rfl
  case isFalse comparable =>
    simp only [Bool.or_eq_true, not_or, decide_eq_true_eq, not_not] at comparable
    generalize rest : afterCommon (elements path) (elements base) = both
    obtain ⟨down, up⟩ := both
    dsimp only
    split
    case isTrue => exact .inr (.inl rfl)
    case isFalse =>
      split
      case isTrue => exact .inr (.inl rfl)
      case isFalse away =>
        split
        case isTrue => exact .inl rfl
        case isFalse level =>
          rw [Bool.and_eq_true, decide_eq_true_eq] at away
          exact .inr (.inr ⟨down, up, rfl, comparable.1.1.1.1, away, Int.not_lt.mp level, rfl⟩)

/-- What an accepted composition has behind the common elements. -/
structure Accepted (directory path : Path) (down up : List Path) : Prop where
  rest : afterCommon (elements (lexicallyNormal path)) (elements (lexicallyNormal directory)) = (down, up)
  level : depth up = 0
  onlyDown : ∀ name ∈ down, isDotDot name = false
  notDot : down ≠ [['.']]
  first : ∃ name names, down = name :: names ∧ name ≠ []
  sameRoot : (splitRootName (lexicallyNormal path)).1 = (splitRootName (lexicallyNormal directory)).1

theorem accepted_of_stays {directory path : Path} (stays : staysUnderDirectory directory path = true) :
    ∃ down up, Accepted directory path down up := by
  unfold staysUnderDirectory at stays
  dsimp only at stays
  split at stays
  case isTrue => cases stays
  case isFalse =>
    obtain none | dot | ⟨down, up, rest, sameRoot, away, nonneg, relative⟩ :=
      lexicallyRelative_cases (lexicallyNormal path) (lexicallyNormal directory)
    · rw [none] at stays
      cases stays
    · rw [dot] at stays
      cases stays
    · rw [relative] at stays
      split at stays
      case isTrue => cases stays
      case isFalse kept =>
        have plain : ∀ name ∈ List.replicate (depth up).toNat ['.', '.'] ++ down, isDotDot name = false := by
          rw [Bool.not_eq_true', List.any_eq_false] at stays
          intro name member
          exact Bool.eq_false_iff.mpr (stays name member)
        have level : depth up = 0 := by
          by_contra deep
          have some : ['.', '.'] ∈ List.replicate (depth up).toNat ['.', '.'] ++ down := by
            apply List.mem_append_left
            rw [List.mem_replicate]
            exact ⟨by omega, rfl⟩
          exact absurd (plain _ some) (by decide)
        have only : List.replicate (depth up).toNat ['.', '.'] ++ down = down := by
          rw [level]
          rfl
        rw [only] at plain kept
        rw [Bool.or_eq_true, not_or, decide_eq_true_eq] at kept
        refine ⟨down, up, rest, level, plain, kept.2, ?_, sameRoot⟩
        cases down with
        | nil => exact absurd rfl kept.1
        | cons name names =>
            refine ⟨name, names, rfl, fun empty => away ⟨level, ?_⟩⟩
            rw [empty]
            rfl

/-- An accepted path lies below its directory exactly if it descends from it. -/
theorem liesStrictlyBelow_iff {directory path : Path}
    (stays : staysUnderDirectory directory path = true) :
    LiesStrictlyBelow directory path ↔ Descends directory path := by
  obtain ⟨down, up, accepted⟩ := accepted_of_stays stays
  obtain ⟨common, downs, ups⟩ :=
    afterCommon_split (elements (lexicallyNormal path)) (elements (lexicallyNormal directory))
  rw [accepted.rest] at downs ups
  dsimp only at downs ups
  unfold LiesStrictlyBelow Descends properParts
  rw [accepted.rest, downs, ups, List.filter_append, List.filter_append]
  dsimp only
  constructor
  · rintro ⟨names, some, plain, same⟩
    rw [List.append_assoc, List.append_cancel_left_eq] at same
    have upPlain : ∀ name ∈ up, isDotDot name = false := by
      intro name member
      by_contra dots
      rw [Bool.not_eq_false] at dots
      have among : name ∈ down.filter isProper := by
        rw [same]
        exact List.mem_append_left _ (List.mem_filter.mpr ⟨member, isProper_of_isDotDot dots⟩)
      rw [accepted.onlyDown name (List.mem_filter.mp among).1] at dots
      cases dots
    refine ⟨upPlain, ?_⟩
    obtain ⟨name, more, rfl⟩ := List.exists_cons_of_ne_nil some
    have among : name ∈ down.filter isProper := by
      rw [same]
      exact List.mem_append_right _ List.mem_cons_self
    exact ⟨name, List.mem_filter.mp among⟩
  · rintro ⟨plain, name, member, proper⟩
    have none : up.filter isProper = [] := by
      have count := depth_eq_length up plain
      rw [accepted.level] at count
      apply List.eq_nil_of_length_eq_zero
      omega
    refine ⟨down.filter isProper, List.ne_nil_of_mem (List.mem_filter.mpr ⟨member, proper⟩), ?_, ?_⟩
    · intro other among
      exact accepted.onlyDown other (List.mem_filter.mp among).1
    · rw [none, List.append_nil]

/-! ## Directories that cannot mislead the check -/

/-- A name without a root of its own, as both calls join it to the directory. -/
structure Unrooted (name : Path) : Prop where
  bare : (splitRootName name).1 = []
  open_ : (splitRootName name).2.head?.any isSeparator = false

theorem Unrooted.split {name : Path} (unrooted : Unrooted name) : (splitRootName name).2 = name := by
  have whole := splitRootName_join name
  rw [unrooted.bare, List.nil_append] at whole
  exact whole

/-- What `operator/` writes between the directory and the name. -/
theorem joinPath_unrooted {directory name : Path} (unrooted : Unrooted name) :
    joinPath directory name = directory ++ '\\' :: name ∨
    joinPath directory name = directory ++ name ∧
      (directory.getLast?.any isSeparator = true ∨ (splitRootName directory).2 = [] ∧ directory.length < 3) := by
  have relative : isAbsolutePath name = false := by
    rw [isAbsolutePath, unrooted.bare]
    rfl
  have bare := unrooted.bare
  have open_ := unrooted.open_
  unfold joinPath
  rw [relative, bare, open_, unrooted.split]
  simp only [List.isEmpty_nil, Bool.not_true, Bool.false_and, Bool.or_self, Bool.false_eq_true, if_false]
  split
  case isTrue alone =>
    split
    case isTrue short => exact .inr ⟨rfl, .inr ⟨List.isEmpty_iff.mp alone, short⟩⟩
    case isFalse => exact .inl rfl
  case isFalse =>
    split
    case isTrue ends => exact .inr ⟨rfl, .inl ends⟩
    case isFalse => exact .inl rfl

/-- Nothing that ends a server is a separator. -/
theorem not_ends_of_isRootName {root : Path} (isRoot : IsRootName root) :
    root.getLast?.any isSeparator = false := by
  cases isRoot with
  | drive alpha => rfl
  | @server first second name _ _ filled plain =>
      obtain ⟨front, last, rfl⟩ : ∃ front last, name = front ++ [last] :=
        ⟨name.dropLast, name.getLast filled, (List.dropLast_append_getLast filled).symm⟩
      rw [← List.cons_append, ← List.cons_append, List.getLast?_concat]
      exact plain last (List.mem_append_right _ List.mem_cons_self)

/-- What stands between a directory and a name behind it. -/
structure Joined (directory name between : Path) : Prop where
  text : joinPath directory name = directory ++ between
  split : splitRootName (directory ++ between) =
    ((splitRootName directory).1, (splitRootName directory).2 ++ between)
  shape : between = '\\' :: name ∨ between = name ∧
    (directory.getLast?.any isSeparator = true ∨ (splitRootName directory).2 = [] ∧ directory.length < 3)

/-- Joining a name leaves a root name as it is, and adds none before a relative directory. -/
theorem joined_unrooted {directory name : Path} (unrooted : Unrooted name) (some : directory ≠ [])
    (plain : (splitRootName directory).1 ≠ [] ∨ (splitRootName directory).2.head?.any isSeparator = false) :
    ∃ between, Joined directory name between := by
  obtain ⟨between, text, shape⟩ : ∃ between, joinPath directory name = directory ++ between ∧
      (between = '\\' :: name ∨ between = name ∧
        (directory.getLast?.any isSeparator = true ∨ (splitRootName directory).2 = [] ∧ directory.length < 3)) := by
    obtain new | ⟨same, why⟩ := @joinPath_unrooted directory name unrooted
    · exact ⟨_, new, .inl rfl⟩
    · exact ⟨_, same, .inr ⟨rfl, why⟩⟩
  have whole := splitRootName_join directory
  refine ⟨between, text, ?_, shape⟩
  obtain bare | ⟨letter, alpha, drive⟩ | ⟨isRoot, long, follows⟩ := splitRootName_cases directory
  · rw [bare, List.nil_append] at whole
    rw [bare, whole]
    rw [bare, whole] at plain
    have closed : directory.head?.any isSeparator = false := plain.resolve_left (by simp)
    obtain ⟨first, rest, rfl⟩ := List.exists_cons_of_ne_nil some
    apply splitRootName_bare
    · intro c more same
      obtain ⟨rfl, behind⟩ := List.cons.inj same
      cases rest with
      | cons second rest =>
          obtain ⟨rfl, -⟩ := List.cons.inj behind
          by_contra alpha
          rw [Bool.not_eq_false] at alpha
          simp [splitRootName, alpha] at bare
      | nil =>
          have single : isSeparator first = false := closed
          obtain rfl | ⟨rfl, ends | ⟨none, -⟩⟩ := shape
          · exact absurd (List.cons.inj behind).1 (by decide)
          · rw [List.getLast?_singleton, Option.any_some, single] at ends
            cases ends
          · rw [whole] at none
            cases none
    · intro c d more same slash
      obtain ⟨rfl, -⟩ := List.cons.inj same
      rw [List.head?_cons, Option.any_some, slash] at closed
      cases closed
  · rw [drive] at whole ⊢
    rw [← whole]
    simp [splitRootName, alpha]
  · have behind : FollowsRoot (splitRootName directory).1 ((splitRootName directory).2 ++ between) := by
      left
      obtain separator | ⟨none, -⟩ := follows
      · cases rest : (splitRootName directory).2 with
        | nil =>
            rw [rest] at separator
            cases separator
        | cons c more =>
            rw [rest] at separator
            exact separator
      · rw [none, List.append_nil] at whole
        rw [none, List.nil_append]
        obtain rfl | ⟨rfl, ends | ⟨-, short⟩⟩ := shape
        · exact separator_backslash
        · rw [← whole, not_ends_of_isRootName isRoot] at ends
          cases ends
        · rw [← whole] at short
          omega
    have read := splitRootName_rootName isRoot behind
    rw [← List.append_assoc, whole] at read
    exact read

/-- The names of a joined path. -/
theorem words_joined {directory name between : Path} (joined : Joined directory name between)
    (some : (splitRootName directory).2 ≠ []) :
    words isSeparator ((splitRootName directory).2 ++ between) =
      words isSeparator (splitRootName directory).2 ++ words isSeparator name := by
  have whole := splitRootName_join directory
  obtain rfl | ⟨rfl, ends | ⟨none, -⟩⟩ := joined.shape
  · exact words_cut _ _ separator_backslash
  · obtain ⟨front, last, rest⟩ : ∃ front last, (splitRootName directory).2 = front ++ [last] :=
      ⟨_, _, (List.dropLast_append_getLast some).symm⟩
    rw [rest] at whole ⊢
    rw [← whole, ← List.append_assoc, List.getLast?_concat] at ends
    have stop : isSeparator last = true := ends
    rw [List.append_assoc, List.singleton_append, words_cut _ _ stop, words_concat _ stop]
  · exact absurd none some

/-- The root of a normal path. -/
theorem rootName_normal {path : Path} (some : path ≠ []) (clean : startsAsDrive path = false) :
    (splitRootName (lexicallyNormal path)).1 = spelledRoot (splitRootName path).1 := by
  rw [lexicallyNormal_eq path some]
  split
  case isTrue empty =>
    rw [(List.append_eq_nil_iff.mp empty).1]
    rfl
  case isFalse => rw [splitRootName_normal clean]

/-- A name with a root name of its own reads as a drive. -/
theorem drive_of_word {name : Path} (plain : ∀ c ∈ name, isSeparator c = false)
    (reads : (splitRootName name).1 ≠ []) :
    ∃ letter more, letter.isAlpha = true ∧ name = letter :: ':' :: more := by
  have whole := splitRootName_join name
  obtain empty | ⟨letter, alpha, drive⟩ | ⟨isRoot, -, -⟩ := splitRootName_cases name
  · exact absurd empty reads
  · rw [drive] at whole
    exact ⟨letter, _, alpha, whole.symm⟩
  · generalize splitRootName name = both at isRoot whole
    obtain ⟨root, rest⟩ := both
    cases isRoot with
    | @drive letter alpha => exact ⟨letter, rest, alpha, whole.symm⟩
    | server first _ _ _ =>
        rw [← whole] at plain
        rw [plain _ List.mem_cons_self] at first
        cases first

/-- A first name that reads as a drive becomes the root of the normal path. -/
theorem rootName_of_startsAsDrive {path : Path} (drive : startsAsDrive path = true) :
    (splitRootName (lexicallyNormal path)).1 ≠ [] := by
  rw [startsAsDrive, Bool.and_eq_true, Bool.and_eq_true, List.isEmpty_iff, Bool.not_eq_true'] at drive
  obtain ⟨⟨bare, relative⟩, reads⟩ := drive
  have some : path ≠ [] := by
    rintro rfl
    exact absurd reads (by decide)
  obtain ⟨tail, -, text⟩ := normalRest_shape (splitRootName path).2
  have names := isWord_of_mem_lexicalNames (splitRootName path).2
  cases kept : (lexicalNames (splitRootName path).2).head? with
  | none =>
      rw [kept] at reads
      cases reads
  | some name =>
      rw [kept, Option.any_some, Bool.not_eq_true', List.isEmpty_eq_false_iff] at reads
      obtain ⟨filled, plain⟩ := (names name (List.mem_of_mem_head? kept)).1
      rw [relative, kept, if_neg (by decide), List.nil_append, Option.map_some, Option.getD_some] at text
      rw [lexicallyNormal_eq path some, bare, text]
      obtain ⟨letter, more, alpha, rfl⟩ := drive_of_word plain reads
      simp [splitRootName, spelledRoot, alpha]

/-- A root is neither a dot nor two. -/
theorem plain_rootElements (path : Path) :
    ∀ name ∈ rootElements path, isDotDot name = false ∧ isDot name = false ∧ name ≠ [] := by
  intro name member
  unfold rootElements at member
  obtain root | separator := List.mem_append.mp member
  · split at root
    · cases root
    case isFalse named =>
      obtain rfl := List.mem_singleton.mp root
      obtain bare | ⟨letter, alpha, drive⟩ | ⟨isRoot, -, -⟩ := splitRootName_cases path
      · exact absurd (by rw [bare]; rfl) named
      · have colon : isSeparator ':' = false := by decide
        rw [drive]
        simp [spelledRoot, isSeparator_alpha alpha, colon, isDotDot, isDot]
      · have spelled := isRoot.spelled
        generalize spelledRoot (splitRootName path).1 = root at spelled
        cases spelled with
        | drive alpha => simp [isDotDot, isDot]
        | server first second filled plain =>
            have notDot : ∀ c, isSeparator c = true → c ≠ '.' := by
              rintro c separator rfl
              exact absurd separator (by decide)
            simp [isDotDot, isDot, notDot _ first]
  · split at separator
    · obtain rfl := List.mem_singleton.mp separator
      decide
    · cases separator

/-- Without `..` in the directory, none is left behind the common elements. -/
theorem plain_of_afterCommon {left right down up : List Path} (rest : afterCommon left right = (down, up))
    (plain : ∀ name ∈ right, isDotDot name = false) : ∀ name ∈ up, isDotDot name = false := by
  obtain ⟨common, -, ups⟩ := afterCommon_split left right
  rw [rest] at ups
  intro name member
  apply plain
  rw [ups]
  exact List.mem_append_right _ member

theorem plain_closing {closing : List Path} (shape : closing = [] ∨ closing = [[]]) :
    ∀ name ∈ closing, isDotDot name = false ∧ isDot name = false := by
  obtain rfl | rfl := shape <;> decide

/-- A directory that goes up first is followed by the path in that. -/
theorem afterCommon_up {directory name : Path} {ups : Nat} {names : List Path} (unrooted : Unrooted name)
    (some : directory ≠ []) (clean : startsAsDrive directory = false)
    (kept : Kept ((splitRootName directory).2.head?.any isSeparator) (ups + 1)
      (lexicalNames (splitRootName directory).2) names) :
    ∃ left right, (∀ name ∈ right, isDotDot name = false) ∧
      afterCommon (elements (lexicallyNormal (joinPath directory name)))
        (elements (lexicallyNormal directory)) = afterCommon left right := by
  have relative : (splitRootName directory).2.head?.any isSeparator = false := by
    by_contra rooted
    rw [Bool.not_eq_false] at rooted
    exact absurd (kept.top rooted) (by omega)
  have rest : (splitRootName directory).2 ≠ [] := by
    intro none
    have split := kept.split
    rw [none, List.replicate_succ] at split
    cases split
  obtain ⟨between, joined⟩ := joined_unrooted unrooted some (.inr relative)
  have begins : ((splitRootName directory).2 ++ between).head?.any isSeparator = false := by
    obtain ⟨c, more, behind⟩ := List.exists_cons_of_ne_nil rest
    rw [behind] at relative ⊢
    exact relative
  -- the names of the path go on from those of the directory
  have goesOn : lexicalNames ((splitRootName directory).2 ++ between) =
      (words isSeparator name).foldl (lexicalStep false) (lexicalNames (splitRootName directory).2) := by
    have read := words_joined joined rest
    unfold words at read
    unfold lexicalNames
    rw [begins, relative, read, List.foldl_append]
    rfl
  rw [relative] at kept
  obtain ⟨more, next, behind⟩ := kept.foldl (words isSeparator name)
  rw [← goesOn] at behind
  have pathClean : startsAsDrive (directory ++ between) = false := by
    have first : (lexicalNames ((splitRootName directory).2 ++ between)).head? = Option.some ['.', '.'] := by
      rw [behind.split, Nat.add_right_comm, List.replicate_succ]
      rfl
    rw [startsAsDrive, joined.split, first]
    simp [splitRootName]
  have sameRoots : rootElements (directory ++ between) = rootElements directory := by
    rw [rootElements, rootElements, joined.split, begins, relative]
  obtain ⟨dot, empty⟩ | ⟨closing, shape, ends⟩ := elements_normal some clean
  · rw [kept.split, List.replicate_succ] at empty
    cases empty
  obtain ⟨dot, empty⟩ | ⟨pathClosing, -, pathEnds⟩ :=
      elements_normal (List.append_ne_nil_of_left_ne_nil some between) pathClean
  · rw [joined.split, behind.split, Nat.add_right_comm, List.replicate_succ] at empty
    cases empty
  have common := afterCommon_append (rootElements directory ++ List.replicate (ups + 1) ['.', '.'])
    (List.replicate more ['.', '.'] ++ next ++ pathClosing) (names ++ closing)
  refine ⟨List.replicate more ['.', '.'] ++ next ++ pathClosing, names ++ closing, ?_, ?_⟩
  · intro other member
    obtain name | last := List.mem_append.mp member
    · exact kept.plain other name
    · exact (plain_closing shape other last).1
  · rw [← common, joined.text, ends, pathEnds, sameRoots, joined.split, behind.split, kept.split,
      List.replicate_add (ups + 1) more]
    simp only [List.append_assoc]

/-- Below a directory that does not read as a drive, what the check accepts descends. -/
theorem descends_of_not_startsAsDrive {directory name : Path} (unrooted : Unrooted name)
    (some : directory ≠ []) (clean : startsAsDrive directory = false)
    (stays : staysUnderDirectory directory (joinPath directory name) = true) :
    Descends directory (joinPath directory name) := by
  obtain ⟨down, up, accepted⟩ := accepted_of_stays stays
  have path : joinPath directory name ≠ [] := by
    obtain new | ⟨same, -⟩ := @joinPath_unrooted directory name unrooted
    · rw [new]
      exact List.append_ne_nil_of_left_ne_nil some _
    · rw [same]
      exact List.append_ne_nil_of_left_ne_nil some _
  unfold Descends
  rw [accepted.rest]
  dsimp only
  constructor
  · obtain ⟨ups, names, kept⟩ := kept_lexicalNames (splitRootName directory).2
    cases ups with
    | succ ups =>
        obtain ⟨left, right, plain, same⟩ := afterCommon_up unrooted some clean kept
        exact plain_of_afterCommon (same ▸ accepted.rest) plain
    | zero =>
        apply plain_of_afterCommon accepted.rest
        obtain ⟨dot, -⟩ | ⟨closing, shape, ends⟩ := elements_normal some clean
        · rw [dot]
          decide
        · rw [ends, kept.split]
          intro other member
          obtain front | last := List.mem_append.mp member
          · obtain root | inner := List.mem_append.mp front
            · exact (plain_rootElements directory other root).1
            · exact kept.plain other inner
          · exact (plain_closing shape other last).1
  · obtain ⟨first, names, rfl, filled⟩ := accepted.first
    refine ⟨first, List.mem_cons_self, ?_⟩
    obtain ⟨common, downs, -⟩ := afterCommon_split (elements (lexicallyNormal (joinPath directory name)))
      (elements (lexicallyNormal directory))
    rw [accepted.rest] at downs
    have pathClean : startsAsDrive (joinPath directory name) = false := by
      by_contra drive
      rw [Bool.not_eq_false] at drive
      have root := rootName_of_startsAsDrive drive
      rw [accepted.sameRoot, rootName_normal some clean] at root
      have named : (splitRootName directory).1 ≠ [] := by
        intro bare
        rw [bare] at root
        exact root rfl
      obtain ⟨between, joined⟩ := joined_unrooted unrooted some (.inl named)
      rw [startsAsDrive, joined.text, joined.split] at drive
      simp [named] at drive
    have notDot : isDot first = false := by
      obtain ⟨dot, -⟩ | ⟨closing, shape, ends⟩ := elements_normal path pathClean
      · -- nothing is left of the path but a dot
        rw [dot] at downs
        cases common with
        | nil => exact absurd downs.symm accepted.notDot
        | cons other common =>
            have lengths := congrArg List.length downs
            simp at lengths
      · have member : first ∈ rootElements (joinPath directory name) ++
            lexicalNames (splitRootName (joinPath directory name)).2 ++ closing := by
          rw [← ends, downs]
          exact List.mem_append_right _ List.mem_cons_self
        obtain front | last := List.mem_append.mp member
        · obtain root | inner := List.mem_append.mp front
          · exact (plain_rootElements _ first root).2.1
          · exact (isWord_of_mem_lexicalNames _ first inner).2
        · exact (plain_closing shape first last).2
    simp [isProper, filled, notDot]

/-- An entry is added to the names of its directory. -/
theorem lexicalNames_joined {directory name between : Path} (joined : Joined directory name between)
    (some : (splitRootName directory).2 ≠ []) (entry : IsEntry name) :
    lexicalNames ((splitRootName directory).2 ++ between) = lexicalNames (splitRootName directory).2 ++ [name] := by
  have read := words_joined joined some
  have begins : ((splitRootName directory).2 ++ between).head? = (splitRootName directory).2.head? := by
    obtain ⟨c, more, rest⟩ := List.exists_cons_of_ne_nil some
    rw [rest]
    rfl
  have single : ∀ other ∈ [name], IsEntry other := fun other member => List.mem_singleton.mp member ▸ entry
  rw [entry.isWord.words_eq] at read
  unfold words at read
  unfold lexicalNames
  rw [read, begins, List.foldl_append, foldl_lexicalStep _ _ single]

/-- The elements behind a drive. -/
theorem elements_drive {letter : Char} (alpha : letter.isAlpha = true) (rest : Path) :
    ∃ closing, (closing = [] ∨ closing = [[]]) ∧ elements (letter :: ':' :: rest) =
      [letter, ':'] :: (if rest.head?.any isSeparator then [['\\']] else []) ++ words isSeparator rest ++
        closing ∧ (words isSeparator rest = [] → closing = []) := by
  have read : splitRootName (letter :: ':' :: rest) = ([letter, ':'], rest) := by simp [splitRootName, alpha]
  refine ⟨_, ?_, by unfold elements; rw [read]; rfl, ?_⟩
  · split
    · exact .inr rfl
    · exact .inl rfl
  · intro none
    unfold words at none
    rw [none]
    rfl

theorem intercalate_concat (separator : Path) (names : List Path) (some : names ≠ []) (name : Path) :
    separator.intercalate (names ++ [name]) = separator.intercalate names ++ separator ++ name := by
  induction names with
  | nil => exact absurd rfl some
  | cons first names ih =>
      cases names with
      | nil => simp [List.intercalate]
      | cons second names =>
          rw [List.cons_append, List.cons_append, List.intercalate_cons_cons, List.intercalate_cons_cons,
            ← List.cons_append, ih (List.cons_ne_nil _ _)]
          simp only [List.append_assoc]

/-- Without a separator in front the normal text is that of the names, perhaps closed. -/
theorem normalRest_open {rest : Path} (relative : rest.head?.any isSeparator = false) :
    ∃ closing, (closing = [] ∨ closing = ['\\']) ∧
      normalRest rest = ['\\'].intercalate (lexicalNames rest) ++ closing := by
  refine ⟨_, ?_, by rw [normalRest, relative, if_neg (by decide), List.nil_append]⟩
  split
  · exact .inr rfl
  · exact .inl rfl

/-- An entry descends from its directory also when that reads as a drive. -/
theorem descends_of_entry {directory name : Path} (unrooted : Unrooted name) (entry : IsEntry name)
    (drive : startsAsDrive directory = true) : Descends directory (joinPath directory name) := by
  rw [startsAsDrive, Bool.and_eq_true, Bool.and_eq_true, List.isEmpty_iff, Bool.not_eq_true'] at drive
  obtain ⟨⟨bare, relative⟩, reads⟩ := drive
  have rest : (splitRootName directory).2 ≠ [] := by
    intro none
    rw [none] at reads
    exact absurd reads (by decide)
  have some : directory ≠ [] := by
    rintro rfl
    exact rest rfl
  obtain ⟨between, joined⟩ := joined_unrooted unrooted some (.inr relative)
  have begins : ((splitRootName directory).2 ++ between).head?.any isSeparator = false := by
    obtain ⟨c, more, same⟩ := List.exists_cons_of_ne_nil rest
    rw [same] at relative ⊢
    exact relative
  -- both texts begin with the names of the directory, the first of which is a drive
  obtain ⟨letter, others, alpha, front⟩ : ∃ letter others, letter.isAlpha = true ∧
      ['\\'].intercalate (lexicalNames (splitRootName directory).2) = letter :: ':' :: others := by
    have names := isWord_of_mem_lexicalNames (splitRootName directory).2
    cases kept : lexicalNames (splitRootName directory).2 with
    | nil =>
        rw [kept] at reads
        cases reads
    | cons first more =>
        rw [kept, List.head?_cons, Option.any_some, Bool.not_eq_true', List.isEmpty_eq_false_iff] at reads
        rw [kept] at names
        obtain ⟨letter, tail, alpha, rfl⟩ := drive_of_word (names first List.mem_cons_self).1.2 reads
        cases more with
        | nil => exact ⟨letter, tail, alpha, by simp [List.intercalate]⟩
        | cons second more => exact ⟨letter, _, alpha, by rw [List.intercalate_cons_cons]; rfl⟩
  have someNames : lexicalNames (splitRootName directory).2 ≠ [] := by
    intro none
    rw [none] at front
    cases front
  obtain ⟨closing, shape, text⟩ := normalRest_open relative
  obtain ⟨pathClosing, pathShape, pathText⟩ := normalRest_open begins
  have normal : lexicallyNormal directory = letter :: ':' :: (others ++ closing) := by
    rw [lexicallyNormal_eq _ some, bare, text, front]
    rfl
  have pathNormal : lexicallyNormal (joinPath directory name) =
      letter :: ':' :: (others ++ '\\' :: (name ++ pathClosing)) := by
    rw [joined.text, lexicallyNormal_eq _ (List.append_ne_nil_of_left_ne_nil some between), joined.split, bare,
      pathText, lexicalNames_joined joined rest entry, intercalate_concat _ _ someNames, front]
    simp [spelledRoot]
  have wordsOpen : words isSeparator (others ++ closing) = words isSeparator others := by
    obtain rfl | rfl := shape
    · rw [List.append_nil]
    · exact words_concat _ separator_backslash
  have wordsPath : words isSeparator (others ++ '\\' :: (name ++ pathClosing)) =
      words isSeparator others ++ [name] := by
    rw [words_cut _ _ separator_backslash]
    obtain rfl | rfl := pathShape
    · rw [List.append_nil, entry.isWord.words_eq]
    · rw [words_concat _ separator_backslash, entry.isWord.words_eq]
  obtain ⟨finish, finishShape, elementsOpen, noNames⟩ := elements_drive alpha (others ++ closing)
  obtain ⟨pathFinish, -, elementsPath, -⟩ := elements_drive alpha (others ++ '\\' :: (name ++ pathClosing))
  rw [wordsOpen] at elementsOpen noNames
  rw [wordsPath] at elementsPath
  -- behind the common elements the path has the name, perhaps after a separator
  obtain ⟨common, separators, openSplit, pathSplit, between⟩ : ∃ common separators,
      elements (lexicallyNormal directory) = common ++ finish ∧
        elements (lexicallyNormal (joinPath directory name)) = common ++ (separators ++ name :: pathFinish) ∧
          (separators = [] ∨ separators = [['\\']] ∧ finish = []) := by
    rw [normal, pathNormal, elementsOpen, elementsPath]
    cases others with
    | cons c others =>
        refine ⟨_, [], rfl, ?_, .inl rfl⟩
        simp only [List.append_assoc]
        rfl
    | nil =>
        obtain rfl | rfl := shape
        · rw [noNames words_nil]
          exact ⟨[[letter, ':']], [['\\']], by simp, by simp [separator_backslash], .inr ⟨rfl, rfl⟩⟩
        · exact ⟨[[letter, ':'], ['\\']], [], by simp [separator_backslash],
            by simp [separator_backslash], .inl rfl⟩
  have after : afterCommon (elements (lexicallyNormal (joinPath directory name)))
      (elements (lexicallyNormal directory)) = (separators ++ name :: pathFinish, finish) := by
    rw [openSplit, pathSplit, afterCommon_append]
    obtain rfl | ⟨rfl, rfl⟩ := between
    · obtain rfl | rfl := finishShape
      · rfl
      · exact if_neg entry.isWord.1
    · rfl
  unfold Descends
  rw [after]
  refine ⟨fun other member => (plain_closing finishShape other member).1, name, ?_, ?_⟩
  · exact List.mem_append_right _ List.mem_cons_self
  · simp [isProper, entry.isWord.1, entry.notDot]

end SearchEngine.Commands
