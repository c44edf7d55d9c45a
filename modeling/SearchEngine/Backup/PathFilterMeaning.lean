import Mathlib.Data.List.Infix
import SearchEngine.Backup.PathFilter

/-!
# What an exclusion pattern means

A pattern is a list of parts between the separators. In a part `?` stands for any
character and `*` for any run of them; the part `**` stands for any run of components.
`BackupPathFilter` decides this for the paths without a `*` of their own.
-/

namespace SearchEngine.Backup

open SearchEngine.Lib

/-! ## The grammar -/

/-- The non-empty parts between the separators. -/
def partsBetween (text : FilterText) : List FilterText := (text.splitOn '/').filter fun part => !part.isEmpty

/-- The components a path has for the filter; both separators count. -/
def pathComponents (folding : CaseFolding) (value : FilterText) : List FilterText :=
  partsBetween ((replaceBackslashes value).map folding.fold)

def patternParts (folding : CaseFolding) (pattern : FilterText) : List FilterText :=
  partsBetween (pattern.map folding.fold)

/-- `?` stands for every character. -/
def Stands (symbol c : Char) : Prop := symbol = '?' ∨ symbol = c

def componentSymbols (part : FilterText) : List (Option Char) := part.map fun c => if c = '*' then none else some c

/-- The component has the form of the part. -/
def ComponentGlob (part component : FilterText) : Prop := Globs Stands (componentSymbols part) component

def pathSymbols (parts : List FilterText) : List (Option FilterText) :=
  parts.map fun part => if part = ['*', '*'] then none else some part

/-- The path has the form of the parts, from the root on. -/
def PathGlob (parts components : List FilterText) : Prop := Globs ComponentGlob (pathSymbols parts) components

/-- One part, not `**`, and no separator in front: the pattern is about the last component. -/
def NameOnly (folding : CaseFolding) (pattern part : FilterText) : Prop :=
  pattern.head? ≠ some '/' ∧ patternParts folding pattern = [part] ∧ part ≠ ['*', '*']

/-- The pattern excludes the path. -/
def Excludes (folding : CaseFolding) (pattern : FilterText) (components : List FilterText) (isDirectory : Bool) :
    Prop :=
  (pattern.getLast? = some '/' → isDirectory = true) ∧
    ((∃ part name, NameOnly folding pattern part ∧ components.getLast? = some name ∧ ComponentGlob part name) ∨
      (¬ ∃ part, NameOnly folding pattern part) ∧ PathGlob (patternParts folding pattern) components)

/-- A normal form that `validateExcludePattern` gave. -/
def Accepted (pattern : FilterText) : Prop := ∃ raw, validateExcludePattern raw = .ok pattern

/-- The filter decides for this path what the patterns mean, for every list of them. -/
def FilterExact (folding : CaseFolding) (value : FilterText) : Prop :=
  ∀ (patterns : List FilterText) (isDirectory : Bool), (∀ pattern ∈ patterns, Accepted pattern) →
    (filterMatches folding patterns value isDirectory = true ↔
      ∃ pattern ∈ patterns, Excludes folding pattern (pathComponents folding value) isDirectory)

/-! ## Splitting -/

theorem modifyHead_nil_append (parts : List FilterText) : parts.modifyHead ([] ++ ·) = parts := by
  cases parts <;> rfl

theorem flushParts_eq (current text : FilterText) :
    flushParts current text = ((text.splitOn '/').modifyHead (current ++ ·)).filter fun part => !part.isEmpty := by
  induction text generalizing current with
  | nil => cases current <;> simp [flushParts]
  | cons c rest ih =>
      rw [flushParts, List.splitOn_cons_eq_if_modifyHead]
      by_cases slash : c = '/'
      · rw [if_pos slash, if_pos (beq_iff_eq.mpr slash), ih, modifyHead_nil_append]
        cases current <;> simp
      · rw [if_neg slash, if_neg (mt beq_iff_eq.mp slash), ih, List.modifyHead_modifyHead]
        congr 2
        funext part
        simp

@[simp] theorem flushParts_nil (text : FilterText) : flushParts [] text = partsBetween text := by
  rw [flushParts_eq, modifyHead_nil_append, partsBetween]

theorem splitUtf8Components_eq (current text : FilterText) :
    splitUtf8Components current text = (text.splitOn '/').modifyHead (current ++ ·) := by
  induction text generalizing current with
  | nil => simp [splitUtf8Components]
  | cons c rest ih =>
      rw [splitUtf8Components, List.splitOn_cons_eq_if_modifyHead]
      by_cases slash : c = '/'
      · rw [if_pos slash, if_pos (beq_iff_eq.mpr slash), ih, modifyHead_nil_append]
        simp
      · rw [if_neg slash, if_neg (mt beq_iff_eq.mp slash), ih, List.modifyHead_modifyHead]
        congr 1
        funext part
        simp

@[simp] theorem splitUtf8Components_nil (text : FilterText) : splitUtf8Components [] text = text.splitOn '/' := by
  rw [splitUtf8Components_eq, modifyHead_nil_append]

@[simp] theorem partsBetween_slash_cons (text : FilterText) : partsBetween ('/' :: text) = partsBetween text := by
  simp [partsBetween, List.splitOn_cons_eq_if_modifyHead]

@[simp] theorem partsBetween_concat_slash (text : FilterText) : partsBetween (text ++ ['/']) = partsBetween text := by
  rw [partsBetween, List.splitOn_append_cons_self, List.filter_append, List.splitOn_nil]
  simp [partsBetween]

/-- A slash at the front makes no part. -/
theorem partsBetween_dropWhile {strip : Char → Bool} {change : Char → Char}
    (slashes : ∀ c, strip c = true → change c = '/') (text : FilterText) :
    partsBetween ((text.dropWhile strip).map change) = partsBetween (text.map change) := by
  induction text with
  | nil => rfl
  | cons c rest ih =>
      by_cases stripped : strip c = true
      · rw [List.dropWhile_cons_of_pos stripped, ih, List.map_cons, slashes c stripped, partsBetween_slash_cons]
      · rw [List.dropWhile_cons_of_neg stripped]

theorem partsBetween_rdropWhile {strip : Char → Bool} {change : Char → Char}
    (slashes : ∀ c, strip c = true → change c = '/') (text : FilterText) :
    partsBetween ((text.rdropWhile strip).map change) = partsBetween (text.map change) := by
  induction text using List.reverseRecOn with
  | nil => rfl
  | append_singleton rest c ih =>
      by_cases stripped : strip c = true
      · rw [List.rdropWhile_concat_pos _ _ _ stripped, ih, List.map_append, List.map_singleton, slashes c stripped,
          partsBetween_concat_slash]
      · rw [List.rdropWhile_concat_neg _ _ _ stripped]

/-- The components of the match string are those of the path. -/
theorem splitPathComponents_pathToMatchString (folding : CaseFolding) (value : FilterText) :
    splitPathComponents (pathToMatchString folding value) = pathComponents folding value := by
  have slashes : ∀ c, isPathSeparator c = true → folding.fold (if c = '\\' then '/' else c) = '/' := by
    intro c separator
    rcases (by simpa [isPathSeparator] using separator : c = '/' ∨ c = '\\') with rfl | rfl
    · exact folding.fold_slash
    · exact folding.fold_slash
  have folded (text : FilterText) :
      (replaceBackslashes text).map folding.fold = text.map fun c => folding.fold (if c = '\\' then '/' else c) :=
    List.map_map
  rw [splitPathComponents, flushParts_nil, pathToMatchString, pathComponents, folded, folded,
    partsBetween_dropWhile slashes, partsBetween_rdropWhile slashes]

/-- The parts of the compiled pattern are those of the pattern. -/
theorem compileValidated_segments (folding : CaseFolding) (pattern : FilterText) :
    (compileValidated folding pattern).segments = (patternParts folding pattern).map toSegment := by
  simp only [compileValidated, flushParts_nil, patternParts]
  congr 1
  have front (body : FilterText) : partsBetween ((if body.head? = some '/' then body.tail else body).map folding.fold) =
      partsBetween (body.map folding.fold) := by
    cases body with
    | nil => rfl
    | cons c rest =>
        by_cases slash : c = '/'
        · rw [slash, List.head?_cons, if_pos rfl, List.tail_cons, List.map_cons, folding.fold_slash, partsBetween_slash_cons]
        · rw [if_neg (by simpa using slash)]
  rw [front]
  by_cases slash : pattern.getLast? = some '/'
  · obtain ⟨body, rfl⟩ := List.getLast?_eq_some_iff.mp slash
    simp [folding.fold_slash]
  · rw [if_neg (by simpa using slash)]

theorem toSegment_eq_doubleStar_iff (part : FilterText) : toSegment part = .doubleStar ↔ part = ['*', '*'] := by
  unfold toSegment
  split <;> simp_all

/-- The compiled pattern is about the last component when the pattern is. -/
theorem compileValidated_nameOnly (folding : CaseFolding) (pattern : FilterText) :
    (compileValidated folding pattern).nameOnly = true ↔ ∃ part, NameOnly folding pattern part := by
  have segments := compileValidated_segments folding pattern
  have nameOnly : (compileValidated folding pattern).nameOnly = true ↔
      (if pattern.getLast? = some '/' then pattern.dropLast else pattern).head? ≠ some '/' ∧
        ∃ part, patternParts folding pattern = [part] ∧ part ≠ ['*', '*'] := by
    have unfolded : (compileValidated folding pattern).nameOnly =
        (!decide ((if pattern.getLast? = some '/' then pattern.dropLast else pattern).head? = some '/') &&
          decide ((compileValidated folding pattern).segments.length = 1) &&
            decide ((compileValidated folding pattern).segments.head? ≠ some .doubleStar)) := by
      simp [compileValidated]
    rw [unfolded, segments]
    rcases patternParts folding pattern with _ | ⟨part, _ | ⟨second, rest⟩⟩ <;>
      simp [toSegment_eq_doubleStar_iff]
  rw [nameOnly]
  unfold NameOnly
  rw [exists_and_left]
  refine and_congr_left ?_
  rintro ⟨part, single, _⟩
  -- a single separator has no part
  by_cases slash : pattern.getLast? = some '/'
  · obtain ⟨body, rfl⟩ := List.getLast?_eq_some_iff.mp slash
    rw [if_pos slash, List.dropLast_concat]
    cases body with
    | nil =>
        have none : patternParts folding ['/'] = [] := by
          rw [patternParts, List.map_singleton, folding.fold_slash]
          decide
        exact absurd (none.symm.trans single) (by simp)
    | cons c rest => rfl
  · rw [if_neg slash]

/-! ## The matchers -/

theorem matchLoop_cons (star : Option (FilterText × FilterText)) (p : Char) (rest : FilterText) (v : Char)
    (values : FilterText) :
    matchLoop star (p :: rest) (v :: values) =
      if p = '?' ∨ p = v then matchLoop (star.map fun s => (s.1, s.2 ++ [v])) rest values
      else if p = '*' then matchLoop (some (rest, [])) rest (v :: values)
      else
        match star with
        | none => false
        | some (after, taken) => matchLoop (some (after, [])) after (taken ++ v :: values).tail := by
  cases star <;> rw [matchLoop] <;> simp

theorem componentSymbols_symbol {p : Char} (symbol : p ≠ '*') (rest : FilterText) :
    componentSymbols (p :: rest) = some p :: componentSymbols rest := by
  simp [componentSymbols, symbol]

theorem componentSymbols_star (rest : FilterText) : componentSymbols ('*' :: rest) = none :: componentSymbols rest := by
  simp [componentSymbols]

/-- The loop of the code is the greedy reading, as long as no star is met in the value. -/
theorem matchLoop_eq_greedy (star : Option (FilterText × FilterText)) (pattern value : FilterText)
    (noStar : '*' ∉ value) (noneRead : ∀ after taken, star = some (after, taken) → '*' ∉ taken) :
    matchLoop star pattern value =
      greedy (fun symbol c => decide (symbol = '?' ∨ symbol = c)) (star.map fun s => (componentSymbols s.1, s.2))
        (componentSymbols pattern) value := by
  have fromStar (taken values : FilterText) (v : Char) (noStar : '*' ∉ v :: values) (noneTaken : '*' ∉ taken) :
      '*' ∉ (taken ++ v :: values).tail := fun inTail =>
    (List.mem_append.mp (List.mem_of_mem_tail inTail)).elim noneTaken noStar
  induction star, pattern, value using matchLoop.induct with
  | case1 star pattern =>
      rw [matchLoop, greedy, onlyStars, componentSymbols, List.all_map]
      congr 1
      funext c
      by_cases isStar : c = '*' <;> simp [isStar]
  | case2 star p rest v values equal ih =>
      have equal : p = '?' ∨ p = v := by simpa using equal
      have symbol : p ≠ '*' := by
        rintro rfl
        rcases equal with same | rfl
        · exact absurd same (by decide)
        · exact noStar (List.mem_cons_self ..)
      have noneRead : ∀ after taken, (star.map fun s => (s.1, s.2 ++ [v])) = some (after, taken) → '*' ∉ taken := by
        intro after taken same inTaken
        obtain ⟨⟨before, read⟩, rfl, pair⟩ := Option.map_eq_some_iff.mp same
        obtain ⟨rfl, rfl⟩ := Prod.mk.inj pair
        rcases List.mem_append.mp inTaken with old | new
        · exact noneRead before read rfl old
        · exact noStar (List.mem_singleton.mp new ▸ List.mem_cons_self ..)
      rw [matchLoop_cons, if_pos equal, componentSymbols_symbol symbol, greedy_single, if_pos (decide_eq_true equal),
        ih (fun inValues => noStar (List.mem_cons_of_mem _ inValues)) noneRead, Option.map_map, Option.map_map]
      rfl
  | case3 star rest v values other ih =>
      have other : ¬ ('*' = '?' ∨ '*' = v) := by simpa using other
      rw [matchLoop_cons, if_neg other, if_pos rfl, componentSymbols_star, greedy, ih noStar (by rintro _ _ ⟨⟩; simp)]
      rfl
  | case4 p rest v values other symbol =>
      have other : ¬ (p = '?' ∨ p = v) := by simpa using other
      rw [matchLoop_cons, if_neg other, if_neg symbol, componentSymbols_symbol symbol, greedy_single,
        if_neg (by simpa using other)]
      rfl
  | case5 p rest v values other symbol after taken ih =>
      have other : ¬ (p = '?' ∨ p = v) := by simpa using other
      have tail := fromStar taken values v noStar (noneRead after taken rfl)
      rw [matchLoop_cons, if_neg other, if_neg symbol, componentSymbols_symbol symbol, greedy_single,
        if_neg (by simpa using other)]
      exact ih tail (by rintro _ _ ⟨⟩; simp)
  | case6 v values =>
      rw [matchLoop]
      simp [componentSymbols, greedy]
  | case7 v values after taken ih =>
      have tail := fromStar taken values v noStar (noneRead after taken rfl)
      rw [matchLoop]
      simp only [componentSymbols, List.map_nil, Option.map_some, greedy]
      exact ih tail (by rintro _ _ ⟨⟩; simp)

theorem matchComponent_iff {part component : FilterText} (noStar : '*' ∉ component) :
    matchComponent part component = true ↔ ComponentGlob part component := by
  rw [matchComponent, matchLoop_eq_greedy none part component noStar (by rintro _ _ ⟨⟩), Option.map_none, greedy_iff]
  simp only [decide_eq_true_eq]
  rfl

/-- The components are matched as the parts say, whatever one component matches. -/
theorem matchSegments_iff (parts components : List FilterText)
    (each : ∀ component ∈ components, ∀ part, matchComponent part component = true ↔ ComponentGlob part component) :
    matchSegments (parts.map toSegment) components = true ↔ PathGlob parts components := by
  induction parts generalizing components with
  | nil => simp [matchSegments, PathGlob, pathSymbols]
  | cons part rest ih =>
      by_cases wide : part = ['*', '*']
      · have later (next : List FilterText) (suffix : next <:+ components) :
            matchSegments (rest.map toSegment) next = true ↔ PathGlob rest next :=
          ih next fun component inNext => each component (suffix.subset inNext)
        have globs : PathGlob (part :: rest) components ↔
            ∃ front back, components = front ++ back ∧ PathGlob rest back := by
          rw [PathGlob, pathSymbols, List.map_cons, if_pos wide, Globs.run_iff]
          rfl
        have code : matchSegments ((part :: rest).map toSegment) components = true ↔
            rest = [] ∨ ∃ next, next <:+ components ∧ matchSegments (rest.map toSegment) next = true := by
          rw [List.map_cons, (toSegment_eq_doubleStar_iff part).mpr wide, matchSegments]
          simp [List.mem_tails]
        rw [globs, code]
        constructor
        · rintro (rfl | ⟨next, suffix, matched⟩)
          · exact ⟨components, [], (List.append_nil _).symm, Globs.nil⟩
          · obtain ⟨front, rfl⟩ := suffix
            exact ⟨front, next, rfl, (later next ⟨front, rfl⟩).mp matched⟩
        · rintro ⟨front, back, rfl, rest⟩
          exact .inr ⟨back, ⟨front, rfl⟩, (later back ⟨front, rfl⟩).mpr rest⟩
      · have text : toSegment part = .text part := if_neg wide
        have globs (list : List FilterText) : PathGlob (part :: rest) list ↔
            Globs ComponentGlob (some part :: pathSymbols rest) list := by
          rw [PathGlob, pathSymbols, List.map_cons, if_neg wide]
          rfl
        rw [List.map_cons, text, globs]
        cases components with
        | nil => simp [matchSegments]
        | cons component others =>
            have others := ih others fun component inOthers => each component (List.mem_cons_of_mem _ inOthers)
            have here := each component (List.mem_cons_self ..) part
            rw [matchSegments, Globs.single_cons_iff, Bool.and_eq_true, here, others]
            rfl

/-- One pattern decides a path without a star in its components. -/
theorem matchesPath_iff (folding : CaseFolding) (pattern : FilterText) (components : List FilterText)
    (isDirectory : Bool) (noStar : ∀ component ∈ components, '*' ∉ component) :
    (compileValidated folding pattern).matchesPath components isDirectory = true ↔
      Excludes folding pattern components isDirectory := by
  have directoryOnly : (compileValidated folding pattern).directoryOnly = true ↔ pattern.getLast? = some '/' := by
    simp [compileValidated]
  have segments := compileValidated_segments folding pattern
  have nameOnly := compileValidated_nameOnly folding pattern
  generalize compileValidated folding pattern = compiled at *
  obtain ⟨directories, names, parts⟩ := compiled
  simp only at directoryOnly segments nameOnly
  subst segments
  have body : (⟨false, names, (patternParts folding pattern).map toSegment⟩ : CompiledPattern).matchesPath
      components isDirectory = true ↔
        (∃ part name, NameOnly folding pattern part ∧ components.getLast? = some name ∧ ComponentGlob part name) ∨
          (¬ ∃ part, NameOnly folding pattern part) ∧ PathGlob (patternParts folding pattern) components := by
    by_cases named : names = true
    · obtain ⟨part, only⟩ := nameOnly.mp named
      have unique (other : FilterText) (otherOnly : NameOnly folding pattern other) : other = part := by
        simpa using otherOnly.2.1.symm.trans only.2.1
      rw [CompiledPattern.matchesPath, Bool.false_and, if_neg Bool.false_ne_true, if_pos named, only.2.1, List.map_singleton, toSegment, if_neg only.2.2]
      cases last : components.getLast? with
      | none => simp [show ∃ part, NameOnly folding pattern part from ⟨part, only⟩]
      | some name =>
          have star := noStar name (List.mem_of_getLast? last)
          simp only [matchComponent_iff star]
          constructor
          · exact fun globs => .inl ⟨part, name, only, rfl, globs⟩
          · rintro (⟨other, _, otherOnly, ⟨⟩, globs⟩ | ⟨none, _⟩)
            · exact unique other otherOnly ▸ globs
            · exact absurd ⟨part, only⟩ none
    · have none := mt nameOnly.mpr named
      rw [CompiledPattern.matchesPath, Bool.false_and, if_neg Bool.false_ne_true, if_neg named, matchSegments_iff _ _ fun component inPath part => matchComponent_iff (noStar component inPath)]
      constructor
      · exact fun globs => .inr ⟨none, globs⟩
      · rintro (⟨part, _, only, _⟩ | ⟨_, globs⟩)
        · exact absurd ⟨part, only⟩ none
        · exact globs
  rw [Excludes, ← body, ← directoryOnly]
  cases directories <;> cases isDirectory <;> simp [CompiledPattern.matchesPath]

/-- The filter is exact on the paths that have a component and no star in one. -/
theorem filterExact_of_noStar (folding : CaseFolding) (value : FilterText)
    (some : pathComponents folding value ≠ []) (noStar : ∀ component ∈ pathComponents folding value, '*' ∉ component) :
    FilterExact folding value := by
  intro patterns isDirectory _
  rw [filterMatches, splitPathComponents_pathToMatchString]
  simp [some, matchesPath_iff folding _ _ isDirectory noStar]

/-! ## Paths with a star of their own -/

def questions (text : FilterText) : FilterText := List.replicate text.length '?'

/-- A part that a component with a star has the form of: its run takes nothing. -/
def starPart (front back : FilterText) : FilterText := questions front ++ '*' :: questions ('*' :: back)

theorem stands_questions (text : FilterText) : List.Forall₂ Stands (questions text) text := by
  induction text with
  | nil => exact List.Forall₂.nil
  | cons c rest ih => exact List.Forall₂.cons (.inl rfl) ih

theorem componentSymbols_questions (text rest : FilterText) :
    componentSymbols (questions text ++ rest) = (questions text).map some ++ componentSymbols rest := by
  rw [componentSymbols, List.map_append]
  congr 1
  refine List.map_congr_left fun c inQuestions => ?_
  rw [(List.mem_replicate.mp inQuestions).2]
  rfl

theorem componentGlob_questions (text : FilterText) : ComponentGlob (questions text) text := by
  have symbols := componentSymbols_questions text []
  rw [List.append_nil] at symbols
  rw [ComponentGlob, symbols, componentSymbols, List.map_nil, List.append_nil]
  exact Globs.symbols_iff.mpr (stands_questions text)

theorem componentGlob_starPart (front back : FilterText) :
    ComponentGlob (starPart front back) (front ++ '*' :: back) := by
  rw [ComponentGlob, starPart, componentSymbols_questions, componentSymbols_star]
  exact Globs.append_symbols (stands_questions front) (Globs.skip (componentGlob_questions ('*' :: back)))

theorem matchLoop_questions (text rest value : FilterText) :
    matchLoop none (questions text ++ rest) (text ++ value) = matchLoop none rest value := by
  induction text with
  | nil => rfl
  | cons c text ih =>
      have step := matchLoop_cons none '?' (questions text ++ rest) c (text ++ value)
      rw [if_pos (.inl rfl), Option.map_none, ih] at step
      exact step

/-- The code reads the star of the part as the star of the component, and a character is
missing for the last question mark. -/
theorem matchComponent_starPart (front back : FilterText) :
    matchComponent (starPart front back) (front ++ '*' :: back) = false := by
  have equal : questions ('*' :: back) = questions back ++ ['?'] := List.replicate_succ'
  have last := matchLoop_questions back ['?'] []
  rw [List.append_nil] at last
  rw [matchComponent, starPart, matchLoop_questions, matchLoop_cons, if_pos (.inr rfl), Option.map_none, equal, last,
    matchLoop]
  rfl

/-- Parts the grammar reads one component at a time. -/
theorem matchSegments_texts (parts components : List FilterText) (texts : ∀ part ∈ parts, part ≠ ['*', '*']) :
    matchSegments (parts.map toSegment) components = true ↔
      List.Forall₂ (fun part component => matchComponent part component = true) parts components := by
  induction parts generalizing components with
  | nil => simp [matchSegments]
  | cons part rest ih =>
      rw [List.map_cons, toSegment, if_neg (texts part (List.mem_cons_self ..))]
      cases components with
      | nil => simp [matchSegments]
      | cons component others =>
          simp [matchSegments, ih others fun part inRest => texts part (List.mem_cons_of_mem _ inRest)]

/-- A part that the filter accepts as it stands: wildcards only, and not `**`. -/
structure Wild (part : FilterText) : Prop where
  some : part ≠ []
  wild : ∀ c ∈ part, c = '?' ∨ c = '*'
  text : part ≠ ['*', '*']

theorem wild_questions {text : FilterText} (some : text ≠ []) : Wild (questions text) where
  some := by simpa [questions] using some
  wild := fun c inQuestions => .inl (List.mem_replicate.mp inQuestions).2
  text := fun same => by
    have star : '*' ∈ questions text := same ▸ List.mem_cons_self ..
    exact absurd (List.mem_replicate.mp star).2 (by decide)

theorem wild_starPart (front back : FilterText) : Wild (starPart front back) where
  some := by simp [starPart]
  wild := by
    intro c inPart
    rcases List.mem_append.mp inPart with inFront | inRest
    · exact .inl (List.mem_replicate.mp inFront).2
    · rcases List.mem_cons.mp inRest with rfl | inBack
      · exact .inr rfl
      · exact .inl (List.mem_replicate.mp inBack).2
  text := fun same => by
    have mark : '?' ∈ starPart front back := by simp [starPart, questions]
    rw [same] at mark
    exact absurd mark (by decide)

/-- The parts with a separator between them. -/
def joined (parts : List FilterText) : FilterText := ['/'].intercalate parts

theorem joined_cons_cons (part second : FilterText) (rest : List FilterText) :
    joined (part :: second :: rest) = part ++ '/' :: joined (second :: rest) := by
  simp [joined, List.intercalate_cons_cons]

theorem joined_chars {parts : List FilterText} (wild : ∀ part ∈ parts, Wild part) :
    ∀ c ∈ joined parts, c = '/' ∨ c = '?' ∨ c = '*' := by
  induction parts with
  | nil => simp [joined]
  | cons part rest ih =>
      have here := (wild part (List.mem_cons_self ..)).wild
      cases rest with
      | nil => simpa [joined] using fun c inPart => Or.inr (here c inPart)
      | cons second rest =>
          intro c inJoined
          rw [joined_cons_cons] at inJoined
          rcases List.mem_append.mp inJoined with inPart | inRest
          · exact .inr (here c inPart)
          · rcases List.mem_cons.mp inRest with slash | later
            · exact .inl slash
            · exact ih (fun part inRest => wild part (List.mem_cons_of_mem _ inRest)) c later

theorem Wild.head {part : FilterText} (wild : Wild part) : ∃ c rest, part = c :: rest ∧ c ≠ '/' := by
  obtain ⟨c, rest, rfl⟩ := List.exists_cons_of_ne_nil wild.some
  refine ⟨c, rest, rfl, ?_⟩
  rcases wild.wild c (List.mem_cons_self ..) with rfl | rfl <;> decide

theorem Wild.last {part : FilterText} (wild : Wild part) : ∃ front c, part = front ++ [c] ∧ c ≠ '/' := by
  obtain ⟨front, c, rfl⟩ := (List.eq_nil_or_concat' part).resolve_left wild.some
  refine ⟨front, c, rfl, ?_⟩
  rcases wild.wild c (by simp) with rfl | rfl <;> decide

theorem joined_head {parts : List FilterText} (some : parts ≠ []) (wild : ∀ part ∈ parts, Wild part) :
    ∃ c rest, joined parts = c :: rest ∧ c ≠ '/' := by
  obtain ⟨part, rest, rfl⟩ := List.exists_cons_of_ne_nil some
  obtain ⟨c, others, rfl, other⟩ := (wild part (List.mem_cons_self ..)).head
  cases rest with
  | nil => exact ⟨c, others, by simp [joined], other⟩
  | cons second rest => exact ⟨c, others ++ '/' :: joined (second :: rest), by simp [joined_cons_cons], other⟩

theorem joined_last {parts : List FilterText} (some : parts ≠ []) (wild : ∀ part ∈ parts, Wild part) :
    ∃ front c, joined parts = front ++ [c] ∧ c ≠ '/' := by
  induction parts with
  | nil => exact absurd rfl some
  | cons part rest ih =>
      cases rest with
      | nil =>
          obtain ⟨front, c, rfl, other⟩ := (wild part (List.mem_cons_self ..)).last
          exact ⟨front, c, by simp [joined], other⟩
      | cons second rest =>
          obtain ⟨front, c, same, other⟩ :=
            ih (List.cons_ne_nil second rest) fun part inRest => wild part (List.mem_cons_of_mem _ inRest)
          exact ⟨part ++ '/' :: front, c, by simp [joined_cons_cons, same], other⟩

theorem splitOn_joined {parts : List FilterText} (some : parts ≠ []) (wild : ∀ part ∈ parts, Wild part) :
    (joined parts).splitOn '/' = parts := by
  refine List.splitOn_intercalate '/' (fun part inParts slash => ?_) some
  rcases (wild part inParts).wild '/' slash with same | same <;> exact absurd same (by decide)

theorem Wild.componentError {part : FilterText} (wild : Wild part) : componentError part = none := by
  have other (c : Char) (inPart : c ∈ part) : c ≠ '.' ∧ c ≠ '\\' := by
    rcases wild.wild c inPart with rfl | rfl <;> decide
  have backslash : '\\' ∉ part := fun inPart => (other _ inPart).2 rfl
  obtain ⟨c, rest, rfl, _⟩ := wild.head
  have dot : c ≠ '.' := (other c (List.mem_cons_self ..)).1
  simp [Backup.componentError, dot, backslash]

/-- The pattern is its own normal form. -/
theorem validateExcludePattern_joined {parts : List FilterText} (some : parts ≠ [])
    (wild : ∀ part ∈ parts, Wild part) : validateExcludePattern ('/' :: joined parts) = .ok ('/' :: joined parts) := by
  have chars : ∀ c ∈ '/' :: joined parts, c = '/' ∨ c = '?' ∨ c = '*' := by
    intro c inPattern
    exact (List.mem_cons.mp inPattern).elim .inl (joined_chars wild c)
  have noSpace : ∀ c ∈ '/' :: joined parts, isFilterSpace c = false := by
    intro c inPattern
    rcases chars c inPattern with rfl | rfl | rfl <;> decide
  obtain ⟨c, rest, first, notSlash⟩ := joined_head some wild
  obtain ⟨front, d, last, lastNotSlash⟩ := joined_last some wild
  have errors : parts.findSome? componentError = none :=
    List.findSome?_eq_none_iff.mpr fun part inParts => (wild part inParts).componentError
  have trimmed : trimPattern ('/' :: joined parts) = '/' :: joined parts := by
    rw [trimPattern, List.dropWhile_cons_of_neg (by decide), last, ← List.cons_append,
      List.rdropWhile_concat_neg]
    rw [noSpace d (by simp [last])]
    exact Bool.false_ne_true
  have replaced : replaceBackslashes ('/' :: joined parts) = '/' :: joined parts := by
    refine (List.map_congr_left fun c inPattern => ?_).trans (List.map_id _)
    rcases chars c inPattern with rfl | rfl | rfl <;> rfl
  have scheme : hasDriveOrScheme ('/' :: joined parts) = false := by
    rw [hasDriveOrScheme, List.contains_eq_mem, decide_eq_false_iff_not]
    intro inPattern
    rcases chars _ inPattern with same | same | same <;> exact absurd same (by decide)
  have unc : isUncPattern ('/' :: joined parts) = false := by
    rw [first]
    simp [isUncPattern, notSlash]
  have shortened : ('/' :: joined parts).rdropWhile (· == '/') = '/' :: joined parts := by
    rw [last, ← List.cons_append, List.rdropWhile_concat_neg _ _ _ (by simpa using lastNotSlash)]
  have body : ('/' :: joined parts).dropWhile (· == '/') = joined parts := by
    rw [List.dropWhile_cons_of_pos (by decide), first, List.dropWhile_cons_of_neg (by simpa using notSlash)]
  have ends : ('/' :: joined parts).getLast? ≠ Option.some '/' := by
    rw [last, ← List.cons_append, List.getLast?_concat]
    simpa using lastNotSlash
  have some' : joined parts ≠ [] := by simp [first]
  simp [validateExcludePattern, trimmed, scheme, replaced, unc, shortened, body, splitOn_joined some wild, errors,
    some', if_neg ends]

/-- A component with a star is missed by the pattern that has its star there. -/
theorem not_matched_starPart (folding : CaseFolding) {before after : List FilterText} {front back : FilterText}
    (some : ∀ component ∈ before ++ (front ++ '*' :: back) :: after, component ≠ []) :
    ∃ pattern, Accepted pattern ∧ Excludes folding pattern (before ++ (front ++ '*' :: back) :: after) false ∧
      (compileValidated folding pattern).matchesPath (before ++ (front ++ '*' :: back) :: after) false = false := by
  have parts : ∃ parts, parts = before.map questions ++ starPart front back :: after.map questions := ⟨_, rfl⟩
  obtain ⟨parts, same⟩ := parts
  have nonempty : parts ≠ [] := by simp [same]
  have wild : ∀ part ∈ parts, Wild part := by
    intro part inParts
    rw [same] at inParts
    rcases List.mem_append.mp inParts with inBefore | inRest
    · obtain ⟨component, inPath, rfl⟩ := List.mem_map.mp inBefore
      exact wild_questions (some component (by simp [inPath]))
    · rcases List.mem_cons.mp inRest with rfl | inAfter
      · exact wild_starPart front back
      · obtain ⟨component, inPath, rfl⟩ := List.mem_map.mp inAfter
        exact wild_questions (some component (by simp [inPath]))
  have folded : ('/' :: joined parts).map folding.fold = '/' :: joined parts := by
    refine (List.map_congr_left fun c inPattern => ?_).trans (List.map_id _)
    rcases (List.mem_cons.mp inPattern).elim .inl (joined_chars wild c) with rfl | rfl | rfl
    · exact folding.fold_slash
    · exact folding.fold_question
    · exact folding.fold_star
  have partsOf : patternParts folding ('/' :: joined parts) = parts := by
    rw [patternParts, folded, partsBetween_slash_cons, partsBetween, splitOn_joined nonempty wild]
    exact List.filter_eq_self.mpr fun part inParts => by simpa using (wild part inParts).some
  have rooted : ¬ ∃ part, NameOnly folding ('/' :: joined parts) part := by
    rintro ⟨part, only⟩
    exact only.1 rfl
  have globs : List.Forall₂ ComponentGlob parts (before ++ (front ++ '*' :: back) :: after) := by
    have plain (list : List FilterText) : List.Forall₂ ComponentGlob (list.map questions) list :=
      List.forall₂_map_left_iff.mpr (List.forall₂_same.mpr fun component _ => componentGlob_questions component)
    rw [same]
    exact List.rel_append (plain before) (List.Forall₂.cons (componentGlob_starPart front back) (plain after))
  refine ⟨'/' :: joined parts, ⟨_, validateExcludePattern_joined nonempty wild⟩, ⟨?_, .inr ⟨rooted, ?_⟩⟩, ?_⟩
  · obtain ⟨rest, c, last, notSlash⟩ := joined_last nonempty wild
    rw [last, ← List.cons_append, List.getLast?_concat]
    exact fun slash => absurd (Option.some.inj slash) notSlash
  · have symbols : pathSymbols parts = parts.map Option.some :=
      List.map_congr_left fun part inParts => if_neg (wild part inParts).text
    rw [PathGlob, partsOf, symbols, Globs.symbols_iff]
    exact globs
  · have segments := compileValidated_segments folding ('/' :: joined parts)
    have nameOnly := mt (compileValidated_nameOnly folding ('/' :: joined parts)).mp rooted
    rw [CompiledPattern.matchesPath, if_neg nameOnly, segments, partsOf]
    split
    · rfl
    · rw [Bool.eq_false_iff, ne_eq, matchSegments_texts parts _ fun part inParts => (wild part inParts).text, same]
      intro pairs
      have rest := List.forall₂_drop before.length pairs
      rw [List.drop_left' (by simp), List.drop_left' rfl] at rest
      have here := (List.forall₂_cons.mp rest).1
      rw [matchComponent_starPart] at here
      exact absurd here Bool.false_ne_true

theorem pathComponents_nonempty (folding : CaseFolding) (value : FilterText) {component : FilterText}
    (inPath : component ∈ pathComponents folding value) : component ≠ [] := by
  have kept := (List.mem_filter.mp inPath).2
  rintro rfl
  exact absurd kept (by decide)

theorem accepted_doubleStar : Accepted ['*', '*'] := ⟨['*', '*'], by decide⟩

/-- The pattern `**` has the form of no components at all. -/
theorem excludes_doubleStar (folding : CaseFolding) : Excludes folding ['*', '*'] [] false := by
  have parts : patternParts folding ['*', '*'] = [['*', '*']] := by
    simp only [patternParts, List.map_cons, List.map_nil, folding.fold_star]
    decide
  have wide : ¬ ∃ part, NameOnly folding ['*', '*'] part := by
    rintro ⟨part, _, single, text⟩
    exact text (List.singleton_inj.mp (single.symm.trans parts))
  refine ⟨by decide, .inr ⟨wide, ?_⟩⟩
  rw [parts]
  exact Globs.skip Globs.nil

/-- The filter means its patterns exactly on the paths that have a component and no
component with a `*` of its own. -/
theorem filterExact_iff (folding : CaseFolding) (value : FilterText) :
    FilterExact folding value ↔
      pathComponents folding value ≠ [] ∧ ∀ component ∈ pathComponents folding value, '*' ∉ component := by
  constructor
  · intro decides
    constructor
    · intro empty
      have matched := (decides [['*', '*']] false (by simpa using accepted_doubleStar)).mpr
        ⟨['*', '*'], List.mem_singleton_self _, empty ▸ excludes_doubleStar folding⟩
      rw [filterMatches, splitPathComponents_pathToMatchString, empty] at matched
      exact absurd matched Bool.false_ne_true
    · intro component inPath star
      obtain ⟨before, after, path⟩ := List.append_of_mem inPath
      obtain ⟨front, back, rfl⟩ := List.append_of_mem star
      have some : ∀ component ∈ before ++ (front ++ '*' :: back) :: after, component ≠ [] :=
        path ▸ fun component => pathComponents_nonempty folding value
      obtain ⟨pattern, accepted, excluded, missed⟩ := not_matched_starPart folding some
      have matched := (decides [pattern] false (by simpa using accepted)).mpr
        ⟨pattern, List.mem_singleton_self _, path ▸ excluded⟩
      rw [filterMatches, splitPathComponents_pathToMatchString, path] at matched
      simp [missed] at matched
  · rintro ⟨some, noStar⟩
    exact filterExact_of_noStar folding value some noStar

/-- The name `*xa` has the form `*a`, and the filter lets it pass. -/
theorem not_filterExact_starName : ¬ FilterExact CaseFolding.none ['*', 'x', 'a'] := by
  intro decides
  have components : pathComponents CaseFolding.none ['*', 'x', 'a'] = [['*', 'x', 'a']] := by decide
  have accepted : Accepted ['*', 'a'] := ⟨['*', 'a'], by decide⟩
  have only : NameOnly CaseFolding.none ['*', 'a'] ['*', 'a'] := ⟨by decide, by decide, by decide⟩
  have globs : ComponentGlob ['*', 'a'] ['*', 'x', 'a'] :=
    Globs.take (Globs.take (Globs.skip (Globs.single (.inr rfl) Globs.nil)))
  have matched := (decides [['*', 'a']] false (by simpa using accepted)).mpr
    ⟨['*', 'a'], List.mem_singleton_self _, by decide, .inl ⟨_, _, only, by rw [components]; rfl, globs⟩⟩
  have missed : matchComponent ['*', 'a'] ['*', 'x', 'a'] = false := by
    simp [matchComponent, matchLoop_cons]
  rw [filterMatches, splitPathComponents_pathToMatchString, components] at matched
  have compiled : compileValidated CaseFolding.none ['*', 'a'] = ⟨false, true, [.text ['*', 'a']]⟩ := by decide
  simp [compiled, CompiledPattern.matchesPath, missed] at matched

end SearchEngine.Backup
