import SearchEngine.Archive.ArgumentQuoting
import SearchEngine.Lib.Separated

/-!
# The tokens of a quoted command line

The tokenizer of the configuration tool knows no backslash rules. What it makes of a quoted
text follows from the spaces and the quotes of the text.
-/

namespace SearchEngine.Archive

open SearchEngine.Files SearchEngine.Lib

/-! ## The tokens of the configuration tool -/

theorem readTokens_stop {quoted : Bool} (text : Path) : tokenStop quoted ∉ text → ∀ (token rest : Path),
    readTokens (some (quoted, token)) (text ++ tokenStop quoted :: rest) = (token ++ text) :: readTokens none rest := by
  induction text with
  | nil =>
      intro _ token rest
      rw [List.nil_append, readTokens, if_pos rfl, List.append_nil]
  | cons c text ih =>
      intro plain token rest
      rw [List.mem_cons, not_or] at plain
      rw [List.cons_append, readTokens, if_neg (Ne.symm plain.1), ih plain.2, List.append_assoc]
      rfl

theorem readTokens_continue (text : Path) : ' ' ∉ text → ∀ (token rest : Path),
    readTokens (some (false, token)) (text ++ rest) = readTokens (some (false, token ++ text)) rest := by
  induction text with
  | nil => exact fun _ token rest => by rw [List.nil_append, List.append_nil]
  | cons c text ih =>
      intro plain token rest
      rw [List.mem_cons, not_or] at plain
      rw [List.cons_append, readTokens, if_neg (show c ≠ tokenStop false from Ne.symm plain.1), ih plain.2,
        List.append_assoc]
      rfl

/-- A word that does not start with a quote. -/
theorem readTokens_word {word : Path} (filled : word ≠ []) (plain : ' ' ∉ word) (start : word.head? ≠ some '"')
    (rest : Path) : readTokens none (word ++ rest) = readTokens (some (false, word)) rest := by
  cases word with
  | nil => exact absurd rfl filled
  | cons c word =>
      rw [List.mem_cons, not_or] at plain
      rw [List.cons_append, readTokens, if_neg (Ne.symm plain.1), if_neg (by simpa using start),
        readTokens_continue word plain.2]
      rfl

theorem readTokens_quoted {text : Path} (plain : '"' ∉ text) (rest : Path) :
    readTokens none ('"' :: (text ++ '"' :: rest)) = text :: readTokens none rest := by
  rw [readTokens, if_neg (by decide), if_pos rfl]
  exact @readTokens_stop true text plain [] rest

/-- The words that a space follows. -/
def spacedWords (text : Path) : List Path := (text.splitOn ' ').dropLast.filter (!·.isEmpty)

/-- What follows the last space. -/
def lastWord (text : Path) : Path := (text.splitOn ' ').getLastD []

theorem splitOn_space {word : Path} (plain : ' ' ∉ word) (rest : Path) :
    spacedWords (word ++ ' ' :: rest) = (if word = [] then [] else [word]) ++ spacedWords rest ∧
      lastWord (word ++ ' ' :: rest) = lastWord rest := by
  unfold spacedWords lastWord
  rw [List.splitOn_append_cons_self_of_not_mem plain]
  cases parts : rest.splitOn ' ' with
  | nil => exact absurd parts (List.splitOn_ne_nil _ _)
  | cons part more =>
      constructor
      · rw [List.dropLast_cons_cons, List.filter_cons]
        cases word <;> simp
      · simp [List.getLastD_eq_getLast?]

theorem head_quoteWord (word : Path) : ∀ slashes : Nat, (quoteWord slashes word).head? ≠ some '"' := by
  induction word with
  | nil =>
      intro slashes
      cases slashes <;> simp [quoteWord, List.replicate_succ]
  | cons ch word ih =>
      intro slashes
      rw [quoteWord]
      split
      · exact ih (slashes + 1)
      split
      · simp [List.replicate_succ]
      · rename_i quote
        cases slashes with
        | zero => simpa using quote
        | succ slashes => simp [List.replicate_succ]

theorem mem_quoteWord {c : Char} (word : Path) : ∀ slashes : Nat,
    c ∈ quoteWord slashes word → c = '\\' ∨ c ∈ word := by
  induction word with
  | nil => exact fun slashes member => .inl (List.eq_of_mem_replicate member)
  | cons ch word ih =>
      intro slashes member
      rw [quoteWord] at member
      split at member
      · exact (ih _ member).imp_right (List.mem_cons_of_mem _)
      split at member
      · rename_i quote
        rcases List.mem_append.mp member with slash | rest
        · exact .inl (List.eq_of_mem_replicate slash)
        · rcases List.mem_cons.mp rest with here | later
          · exact .inr (by simp [here, quote])
          · exact (ih _ later).imp_right (List.mem_cons_of_mem _)
      · rcases List.mem_append.mp member with slash | rest
        · exact .inl (List.eq_of_mem_replicate slash)
        · rcases List.mem_cons.mp rest with here | later
          · exact .inr (by simp [here])
          · exact (ih _ later).imp_right (List.mem_cons_of_mem _)

theorem quoteWord_ne_nil (word : Path) : ∀ slashes : Nat, 0 < slashes ∨ word ≠ [] → quoteWord slashes word ≠ [] := by
  induction word with
  | nil =>
      rintro slashes (positive | filled)
      · rw [quoteWord, Ne, List.replicate_eq_nil_iff]
        omega
      · exact absurd rfl filled
  | cons ch word ih =>
      intro slashes _
      rw [quoteWord]
      split
      · exact ih (slashes + 1) (.inl (by omega))
      split
      · simp
      · simp

theorem quoteBody_eq_quoteWord (word : Path) : ∀ slashes : Nat, ∃ count,
    quoteBody slashes word = quoteWord slashes word ++ List.replicate count '\\' := by
  induction word with
  | nil => exact fun slashes => ⟨slashes, by rw [quoteBody, quoteWord, List.replicate_append_replicate, Nat.mul_two]⟩
  | cons ch word ih =>
      intro slashes
      obtain ⟨count, same⟩ := ih 0
      rw [quoteBody, quoteWord]
      split
      · exact ih (slashes + 1)
      split
      · exact ⟨count, by rw [same, List.append_assoc, List.cons_append]⟩
      · exact ⟨count, by rw [same, List.append_assoc, List.cons_append]⟩

theorem readTokens_quoteWord {word : Path} (filled : word ≠ []) (plain : ' ' ∉ word) (rest : Path) :
    readTokens none (quoteWord 0 word ++ rest) = readTokens (some (false, quoteWord 0 word)) rest := by
  apply readTokens_word
  · exact quoteWord_ne_nil word 0 (.inr filled)
  · intro member
    rcases mem_quoteWord word 0 member with slash | inside
    · exact absurd slash (by decide)
    · exact plain inside
  · exact head_quoteWord word 0

/-- The words of a quoted text, up to and over its closing quote. -/
theorem readTokens_quoteBody (rest text : Path) :
    readTokens none (quoteBody 0 text ++ '"' :: rest) =
      (spacedWords text).map (quoteWord 0) ++
        if lastWord text = [] then readTokens (some (true, [])) rest
        else readTokens (some (false, quoteBody 0 (lastWord text) ++ ['"'])) rest := by
  induction text using parts_induction ' ' with
  | last word plain =>
      have parts : word.splitOn ' ' = [word] := List.splitOn_eq_singleton plain
      simp only [spacedWords, lastWord, parts, List.dropLast_singleton, List.filter_nil, List.map_nil, List.nil_append,
        List.getLastD_cons, List.getLastD_nil]
      split
      · rename_i empty
        rw [empty]
        rfl
      · rename_i filled
        obtain ⟨count, same⟩ := quoteBody_eq_quoteWord word 0
        have slashes : ' ' ∉ List.replicate count '\\' ++ ['"'] := by
          intro member
          rcases List.mem_append.mp member with slash | quote
          · exact absurd (List.eq_of_mem_replicate slash) (by decide)
          · exact absurd (List.mem_singleton.mp quote) (by decide)
        have more : quoteBody 0 word ++ '"' :: rest =
            quoteWord 0 word ++ ((List.replicate count '\\' ++ ['"']) ++ rest) := by rw [same]; simp
        rw [more, readTokens_quoteWord filled plain, readTokens_continue _ slashes, same]
        simp
  | next word text plain ih =>
      obtain ⟨spaced, last⟩ := splitOn_space plain text
      rw [quoteBody_append_space, List.append_assoc, List.cons_append, spaced, last]
      split
      · rename_i empty
        rw [empty]
        exact ih
      · rename_i filled
        rw [readTokens_quoteWord filled plain, readTokens, if_pos (show ' ' = tokenStop false from rfl), ih]
        rfl

theorem findDataDir_mem {value : Path} (tokens : List Path) : findDataDir tokens = some value → value ∈ tokens.drop 1 := by
  induction tokens with
  | nil => exact fun found => by cases found
  | cons token tokens ih =>
      cases tokens with
      | nil => exact fun found => by cases found
      | cons next rest =>
          intro found
          rw [findDataDir] at found
          split at found
          · cases found
            exact List.mem_cons_self
          · exact List.mem_cons_of_mem _ (ih found)

theorem findDataDir_cons (token : Path) (rest : List Path) :
    findDataDir (token :: rest) = if token = dataDirFlag then rest.head? else findDataDir rest := by
  cases rest with
  | nil => simp [findDataDir]
  | cons next rest => rw [findDataDir, List.head?_cons]

/-- Where the search stops depends on the first flag alone. -/
theorem findDataDir_append (front rest : List Path) :
    findDataDir (front ++ rest) =
      match front.dropWhile (· ≠ dataDirFlag) with
      | [] => findDataDir rest
      | [_] => rest.head?
      | _ :: next :: _ => some next := by
  induction front with
  | nil => rfl
  | cons token front ih =>
      rw [List.cons_append, findDataDir_cons]
      by_cases flag : token = dataDirFlag
      · rw [if_pos flag, List.dropWhile_cons_of_neg (by simpa using flag)]
        cases front <;> rfl
      · rw [if_neg flag, List.dropWhile_cons_of_pos (by simpa using flag), ih]

/-! ## When the command line is read back -/

/-- What the tokenizer makes of a service name that stands before the data directory. It
splits a name behind its first quote at the spaces, and the quotes after it change places. -/
def TokenizedAlike (name data : Path) : Prop :=
  match name.dropWhile (· ≠ '"') with
  | [] => name ≠ dataDirFlag ∧ data.getLast? ≠ some '\\'
  | _ :: rest =>
      match (spacedWords rest).dropWhile (· ≠ dataDirFlag) with
      | [] => lastWord rest ≠ [] ∧ data.getLast? ≠ some '\\'
      | [_] => False
      | _ :: next :: _ => next = data

theorem findDataDir_quotedWords {data : Path} (plain : '"' ∉ data) (words rest : List Path) :
    findDataDir (words.map (quoteWord 0) ++ rest) = some data ↔
      match words.dropWhile (· ≠ dataDirFlag) with
      | [] => findDataDir rest = some data
      | [_] => rest.head? = some data
      | _ :: next :: _ => next = data := by
  have flag : ((fun word => decide (word ≠ dataDirFlag)) ∘ quoteWord 0) = fun word => decide (word ≠ dataDirFlag) := by
    funext word
    have same : quoteWord 0 word = dataDirFlag ↔ word = dataDirFlag := quoteWord_eq_iff (by decide)
    simp [same]
  rw [findDataDir_append, List.dropWhile_map, flag]
  cases words.dropWhile (· ≠ dataDirFlag) with
  | nil => rfl
  | cons first more =>
      cases more with
      | nil => rfl
      | cons next more =>
          simp only [List.map_cons, Option.some.injEq]
          exact quoteWord_eq_iff plain

/-- A word before a space is not the whole text. -/
theorem not_mem_spacedWords (text : Path) : text ∉ spacedWords text := by
  intro member
  have spaced : ∀ other : Path, ∀ word ∈ spacedWords other, ' ' ∉ word := by
    intro other
    induction other using parts_induction ' ' with
    | last word plain => simp [spacedWords, List.splitOn_eq_singleton plain]
    | next word rest plain ih =>
        intro found inside
        rw [(splitOn_space plain rest).1] at inside
        rcases List.mem_append.mp inside with first | later
        · split at first
          · cases first
          · exact List.mem_singleton.mp first ▸ plain
        · exact ih found later
  have plain := spaced text text member
  rw [spacedWords, List.splitOn_eq_singleton plain] at member
  cases member

/-- Behind a quote that opens at the wrong place the data directory is not found. -/
theorem findDataDir_misquoted {data token : Path} (plain : '"' ∉ data) (filled : data ≠ []) :
    findDataDir (token :: readTokens none (quoteBody 0 data ++ ['"'])) ≠ some data := by
  intro found
  have member := findDataDir_mem _ found
  rw [List.drop_succ_cons, List.drop_zero, readTokens_quoteBody [] data] at member
  rcases List.mem_append.mp member with word | last
  · obtain ⟨word, inside, same⟩ := List.mem_map.mp word
    rw [quoteWord_eq_iff plain] at same
    exact not_mem_spacedWords data (same ▸ inside)
  · split at last
    · rw [readTokens] at last
      exact filled (List.mem_singleton.mp last)
    · rw [readTokens] at last
      exact plain (List.mem_singleton.mp last ▸ List.mem_append_right _ List.mem_cons_self)

theorem readTokens_space (rest : Path) : readTokens none (' ' :: rest) = readTokens none rest := by
  rw [readTokens, if_pos rfl]

theorem readTokens_flag {flag : Path} (filled : flag ≠ []) (plain : ' ' ∉ flag) (start : flag.head? ≠ some '"')
    (rest : Path) : readTokens none (' ' :: (flag ++ ' ' :: rest)) = flag :: readTokens none (' ' :: rest) := by
  have stop := @readTokens_stop false [] List.not_mem_nil flag rest
  rw [List.nil_append, List.append_nil] at stop
  rw [readTokens_space, readTokens_space, readTokens_word filled plain start]
  exact stop

theorem plain_doubledEnd {text : Path} (plain : '"' ∉ text) : '"' ∉ doubledEnd text := by
  intro member
  rcases List.mem_append.mp member with inside | slash
  · exact plain inside
  · unfold trailingSlashes at slash
    exact absurd (List.mem_takeWhile_imp slash) (by decide)

theorem readTokens_quoteArgument {text : Path} (plain : '"' ∉ text) (rest : Path) :
    readTokens none (' ' :: (quoteArgument text ++ rest)) = doubledEnd text :: readTokens none rest := by
  rw [readTokens_space, quoteArgument, quoteBody_plain text plain, List.replicate_zero, List.nil_append,
    List.cons_append, List.append_assoc, List.singleton_append, readTokens_quoted (plain_doubledEnd plain)]

theorem readTokens_dataArgument {data : Path} (plain : '"' ∉ data) :
    readTokens none (' ' :: (dataDirFlag ++ ' ' :: quoteArgument data)) = [dataDirFlag, doubledEnd data] := by
  rw [readTokens_flag (by decide) (by decide) (by decide), ← List.append_nil (quoteArgument data),
    readTokens_quoteArgument plain]
  rfl

theorem findDataDir_dataArgument {data : Path} (plain : '"' ∉ data) :
    findDataDir (readTokens none (' ' :: (dataDirFlag ++ ' ' :: quoteArgument data))) = some data ↔
      data.getLast? ≠ some '\\' := by
  rw [readTokens_dataArgument plain, findDataDir, if_pos rfl, Option.some.injEq, doubledEnd_eq_self_iff]

/-- The tokens that the configuration tool reads behind the flags. -/
theorem parseDataDirFromImagePath_serviceImage {executable : Path} (plain : '"' ∉ executable) (name data : Path) :
    parseDataDirFromImagePath (serviceImage executable name data) =
      findDataDir (readTokens none (' ' :: (quoteArgument name ++ ' ' :: (dataDirFlag ++ ' ' :: quoteArgument data)))) := by
  rw [parseDataDirFromImagePath, serviceImage, ← readTokens_space, readTokens_quoteArgument plain, List.drop_succ_cons,
    List.drop_zero, readTokens_flag (by decide) (by decide) (by decide), findDataDir_cons, if_neg (by decide),
    readTokens_flag (by decide) (by decide) (by decide), findDataDir_cons, if_neg (by decide)]

/-- A name without quotes is one token. -/
theorem findDataDir_plainName {name data : Path} (plainName : '"' ∉ name) (plain : '"' ∉ data)
    (absolute : isAbsolutePath data = true) :
    findDataDir (readTokens none (' ' :: (quoteArgument name ++ ' ' :: (dataDirFlag ++ ' ' :: quoteArgument data)))) =
      some data ↔ name ≠ dataDirFlag ∧ data.getLast? ≠ some '\\' := by
  have same : doubledEnd name = dataDirFlag ↔ name = dataDirFlag := doubledEnd_eq_iff (by decide)
  rw [readTokens_quoteArgument plainName, findDataDir_cons]
  by_cases flag : name = dataDirFlag
  · rw [if_pos (same.mpr flag), readTokens_dataArgument plain, List.head?_cons, Option.some.injEq]
    constructor
    · rintro rfl
      exact absurd absolute (by decide)
    · exact fun both => absurd flag both.1
  · rw [if_neg (mt same.mp flag), findDataDir_dataArgument plain]
    exact ⟨fun closed => ⟨flag, closed⟩, fun both => both.2⟩

/-- The quote that should have closed the name opens a token up to the data directory. -/
theorem readTokens_misquoted (data : Path) :
    readTokens (some (true, [])) (' ' :: (dataDirFlag ++ ' ' :: quoteArgument data)) =
      (' ' :: (dataDirFlag ++ [' '])) :: readTokens none (quoteBody 0 data ++ ['"']) := by
  have stop := @readTokens_stop true (' ' :: (dataDirFlag ++ [' '])) (by decide) [] (quoteBody 0 data ++ ['"'])
  rw [List.nil_append] at stop
  rw [← stop, quoteArgument]
  simp [tokenStop]

/-- A quote of the name ends its token, and the words behind it are tokens of their own. -/
theorem findDataDir_quotedName {front rest data : Path} (plainFront : '"' ∉ front) (plain : '"' ∉ data)
    (absolute : isAbsolutePath data = true) :
    findDataDir (readTokens none (' ' :: (quoteArgument (front ++ '"' :: rest) ++
        ' ' :: (dataDirFlag ++ ' ' :: quoteArgument data)))) = some data ↔
      match (spacedWords rest).dropWhile (· ≠ dataDirFlag) with
      | [] => lastWord rest ≠ [] ∧ data.getLast? ≠ some '\\'
      | [_] => False
      | _ :: next :: _ => next = data := by
  have filled : data ≠ [] := by
    rintro rfl
    exact absurd absolute (by decide)
  have plainToken : '"' ∉ doubledEnd front ++ ['\\'] := by
    intro member
    rcases List.mem_append.mp member with inside | slash
    · exact plain_doubledEnd plainFront inside
    · exact absurd (List.mem_singleton.mp slash) (by decide)
  have token : doubledEnd front ++ ['\\'] ≠ dataDirFlag := by
    intro same
    have last : (doubledEnd front ++ ['\\']).getLast? = some '\\' := by simp
    rw [same] at last
    exact absurd last (by decide)
  have text : quoteArgument (front ++ '"' :: rest) ++ ' ' :: (dataDirFlag ++ ' ' :: quoteArgument data) =
      '"' :: ((doubledEnd front ++ ['\\']) ++ '"' :: (quoteBody 0 rest ++ '"' ::
        ' ' :: (dataDirFlag ++ ' ' :: quoteArgument data))) := by
    rw [quoteArgument, quoteBody_append_quote front plainFront]
    simp
  have last : readTokens (some (false, quoteBody 0 (lastWord rest) ++ ['"']))
      (' ' :: (dataDirFlag ++ ' ' :: quoteArgument data)) = (quoteBody 0 (lastWord rest) ++ ['"']) ::
        readTokens none (dataDirFlag ++ ' ' :: quoteArgument data) := by
    have stop := @readTokens_stop false [] List.not_mem_nil (quoteBody 0 (lastWord rest) ++ ['"'])
      (dataDirFlag ++ ' ' :: quoteArgument data)
    rwa [List.nil_append, List.append_nil] at stop
  have quote : '"' ∈ quoteBody 0 (lastWord rest) ++ ['"'] := by simp
  rw [readTokens_space, text, readTokens_quoted plainToken, findDataDir_cons, if_neg token, readTokens_quoteBody,
    findDataDir_quotedWords plain]
  by_cases empty : lastWord rest = []
  · rw [if_pos empty, readTokens_misquoted]
    split
    · exact ⟨fun found => absurd found (findDataDir_misquoted plain filled), fun both => absurd empty both.1⟩
    · rw [List.head?_cons, Option.some.injEq]
      constructor
      · rintro rfl
        exact absurd absolute (by decide)
      · exact False.elim
    · rfl
  · rw [if_neg empty, last]
    split
    · have flag : quoteBody 0 (lastWord rest) ++ ['"'] ≠ dataDirFlag := by
        intro same
        rw [same] at quote
        exact absurd quote (by decide)
      rw [findDataDir_cons, if_neg flag, ← readTokens_space, findDataDir_dataArgument plain]
      exact ⟨fun closed => ⟨empty, closed⟩, fun both => both.2⟩
    · rw [List.head?_cons, Option.some.injEq]
      constructor
      · intro same
        rw [same] at quote
        exact plain quote
      · exact False.elim
    · rfl

theorem parseDataDirFromImagePath_eq_iff {executable data : Path} (plainExecutable : '"' ∉ executable)
    (plain : '"' ∉ data) (absolute : isAbsolutePath data = true) (name : Path) :
    parseDataDirFromImagePath (serviceImage executable name data) = some data ↔ TokenizedAlike name data := by
  rw [parseDataDirFromImagePath_serviceImage plainExecutable]
  unfold TokenizedAlike
  split
  · rename_i unquoted
    refine findDataDir_plainName (fun member => ?_) plain absolute
    exact absurd (List.dropWhile_eq_nil_iff.mp unquoted '"' member) (by decide)
  · rename_i quote rest found
    have start : quote = '"' := by
      have head := List.head?_dropWhile_not (fun c => decide (c ≠ '"')) name
      rw [found] at head
      simpa using head
    subst start
    have cut : name.takeWhile (· ≠ '"') ++ '"' :: rest = name := by
      rw [← found]
      exact List.takeWhile_append_dropWhile
    have front : '"' ∉ name.takeWhile (· ≠ '"') :=
      fun member => absurd (List.mem_takeWhile_imp member) (by decide)
    have split := @findDataDir_quotedName _ rest _ front plain absolute
    rwa [cut] at split

end SearchEngine.Archive
