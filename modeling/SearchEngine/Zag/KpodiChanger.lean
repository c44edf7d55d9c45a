import Mathlib.Data.List.DropRight
import Mathlib.Data.List.Infix
import Mathlib.Logic.Function.Basic
import SearchEngine.Lib.Lines

/-!
# Rewriting the header of a telegram

`ZagKpodiChanger` replaces the first `From=` line of a file by the value its dictionary
has for the key there. The lines are read apart, joined by `"\r\n"`, written to a file
beside the telegram and moved over it. Bytes are the characters of their values; what
each step on the disk does is an answer of `Answers`.
-/

namespace SearchEngine.Zag

abbrev Text := List Char

/-- `std::isspace` in the "C" locale. -/
def isSpace (c : Char) : Bool :=
  c = ' ' || c = '\t' || c = '\n' || c = '\x0b' || c = '\x0c' || c = '\r'

def trim (s : Text) : Text := (s.dropWhile isSpace).rdropWhile isSpace

def stripTrailingCr (s : Text) : Text := if s.getLast? = some '\r' then s.dropLast else s

def startsWith (s start : Text) : Bool := start.isPrefixOf s

/-- `std::getline` until it fails. -/
def readLines : Text → List Text
  | [] => []
  | c :: rest =>
      if c = '\n' then [] :: readLines rest
      else match readLines rest with
        | [] => [[c]]
        | line :: lines => (c :: line) :: lines

def sMark : Text := ['s', '=']

def fromMark : Text := ['F', 'r', 'o', 'm', '=']

/-- `parse_s_key`. -/
def parseSKey (line : Text) : Text :=
  if startsWith line sMark then
    trim ((line.drop 2).takeWhile fun c => !(c == '/' || c == ' ' || c == '\t'))
  else []

/-- `std::map::emplace`: an entry that is there already stays. -/
def emplace (map : List (Text × Text)) (entry : Text × Text) : List (Text × Text) :=
  if (map.lookup entry.1).isSome then map else map ++ [entry]

/-- The pair a line and the line before it give, if any. -/
def parseEntry (previous current : Text) : Option (Text × Text) :=
  let value := parseSKey current
  let key := trim previous
  if startsWith current sMark = true ∧ value ≠ [] ∧ startsWith previous sMark = false ∧
      key ≠ [] then
    some (key, value)
  else none

/-- The pairs of consecutive lines, in order. -/
def parseEntries (lines : List Text) : List (Text × Text) :=
  (lines.zip lines.tail).filterMap fun pair => parseEntry pair.1 pair.2

/-- `loadMapOrThrow`; `none` is a dictionary that cannot be opened. -/
def loadMapOrThrow (dictionary : Option Text) : Except String (List (Text × Text)) :=
  match dictionary with
  | none => .error "ZagEditor: can't open dict file (EXPORT.INI)."
  | some content =>
      let map := (parseEntries ((readLines content).map stripTrailingCr)).foldl emplace []
      if map.length = 0 then .error "ZagEditor: dict loaded, but no entries parsed."
      else .ok map

/-- The loop over the lines: `none` is `changed == false`. -/
def rewriteFrom (map : List (Text × Text)) : List Text → Option (List Text)
  | [] => none
  | line :: rest =>
      if startsWith line fromMark then
        (map.lookup (trim (line.drop 5))).map fun value => (fromMark ++ value) :: rest
      else (rewriteFrom map rest).map fun lines => line :: lines

/-- The disk: the contents of the files, by name. -/
abbrev Files := Text → Option Text

/-- What the operations on the disk come to. `unwritten` counts the last bytes of the text
that do not reach the temporary file. -/
structure Answers where
  opensFile : Bool
  opensTemporary : Bool
  unwritten : Nat
  removes : Bool
  cleansUp : Bool
  renames : Bool
  renamesAgain : Bool

/-- `zag_path` with `.tmp` behind it. -/
def temporaryOf (path : Text) : Text := path ++ ['.', 't', 'm', 'p']

/-- A rename that works. -/
def renamed (files : Files) (source target : Text) : Files :=
  Function.update (Function.update files target (files source)) source none

/-- What reaches the temporary file of the text written to it. -/
def reached (text : Text) (unwritten : Nat) : Text := text.take (text.length - unwritten)

/-- `processFile`. -/
def processFile (map : List (Text × Text)) (answers : Answers) (files : Files) (path : Text) :
    Bool × Files :=
  match if answers.opensFile then files path else none with
  | none => (false, files)
  | some content =>
      match rewriteFrom map ((readLines content).map stripTrailingCr) with
      | none => (false, files)
      | some lines =>
          if !answers.opensTemporary then (false, files)
          else
            -- The stream is closed without a look at its state.
            let written := Function.update files (temporaryOf path)
              (some (reached (Lib.crlf.intercalate lines) answers.unwritten))
            if !answers.removes then
              (false, if answers.cleansUp then Function.update written (temporaryOf path) none else written)
            else
              let removed := Function.update written path none
              if answers.renames then (true, renamed removed (temporaryOf path) path)
              else if answers.renamesAgain then (false, renamed removed (temporaryOf path) path)
              else (false, removed)

/-- The lines as the code reads them are the texts of the lines. -/
theorem readLines_stripped (content : Text) :
    (readLines content).map stripTrailingCr = (Lib.linesOf content).map Lib.TextLine.text := by
  have parts : readLines content = (Lib.splitFeeds content).map Prod.fst := by
    induction content with
    | nil => rfl
    | cons c rest ih =>
        rw [readLines, Lib.splitFeeds, ih]
        split
        · rfl
        · cases Lib.splitFeeds rest with
          | nil => rfl
          | cons part others => rfl
  have stripped (part : Text × Bool) : stripTrailingCr part.1 = (Lib.lineOf part).text := by
    unfold stripTrailingCr Lib.lineOf
    split <;> rfl
  rw [parts, Lib.linesOf, List.map_map, List.map_map]
  apply List.map_congr_left
  intro part _
  exact stripped part

/-- A value of the dictionary stands in one line and does not end in a carriage return. -/
structure IsValue (value : Text) : Prop where
  oneLine : '\n' ∉ value
  closed : value.getLast? ≠ some '\r'

theorem not_mem_readLines (content : Text) : ∀ line ∈ (readLines content).map stripTrailingCr,
    '\n' ∉ line := by
  rw [readLines_stripped]
  intro line member
  obtain ⟨read, among, rfl⟩ := List.mem_map.mp member
  obtain ⟨part, split, rfl⟩ := List.mem_map.mp among
  exact (Lib.proper_lineOf (Lib.not_mem_splitFeeds content part split)).oneLine

theorem isValue_parseSKey {line : Text} (oneLine : '\n' ∉ line) : IsValue (parseSKey line) := by
  unfold parseSKey
  split
  case isFalse => exact ⟨List.not_mem_nil, by simp⟩
  case isTrue =>
    constructor
    · intro inside
      have taken := (List.dropWhile_sublist _).mem ((List.rdropWhile_prefix _ _).mem inside)
      exact oneLine (List.mem_of_mem_drop ((List.takeWhile_sublist _).mem taken))
    · intro returned
      rw [trim] at returned
      have ended := List.mem_of_getLast? returned
      have solid := List.rdropWhile_last_not isSpace _ (List.ne_nil_of_mem ended)
      rw [List.getLast_of_getLast?_eq_some returned] at solid
      exact solid rfl

theorem isValue_of_parseEntries {lines : List Text} (oneLine : ∀ line ∈ lines, '\n' ∉ line) :
    ∀ entry ∈ parseEntries lines, IsValue entry.2 := by
  intro entry member
  obtain ⟨⟨previous, current⟩, consecutive, parsed⟩ := List.mem_filterMap.mp member
  have read : current ∈ lines := List.mem_of_mem_tail (List.of_mem_zip consecutive).2
  simp only [parseEntry] at parsed
  split at parsed
  case isTrue =>
    obtain rfl := Option.some.inj parsed
    exact isValue_parseSKey (oneLine current read)
  case isFalse => cases parsed

theorem mem_foldl_emplace {map entries : List (Text × Text)} {entry : Text × Text}
    (member : entry ∈ entries.foldl emplace map) : entry ∈ map ∨ entry ∈ entries := by
  induction entries generalizing map with
  | nil => exact .inl member
  | cons first entries ih =>
      obtain before | behind := ih member
      · unfold emplace at before
        split at before
        · exact .inl before
        · obtain old | new := List.mem_append.mp before
          · exact .inl old
          · exact .inr (List.mem_cons.mpr (.inl (List.mem_singleton.mp new)))
      · exact .inr (List.mem_cons_of_mem _ behind)

/-- What a loaded dictionary answers stands in one line. -/
theorem isValue_of_loaded {dictionary : Option Text} {map : List (Text × Text)}
    (loaded : loadMapOrThrow dictionary = .ok map) {key value : Text}
    (found : map.lookup key = some value) : IsValue value := by
  cases dictionary with
  | none => cases loaded
  | some content =>
      simp only [loadMapOrThrow] at loaded
      split at loaded
      case isTrue => cases loaded
      case isFalse =>
        obtain rfl := Except.ok.inj loaded
        have kept : (key, value) ∈ (parseEntries ((readLines content).map stripTrailingCr)).foldl
            emplace [] := by
          obtain ⟨front, back, split, -⟩ := List.lookup_eq_some_iff.mp found
          rw [split]
          exact List.mem_append_right _ List.mem_cons_self
        obtain none | parsed := mem_foldl_emplace kept
        · cases none
        · exact isValue_of_parseEntries (not_mem_readLines content) (key, value) parsed

end SearchEngine.Zag
