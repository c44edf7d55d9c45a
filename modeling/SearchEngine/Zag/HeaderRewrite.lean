import SearchEngine.Zag.KpodiChanger

/-!
# One line or nothing

`rewritten` is the file with only its first `From=` line replaced, every line end as it
was. The code reaches it when all lines but the last end in `"\r\n"`, nothing follows the
last and every byte is written. Between `remove` and `rename` the telegram is gone: when
the rename fails, nothing but the temporary file holds it.
-/

namespace SearchEngine.Zag

open Lib

/-- The first `From=` line among the lines of a file, and the value its key has. -/
structure FirstFrom (map : List (Text × Text)) (content : Text) (front : List TextLine)
    (line : TextLine) (back : List TextLine) (value : Text) : Prop where
  lines : linesOf content = front ++ line :: back
  first : ∀ earlier ∈ front, startsWith earlier.text fromMark = false
  marked : startsWith line.text fromMark = true
  known : map.lookup (trim (line.text.drop 5)) = some value

/-- The lines with the first `From=` line replaced, if the dictionary knows its key. -/
def rewrittenLines (map : List (Text × Text)) : List TextLine → List TextLine
  | [] => []
  | line :: rest =>
      if startsWith line.text fromMark then
        match map.lookup (trim (line.text.drop 5)) with
        | some value => { line with text := fromMark ++ value } :: rest
        | none => line :: rest
      else line :: rewrittenLines map rest

/-- The file with only its first `From=` line replaced. -/
def rewritten (map : List (Text × Text)) (content : Text) : Text :=
  flatLines (rewrittenLines map (linesOf content))

/-- True means the one line was replaced, false that the file is as it was. -/
def OneLineOrNothing (map : List (Text × Text)) (files : Files) (path : Text)
    (result : Bool × Files) : Prop :=
  (result.1 = true → ∃ content, files path = some content ∧
    result.2 path = some (rewritten map content)) ∧
  (result.1 = false → result.2 path = files path)

/-- What the code makes of the lines: unchanged, or the first `From=` line replaced. -/
theorem rewriteFrom_cases (map : List (Text × Text)) (lines : List TextLine) :
    rewriteFrom map (lines.map TextLine.text) = none ∨
    ∃ front line back value, lines = front ++ line :: back ∧
      (∀ earlier ∈ front, startsWith earlier.text fromMark = false) ∧
      startsWith line.text fromMark = true ∧ map.lookup (trim (line.text.drop 5)) = some value ∧
      rewriteFrom map (lines.map TextLine.text) =
        some (front.map TextLine.text ++ (fromMark ++ value) :: back.map TextLine.text) := by
  induction lines with
  | nil => exact .inl rfl
  | cons line rest ih =>
      rw [List.map_cons, rewriteFrom]
      split
      case isTrue marked =>
        cases known : map.lookup (trim (line.text.drop 5)) with
        | none => exact .inl rfl
        | some value => exact .inr ⟨[], line, rest, value, rfl, by simp, marked, known, rfl⟩
      case isFalse unmarked =>
        obtain none | ⟨front, found, back, value, split, first, marked, known, rewrites⟩ := ih
        · exact .inl (by rw [none]; rfl)
        · refine .inr ⟨line :: front, found, back, value, by rw [split]; rfl, ?_, marked, known, ?_⟩
          · exact List.forall_mem_cons.mpr ⟨by simpa using unmarked, first⟩
          · rw [rewrites]
            rfl

/-- The first `From=` line fixes what the code makes of the lines and what it should make
of the file. -/
theorem FirstFrom.rewrites {map : List (Text × Text)} {content : Text} {front back : List TextLine}
    {line : TextLine} {value : Text} (found : FirstFrom map content front line back value) :
    rewriteFrom map ((readLines content).map stripTrailingCr) =
        some (front.map TextLine.text ++ (fromMark ++ value) :: back.map TextLine.text) ∧
      rewritten map content =
        flatLines (front ++ { line with text := fromMark ++ value } :: back) := by
  obtain ⟨lines, first, marked, known⟩ := found
  rw [readLines_stripped, rewritten, lines]
  clear lines
  induction front with
  | nil => simp [rewriteFrom, rewrittenLines, marked, known]
  | cons earlier front ih =>
      obtain ⟨here, behind⟩ := List.forall_mem_cons.mp first
      obtain ⟨rewrites, expected⟩ := ih behind
      constructor
      · rw [List.cons_append, List.map_cons, rewriteFrom, if_neg (by simp [here]), rewrites]
        rfl
      · rw [List.cons_append, rewrittenLines, if_neg (by simp [here]), flatLines_cons, expected,
          List.cons_append, flatLines_cons]

/-- What the code finds in a file: no line to replace, or the first `From=` line. -/
theorem rewriteFrom_content (map : List (Text × Text)) (content : Text) :
    (rewriteFrom map ((readLines content).map stripTrailingCr) = none ∧
      ∀ front line back value, ¬ FirstFrom map content front line back value) ∨
    ∃ front line back value, FirstFrom map content front line back value := by
  obtain none | ⟨front, line, back, value, lines, first, marked, known, -⟩ :=
    rewriteFrom_cases map (linesOf content)
  · left
    rw [← readLines_stripped] at none
    refine ⟨none, fun front line back value found => ?_⟩
    rw [found.rewrites.1] at none
    cases none
  · exact .inr ⟨front, line, back, value, lines, first, marked, known⟩

/-- What reaches the file is a given text exactly if that text is the written one without
its last bytes. -/
theorem reached_eq_iff {text wanted : Text} {unwritten : Nat} (some : wanted ≠ []) :
    reached text unwritten = wanted ↔
      wanted <+: text ∧ wanted.length + unwritten = text.length := by
  have long := List.length_pos_iff.mpr some
  unfold reached
  constructor
  · rintro rfl
    refine ⟨List.take_prefix _ _, ?_⟩
    rw [List.length_take] at long ⊢
    omega
  · rintro ⟨begins, length⟩
    rw [List.prefix_iff_eq_take.mp begins]
    congr 1
    omega

theorem reached_append_iff {front text wanted : Text} {unwritten : Nat} (some : wanted ≠ []) :
    reached (front ++ text) unwritten = front ++ wanted ↔ reached text unwritten = wanted := by
  rw [reached_eq_iff (by simp [some]), reached_eq_iff some, List.prefix_append_right_inj,
    List.length_append, List.length_append]
  constructor <;> rintro ⟨begins, length⟩ <;> exact ⟨begins, by omega⟩

theorem FirstFrom.text_ne_nil {map : List (Text × Text)} {content : Text}
    {front back : List TextLine} {line : TextLine} {value : Text}
    (found : FirstFrom map content front line back value) : line.text ≠ [] := by
  intro empty
  have marked := found.marked
  rw [empty] at marked
  cases marked

/-- The new line could have been read where the old one was. -/
theorem proper_replaced {value : Text} (isValue : IsValue value) (line : TextLine) :
    ({ line with text := fromMark ++ value } : TextLine).Proper := by
  constructor
  · simpa [fromMark] using isValue.oneLine
  · intro _ returned
    cases value with
    | nil => simp [fromMark] at returned
    | cons c value =>
        rw [List.getLast?_append_of_ne_nil _ (by simp)] at returned
        exact isValue.closed returned

theorem shaped_replaced {front back : List TextLine} {line : TextLine} {text : Text}
    (shaped : Shaped (front ++ line :: back))
    (proper : ({ line with text := text } : TextLine).Proper) :
    Shaped (front ++ { line with text := text } :: back) := by
  induction front with
  | nil => exact ⟨proper, shaped.2⟩
  | cons earlier front ih =>
      exact ⟨shaped.1, fun _ => shaped.2.1 (by simp), ih shaped.2.2⟩

theorem crlfBetween_replaced {front back : List TextLine} {line : TextLine} (text : Text) :
    CrlfBetween (front ++ { line with text := text } :: back) ↔ CrlfBetween (front ++ line :: back) := by
  rw [crlfBetween_append (by simp), crlfBetween_append (by simp)]
  rfl

/-- The telegram is the rewritten one when nothing of the text was lost and the lines
already stood as the code joins them. -/
theorem FirstFrom.reached_rewritten_iff {map : List (Text × Text)} {content : Text}
    {front back : List TextLine} {line : TextLine} {value : Text}
    (found : FirstFrom map content front line back value) (isValue : IsValue value) (unwritten : Nat) :
    reached (crlf.intercalate (front.map TextLine.text ++ (fromMark ++ value) :: back.map TextLine.text))
        unwritten = rewritten map content ↔
      unwritten = 0 ∧ CrlfBetween (linesOf content) := by
  have shaped := shaped_linesOf content
  rw [found.lines] at shaped
  have shapedNew := shaped_replaced shaped (proper_replaced isValue line)
  rw [found.rewrites.2, found.lines, ← crlfBetween_replaced (fromMark ++ value)]
  generalize lines : front ++ { line with text := fromMark ++ value } :: back = replaced at shapedNew
  have texts : front.map TextLine.text ++ (fromMark ++ value) :: back.map TextLine.text =
      replaced.map TextLine.text := by
    rw [← lines]
    simp
  have some : flatLines replaced ≠ [] := by
    rw [← lines, flatLines_append, flatLines_cons]
    simp [fromMark]
  rw [texts, reached_eq_iff some, flatLines_prefix_iff shapedNew]
  constructor
  · rintro ⟨between, length⟩
    rw [flatLines_eq_of_crlfBetween between] at length
    exact ⟨by omega, between⟩
  · rintro ⟨rfl, between⟩
    exact ⟨between, by rw [flatLines_eq_of_crlfBetween between]; rfl⟩

/-- The old lines from the first `From=` line on are a beginning of the new ones only if
that line already had the value, or is the last. -/
theorem tail_prefix_iff {line : TextLine} {back : List TextLine} {text : Text}
    (shaped : Shaped (line :: back)) (oneLine : '\n' ∉ text) (more : back ≠ []) :
    flatLines (line :: back) <+: crlf.intercalate (text :: back.map TextLine.text) ↔
      line.text = text ∧ CrlfBetween (line :: back) := by
  obtain ⟨proper, fed, behind⟩ := shaped
  have lf := fed more
  have old : flatLines (line :: back) =
      (line.text ++ if line.cr then ['\r'] else []) ++ '\n' :: flatLines back := by
    simp [flatLines_cons, TextLine.ending, lf]
  have new : crlf.intercalate (text :: back.map TextLine.text) =
      (text ++ ['\r']) ++ '\n' :: crlf.intercalate (back.map TextLine.text) := by
    rw [List.intercalate_cons_of_ne_nil (by simpa using more)]
    simp [crlf]
  have plain : '\n' ∉ line.text ++ (if line.cr then ['\r'] else []) := by
    have := proper.oneLine
    split <;> simpa
  rw [old, new, prefix_of_feed_iff plain (by simpa using oneLine), flatLines_prefix_iff behind,
    CrlfBetween, if_neg more]
  cases returned : line.cr with
  | true => simp [TextLine.ending, returned, lf, crlf]
  | false =>
      have closed := proper.stripped returned
      constructor
      · rintro ⟨same, -⟩
        rw [← List.append_nil line.text] at closed
        simp only [Bool.false_eq_true, if_false] at same
        rw [same] at closed
        simp at closed
      · rintro ⟨-, ending, -⟩
        simp [TextLine.ending, returned, lf, crlf] at ending

/-- What the second rename puts in the telegram's place is the old telegram: the value
stood there already, or a last line was cut back to what it was. -/
def LeftAsItWas (content : Text) (front : List TextLine) (line : TextLine) (back : List TextLine)
    (value : Text) (unwritten : Nat) : Prop :=
  (unwritten = 0 ∧ line.text = fromMark ++ value ∧ CrlfBetween (linesOf content)) ∨
  (back = [] ∧ (∀ earlier ∈ front, earlier.ending = crlf) ∧
    reached (fromMark ++ value) unwritten = line.whole)

theorem FirstFrom.reached_content_iff {map : List (Text × Text)} {content : Text}
    {front back : List TextLine} {line : TextLine} {value : Text}
    (found : FirstFrom map content front line back value) (isValue : IsValue value) (unwritten : Nat) :
    reached (crlf.intercalate (front.map TextLine.text ++ (fromMark ++ value) :: back.map TextLine.text))
        unwritten = content ↔
      LeftAsItWas content front line back value unwritten := by
  have shaped := shaped_linesOf content
  have whole := flatLines_linesOf content
  have oneLine : '\n' ∉ fromMark ++ value := by simpa [fromMark] using isValue.oneLine
  have some : flatLines (line :: back) ≠ [] := by
    rw [flatLines_cons]
    simp [found.text_ne_nil]
  rw [found.lines] at shaped whole
  unfold LeftAsItWas
  rw [found.lines, crlfBetween_append (by simp)]
  by_cases ended : ∀ earlier ∈ front, earlier.ending = crlf
  · rw [intercalate_front ended (by simp), ← whole, flatLines_append, reached_append_iff some]
    by_cases last : back = []
    · subst last
      have alone : flatLines [line] = line.whole := by simp [flatLines]
      rw [List.map_nil, List.intercalate_singleton, alone]
      constructor
      · intro same
        exact .inr ⟨rfl, ended, same⟩
      · rintro (⟨rfl, same, -, between⟩ | ⟨-, -, same⟩)
        · have unended : line.ending = [] := by simpa [CrlfBetween] using between
          rw [TextLine.whole, unended, same]
          simp [reached]
        · exact same
    · have tail : Shaped (line :: back) := by
        clear found whole ended
        induction front with
        | nil => exact shaped
        | cons earlier front ih => exact ih shaped.2.2
      rw [reached_eq_iff some, tail_prefix_iff tail oneLine last]
      constructor
      · rintro ⟨⟨same, between⟩, length⟩
        left
        refine ⟨?_, same, ended, between⟩
        rw [flatLines_eq_of_crlfBetween between, List.map_cons, same] at length
        omega
      · rintro (⟨rfl, same, -, between⟩ | ⟨alone, -⟩)
        · refine ⟨⟨same, between⟩, ?_⟩
          rw [flatLines_eq_of_crlfBetween between, List.map_cons, same]
          rfl
        · exact absurd alone last
  · constructor
    · intro same
      have whole_ne : content ≠ [] := by
        rw [← whole, flatLines_append]
        simp [some]
      have begins := ((reached_eq_iff whole_ne).mp same).1
      rw [← whole, flatLines_front_iff shaped (by simp) (by simp)] at begins
      exact absurd begins.1 ended
    · rintro (⟨-, -, between, -⟩ | ⟨-, between, -⟩) <;> exact absurd between ended

/-- When the claim about a call holds: no step after the first `From=` line was found in
the dictionary does any harm. -/
def HarmlessSteps (map : List (Text × Text)) (answers : Answers) (files : Files) (path : Text) :
    Prop :=
  answers.opensFile = true → ∀ content, files path = some content →
    ∀ front line back value, FirstFrom map content front line back value →
      answers.opensTemporary = true → answers.removes = true →
        if answers.renames then answers.unwritten = 0 ∧ CrlfBetween (linesOf content)
        else answers.renamesAgain = true ∧
          LeftAsItWas content front line back value answers.unwritten

theorem temporaryOf_ne (path : Text) : temporaryOf path ≠ path := by
  intro same
  have := congrArg List.length same
  simp [temporaryOf] at this

/-- The call once the first `From=` line was found: what each answer of the disk leads to. -/
theorem FirstFrom.processFile_eq {map : List (Text × Text)} {content : Text}
    {front back : List TextLine} {line : TextLine} {value : Text}
    (found : FirstFrom map content front line back value) {answers : Answers} {files : Files}
    {path : Text} (opens : answers.opensFile = true) (stored : files path = some content) :
    let result := processFile map answers files path
    let text := reached (crlf.intercalate
      (front.map TextLine.text ++ (fromMark ++ value) :: back.map TextLine.text)) answers.unwritten
    (answers.opensTemporary = false ∨ answers.removes = false →
      result.1 = false ∧ result.2 path = some content) ∧
    (answers.opensTemporary = true → answers.removes = true →
      result.1 = answers.renames ∧
      result.2 path = if answers.renames || answers.renamesAgain then some text else none) := by
  have other := temporaryOf_ne path
  dsimp only
  unfold processFile
  rw [opens, if_pos rfl, stored]
  dsimp only
  rw [found.rewrites.1]
  dsimp only
  cases temporary : answers.opensTemporary with
  | false => simp [stored]
  | true =>
      cases removes : answers.removes with
      | false => cases answers.cleansUp <;> simp [Function.update_of_ne other.symm, stored]
      | true =>
          cases renames : answers.renames <;> cases again : answers.renamesAgain <;>
            simp [renamed, Function.update_of_ne other, Function.update_of_ne other.symm]

/-- With a loaded dictionary, the answer and the file agree exactly if the steps that are
taken are harmless. -/
theorem processFile_oneLineOrNothing_iff (dictionary : Option Text) (map : List (Text × Text))
    (loaded : loadMapOrThrow dictionary = .ok map) (answers : Answers) (files : Files) (path : Text) :
    OneLineOrNothing map files path (processFile map answers files path) ↔
      HarmlessSteps map answers files path := by
  by_cases opens : answers.opensFile = true
  case neg => simp [opens, OneLineOrNothing, processFile, HarmlessSteps]
  cases stored : files path with
  | none => simp [stored, OneLineOrNothing, processFile, HarmlessSteps]
  | some content =>
      obtain ⟨unchanged, absent⟩ | ⟨front, line, back, value, found⟩ :=
        rewriteFrom_content map content
      · have harmless : HarmlessSteps map answers files path := by
          intro _ content' stored' front line back value found
          obtain rfl := Option.some.inj (stored.symm.trans stored')
          exact absurd found (absent front line back value)
        simp [OneLineOrNothing, processFile, opens, stored, unchanged, harmless]
      · have agrees {front line back value} (found : FirstFrom map content front line back value) :
            OneLineOrNothing map files path (processFile map answers files path) ↔
              (answers.opensTemporary = true → answers.removes = true →
                if answers.renames then answers.unwritten = 0 ∧ CrlfBetween (linesOf content)
                else answers.renamesAgain = true ∧
                  LeftAsItWas content front line back value answers.unwritten) := by
          have isValue := isValue_of_loaded loaded found.known
          obtain ⟨stops, runs⟩ := found.processFile_eq opens stored
          rw [← found.reached_rewritten_iff isValue, ← found.reached_content_iff isValue]
          unfold OneLineOrNothing
          by_cases goesOn : answers.opensTemporary = true ∧ answers.removes = true
          · obtain ⟨answer, file⟩ := runs goesOn.1 goesOn.2
            rw [answer, file, stored]
            cases answers.renames <;> cases answers.renamesAgain <;> simp [goesOn]
          · have fails : answers.opensTemporary = false ∨ answers.removes = false := by
              rw [← Bool.not_eq_true, ← Bool.not_eq_true, ← not_and_or]
              exact goesOn
            obtain ⟨answer, file⟩ := stops fails
            rw [answer, file, stored]
            simpa using fun temporary removes => absurd ⟨temporary, removes⟩ goesOn
        constructor
        · intro agreed _ content' stored' front' line' back' value' found'
          obtain rfl := Option.some.inj (stored.symm.trans stored')
          exact (agrees found').mp agreed
        · intro harmless
          exact (agrees found).mpr (harmless opens content stored front line back value found)

/-- Every step on the disk works and every byte is written. -/
def smoothAnswers : Answers := ⟨true, true, 0, true, true, true, true⟩

/-- One telegram on the disk. -/
def oneTelegram (content : Text) : Files := fun path => if path = ['a'] then some content else none

/-- The one entry of the dictionary `"K\ns=V"`. -/
theorem oneEntry_loaded :
    loadMapOrThrow (some ['K', '\n', 's', '=', 'V']) = .ok [(['K'], ['V'])] := rfl

/-- A telegram of lines that end in `"\r\n"`, with nothing after the last. -/
theorem headerOf_closedTelegram : OneLineOrNothing [(['K'], ['V'])]
    (oneTelegram (fromMark ++ ['K', '\r', '\n', 'B'])) ['a']
    (processFile [(['K'], ['V'])] smoothAnswers
      (oneTelegram (fromMark ++ ['K', '\r', '\n', 'B'])) ['a']) := by
  apply (processFile_oneLineOrNothing_iff _ _ oneEntry_loaded _ _ _).mpr
  intro _ content stored _ _ _ _ _ _ _
  obtain rfl := Option.some.inj stored
  exact ⟨rfl, by decide⟩

/-- A telegram whose last line ends in `"\r\n"` loses that end. -/
theorem headerOf_endedTelegram : ¬ OneLineOrNothing [(['K'], ['V'])]
    (oneTelegram (fromMark ++ ['K', '\r', '\n'])) ['a']
    (processFile [(['K'], ['V'])] smoothAnswers (oneTelegram (fromMark ++ ['K', '\r', '\n'])) ['a']) := by
  intro agreed
  obtain ⟨content, stored, file⟩ := agreed.1 rfl
  obtain rfl := Option.some.inj stored
  exact absurd file (by decide +kernel)

end SearchEngine.Zag
