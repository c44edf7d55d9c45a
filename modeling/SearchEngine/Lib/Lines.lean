import Mathlib.Data.List.Basic
import Mathlib.Data.List.Infix

/-!
# Lines of a text

A line feed ends a line, and a carriage return before it, or at the end of the text,
belongs to the line's end. Lines with their ends give the text back.
-/

namespace SearchEngine.Lib

/-- A line and what ends it: a carriage return, a line feed, both or nothing. -/
structure TextLine where
  text : List Char
  cr : Bool
  lf : Bool
  deriving DecidableEq, Repr

namespace TextLine

/-- What stands between this line and the next. -/
def ending (line : TextLine) : List Char :=
  (if line.cr then ['\r'] else []) ++ if line.lf then ['\n'] else []

/-- The line with its end. -/
def whole (line : TextLine) : List Char := line.text ++ line.ending

/-- A line that could have been read: it holds no line feed, and a carriage return at its
end would be part of the line's end. -/
structure Proper (line : TextLine) : Prop where
  oneLine : '\n' ∉ line.text
  stripped : line.cr = false → line.text.getLast? ≠ some '\r'

end TextLine

/-- The two characters `"\r\n"`. -/
def crlf : List Char := ['\r', '\n']

/-- The parts of a text between line feeds, and whether a line feed follows. -/
def splitFeeds : List Char → List (List Char × Bool)
  | [] => []
  | c :: rest =>
      if c = '\n' then ([], true) :: splitFeeds rest
      else match splitFeeds rest with
        | [] => [([c], false)]
        | (first, fed) :: others => (c :: first, fed) :: others

/-- A part between line feeds as a line. -/
def lineOf (part : List Char × Bool) : TextLine :=
  if part.1.getLast? = some '\r' then ⟨part.1.dropLast, true, part.2⟩ else ⟨part.1, false, part.2⟩

/-- The lines of a text. -/
def linesOf (text : List Char) : List TextLine := (splitFeeds text).map lineOf

/-- The text that lines make up. -/
def flatLines (lines : List TextLine) : List Char := lines.flatMap TextLine.whole

/-- Lines of one text: only the last may lack its line feed. -/
def Shaped : List TextLine → Prop
  | [] => True
  | line :: rest => line.Proper ∧ (rest ≠ [] → line.lf = true) ∧ Shaped rest

/-- `"\r\n"` between the lines, and nothing after the last. -/
def CrlfBetween : List TextLine → Prop
  | [] => True
  | line :: rest => line.ending = (if rest = [] then [] else crlf) ∧ CrlfBetween rest

instance decidableCrlfBetween : (lines : List TextLine) → Decidable (CrlfBetween lines)
  | [] => isTrue trivial
  | line :: rest =>
      have := decidableCrlfBetween rest
      inferInstanceAs (Decidable (line.ending = (if rest = [] then [] else crlf) ∧ CrlfBetween rest))

theorem flatLines_cons (line : TextLine) (rest : List TextLine) :
    flatLines (line :: rest) = line.text ++ (line.ending ++ flatLines rest) := by
  simp [flatLines, TextLine.whole]

theorem whole_lineOf (part : List Char × Bool) :
    (lineOf part).whole = part.1 ++ if part.2 then ['\n'] else [] := by
  unfold lineOf
  split
  case isTrue returned =>
    have whole : part.1.dropLast ++ ['\r'] = part.1 :=
      List.dropLast_append_getLast? '\r' returned
    simp only [TextLine.whole, TextLine.ending, if_true, ← List.append_assoc, whole]
  case isFalse => simp [TextLine.whole, TextLine.ending]

/-- The lines of a text make it up. -/
theorem flatLines_linesOf (text : List Char) : flatLines (linesOf text) = text := by
  rw [flatLines, linesOf, List.flatMap_map]
  simp only [whole_lineOf]
  induction text with
  | nil => rfl
  | cons c rest ih =>
      rw [splitFeeds]
      split
      case isTrue feed => simp [ih, feed]
      case isFalse =>
        cases parts : splitFeeds rest with
        | nil =>
            rw [parts] at ih
            simpa using ih
        | cons part others =>
            rw [parts] at ih
            simpa using ih

theorem not_mem_splitFeeds (text : List Char) : ∀ part ∈ splitFeeds text, '\n' ∉ part.1 := by
  induction text with
  | nil => simp [splitFeeds]
  | cons c rest ih =>
      rw [splitFeeds]
      split
      case isTrue => simpa using ih
      case isFalse plain =>
        split
        case h_1 => simpa using Ne.symm plain
        case h_2 first fed others parts =>
          rw [parts] at ih
          obtain ⟨here, behind⟩ := List.forall_mem_cons.mp ih
          apply List.forall_mem_cons.mpr ⟨_, behind⟩
          simpa using ⟨Ne.symm plain, here⟩

theorem proper_lineOf {part : List Char × Bool} (oneLine : '\n' ∉ part.1) : (lineOf part).Proper := by
  unfold lineOf
  split
  case isTrue =>
    refine ⟨fun inside => oneLine (List.mem_of_mem_dropLast inside), ?_⟩
    intro absent
    cases absent
  case isFalse unreturned => exact ⟨oneLine, fun _ => unreturned⟩

/-- Only the last part may lack its line feed. -/
theorem splitFeeds_fed (text : List Char) {part : List Char × Bool} {rest : List (List Char × Bool)}
    (parts : splitFeeds text = part :: rest) (more : rest ≠ []) :
    part.2 = true ∧ ∃ later, rest = splitFeeds later := by
  induction text generalizing part rest with
  | nil => cases parts
  | cons c text ih =>
      rw [splitFeeds] at parts
      split at parts
      case isTrue =>
        obtain ⟨rfl, rfl⟩ := List.cons.inj parts
        exact ⟨rfl, text, rfl⟩
      case isFalse =>
        split at parts
        case h_1 =>
          obtain ⟨rfl, rfl⟩ := List.cons.inj parts
          exact absurd rfl more
        case h_2 first fed others split =>
          obtain ⟨rfl, rfl⟩ := List.cons.inj parts
          have first := ih split more
          exact first

theorem shaped_linesOf (text : List Char) : Shaped (linesOf text) := by
  have oneLine := not_mem_splitFeeds text
  unfold linesOf
  generalize splitParts : splitFeeds text = parts at oneLine
  induction parts generalizing text with
  | nil => trivial
  | cons part rest ih =>
      obtain ⟨here, behind⟩ := List.forall_mem_cons.mp oneLine
      refine ⟨proper_lineOf here, ?_, ?_⟩
      · intro more
        have fed := (splitFeeds_fed text splitParts (by simpa using more)).1
        unfold lineOf
        split <;> exact fed
      · by_cases last : rest = []
        · subst last
          trivial
        · obtain ⟨-, later, follows⟩ := splitFeeds_fed text splitParts last
          exact ih later follows.symm behind

/-- Texts in front of the same texts cancel: what is left decides the rest. -/
theorem flatLines_front_iff {front tail : List TextLine} {texts : List (List Char)}
    (shaped : Shaped (front ++ tail)) (more : tail ≠ []) (others : texts ≠ []) :
    flatLines (front ++ tail) <+: crlf.intercalate (front.map TextLine.text ++ texts) ↔
      (∀ line ∈ front, line.ending = crlf) ∧ flatLines tail <+: crlf.intercalate texts := by
  induction front with
  | nil => simp
  | cons line front ih =>
      obtain ⟨proper, fed, behind⟩ := shaped
      have lf : line.lf = true := fed (by simp [more])
      have joined : crlf.intercalate (line.text :: (front.map TextLine.text ++ texts)) =
          line.text ++ (crlf ++ crlf.intercalate (front.map TextLine.text ++ texts)) := by
        rw [List.intercalate_cons_of_ne_nil (by simp [others]), List.append_assoc]
      rw [List.cons_append, flatLines_cons, List.map_cons, List.cons_append, joined,
        List.prefix_append_right_inj, List.forall_mem_cons, and_assoc, ← ih behind]
      cases returned : line.cr with
      | true =>
          have ending : line.ending = crlf := by simp [TextLine.ending, returned, lf, crlf]
          rw [ending, List.prefix_append_right_inj]
          simp
      | false =>
          have ending : line.ending = ['\n'] := by simp [TextLine.ending, returned, lf]
          simp [ending, crlf]

/-- A text is a beginning of its lines joined by `"\r\n"` only when it is all of them. -/
theorem flatLines_prefix_iff {lines : List TextLine} (shaped : Shaped lines) :
    flatLines lines <+: crlf.intercalate (lines.map TextLine.text) ↔ CrlfBetween lines := by
  induction lines with
  | nil => simp [flatLines, CrlfBetween]
  | cons line rest ih =>
      by_cases last : rest = []
      · subst last
        have alone : line.text ++ line.ending <+: line.text ++ [] ↔ line.ending = [] := by
          rw [List.prefix_append_right_inj, List.prefix_nil]
        simpa [flatLines, TextLine.whole, CrlfBetween] using alone
      · have front := @flatLines_front_iff [line] rest (rest.map TextLine.text) shaped last
          (by simpa using last)
        simp only [List.singleton_append, List.map_cons, List.map_nil, List.mem_singleton,
          forall_eq] at front
        rw [List.map_cons, front, ih shaped.2.2, CrlfBetween, if_neg last]

theorem flatLines_eq_of_crlfBetween {lines : List TextLine} (between : CrlfBetween lines) :
    flatLines lines = crlf.intercalate (lines.map TextLine.text) := by
  induction lines with
  | nil => rfl
  | cons line rest ih =>
      obtain ⟨ending, behind⟩ := between
      rw [flatLines_cons, ending, ih behind]
      by_cases last : rest = []
      · subst last
        simp
      · rw [if_neg last, List.map_cons, List.intercalate_cons_of_ne_nil (by simpa using last),
          List.append_assoc]

theorem crlfBetween_append {front tail : List TextLine} (more : tail ≠ []) :
    CrlfBetween (front ++ tail) ↔ (∀ line ∈ front, line.ending = crlf) ∧ CrlfBetween tail := by
  induction front with
  | nil => simp
  | cons line front ih =>
      rw [List.cons_append, CrlfBetween, if_neg (by simp [more]), ih, List.forall_mem_cons, and_assoc]

theorem flatLines_append (front back : List TextLine) :
    flatLines (front ++ back) = flatLines front ++ flatLines back := List.flatMap_append

/-- Lines that end in `"\r\n"` are joined as they stand. -/
theorem intercalate_front {front : List TextLine} {texts : List (List Char)}
    (ended : ∀ line ∈ front, line.ending = crlf) (others : texts ≠ []) :
    crlf.intercalate (front.map TextLine.text ++ texts) =
      flatLines front ++ crlf.intercalate texts := by
  induction front with
  | nil => rfl
  | cons line front ih =>
      obtain ⟨here, behind⟩ := List.forall_mem_cons.mp ended
      rw [List.map_cons, List.cons_append, List.intercalate_cons_of_ne_nil (by simp [others]),
        ih behind, flatLines_cons, here]
      simp only [List.append_assoc]

/-- Texts are compared up to their first line feed, and from there on. -/
theorem prefix_of_feed_iff {first second rest rest' : List Char} (plain : '\n' ∉ first)
    (plain' : '\n' ∉ second) :
    first ++ '\n' :: rest <+: second ++ '\n' :: rest' ↔ first = second ∧ rest <+: rest' := by
  induction first generalizing second with
  | nil =>
      cases second with
      | nil => simp
      | cons c second =>
          have other : '\n' ≠ c := fun same => plain' (same ▸ List.mem_cons_self)
          simp [other]
  | cons c first ih =>
      cases second with
      | nil =>
          have other : c ≠ '\n' := fun same => plain (same ▸ List.mem_cons_self)
          simp [other]
      | cons c' second =>
          have behind := ih (fun inside => plain (List.mem_cons_of_mem _ inside))
            (fun inside => plain' (List.mem_cons_of_mem _ inside))
          simp only [List.cons_append, List.cons_prefix_cons, behind, List.cons.injEq, and_assoc]

end SearchEngine.Lib
