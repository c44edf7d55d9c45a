import SearchEngine.Files.PathText
import SearchEngine.Upload.FileNames

/-!
# What the check of a name leaves

A name that passes is proper, except that a port with a superscript digit passes too.
A number in front of the extension keeps a proper name proper.
-/

namespace SearchEngine.Upload

open Files

variable {table : UpperCase} {name : Path}

/-! ## Characters -/

/-- A character that neither parts a name nor stands for a drive. -/
def IsPlain (c : Char) : Prop := isSeparator c = false ∧ c ≠ ':'

theorem isPlain_digit {c : Char} (digit : c.isDigit = true) : IsPlain c ∧ c ≠ '.' := by
  refine ⟨⟨?_, ?_⟩, ?_⟩
  · rw [isSeparator, Bool.or_eq_false_iff, beq_eq_false_iff_ne, beq_eq_false_iff_ne]
    constructor
    · rintro rfl
      exact absurd digit (by decide)
    · rintro rfl
      exact absurd digit (by decide)
  · rintro rfl
    exact absurd digit (by decide)
  · rintro rfl
    exact absurd digit (by decide)

theorem isPlain_toDigits {number : Nat} {c : Char} (member : c ∈ Nat.toDigits 10 number) : IsPlain c ∧ c ≠ '.' :=
  isPlain_digit (Nat.isDigit_of_mem_toDigits (by decide) (by decide) member)

theorem isPlain_of_allowed (allowed : hasAsciiControlOrForbidden name = false) : ∀ c ∈ name, IsPlain c := by
  intro c member
  rw [hasAsciiControlOrForbidden, List.any_eq_false] at allowed
  have plain := allowed c member
  simp only [Bool.or_eq_true, not_or] at plain
  have forbidden : c ∉ "/\\:<>\"|?*".toList := by simpa using plain.2
  constructor
  · rw [isSeparator, Bool.or_eq_false_iff, beq_eq_false_iff_ne, beq_eq_false_iff_ne]
    constructor
    · rintro rfl
      exact forbidden (by decide)
    · rintro rfl
      exact forbidden (by decide)
  · rintro rfl
    exact forbidden (by decide)

/-! ## Device names -/

/-- Two conditions that agree on a text drop the same end of it. -/
theorem rdropWhile_congr {p q : Char → Bool} (text : Path) (agree : ∀ c ∈ text, p c = q c) :
    text.rdropWhile p = text.rdropWhile q := by
  induction text using List.reverseRecOn with
  | nil => rfl
  | append_singleton front last ih =>
      have same : p last = q last := agree last (by simp)
      cases keeps : q last with
      | true =>
          rw [List.rdropWhile_concat_pos _ _ _ (same.trans keeps), List.rdropWhile_concat_pos _ _ _ keeps]
          exact ih fun c member => agree c (by simp [member])
      | false =>
          rw [List.rdropWhile_concat_neg _ _ _ (by simp [same, keeps]), List.rdropWhile_concat_neg _ _ _ (by simp [keeps])]

theorem dot_not_mem_takeWhile (name : Path) : '.' ∉ name.takeWhile (· ≠ '.') := by
  intro member
  simpa using List.mem_takeWhile_imp member

/-- What the code compares with the device names is what Windows compares. -/
theorem deviceStem_eq (name : Path) :
    toUpperAsciiAware table ((name.takeWhile (· ≠ '.')).rdropWhile fun c => c = ' ' || c = '.') =
      deviceStem table name := by
  rw [deviceStem, toUpperAsciiAware]
  apply congrArg
  apply rdropWhile_congr
  intro c member
  have notDot : c ≠ '.' := by
    rintro rfl
    exact dot_not_mem_takeWhile name member
  simp [notDot]

/-- The check refuses every device name without a superscript digit. -/
theorem isSuperscriptPort_of_unreserved (unreserved : isReservedWindowsDeviceName table name = false)
    (device : deviceStem table name ∈ deviceNames) : IsSuperscriptPort table name := by
  simp only [isReservedWindowsDeviceName, Bool.or_eq_false_iff, Bool.and_eq_false_iff] at unreserved
  have stem : isReservedDeviceStem table (name.takeWhile (· ≠ '.')) = false := by
    rcases unreserved.2 with noDot | stem
    · have plain : '.' ∉ name := by simpa using noDot
      have whole : name.takeWhile (· ≠ '.') = name := by
        rw [List.takeWhile_eq_self_iff]
        intro c member
        rw [decide_eq_true_eq]
        rintro rfl
        exact plain member
      rw [whole]
      exact unreserved.1.1
    · exact stem
  simp only [isReservedDeviceStem, deviceStem_eq, Bool.or_eq_false_iff] at stem
  rw [deviceNames, List.mem_append] at device
  rcases device with plain | port
  · rw [List.contains_iff_mem.mpr plain] at stem
    cases stem.1
  · obtain ⟨port, isPort, digit⟩ := List.mem_flatMap.mp port
    obtain ⟨digit, isDigit, spelled⟩ := List.mem_map.mp digit
    have long : port.length = 3 := by
      simp only [devicePorts, List.mem_cons, List.not_mem_nil, or_false] at isPort
      rcases isPort with rfl | rfl
      · decide
      · decide
    have coded : "123456789".toList.contains digit = false := by
      have parts := stem.2
      rw [← spelled] at parts
      simpa [long, isPort] using parts
    have superscript : digit ∈ "¹²³".toList := by
      have both : "123456789¹²³".toList = "123456789".toList ++ "¹²³".toList := by decide
      rw [both, List.mem_append] at isDigit
      rcases isDigit with plain | superscript
      · rw [List.contains_iff_mem.mpr plain] at coded
        cases coded
      · exact superscript
    exact List.mem_flatMap.mpr ⟨port, isPort, List.mem_map.mpr ⟨digit, superscript, spelled⟩⟩

/-- A port with a superscript digit is a device name. -/
theorem IsSuperscriptPort.device (superscript : IsSuperscriptPort table name) : deviceStem table name ∈ deviceNames := by
  obtain ⟨port, isPort, digit⟩ := List.mem_flatMap.mp superscript
  obtain ⟨digit, isDigit, spelled⟩ := List.mem_map.mp digit
  have both : "123456789¹²³".toList = "123456789".toList ++ "¹²³".toList := by decide
  apply List.mem_append_right
  apply List.mem_flatMap.mpr
  exact ⟨port, isPort, List.mem_map.mpr ⟨digit, both ▸ List.mem_append_right _ isDigit, spelled⟩⟩

/-- What a name that passes `isSafeFileComponent` has. -/
structure SafeName (table : UpperCase) (name : Path) : Prop where
  filled : name ≠ []
  plain : ∀ c ∈ name, IsPlain c
  notDot : name ≠ ['.']
  notDotDot : name ≠ ['.', '.']
  closed : name.getLast? ≠ some ' ' ∧ name.getLast? ≠ some '.'
  unreserved : isReservedWindowsDeviceName table name = false

theorem safeName_of_isSafe (safe : isSafeFileComponent table name = true) : SafeName table name := by
  unfold isSafeFileComponent at safe
  split at safe
  · cases safe
  · rename_i named
    split at safe
    · cases safe
    · split at safe
      · cases safe
      · rename_i allowed
        split at safe
        · cases safe
        · rename_i closed
          split at safe
          · cases safe
          · simp only [Bool.or_eq_true, not_or, isDot, isDotDot, decide_eq_true_eq] at named closed
            exact {
              filled := by simpa using named.1.1
              plain := isPlain_of_allowed (by simpa using allowed)
              notDot := named.1.2
              notDotDot := named.2
              closed := closed
              unreserved := by simpa using safe }

theorem SafeName.entry (safe : SafeName table name) : IsEntry name where
  isWord := ⟨safe.filled, fun c member => (safe.plain c member).1⟩
  notDot := by simpa [isDot] using safe.notDot
  notDotDot := by simpa [isDotDot] using safe.notDotDot

theorem SafeName.noDrive (safe : SafeName table name) : ':' ∉ name := fun member => (safe.plain _ member).2 rfl

/-- A safe name is proper unless it is a port with a superscript digit. -/
theorem SafeName.proper_iff (safe : SafeName table name) :
    ProperComponent table name ↔ ¬ IsSuperscriptPort table name := by
  constructor
  · intro proper superscript
    exact proper.noDevice superscript.device
  · intro plainPort
    exact {
      filled := safe.filled
      noSeparator := fun c member => (safe.plain c member).1
      noDrive := safe.noDrive
      notDot := safe.notDot
      notDotDot := safe.notDotDot
      noDevice := fun device => plainPort (isSuperscriptPort_of_unreserved safe.unreserved device)
      closed := safe.closed }

/-! ## Numbered names -/

/-- The stem and the extension make up the name. -/
theorem splitExtension_append (name : Path) : (splitExtension name).1 ++ (splitExtension name).2 = name := by
  unfold splitExtension
  simp only
  split
  · simp
  · rename_i parted
    simp only [Bool.or_eq_true, not_or] at parted
    obtain ⟨first, more, found⟩ : ∃ first more, name.reverse.dropWhile (· ≠ '.') = first :: more := by
      cases found : name.reverse.dropWhile (· ≠ '.') with
      | nil =>
          rw [found] at parted
          simp at parted
      | cons first more => exact ⟨first, more, rfl⟩
    have dot : first = '.' := by
      have stops := List.head?_dropWhile_not (· ≠ '.') name.reverse
      rw [found] at stops
      simpa using stops
    have whole := List.takeWhile_append_dropWhile (p := (· ≠ '.')) (l := name.reverse)
    rw [found, dot] at whole
    have turned := congrArg List.reverse whole
    rw [List.reverse_append, List.reverse_reverse] at turned
    rw [found, List.tail_cons, List.rtakeWhile]
    simpa using turned

theorem splitExtension_cases (name : Path) :
    (splitExtension name).2 = [] ∨ ∃ extension, (splitExtension name).2 = '.' :: extension := by
  unfold splitExtension
  simp only
  split
  · exact .inl rfl
  · exact .inr ⟨_, rfl⟩

theorem takeWhile_append_of_mem (text rest : Path) (dot : '.' ∈ text) :
    (text ++ rest).takeWhile (· ≠ '.') = text.takeWhile (· ≠ '.') := by
  rw [List.takeWhile_append, if_neg]
  intro whole
  have all := List.takeWhile_eq_self_iff.mp ((List.takeWhile_prefix _).eq_of_length whole)
  exact absurd (all '.' dot) (by decide)

/-- No device name ends in a bracket. -/
theorem getLast_deviceNames {stem : Path} (device : stem ∈ deviceNames) : stem.getLast? ≠ some ')' := by
  have all : deviceNames.all (fun stem => stem.getLast? ≠ some ')') = true := by decide
  simpa using List.all_eq_true.mp all stem device

/-- The number leaves the part before the first dot alone, or stands at its end. -/
theorem deviceStem_suffixed (name : Path) {index : Nat} (numbered : index ≠ 0) :
    deviceStem table (suffixedFileName name index) = deviceStem table name ∨
      (deviceStem table (suffixedFileName name index)).getLast? = some ')' := by
  have parts := splitExtension_append name
  rw [suffixedFileName, if_neg numbered]
  by_cases dot : '.' ∈ (splitExtension name).1
  · left
    rw [deviceStem, deviceStem, List.append_assoc, takeWhile_append_of_mem _ _ dot,
      ← takeWhile_append_of_mem _ (splitExtension name).2 dot, parts]
  · right
    have plain : ∀ c ∈ (splitExtension name).1 ++ '(' :: (Nat.toDigits 10 index ++ [')']), decide (c ≠ '.') = true := by
      intro c member
      rw [decide_eq_true_eq]
      simp only [List.mem_append, List.mem_cons, List.not_mem_nil, or_false] at member
      rcases member with stem | rfl | digit | rfl
      · rintro rfl
        exact dot stem
      · decide
      · exact (isPlain_toDigits digit).2
      · decide
    have ends : (splitExtension name).2.takeWhile (· ≠ '.') = [] := by
      rcases splitExtension_cases name with empty | ⟨extension, spelled⟩
      · rw [empty, List.takeWhile_nil]
      · rw [spelled, List.takeWhile_cons_of_neg (by simp)]
    have bracket : table.upper ')' = ')' := by rw [table.upper_ascii ')' (by decide)]; decide
    rw [deviceStem, List.takeWhile_append_of_pos plain, ends, List.append_nil, ← List.cons_append,
      ← List.append_assoc, List.rdropWhile_concat_neg _ _ _ (by decide), List.map_append, List.map_singleton, bracket,
      List.getLast?_concat]

/-- Every numbered form of a safe name is proper if the name is. -/
theorem SafeName.proper_suffixed (safe : SafeName table name) (plainPort : ¬ IsSuperscriptPort table name)
    (index : Nat) : ProperComponent table (suffixedFileName name index) := by
  have proper := safe.proper_iff.mpr plainPort
  by_cases numbered : index = 0
  · rw [suffixedFileName, if_pos numbered]
    exact proper
  · have stems := @deviceStem_suffixed table name index numbered
    have parts := splitExtension_append name
    have bracket : '(' ∈ suffixedFileName name index := by simp [suffixedFileName, numbered]
    have plain : ∀ c ∈ suffixedFileName name index, IsPlain c := by
      intro c member
      rw [suffixedFileName, if_neg numbered] at member
      simp only [List.mem_append, List.mem_cons, List.not_mem_nil, or_false] at member
      rcases member with (stem | rfl | digit | rfl) | extension
      · exact safe.plain c (parts ▸ List.mem_append_left _ stem)
      · exact ⟨by decide, by decide⟩
      · exact (isPlain_toDigits digit).1
      · exact ⟨by decide, by decide⟩
      · exact safe.plain c (parts ▸ List.mem_append_right _ extension)
    have last : (suffixedFileName name index).getLast? = some ')' ∨
        (suffixedFileName name index).getLast? = name.getLast? := by
      rw [suffixedFileName, if_neg numbered]
      rcases splitExtension_cases name with empty | ⟨extension, spelled⟩
      · left
        rw [empty, List.append_nil, ← List.cons_append, ← List.append_assoc, List.getLast?_concat]
      · right
        rw [spelled] at parts
        rw [spelled, ← parts, List.getLast?_append_of_ne_nil _ (by simp), List.getLast?_append_of_ne_nil _ (by simp)]
    exact {
      filled := List.ne_nil_of_mem bracket
      noSeparator := fun c member => (plain c member).1
      noDrive := fun member => (plain _ member).2 rfl
      notDot := by
        intro dot
        rw [dot] at bracket
        exact absurd bracket (by decide)
      notDotDot := by
        intro dots
        rw [dots] at bracket
        exact absurd bracket (by decide)
      noDevice := by
        intro device
        rcases stems with same | ends
        · exact proper.noDevice (same ▸ device)
        · exact getLast_deviceNames device ends
      closed := by
        rcases last with ends | same
        · rw [ends]
          exact ⟨by decide, by decide⟩
        · rw [same]
          exact safe.closed }

end SearchEngine.Upload
