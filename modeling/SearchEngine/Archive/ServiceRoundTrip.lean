import SearchEngine.Archive.ImagePathTokens

/-!
# The round trip of a service command line

Both readers are followed over the text that `buildServiceImagePath` writes.
-/

namespace SearchEngine.Archive

open SearchEngine.Files

variable {windows : WindowsSystem}

theorem forall_mem_of_all {legal : Char → Prop} [DecidablePred legal] {text : Path}
    (all : text.all (fun c => decide (legal c)) = true) : ∀ c ∈ text, legal c := by
  simpa using all

/-! ## Reading the arguments back -/

theorem readArguments_flag {flag : Path} (plain : ∀ c ∈ flag, c ≠ '\\' ∧ c ≠ '"' ∧ c ≠ ' ' ∧ c ≠ '\t') :
    ∀ kept rest : Path, readArguments false 0 (some kept) (flag ++ ' ' :: rest) =
      (kept ++ flag) :: readArguments false 0 none rest := by
  induction flag with
  | nil =>
      intro kept rest
      rw [List.nil_append, readArguments, if_neg (by decide), if_neg (by decide), if_pos (by decide)]
      simp
  | cons c flag ih =>
      intro kept rest
      obtain ⟨slash, quote, space, tab⟩ := plain c List.mem_cons_self
      rw [List.cons_append, readArguments, if_neg slash, if_neg quote, if_neg (by simp [space, tab]),
        ih fun c member => plain c (List.mem_cons_of_mem _ member)]
      simp

theorem readArguments_space (rest : Path) :
    readArguments false 0 none (' ' :: rest) = readArguments false 0 none rest := by
  rw [readArguments, if_neg (by decide), if_neg (by decide), if_pos (by decide)]
  rfl

theorem readArguments_spaceFlag {flag : Path} (filled : flag ≠ [])
    (plain : ∀ c ∈ flag, c ≠ '\\' ∧ c ≠ '"' ∧ c ≠ ' ' ∧ c ≠ '\t') (rest : Path) :
    readArguments false 0 none (' ' :: (flag ++ ' ' :: rest)) = flag :: readArguments false 0 none rest := by
  rw [readArguments_space]
  cases flag with
  | nil => exact absurd rfl filled
  | cons c flag =>
      obtain ⟨slash, quote, space, tab⟩ := plain c List.mem_cons_self
      rw [List.cons_append, readArguments, if_neg slash, if_neg quote, if_neg (by simp [space, tab]),
        readArguments_flag fun c member => plain c (List.mem_cons_of_mem _ member)]
      rfl

/-- The name of the program keeps its doubled backslashes. -/
theorem commandLineToArgv_quoteArgument {program : Path} (plain : '"' ∉ program) (rest : Path) :
    commandLineToArgv (quoteArgument program ++ rest) = doubledEnd program :: readArguments false 0 none rest := by
  have text : quoteArgument program ++ rest = '"' :: (doubledEnd program ++ '"' :: rest) := by
    rw [quoteArgument, quoteBody_plain program plain, List.replicate_zero, List.nil_append]
    simp
  have all : ∀ c ∈ doubledEnd program, decide (c ≠ '"') = true := by
    intro c member
    rw [decide_eq_true_eq]
    rintro rfl
    exact plain_doubledEnd plain member
  rw [text, commandLineToArgv, List.takeWhile_append_of_pos all, List.takeWhile_cons_of_neg (by decide),
    List.dropWhile_append_of_pos all, List.dropWhile_cons_of_neg (by decide), List.append_nil]
  rfl

theorem cText_eq_self {text : Path} (noNul : '\x00' ∉ text) : cText text = text := by
  have whole := cText_append noNul []
  rwa [List.append_nil, show cText [] = [] from rfl, List.append_nil] at whole

theorem noNul_quoteBody {value : Path} (noNul : '\x00' ∉ value) (slashes : Nat) : '\x00' ∉ quoteBody slashes value := by
  obtain ⟨count, same⟩ := quoteBody_eq_quoteWord value slashes
  rw [same]
  intro member
  rcases List.mem_append.mp member with word | slash
  · rcases mem_quoteWord value slashes word with slash | inside
    · exact absurd slash (by decide)
    · exact noNul inside
  · exact noNul_replicate count slash

theorem noNul_quoteArgument {value : Path} (noNul : '\x00' ∉ value) : '\x00' ∉ quoteArgument value := by
  have body := noNul_quoteBody noNul 0
  simp [quoteArgument, body]

/-- The arguments up to the service name. -/
theorem commandLineToArgv_serviceImage {executable : Path} (plain : '"' ∉ executable) (noNul : '\x00' ∉ executable)
    (name data : Path) :
    commandLineToArgv (cText (serviceImage executable name data)) =
      doubledEnd executable :: serviceFlag :: serviceNameFlag :: readArguments false 0 none
        (cText (quoteArgument name ++ ' ' :: (dataDirFlag ++ ' ' :: quoteArgument data))) := by
  have flags : ∀ rest : Path, ' ' :: (serviceFlag ++ ' ' :: (serviceNameFlag ++ ' ' :: rest)) =
      (' ' :: (serviceFlag ++ ' ' :: (serviceNameFlag ++ [' ']))) ++ rest := by simp
  rw [serviceImage, cText_append (noNul_quoteArgument noNul), commandLineToArgv_quoteArgument plain, flags,
    cText_append (by decide), ← flags, readArguments_spaceFlag (by decide) (forall_mem_of_all (by decide))]
  have second := @readArguments_spaceFlag serviceNameFlag (by decide) (forall_mem_of_all (by decide))
    (cText (quoteArgument name ++ ' ' :: (dataDirFlag ++ ' ' :: quoteArgument data)))
  rw [readArguments_space] at second
  rw [second]

/-- A path that needs no `absolute` and no `lexically_normal`, of characters that a file name may have. -/
structure NormalizedPath (windows : WindowsSystem) where
  text : Path
  legal : ∀ c ∈ text, c ≠ '"' ∧ c ≠ '\x00'
  absolute : isAbsolutePath text = true
  normalized : windows.absoluteNormalized text = text

variable {executable data : NormalizedPath windows} {name : Path}

theorem NormalizedPath.plain (path : NormalizedPath windows) : '"' ∉ path.text :=
  fun member => (path.legal _ member).1 rfl

theorem NormalizedPath.noNul (path : NormalizedPath windows) : '\x00' ∉ path.text :=
  fun member => (path.legal _ member).2 rfl

theorem commandLineToArgv_noNul (noNul : '\x00' ∉ name) :
    commandLineToArgv (cText (serviceImage executable.text name data.text)) =
      [doubledEnd executable.text, serviceFlag, serviceNameFlag, name, dataDirFlag, data.text] := by
  have rest : '\x00' ∉ quoteArgument name ++ ' ' :: (dataDirFlag ++ ' ' :: quoteArgument data.text) := by
    have first := noNul_quoteArgument noNul
    have second := noNul_quoteArgument data.noNul
    have flag : '\x00' ∉ dataDirFlag := by decide
    simp [first, second, flag]
  rw [commandLineToArgv_serviceImage executable.plain executable.noNul, cText_eq_self rest,
    readArguments_quoteArgument, ← readArguments_space, readArguments_spaceFlag (by decide) (forall_mem_of_all (by decide)),
    readArguments_quoteArgument_last]

/-- With a terminator in it the name is the last argument. -/
theorem commandLineToArgv_nul (nul : '\x00' ∈ name) : ∃ argument,
    commandLineToArgv (cText (serviceImage executable.text name data.text)) =
      [doubledEnd executable.text, serviceFlag, serviceNameFlag, argument] := by
  obtain ⟨argument, read⟩ := readArguments_cText ('"' :: ' ' :: (dataDirFlag ++ ' ' :: quoteArgument data.text)) name nul
    0 []
  refine ⟨argument, ?_⟩
  rw [commandLineToArgv_serviceImage executable.plain executable.noNul, ← read, quoteArgument, List.cons_append,
    List.append_assoc, List.singleton_append, cText, List.takeWhile_cons_of_pos (by decide), readArguments,
    if_neg (by decide), if_pos rfl]
  rfl

theorem readServiceArguments_complete {expanded : Path} (value : windows.expandEnvironment data.text = some expanded) :
    readServiceArguments windows ⟨false, [], none⟩ [serviceFlag, serviceNameFlag, name, dataDirFlag, data.text] =
      .ok ⟨true, name, some expanded⟩ := by
  have notService : serviceNameFlag ≠ serviceFlag := by decide
  have notName : dataDirFlag ≠ serviceFlag ∧ dataDirFlag ≠ serviceNameFlag := by decide
  simp [readServiceArguments, notService, notName, value]

theorem readServiceArguments_unexpanded (value : windows.expandEnvironment data.text = none) :
    readServiceArguments windows ⟨false, [], none⟩ [serviceFlag, serviceNameFlag, name, dataDirFlag, data.text] =
      .error "ExpandEnvironmentStringsW failed" := by
  have notService : serviceNameFlag ≠ serviceFlag := by decide
  have notName : dataDirFlag ≠ serviceFlag ∧ dataDirFlag ≠ serviceNameFlag := by decide
  simp [readServiceArguments, notService, notName, value]

theorem readServiceArguments_cut (argument : Path) :
    readServiceArguments windows ⟨false, [], none⟩ [serviceFlag, serviceNameFlag, argument] =
      .ok ⟨true, argument, none⟩ := by
  have notService : serviceNameFlag ≠ serviceFlag := by decide
  simp [readServiceArguments, notService]

/-- What is read back of the paths, and of a name without terminators. -/
theorem parseServiceInvocation_eq_ok_iff :
    parseServiceInvocation windows (serviceImage executable.text name data.text) =
        .ok ⟨serviceImage executable.text name data.text, executable.text, data.text, name⟩ ↔
      '\x00' ∉ name ∧
        (windows.expandEnvironment (doubledEnd executable.text)).map windows.absoluteNormalized = some executable.text ∧
        ∃ expanded ≠ [], windows.expandEnvironment data.text = some expanded ∧
          windows.dataDirectory executable.text expanded = data.text := by
  unfold parseServiceInvocation
  by_cases nul : '\x00' ∈ name
  · obtain ⟨argument, arguments⟩ := @commandLineToArgv_nul _ executable data _ nul
    rw [arguments]
    constructor
    · intro done
      cases program : windows.expandEnvironment (doubledEnd executable.text) with
      | none => simp [program] at done
      | some expanded => simp [program, readServiceArguments_cut] at done
    · exact fun both => absurd nul both.1
  · rw [commandLineToArgv_noNul nul]
    cases program : windows.expandEnvironment (doubledEnd executable.text) with
    | none => simp [program]
    | some expanded =>
        cases value : windows.expandEnvironment data.text with
        | none => simp [program, readServiceArguments_unexpanded value]
        | some directory =>
            simp only [program, readServiceArguments_complete value, Option.map_some, Option.some.injEq]
            cases directory with
            | nil => simp
            | cons c directory =>
                simp only [Bool.not_true, Bool.false_eq_true, if_false, Except.ok.injEq, ServiceInvocation.mk.injEq]
                constructor
                · rintro ⟨-, same, read, -⟩
                  rw [same] at read
                  exact ⟨nul, same, _, List.cons_ne_nil _ _, rfl, read⟩
                · rintro ⟨-, same, expanded, -, found, read⟩
                  cases found
                  rw [same]
                  exact ⟨trivial, rfl, read, trivial⟩

/-- The command line says what it was built from, to both readers. -/
def RoundTrips (executable data : NormalizedPath windows) (name : Path) : Prop :=
  ∃ image, buildServiceImagePath windows executable.text name data.text = .ok image ∧
    parseServiceInvocation windows image = .ok ⟨image, executable.text, data.text, name⟩ ∧
    parseDataDirFromImagePath image = some data.text

/-- Expanding the environment leaves both paths what they are, and the tokenizer sees what the
quotes mean. -/
structure ReadAlike (executable data : NormalizedPath windows) (name : Path) : Prop where
  named : name ≠ []
  noNul : '\x00' ∉ name
  program : (windows.expandEnvironment (doubledEnd executable.text)).map windows.absoluteNormalized =
    some executable.text
  directory : ∃ expanded ≠ [], windows.expandEnvironment data.text = some expanded ∧
    windows.dataDirectory executable.text expanded = data.text
  tokens : TokenizedAlike name data.text

/-- The command line round-trips in these cases and no others. -/
theorem roundTrips_iff (windows : WindowsSystem) (executable data : NormalizedPath windows) (name : Path) :
    RoundTrips executable data name ↔ ReadAlike executable data name := by
  unfold RoundTrips buildServiceImagePath
  rw [executable.normalized, data.normalized]
  cases name with
  | nil => simpa using fun alike : ReadAlike executable data [] => alike.named rfl
  | cons c name =>
      simp only [List.isEmpty_cons, Bool.false_eq_true, if_false, Except.ok.injEq, exists_eq_left',
        parseServiceInvocation_eq_ok_iff, parseDataDirFromImagePath_eq_iff executable.plain data.plain data.absolute]
      constructor
      · rintro ⟨⟨noNul, program, directory⟩, tokens⟩
        exact ⟨List.cons_ne_nil _ _, noNul, program, directory, tokens⟩
      · exact fun alike => ⟨⟨alike.noNul, alike.program, alike.directory⟩, alike.tokens⟩

/-- A system without variables, whose full paths are what they are. -/
def plainWindows : WindowsSystem := ⟨some, some⟩

/-- A program below a directory with a space in its name. -/
def spacedExecutable : NormalizedPath plainWindows :=
  ⟨"C:\\S E\\se.exe".toList, forall_mem_of_all (by decide), by decide, by decide⟩

/-- The root of a drive. -/
def driveRoot : NormalizedPath plainWindows := ⟨"D:\\".toList, forall_mem_of_all (by decide), by decide, by decide⟩

/-- The configuration tool reads `D:\\` where the data directory is `D:\`. -/
theorem not_roundTrips_driveRoot : ¬ RoundTrips spacedExecutable driveRoot "svc".toList := by
  rintro ⟨image, built, -, read⟩
  obtain rfl := Except.ok.inj built
  rw [spacedExecutable.normalized, driveRoot.normalized, parseDataDirFromImagePath_eq_iff spacedExecutable.plain
    driveRoot.plain driveRoot.absolute] at read
  exact read.2 rfl

end SearchEngine.Archive
