import SearchEngine.Commands.TelegramContainment

/-!
# What a download hands out

An attachment is a name that its row advertises, in the directory of that row. A text is
the file that the row names. The path of a text can lead out of a relative directory
whose normal form begins like a drive.
-/

namespace SearchEngine.Commands

open Files Lib Server Upload

/-! ## Names -/

/-- A single name that nothing on Windows reads as more than that. -/
structure IsBaseName (name : Path) : Prop where
  entry : IsEntry name
  noColon : ':' ∉ name
  noNul : '\x00' ∉ name

theorem isBaseName_of_valid {name : Path} (valid : isValidAttachmentBaseName name = true) :
    IsBaseName name := by
  unfold isValidAttachmentBaseName at valid
  split at valid
  case isTrue => cases valid
  case isFalse some =>
    split at valid
    case isTrue => cases valid
    case isFalse plain =>
      simp only [Bool.or_eq_true, decide_eq_true_eq, not_or, List.isEmpty_iff] at some
      simp only [Bool.or_eq_true, not_or, List.contains_iff_mem] at plain
      obtain ⟨⟨⟨slash, backslash⟩, colon⟩, nul⟩ := plain
      refine ⟨⟨⟨some.1.1, ?_⟩, by simpa [isDot] using some.1.2, by simpa [isDotDot] using some.2⟩, colon, nul⟩
      intro c member
      rw [isSeparator, Bool.or_eq_false_iff, beq_eq_false_iff_ne, beq_eq_false_iff_ne]
      constructor
      · rintro rfl
        exact slash member
      · rintro rfl
        exact backslash member

theorem IsBaseName.unrooted {name : Path} (base : IsBaseName name) : Unrooted name := by
  have read := splitRootName_name base.entry base.noColon
  constructor
  · rw [read]
  · rw [read]
    cases name with
    | nil => rfl
    | cons c more => exact base.entry.isWord.2 c List.mem_cons_self

/-- A name that the database may give has no root. -/
theorem unrooted_of_database {name : Path} (accepted : dbFileNameEscapesDirectory name = false) :
    Unrooted name := by
  simp only [dbFileNameEscapesDirectory, hasRootName, hasRootDirectory, Bool.or_eq_false_iff,
    Bool.not_eq_false', List.isEmpty_iff] at accepted
  exact ⟨accepted.1.2, accepted.2⟩

/-- The row advertises the name: an item of its list, or the number with `.zip`. -/
def Advertises (type : TelegramType) (telegramId : Nat) (record : TelegramArchiveRecord) (name : Path) : Prop :=
  match type with
  | .vhod => name ∈ record.prilName.splitOnP (· == ';')
  | .ishod => name = Nat.toDigits 10 telegramId ++ ['.', 'z', 'i', 'p']

theorem advertises_of_isAdvertised {type : TelegramType} {telegramId : Nat} {record : TelegramArchiveRecord}
    {name : Path} (advertised : isAdvertisedAttachmentName type telegramId record.prilName name = true) :
    Advertises type telegramId record name := by
  cases type with
  | ishod =>
      rw [isAdvertisedAttachmentName, decide_eq_true_eq] at advertised
      exact advertised
  | vhod =>
      have member : name ∈ advertisedNames record.prilName := List.contains_iff_mem.mp advertised
      unfold advertisedNames at member
      dsimp only at member
      split at member
      · exact List.dropLast_subset _ member
      · exact member

/-! ## Resolved files -/

variable {sources : TelegramSources} {parse : List UInt8 → Except String JsonDocument}
  {request : List UInt8} {file : ResolvedTelegramFile}

/-- A file that was opened lies at the composed path, which the check accepted. -/
theorem openTelegramFile_ok {directory name : Path} {missing : ErrorCode}
    (opened : openTelegramFile sources directory name missing = .ok file) :
    directory ≠ [] ∧ file.path = joinPath directory name ∧
      staysUnderDirectory directory (joinPath directory name) = true := by
  unfold openTelegramFile at opened
  dsimp only at opened
  split at opened
  case isTrue => cases opened
  case isFalse some =>
    split at opened
    case isTrue => cases opened
    case isFalse =>
      split at opened
      case isTrue => cases opened
      case isFalse stays =>
        rw [Bool.not_eq_true', Bool.not_eq_false] at stays
        rw [List.isEmpty_iff] at some
        refine ⟨some, ?_, stays⟩
        split at opened
        · cases opened
        · cases opened
        · split at opened
          · cases opened
          · split at opened
            · cases opened
            · split at opened
              · cases opened
              · split at opened
                · cases opened
                · cases opened
                  rfl

/-- An attachment of a row, as a request names it. -/
structure AttachmentOf (sources : TelegramSources) (parse : List UInt8 → Except String JsonDocument)
    (request : List UInt8) (record : TelegramArchiveRecord) (name : Path) : Prop where
  row : ∃ jsonRequest telegramId type, parse request = .ok jsonRequest ∧
    parseTelegramIdType jsonRequest = .ok (telegramId, type) ∧
    lookupTelegramArchive sources telegramId type = .ok (some record) ∧
    member jsonRequest "file_name" = some (.string name) ∧ Advertises type telegramId record name
  base : IsBaseName name

/-- The row of which a request wants the text. -/
def TextOf (sources : TelegramSources) (parse : List UInt8 → Except String JsonDocument)
    (request : List UInt8) (record : TelegramArchiveRecord) : Prop :=
  ∃ jsonRequest telegramId type, parse request = .ok jsonRequest ∧
    parseTelegramIdType jsonRequest = .ok (telegramId, type) ∧
    lookupTelegramArchive sources telegramId type = .ok (some record)

theorem resolveAttachment_ok (resolved : resolveAttachment sources parse request = .ok file) :
    ∃ record name, AttachmentOf sources parse request record name ∧
      openTelegramFile sources record.directTo name .attachmentNotFound = .ok file := by
  unfold resolveAttachment at resolved
  split at resolved
  case h_1 => cases resolved
  case h_2 jsonRequest parsed =>
    split at resolved
    case isTrue => cases resolved
    case isFalse =>
      split at resolved
      case h_1 => cases resolved
      case h_2 telegramId telegramType query =>
        split at resolved
        case h_2 => cases resolved
        case h_1 name given =>
          split at resolved
          case isTrue => cases resolved
          case isFalse valid =>
            rw [Bool.not_eq_true', Bool.not_eq_false] at valid
            split at resolved
            case isTrue => cases resolved
            case isFalse =>
              cases loaded : sources.ensureBasesLoaded telegramType with
              | error failure =>
                  rw [loaded] at resolved
                  cases resolved
              | ok done =>
                  rw [loaded] at resolved
                  cases found : lookupTelegramArchive sources telegramId telegramType with
                  | error failure =>
                      rw [found] at resolved
                      cases resolved
                  | ok answer =>
                      rw [found] at resolved
                      cases answer with
                      | none => cases resolved
                      | some record =>
                          change (if record.prilName.isEmpty then _ else _) = _ at resolved
                          split at resolved
                          case isTrue => cases resolved
                          case isFalse =>
                            split at resolved
                            case isTrue => cases resolved
                            case isFalse advertised =>
                              rw [Bool.not_eq_true', Bool.not_eq_false] at advertised
                              exact ⟨record, name, ⟨⟨jsonRequest, telegramId, telegramType, parsed, query,
                                found, given, advertises_of_isAdvertised advertised⟩,
                                isBaseName_of_valid valid⟩, resolved⟩

theorem resolveText_ok (resolved : resolveText sources parse request = .ok file) :
    ∃ record, TextOf sources parse request record ∧ dbFileNameEscapesDirectory record.fileName = false ∧
      openTelegramFile sources record.directTo record.fileName .fileNotFound = .ok file := by
  unfold resolveText at resolved
  split at resolved
  case h_1 => cases resolved
  case h_2 jsonRequest parsed =>
    split at resolved
    case isTrue => cases resolved
    case isFalse =>
      split at resolved
      case h_1 => cases resolved
      case h_2 telegramId telegramType query =>
        cases loaded : sources.ensureBasesLoaded telegramType with
        | error failure =>
            rw [loaded] at resolved
            cases resolved
        | ok done =>
            rw [loaded] at resolved
            cases found : lookupTelegramArchive sources telegramId telegramType with
            | error failure =>
                rw [found] at resolved
                cases resolved
            | ok answer =>
                rw [found] at resolved
                cases answer with
                | none => cases resolved
                | some record =>
                    change (if record.directTo.isEmpty || record.fileName.isEmpty then _ else _) = _ at resolved
                    split at resolved
                    case isTrue => cases resolved
                    case isFalse =>
                      split at resolved
                      case isTrue => cases resolved
                      case isFalse inside =>
                        rw [Bool.not_eq_true] at inside
                        exact ⟨record, ⟨jsonRequest, telegramId, telegramType, parsed, query, found⟩,
                          inside, resolved⟩

/-! ## The claim about both -/

/-- An attachment lies below the directory of its row. A text does unless that directory
reads as a drive and the path does not descend from it. -/
theorem downloads_inside (sources : TelegramSources) (parse : List UInt8 → Except String JsonDocument)
    (request : List UInt8) :
    (∀ file, resolveAttachment sources parse request = .ok file →
      ∃ record name, AttachmentOf sources parse request record name ∧
        file.path = joinPath record.directTo name ∧ LiesStrictlyBelow record.directTo file.path) ∧
    (∀ file, resolveText sources parse request = .ok file →
      ∃ record, TextOf sources parse request record ∧
        file.path = joinPath record.directTo record.fileName ∧
        (LiesStrictlyBelow record.directTo file.path ↔ startsAsDrive record.directTo = false ∨
          Descends record.directTo (joinPath record.directTo record.fileName))) := by
  constructor
  · intro file resolved
    obtain ⟨record, name, attachment, opened⟩ := resolveAttachment_ok resolved
    obtain ⟨some, path, stays⟩ := openTelegramFile_ok opened
    refine ⟨record, name, attachment, path, ?_⟩
    rw [path, liesStrictlyBelow_iff stays]
    cases clean : startsAsDrive record.directTo with
    | false => exact descends_of_not_startsAsDrive attachment.base.unrooted some clean stays
    | true => exact descends_of_entry attachment.base.unrooted attachment.base.entry clean
  · intro file resolved
    obtain ⟨record, text, accepted, opened⟩ := resolveText_ok resolved
    obtain ⟨some, path, stays⟩ := openTelegramFile_ok opened
    refine ⟨record, text, path, ?_⟩
    rw [path, liesStrictlyBelow_iff stays]
    constructor
    · exact .inr
    · rintro (clean | descends)
      · exact descends_of_not_startsAsDrive (unrooted_of_database accepted) some clean stays
      · exact descends

/-! ## One row -/

/-- One base with one row, and every file there. -/
def oneRow (record : TelegramArchiveRecord) : TelegramSources where
  isSourceConfigured _ := true
  ensureBasesLoaded _ := .ok ()
  bases _ := ["base.db".toList]
  queryRows _ _ :=
    .ok [[("PrilName", record.prilName), ("DirectTo", record.directTo), ("FileName", record.fileName)]]
  attributes _ := .found false false
  opens _ := true
  endOffset _ := some 5

/-- The request for the attachment `f` of telegram 7. -/
def attachmentRequest : List UInt8 :=
  "\x7b\"id\":7,\"type\":0,\"file_name\":\"f\"\x7d".toList.map fun c => UInt8.ofNat c.toNat

/-- The request for the text of telegram 7. -/
def textRequest : List UInt8 := "\x7b\"id\":7,\"type\":0\x7d".toList.map fun c => UInt8.ofNat c.toNat

/-- The two requests, read. -/
def readRequest (request : List UInt8) : Except String JsonDocument :=
  if request = attachmentRequest then
    .ok (.object [("id", .unsigned 7), ("type", .unsigned 0), ("file_name", .string ['f'])])
  else if request = textRequest then .ok (.object [("id", .unsigned 7), ("type", .unsigned 0)])
  else .error "parse error"

def ordinaryRow : TelegramArchiveRecord := ⟨"e;f".toList, "C:\\a".toList, "t.txt".toList⟩

def driveRow : TelegramArchiveRecord := ⟨[], ".\\C:..\\a".toList, "..\\..\\C:zzz".toList⟩

theorem downloads_inside_ordinary :
    (∃ record name, AttachmentOf (oneRow ordinaryRow) readRequest attachmentRequest record name ∧
      "C:\\a\\f".toList = joinPath record.directTo name ∧
        LiesStrictlyBelow record.directTo "C:\\a\\f".toList) ∧
    ∃ record, TextOf (oneRow ordinaryRow) readRequest textRequest record ∧
      "C:\\a\\t.txt".toList = joinPath record.directTo record.fileName ∧
        (LiesStrictlyBelow record.directTo "C:\\a\\t.txt".toList ↔ startsAsDrive record.directTo = false ∨
          Descends record.directTo (joinPath record.directTo record.fileName)) :=
  ⟨(downloads_inside (oneRow ordinaryRow) readRequest attachmentRequest).1 ⟨"C:\\a\\f".toList, 5⟩ (by rfl),
    (downloads_inside (oneRow ordinaryRow) readRequest textRequest).2 ⟨"C:\\a\\t.txt".toList, 5⟩ (by rfl)⟩

/-- The path is read as one on the drive `C:`, where it seems to stay in `C:..\a`. -/
theorem text_outside :
    lookupTelegramArchive (oneRow driveRow) 7 .vhod = .ok (some driveRow) ∧
      (∃ file, resolveText (oneRow driveRow) readRequest textRequest = .ok file ∧
        file.path = ".\\C:..\\a\\..\\..\\C:zzz".toList) ∧
      ¬ LiesStrictlyBelow driveRow.directTo ".\\C:..\\a\\..\\..\\C:zzz".toList := by
  refine ⟨rfl, ⟨⟨_, 5⟩, rfl, rfl⟩, ?_⟩
  rintro ⟨names, some, -, same⟩
  have whole : properParts ".\\C:..\\a\\..\\..\\C:zzz".toList = ["C:".toList, "zzz".toList] := by decide +kernel
  have directory : properParts driveRow.directTo = ["C:".toList, "..".toList, "a".toList] := by decide +kernel
  rw [whole, directory] at same
  have lengths := congrArg List.length same
  simp at lengths

end SearchEngine.Commands
