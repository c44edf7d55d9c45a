import Mathlib.Data.List.DropRight
import SearchEngine.Auth.Base64

/-!
# Device identities

Trimming, and the normal forms of the identifiers of removable disks and computers.
Each normal form is its own normal form.
-/

namespace SearchEngine.Auth

/-! ## TokenAscii, DeviceIdentity -/

/-- `std::isspace` in the "C" locale. -/
def isSpace (c : Char) : Bool :=
  c = ' ' || c = '\t' || c = '\n' || c.toNat = 11 || c.toNat = 12 || c = '\r'

def trimCopy (value : Text) : Text := (value.dropWhile isSpace).rdropWhile isSpace

/-- `std::isxdigit`. -/
def isXDigit (c : Char) : Bool :=
  c.isDigit || ('a' ≤ c && c ≤ 'f') || ('A' ≤ c && c ≤ 'F')

def normalizeUsbDeviceId (value : Text) : Text := (trimCopy value).map Char.toUpper

/-- The value without the braces around it. -/
def withoutBraces (value : Text) : Text :=
  if 2 ≤ value.length ∧ value.head? = some '{' ∧ value.getLast? = some '}' then
    trimCopy ((value.drop 1).take (value.length - 2))
  else value

/-- The groups of a canonical UUID. -/
def canonicalUuid (hex : Text) : Text :=
  hex.take 8 ++ '-' :: ((hex.drop 8).take 4 ++ '-' :: ((hex.drop 12).take 4 ++
    '-' :: ((hex.drop 16).take 4 ++ '-' :: (hex.drop 20).take 12)))

/-- The hexadecimal digits must be usable. -/
def isUsableHex (hex : Text) : Bool :=
  hex.length = 32 && hex ≠ List.replicate 32 '0' && hex ≠ List.replicate 32 'F'

def normalizeComputerUuid (value : Text) : Option Text :=
  let digits := (withoutBraces (trimCopy value)).filter (· ≠ '-')
  if digits.all isXDigit then
    let hex := digits.map Char.toUpper
    if isUsableHex hex then some (canonicalUuid hex) else none
  else none

def isAsciiTokenField (value : Text) : Bool :=
  value.all fun c => c.isAlphanum || c ∈ [' ', '.', ',', '-', '_', '(', ')', '/', '+', '#', '@', ':']

/-! ## Trimming -/

theorem dropWhile_eq_self_of_head {value : Text} (solid : ∀ c, value.head? = some c → isSpace c = false) :
    value.dropWhile isSpace = value := by
  cases value with
  | nil => rfl
  | cons c rest => simp [solid c rfl]

theorem rdropWhile_eq_self_of_last {value : Text}
    (solid : ∀ c, value.getLast? = some c → isSpace c = false) : value.rdropWhile isSpace = value := by
  rw [List.rdropWhile, dropWhile_eq_self_of_head (fun c last => solid c (by rwa [← List.head?_reverse])),
    List.reverse_reverse]

/-- What neither begins nor ends with a space is not changed. -/
theorem trimCopy_eq_self {value : Text} (head : ∀ c, value.head? = some c → isSpace c = false)
    (last : ∀ c, value.getLast? = some c → isSpace c = false) : trimCopy value = value := by
  rw [trimCopy, dropWhile_eq_self_of_head head, rdropWhile_eq_self_of_last last]

theorem trimCopy_eq_self_of_all {value : Text} (solid : ∀ c ∈ value, isSpace c = false) :
    trimCopy value = value :=
  trimCopy_eq_self (fun c head => solid c (List.mem_of_mem_head? head))
    (fun c last => solid c (List.mem_of_mem_getLast? last))

theorem head_dropWhile {value : Text} {c : Char} (head : (value.dropWhile isSpace).head? = some c) :
    isSpace c = false := by
  have solid := List.head?_dropWhile_not isSpace value
  rw [head] at solid
  simpa using solid

theorem last_trimCopy {value : Text} {c : Char} (last : (trimCopy value).getLast? = some c) :
    isSpace c = false := by
  rw [trimCopy, List.rdropWhile, List.getLast?_reverse] at last
  exact head_dropWhile last

theorem head_trimCopy {value : Text} {c : Char} (head : (trimCopy value).head? = some c) :
    isSpace c = false := by
  obtain ⟨rest, split⟩ := List.rdropWhile_prefix isSpace (l := value.dropWhile isSpace)
  rw [← trimCopy] at split
  cases trimmed : trimCopy value with
  | nil => rw [trimmed] at head; cases head
  | cons first tail =>
      rw [trimmed] at head split
      obtain rfl := Option.some.inj head
      exact head_dropWhile (by rw [← split]; rfl)

@[simp] theorem trimCopy_trimCopy (value : Text) : trimCopy (trimCopy value) = trimCopy value :=
  trimCopy_eq_self (fun _ => head_trimCopy) (fun _ => last_trimCopy)

/-! ## Normal forms -/

/-- What holds of the 128 ASCII characters. -/
theorem forall_ascii (property : Char → Prop) (table : ∀ n : Fin 128, property (Char.ofNat n.val)) (c : Char)
    (ascii : c.toNat < 128) : property c := by
  have found := table ⟨c.toNat, ascii⟩
  rwa [Char.ofNat_toNat] at found

theorem toUpper_eq_self {c : Char} (other : 128 ≤ c.toNat) : c.toUpper = c := by
  have above : ¬('a'.val ≤ c.val ∧ c.val ≤ 'z'.val) := by
    rintro ⟨-, low⟩
    have bound : c.toNat ≤ 122 := UInt32.le_iff_toNat_le.mp low
    omega
  exact dif_neg above

theorem isSpace_toUpper (c : Char) : isSpace c.toUpper = isSpace c := by
  rcases Nat.lt_or_ge c.toNat 128 with ascii | other
  · exact forall_ascii (fun c => isSpace c.toUpper = isSpace c) (by decide) c ascii
  · rw [toUpper_eq_self other]

theorem toUpper_toUpper (c : Char) : c.toUpper.toUpper = c.toUpper := by
  rcases Nat.lt_or_ge c.toNat 128 with ascii | other
  · exact forall_ascii (fun c => c.toUpper.toUpper = c.toUpper) (by decide) c ascii
  · rw [toUpper_eq_self other, toUpper_eq_self other]

@[simp] theorem normalizeUsbDeviceId_idem (value : Text) :
    normalizeUsbDeviceId (normalizeUsbDeviceId value) = normalizeUsbDeviceId value := by
  have trimmed : trimCopy ((trimCopy value).map Char.toUpper) = (trimCopy value).map Char.toUpper := by
    apply trimCopy_eq_self
    · intro c head
      rw [List.head?_map] at head
      obtain ⟨first, found, rfl⟩ := Option.map_eq_some_iff.mp head
      rw [isSpace_toUpper, head_trimCopy found]
    · intro c last
      rw [List.getLast?_map] at last
      obtain ⟨final, found, rfl⟩ := Option.map_eq_some_iff.mp last
      rw [isSpace_toUpper, last_trimCopy found]
  rw [normalizeUsbDeviceId, normalizeUsbDeviceId, trimmed, List.map_map]
  exact List.map_congr_left fun c _ => toUpper_toUpper c

/-- A digit of a canonical UUID. -/
structure IsUpperHex (c : Char) : Prop where
  digit : isXDigit c = true
  upper : c.toUpper = c
  solid : isSpace c = false
  noHyphen : c ≠ '-'
  noBrace : c ≠ '{'

instance (c : Char) : Decidable (IsUpperHex c) :=
  decidable_of_iff (isXDigit c = true ∧ c.toUpper = c ∧ isSpace c = false ∧ c ≠ '-' ∧ c ≠ '{')
    ⟨fun ⟨digit, upper, solid, noHyphen, noBrace⟩ => ⟨digit, upper, solid, noHyphen, noBrace⟩,
      fun hex => ⟨hex.digit, hex.upper, hex.solid, hex.noHyphen, hex.noBrace⟩⟩

theorem isUpperHex_toUpper {c : Char} (digit : isXDigit c = true) : IsUpperHex c.toUpper := by
  have ascii : c.toNat < 128 := by
    simp only [isXDigit, Char.isDigit, Bool.or_eq_true, Bool.and_eq_true, decide_eq_true_eq] at digit
    rcases digit with (⟨-, low⟩ | ⟨-, low⟩) | ⟨-, low⟩ <;>
      exact Nat.lt_of_le_of_lt (UInt32.le_iff_toNat_le.mp low) (by decide)
  exact forall_ascii (fun c => isXDigit c = true → IsUpperHex c.toUpper) (by decide) c ascii digit

/-- The groups together are the digits. -/
theorem canonicalUuid_parts {hex : Text} (length : hex.length = 32) :
    hex.take 8 ++ ((hex.drop 8).take 4 ++ ((hex.drop 12).take 4 ++ ((hex.drop 16).take 4 ++
      (hex.drop 20).take 12))) = hex := by
  have last : (hex.drop 20).take 12 = hex.drop 20 := List.take_of_length_le (by simp [length])
  have fourth := List.take_append_drop 4 (hex.drop 16)
  have third := List.take_append_drop 4 (hex.drop 12)
  have second := List.take_append_drop 4 (hex.drop 8)
  rw [List.drop_drop] at fourth third second
  rw [last, fourth, third, second, List.take_append_drop]

theorem mem_of_mem_canonicalUuid {hex : Text} {c : Char} (member : c ∈ canonicalUuid hex) :
    c ∈ hex ∨ c = '-' := by
  simp only [canonicalUuid, List.mem_append, List.mem_cons] at member
  rcases member with first | hyphen | second | hyphen | third | hyphen | fourth | hyphen | last
  · exact .inl (List.mem_of_mem_take first)
  · exact .inr hyphen
  · exact .inl (List.mem_of_mem_drop (List.mem_of_mem_take second))
  · exact .inr hyphen
  · exact .inl (List.mem_of_mem_drop (List.mem_of_mem_take third))
  · exact .inr hyphen
  · exact .inl (List.mem_of_mem_drop (List.mem_of_mem_take fourth))
  · exact .inr hyphen
  · exact .inl (List.mem_of_mem_drop (List.mem_of_mem_take last))

theorem filter_canonicalUuid {hex : Text} (length : hex.length = 32) (plain : ∀ c ∈ hex, c ≠ '-') :
    (canonicalUuid hex).filter (· ≠ '-') = hex := by
  have kept : ∀ part : Text, (∀ c ∈ part, c ∈ hex) → part.filter (· ≠ '-') = part := by
    intro part sub
    exact List.filter_eq_self.mpr fun c member => by simpa using plain c (sub c member)
  have hyphen : ∀ rest : Text, ('-' :: rest).filter (· ≠ '-') = rest.filter (· ≠ '-') := fun rest => by simp
  simp only [canonicalUuid, List.filter_append, hyphen]
  rw [kept _ fun c => List.mem_of_mem_take, kept _ fun c member => List.mem_of_mem_drop (List.mem_of_mem_take member),
    kept _ fun c member => List.mem_of_mem_drop (List.mem_of_mem_take member),
    kept _ fun c member => List.mem_of_mem_drop (List.mem_of_mem_take member),
    kept _ fun c member => List.mem_of_mem_drop (List.mem_of_mem_take member), canonicalUuid_parts length]

/-- A canonical UUID is its own normal form. -/
theorem normalizeComputerUuid_canonicalUuid {hex : Text} (usable : isUsableHex hex = true)
    (upper : ∀ c ∈ hex, IsUpperHex c) : normalizeComputerUuid (canonicalUuid hex) = some (canonicalUuid hex) := by
  have length : hex.length = 32 := by
    simp only [isUsableHex, Bool.and_eq_true, decide_eq_true_eq] at usable
    exact usable.1.1
  have solid : ∀ c ∈ canonicalUuid hex, isSpace c = false := by
    intro c member
    rcases mem_of_mem_canonicalUuid member with digit | rfl
    · exact (upper c digit).solid
    · decide
  have bare : withoutBraces (canonicalUuid hex) = canonicalUuid hex := by
    refine if_neg fun braces => ?_
    rcases mem_of_mem_canonicalUuid (List.mem_of_mem_head? braces.2.1) with digit | hyphen
    · exact (upper _ digit).noBrace rfl
    · cases hyphen
  have digits := filter_canonicalUuid length fun c member => (upper c member).noHyphen
  have all : hex.all isXDigit = true := List.all_eq_true.mpr fun c member => (upper c member).digit
  have same : hex.map Char.toUpper = hex := by
    conv_rhs => rw [← List.map_id hex]
    exact List.map_congr_left fun c member => (upper c member).upper
  simp only [normalizeComputerUuid, trimCopy_eq_self_of_all solid, bare, digits, all, same, usable, if_true]

theorem normalizeComputerUuid_idem {value uuid : Text} (normal : normalizeComputerUuid value = some uuid) :
    normalizeComputerUuid uuid = some uuid := by
  simp only [normalizeComputerUuid] at normal
  split at normal
  · rename_i digits
    split at normal
    · rename_i usable
      obtain rfl := Option.some.inj normal
      refine normalizeComputerUuid_canonicalUuid usable fun c member => ?_
      obtain ⟨digit, found, rfl⟩ := List.mem_map.mp member
      exact isUpperHex_toUpper (List.all_eq_true.mp digits digit found)
    · cases normal
  · cases normal

end SearchEngine.Auth
