import SearchEngine.Lib.SortedMap
import Mathlib.Data.List.Lex
import Mathlib.Order.Fin.Basic
import Mathlib.Tactic.Ring

/-!
# Posting lists and occurrence counts

`PostingList` keeps one 16-bit count per document in increasing document order.
Three narrowings of a counted number of occurrences meet in the index:
`fileIndexing` clamps it to 32 bits, the in-memory commit adds it to a 16-bit
slot, and the SQLite writer and the batch builder saturate it at 65535.
-/

namespace SearchEngine.Index

open SearchEngine.Lib

/-- One byte of a document in the OEM code page. -/
abbrev Byte := Fin 256

/-- A normalized token. -/
abbrev Word := List Byte

/-- A number reduced to a byte. -/
def Byte.ofNat (number : Nat) : Byte := Fin.ofNat 256 number

/-- The bytes of an ASCII text. -/
def Word.ofAscii (text : String) : Word := text.toList.map fun char => Byte.ofNat char.toNat

/-- `FileId` of the source. -/
abbrev FileId := Nat

/-- Compact word number handed out by `WordIdManager`. -/
abbrev WordId := Nat

/-- `PostingList`: the count of each listed document. -/
abbrev PostingList := SortedMap FileId UInt16

/-- `cnt += count` on a `uint16_t` slot and a `uint32_t` operand. -/
def plusCount (cnt : UInt16) (count : UInt32) : UInt16 := (cnt.toUInt32 + count).toUInt16

namespace PostingList

/-- `posting[fileId] += count`, where `operator[]` inserts a zero entry first. -/
def addCount (posting : PostingList) (fileId : FileId) (count : UInt32) : PostingList :=
  posting.insert fileId (plusCount ((posting.find? fileId).getD 0) count)

@[simp] theorem find?_addCount (posting : PostingList) (fileId other : FileId) (count : UInt32) :
    (posting.addCount fileId count).find? other =
      if fileId = other then some (plusCount ((posting.find? fileId).getD 0) count)
      else posting.find? other := by
  rw [addCount, SortedMap.find?_insert]

end PostingList

/-- `min(count, numeric_limits<uint32_t>::max())` of `fileIndexing`. -/
def clampCount (count : Nat) : UInt32 := UInt32.ofNat (min count (2 ^ 32 - 1))

/-- `count > 0xFFFF ? 0xFFFF : count` of `processBatch` and of the batch builder. -/
def saturateCount (count : Nat) : UInt16 := if 65535 < count then 65535 else UInt16.ofNat count

/-- The count that reaches an empty in-memory slot. -/
def wrapCount (count : Nat) : UInt16 := plusCount 0 (clampCount count)

/-- Both narrowings of an occurrence count agree. -/
def CountFits (count : Nat) : Prop := wrapCount count = saturateCount count

instance (count : Nat) : Decidable (CountFits count) := inferInstanceAs (Decidable (_ = _))

/-- Adding in 32 bits and truncating is addition in 16 bits. -/
theorem plusCount_eq_add (cnt : UInt16) (count : UInt32) :
    plusCount cnt count = cnt + count.toUInt16 := by
  apply UInt16.toNat.inj
  simp [plusCount]

/-- Two additions to one slot commute. -/
theorem plusCount_comm (cnt : UInt16) (first second : UInt32) :
    plusCount (plusCount cnt first) second = plusCount (plusCount cnt second) first := by
  simp only [plusCount_eq_add]
  rw [UInt16.add_assoc, UInt16.add_comm first.toUInt16, ← UInt16.add_assoc]

@[simp] theorem toNat_clampCount (count : Nat) :
    (clampCount count).toNat = min count (2 ^ 32 - 1) := by
  unfold clampCount
  rw [UInt32.toNat_ofNat']
  omega

@[simp] theorem clampCount_toNat (count : UInt32) : clampCount count.toNat = count := by
  have bound := count.toNat_lt
  apply UInt32.toNat.inj
  rw [toNat_clampCount]
  omega

theorem toNat_wrapCount (count : Nat) :
    (wrapCount count).toNat = min count (2 ^ 32 - 1) % 65536 := by
  rw [wrapCount, plusCount_eq_add]
  simp

theorem toNat_saturateCount (count : Nat) : (saturateCount count).toNat = min count 65535 := by
  unfold saturateCount
  split
  · rw [show (65535 : UInt16).toNat = 65535 from rfl]
    omega
  · rw [UInt16.toNat_ofNat']
    omega

/-- The two narrowings agree exactly on counts that fit sixteen bits, on those
congruent to 65535, and on those that reach the 32-bit clamp. -/
theorem countFits_iff (count : Nat) :
    CountFits count ↔ count ≤ 65535 ∨ count % 65536 = 65535 ∨ 2 ^ 32 - 1 ≤ count := by
  rw [CountFits, ← UInt16.toNat_inj, toNat_wrapCount, toNat_saturateCount]
  omega

example : CountFits 65535 := by decide
example : ¬ CountFits 65536 := by decide

/-- Saturating the clamped 32-bit value is saturating the count itself. -/
theorem saturateCount_clampCount (count : Nat) :
    saturateCount (clampCount count).toNat = saturateCount count := by
  apply UInt16.toNat.inj
  rw [toNat_saturateCount, toNat_saturateCount, toNat_clampCount]
  omega

end SearchEngine.Index
