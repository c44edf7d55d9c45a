import Mathlib.Algebra.Group.Nat.Defs
import Mathlib.Data.List.Basic

/-!
# Base64 of signatures

`Base64Encode` and `Base64Decode` of the token issuer. What is encoded is decoded
again, whatever stands in the accumulator when a group begins.
-/

namespace SearchEngine.Auth

abbrev Text := List Char

abbrev Bytes := List UInt8

def kB64 : Text :=
  ['A', 'B', 'C', 'D', 'E', 'F', 'G', 'H', 'I', 'J', 'K', 'L', 'M', 'N', 'O', 'P',
    'Q', 'R', 'S', 'T', 'U', 'V', 'W', 'X', 'Y', 'Z', 'a', 'b', 'c', 'd', 'e', 'f',
    'g', 'h', 'i', 'j', 'k', 'l', 'm', 'n', 'o', 'p', 'q', 'r', 's', 't', 'u', 'v',
    'w', 'x', 'y', 'z', '0', '1', '2', '3', '4', '5', '6', '7', '8', '9', '+', '/']

/-- `kB64[value & 63]`. -/
def sextet (value : Nat) : Char := kB64.getD (value % 64) 'A'

/-- Three bytes as one number. -/
def triple (first second third : UInt8) : Nat :=
  first.toNat * 2 ^ 16 + second.toNat * 2 ^ 8 + third.toNat

def base64Encode : Bytes → Text
  | first :: second :: third :: rest =>
      let group := triple first second third
      sextet (group / 2 ^ 18) :: sextet (group / 2 ^ 12) :: sextet (group / 2 ^ 6) :: sextet group ::
        base64Encode rest
  | [first, second] =>
      let group := triple first second 0
      [sextet (group / 2 ^ 18), sextet (group / 2 ^ 12), sextet (group / 2 ^ 6), '=']
  | [first] =>
      let group := triple first 0 0
      [sextet (group / 2 ^ 18), sextet (group / 2 ^ 12), '=', '=']
  | [] => []

/-- `B64Value`; `none` for -1. -/
def b64Value (c : Char) : Option Nat :=
  if 'A' ≤ c ∧ c ≤ 'Z' then some (c.toNat - 'A'.toNat)
  else if 'a' ≤ c ∧ c ≤ 'z' then some (c.toNat - 'a'.toNat + 26)
  else if '0' ≤ c ∧ c ≤ '9' then some (c.toNat - '0'.toNat + 52)
  else if c = '+' then some 62
  else if c = '/' then some 63
  else none

/-- The loop of `Base64Decode`: `val` is a 32-bit number that wraps, `valb` counts
its unused bits less eight. -/
def decodeFrom (val : Nat) (valb : Int) : Text → Bytes
  | [] => []
  | c :: rest =>
      if c = '=' then []
      else if c = '\r' ∨ c = '\n' ∨ c = ' ' then decodeFrom val valb rest
      else match b64Value c with
        | none => decodeFrom val valb rest
        | some d =>
            let val := (val * 64 + d) % 2 ^ 32
            let valb := valb + 6
            if 0 ≤ valb then UInt8.ofNat (val / 2 ^ valb.toNat % 256) :: decodeFrom val (valb - 8) rest
            else decodeFrom val valb rest

def base64Decode (input : Text) : Bytes := decodeFrom 0 (-8) input

/-- Every digit has its value, and none ends or interrupts the text. -/
theorem b64Value_sextet (value : Nat) : b64Value (sextet value) = some (value % 64) ∧
    sextet value ≠ '=' ∧ ¬(sextet value = '\r' ∨ sextet value = '\n' ∨ sextet value = ' ') := by
  have table : ∀ d : Fin 64, b64Value (kB64.getD d 'A') = some d.val ∧ kB64.getD d 'A' ≠ '=' ∧
      ¬(kB64.getD d 'A' = '\r' ∨ kB64.getD d 'A' = '\n' ∨ kB64.getD d 'A' = ' ') := by decide
  exact table ⟨value % 64, Nat.mod_lt _ (by decide)⟩

/-- One digit is taken in. -/
theorem decodeFrom_sextet (val : Nat) (valb : Int) (value : Nat) (rest : Text) :
    decodeFrom val valb (sextet value :: rest) =
      if 0 ≤ valb + 6 then
        UInt8.ofNat ((val * 64 + value % 64) % 2 ^ 32 / 2 ^ (valb + 6).toNat % 256) ::
          decodeFrom ((val * 64 + value % 64) % 2 ^ 32) (valb + 6 - 8) rest
      else decodeFrom ((val * 64 + value % 64) % 2 ^ 32) (valb + 6) rest := by
  obtain ⟨digit, running, shown⟩ := b64Value_sextet value
  simp only [decodeFrom, running, shown, digit, if_false]

theorem decodeFrom_end (val : Nat) (valb : Int) (rest : Text) : decodeFrom val valb ('=' :: rest) = [] := by
  simp [decodeFrom]

/-- The byte that the digits of a group give. -/
theorem ofNat_eq {value : Nat} {byte : UInt8} (same : value = byte.toNat) : UInt8.ofNat value = byte := by
  rw [same, UInt8.ofNat_toNat]

/-- A text that was encoded is decoded, from any accumulator at the start of a group. -/
theorem decodeFrom_base64Encode (bytes : Bytes) (val : Nat) :
    decodeFrom val (-8) (base64Encode bytes) = bytes := by
  induction bytes using base64Encode.induct generalizing val with
  | case1 first second third rest ih =>
      have h₁ := first.toNat_lt
      have h₂ := second.toNat_lt
      have h₃ := third.toNat_lt
      simp only [base64Encode, decodeFrom_sextet, triple, Int.reduceNeg, Int.reduceAdd, Int.reduceSub,
        Int.reduceLE, if_true, if_false]
      refine congrArg₂ _ (ofNat_eq ?_) (congrArg₂ _ (ofNat_eq ?_) (congrArg₂ _ (ofNat_eq ?_) (ih _)))
      all_goals simp only [Int.reduceToNat]; omega
  | case2 first second =>
      have h₁ := first.toNat_lt
      have h₂ := second.toNat_lt
      simp only [base64Encode, decodeFrom_sextet, decodeFrom_end, triple, Int.reduceNeg, Int.reduceAdd,
        Int.reduceSub, Int.reduceLE, if_true, if_false]
      refine congrArg₂ _ (ofNat_eq ?_) (congrArg₂ _ (ofNat_eq ?_) rfl)
      all_goals simp only [Int.reduceToNat, UInt8.toNat_zero]; omega
  | case3 first =>
      have h₁ := first.toNat_lt
      simp only [base64Encode, decodeFrom_sextet, decodeFrom_end, triple, Int.reduceNeg, Int.reduceAdd,
        Int.reduceSub, Int.reduceLE, if_true, if_false]
      refine congrArg₂ _ (ofNat_eq ?_) rfl
      simp only [Int.reduceToNat, UInt8.toNat_zero]
      omega
  | case4 => rfl

/-- The round trip. -/
theorem base64Decode_base64Encode (bytes : Bytes) : base64Decode (base64Encode bytes) = bytes :=
  decodeFrom_base64Encode bytes 0

theorem base64Encode_eq_nil_iff {bytes : Bytes} : base64Encode bytes = [] ↔ bytes = [] := by
  constructor
  · intro empty
    have decoded := base64Decode_base64Encode bytes
    rw [empty] at decoded
    exact decoded.symm
  · rintro rfl
    rfl

end SearchEngine.Auth
