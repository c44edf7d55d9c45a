import Mathlib.Algebra.Order.Ring.Nat
import Mathlib.Data.Nat.NthRoot.Defs
import SearchEngine.Lib.BlockFold

/-!
# SHA-256 as FIPS 180-4 states it

The message is a list of bits: it is padded, parsed into 512-bit blocks of sixteen words,
and hashed block by block. The constants are the first bits of the fractional parts of
roots of the first primes (sections 4.2.2 and 5.3.3).
-/

namespace SearchEngine.Backup.SecureHash

abbrev Word := BitVec 32
abbrev Byte := BitVec 8

/-- The bits of a byte, the most significant first. -/
def bitsOf (byte : Byte) : List Bool := (List.range 8).map byte.getMsbD

/-- A word from its bits, the most significant first. -/
def wordOf (bits : List Bool) : Word := bits.foldl BitVec.shiftConcat 0#32

/-! ## Functions (4.1.2) -/

def ch (x y z : Word) : Word := (x &&& y) ^^^ (~~~x &&& z)
def maj (x y z : Word) : Word := (x &&& y) ^^^ (x &&& z) ^^^ (y &&& z)
def bigSigma0 (x : Word) : Word := x.rotateRight 2 ^^^ x.rotateRight 13 ^^^ x.rotateRight 22
def bigSigma1 (x : Word) : Word := x.rotateRight 6 ^^^ x.rotateRight 11 ^^^ x.rotateRight 25
def smallSigma0 (x : Word) : Word := x.rotateRight 7 ^^^ x.rotateRight 18 ^^^ x >>> 3
def smallSigma1 (x : Word) : Word := x.rotateRight 17 ^^^ x.rotateRight 19 ^^^ x >>> 10

/-! ## Constants (4.2.2, 5.3.3) -/

/-- The primes below 312, which are the first sixty-four. -/
def primes : List Nat :=
  (List.range 312).filter fun p => 2 ≤ p && (List.range p).all fun d => d < 2 || p % d != 0

/-- The first 32 bits of the fractional part of the cube root of the `t`-th prime. -/
def constant (t : Nat) : Word := BitVec.ofNat 32 (Nat.nthRoot 3 (primes.getD t 0 * 2 ^ 96))

/-- The first 32 bits of the fractional part of the square root of the `j`-th prime. -/
def initialWord (j : Nat) : Word := BitVec.ofNat 32 (Nat.nthRoot 2 (primes.getD j 0 * 2 ^ 64))

/-- `H(0)`. -/
def initialHash : Vector Word 8 := Vector.ofFn fun j => initialWord j

/-! ## Padding and parsing (5.1.1, 5.2.1) -/

/-- The number of zero bits after the bit `1`. -/
def zeroBits (length : Nat) : Nat := (448 + 512 - (length + 1) % 512) % 512

/-- The smallest solution of `length + 1 + k = 448` modulo 512. -/
theorem zeroBits_least (length : Nat) : (length + 1 + zeroBits length) % 512 = 448 ∧
    ∀ k, (length + 1 + k) % 512 = 448 → zeroBits length ≤ k := by
  unfold zeroBits
  constructor
  · omega
  · intro k solves
    omega

/-- The length as a 64-bit number, the most significant bit first. -/
def lengthBits (length : Nat) : List Bool := (List.range 64).map (BitVec.ofNat 64 length).getMsbD

def padded (message : List Bool) : List Bool :=
  message ++ true :: List.replicate (zeroBits message.length) false ++ lengthBits message.length

/-- `M(i)_t`: the words of a block. -/
def blockWord (block : List Bool) (t : Nat) : Word := wordOf ((block.drop (32 * t)).take 32)

/-! ## Hashing (6.2.2) -/

/-- `W_t`. -/
def scheduleWord (block : List Bool) (t : Nat) : Word :=
  if t < 16 then blockWord block t
  else smallSigma1 (scheduleWord block (t - 2)) + scheduleWord block (t - 7) +
    smallSigma0 (scheduleWord block (t - 15)) + scheduleWord block (t - 16)
  termination_by t

/-- The working variables. -/
structure Working where
  (a b c d e f g h : Word)
  deriving DecidableEq, Repr

/-- One round, with its constant and its word of the schedule. -/
def round (k w : Word) (v : Working) : Working :=
  let t1 := v.h + bigSigma1 v.e + ch v.e v.f v.g + k + w
  let t2 := bigSigma0 v.a + maj v.a v.b v.c
  ⟨t1 + t2, v.a, v.b, v.c, v.d + t1, v.e, v.f, v.g⟩

/-- The sixty-four rounds over a block. -/
def rounds (block : List Bool) (v : Working) : Working :=
  (List.range 64).foldl (fun v t => round (constant t) (scheduleWord block t) v) v

/-- `H(i)` from `H(i-1)` and a block. -/
def compress (hash : Vector Word 8) (block : List Bool) : Vector Word 8 :=
  let v := rounds block ⟨hash.get 0, hash.get 1, hash.get 2, hash.get 3, hash.get 4, hash.get 5, hash.get 6, hash.get 7⟩
  #v[v.a + hash.get 0, v.b + hash.get 1, v.c + hash.get 2, v.d + hash.get 3,
    v.e + hash.get 4, v.f + hash.get 5, v.g + hash.get 6, v.h + hash.get 7]

/-- The digest `H(N)`. -/
def digest (message : List Bool) : Vector Word 8 :=
  (Lib.foldBlocks 512 compress initialHash (padded message)).1

/-- A word as eight hexadecimal digits. -/
def hexOf (word : Word) : List Char :=
  (List.range 8).map fun i => Nat.digitChar (word.toNat / 16 ^ (7 - i) % 16)

/-- The digest of a string of bytes, in hexadecimal. -/
def digestText (message : List Byte) : List Char :=
  (digest (message.flatMap bitsOf)).toList.flatMap hexOf

end SearchEngine.Backup.SecureHash
