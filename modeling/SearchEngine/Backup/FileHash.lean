import Mathlib.Data.List.Basic

/-!
# The hash of a file

`Sha256` takes a string of bytes in any pieces. It keeps the bytes that do not yet fill a
block at the front of `block`; what lies behind them is left over from earlier blocks.
-/

namespace SearchEngine.Backup

abbrev Word := BitVec 32
abbrev Byte := BitVec 8

/-- `rotateRight32`. -/
def rotateRight32 (value : Word) (bits : Nat) : Word :=
  let shift := bits % 32
  if shift = 0 then value else value >>> shift ||| value <<< (32 - shift)

def roundConstants : List Word :=
  [0x428a2f98, 0x71374491, 0xb5c0fbcf, 0xe9b5dba5,
   0x3956c25b, 0x59f111f1, 0x923f82a4, 0xab1c5ed5,
   0xd807aa98, 0x12835b01, 0x243185be, 0x550c7dc3,
   0x72be5d74, 0x80deb1fe, 0x9bdc06a7, 0xc19bf174,
   0xe49b69c1, 0xefbe4786, 0x0fc19dc6, 0x240ca1cc,
   0x2de92c6f, 0x4a7484aa, 0x5cb0a9dc, 0x76f988da,
   0x983e5152, 0xa831c66d, 0xb00327c8, 0xbf597fc7,
   0xc6e00bf3, 0xd5a79147, 0x06ca6351, 0x14292967,
   0x27b70a85, 0x2e1b2138, 0x4d2c6dfc, 0x53380d13,
   0x650a7354, 0x766a0abb, 0x81c2c92e, 0x92722c85,
   0xa2bfe8a1, 0xa81a664b, 0xc24b8b70, 0xc76c51a3,
   0xd192e819, 0xd6990624, 0xf40e3585, 0x106aa070,
   0x19a4c116, 0x1e376c08, 0x2748774c, 0x34b0bcb5,
   0x391c0cb3, 0x4ed8aa4a, 0x5b9cca4f, 0x682e6ff3,
   0x748f82ee, 0x78a5636f, 0x84c87814, 0x8cc70208,
   0x90befffa, 0xa4506ceb, 0xbef9a3f7, 0xc67178f2]

/-- `words[index]` for the first sixteen: four bytes, the first the most significant. -/
def loadWord (block : List Byte) (index : Nat) : Word :=
  (block.getD (index * 4) 0).setWidth 32 <<< 24 |||
  (block.getD (index * 4 + 1) 0).setWidth 32 <<< 16 |||
  (block.getD (index * 4 + 2) 0).setWidth 32 <<< 8 |||
  (block.getD (index * 4 + 3) 0).setWidth 32

/-- `words[index]` from the words before it. -/
def nextWord (words : List Word) (index : Nat) : Word :=
  let s0 := rotateRight32 (words.getD (index - 15) 0) 7 ^^^
    rotateRight32 (words.getD (index - 15) 0) 18 ^^^ words.getD (index - 15) 0 >>> 3
  let s1 := rotateRight32 (words.getD (index - 2) 0) 17 ^^^
    rotateRight32 (words.getD (index - 2) 0) 19 ^^^ words.getD (index - 2) 0 >>> 10
  words.getD (index - 16) 0 + s0 + words.getD (index - 7) 0 + s1

/-- The array `words` after both loops. -/
def messageWords (block : List Byte) : List Word :=
  let loaded := (List.range 16).foldl (fun words index => words.set index (loadWord block index))
    (List.replicate 64 0)
  (List.range' 16 48).foldl (fun words index => words.set index (nextWord words index)) loaded

/-- The variables `a` to `h`. -/
structure Registers where
  (a b c d e f g h : Word)
  deriving DecidableEq, Repr

/-- The body of the loop over the words. -/
def roundStep (words : List Word) (r : Registers) (index : Nat) : Registers :=
  let sum1 := rotateRight32 r.e 6 ^^^ rotateRight32 r.e 11 ^^^ rotateRight32 r.e 25
  let choose := (r.e &&& r.f) ^^^ (~~~r.e &&& r.g)
  let temporary1 := r.h + sum1 + choose + roundConstants.getD index 0 + words.getD index 0
  let sum0 := rotateRight32 r.a 2 ^^^ rotateRight32 r.a 13 ^^^ rotateRight32 r.a 22
  let majority := (r.a &&& r.b) ^^^ (r.a &&& r.c) ^^^ (r.b &&& r.c)
  let temporary2 := sum0 + majority
  { h := r.g, g := r.f, f := r.e, e := r.d + temporary1,
    d := r.c, c := r.b, b := r.a, a := temporary1 + temporary2 }

/-- `transform`. -/
def transform (state : Vector Word 8) (block : List Byte) : Vector Word 8 :=
  let words := messageWords block
  let r := (List.range 64).foldl (roundStep words)
    ⟨state[0], state[1], state[2], state[3], state[4], state[5], state[6], state[7]⟩
  #v[state[0] + r.a, state[1] + r.b, state[2] + r.c, state[3] + r.d,
    state[4] + r.e, state[5] + r.f, state[6] + r.g, state[7] + r.h]

/-- `std::copy_n` to a place in the block. -/
def copyTo (block : List Byte) (offset : Nat) (data : List Byte) : List Byte :=
  block.take offset ++ data ++ block.drop (offset + data.length)

/-- The hash so far; between calls `block` is never full. -/
structure Sha256 where
  state : Vector Word 8
  block : List Byte
  blockSize : Nat
  totalBytes : BitVec 64
  block_length : block.length = 64
  blockSize_lt : blockSize < 64

/-- A hash nothing was given to. -/
def Sha256.fresh : Sha256 where
  state := #v[0x6a09e667, 0xbb67ae85, 0x3c6ef372, 0xa54ff53a,
    0x510e527f, 0x9b05688c, 0x1f83d9ab, 0x5be0cd19]
  block := List.replicate 64 0
  blockSize := 0
  totalBytes := 0
  block_length := List.length_replicate
  blockSize_lt := by decide

theorem length_copyTo {block data : List Byte} {offset : Nat} (full : block.length = 64)
    (fits : offset + data.length ≤ 64) : (copyTo block offset data).length = 64 := by
  simp only [copyTo, List.length_append, List.length_take, List.length_drop]
  omega

/-- The loop of `update`. -/
def Sha256.absorb (hash : Sha256) (data : List Byte) : Sha256 :=
  if some : data = [] then hash
  else
    let available := 64 - hash.blockSize
    let count := if data.length < available then data.length else available
    have counted : hash.blockSize + count ≤ 64 := by
      have := hash.blockSize_lt
      simp only [count, available]
      split <;> omega
    have fits : hash.blockSize + (data.take count).length ≤ 64 := by
      have := List.length_take_le count data
      omega
    have length := length_copyTo hash.block_length fits
    if full : hash.blockSize + count = 64 then
      Sha256.absorb
        { state := transform hash.state (copyTo hash.block hash.blockSize (data.take count))
          block := copyTo hash.block hash.blockSize (data.take count)
          blockSize := 0
          totalBytes := hash.totalBytes
          block_length := length
          blockSize_lt := by decide }
        (data.drop count)
    else
      Sha256.absorb
        { hash with
          block := copyTo hash.block hash.blockSize (data.take count)
          blockSize := hash.blockSize + count
          block_length := length
          blockSize_lt := by omega }
        (data.drop count)
  termination_by data.length
  decreasing_by
    all_goals
      have := hash.blockSize_lt
      have := List.length_pos_iff.mpr some
      simp only [List.length_drop]
      split <;> omega

/-- `update`. -/
def Sha256.update (hash : Sha256) (data : List Byte) : Sha256 :=
  Sha256.absorb { hash with totalBytes := hash.totalBytes + BitVec.ofNat 64 data.length } data

/-- A word as `std::hex` writes it with `std::setw(8)` and `std::setfill('0')`. -/
def hexWord (value : Word) : List Char := (Nat.toDigits 16 value.toNat).leftpad 8 '0'

/-- The last block filled with the length and transformed. -/
def closeBlock (state : Vector Word 8) (block : List Byte) (blockSize : Nat) (bitCount : BitVec 64) :
    Vector Word 8 :=
  let filled := copyTo block blockSize (List.replicate (56 - blockSize) 0)
  transform state <| (List.range 8).foldl
    (fun block index => block.set (63 - index) ((bitCount >>> (index * 8)).setWidth 8)) filled

/-- `finish`. -/
def Sha256.finish (hash : Sha256) : List Char :=
  let bitCount := hash.totalBytes * 8
  let marked := copyTo hash.block hash.blockSize [0x80]
  let blockSize := hash.blockSize + 1
  let state :=
    if blockSize > 56 then
      let filled := copyTo marked blockSize (List.replicate (64 - blockSize) 0)
      closeBlock (transform hash.state filled) filled 0 bitCount
    else closeBlock hash.state marked blockSize bitCount
  state.toList.flatMap hexWord

/-- `sha256String`. -/
def sha256String (value : List Byte) : List Char := (Sha256.fresh.update value).finish

/-- `FileHashResult`. -/
structure FileHashResult where
  ok : Bool
  sha256 : List Char
  size : BitVec 64
  message : List Char

/-- `sha256File`: `pieces` are what the reads return, each at most a buffer long; `bad` is
an input error after them. -/
def sha256File (path : List Char) (opened : Bool) (pieces : List (List Byte)) (bad : Bool) :
    FileHashResult :=
  if opened = false then
    ⟨false, [], 0, "cannot open file \"".toList ++ path ++ ['"']⟩
  else
    let (hash, size) := pieces.foldl (fun (hash, size) piece =>
      (hash.update piece, size + BitVec.ofNat 64 piece.length)) (Sha256.fresh, (0 : BitVec 64))
    if bad then ⟨false, [], size, "I/O error while reading \"".toList ++ path ++ ['"']⟩
    else ⟨true, hash.finish, size, []⟩

end SearchEngine.Backup
