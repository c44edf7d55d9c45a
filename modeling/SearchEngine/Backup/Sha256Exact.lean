import SearchEngine.Backup.FileHash
import SearchEngine.Backup.SecureHash

/-!
# The hash is SHA-256

The compression of a block of bytes is that of its bits; the state and the bytes kept
between calls are those of the blocks given so far; and the last one or two blocks are
the padding of the message.
-/

namespace SearchEngine.Backup

open Lib

theorem rotateRight32_eq (value : Word) (bits : Nat) :
    rotateRight32 value bits = value.rotateRight bits := by
  rw [BitVec.rotateRight_def, rotateRight32]
  split
  case isTrue none => simp [none]
  case isFalse => rfl

theorem primes_eq : SecureHash.primes =
    [2, 3, 5, 7, 11, 13, 17, 19, 23, 29, 31, 37, 41, 43, 47, 53, 59, 61, 67, 71, 73, 79, 83, 89, 97, 101, 103, 107,
      109, 113, 127, 131, 137, 139, 149, 151, 157, 163, 167, 173, 179, 181, 191, 193, 197, 199, 211, 223, 227, 229,
      233, 239, 241, 251, 257, 263, 269, 271, 277, 281, 283, 293, 307, 311] := by
  decide +kernel

theorem roundConstants_eq : ∀ t < 64, roundConstants.getD t 0 = SecureHash.constant t := by
  simp only [SecureHash.constant, primes_eq]
  decide +kernel

theorem fresh_state : Sha256.fresh.state = SecureHash.initialHash := by
  simp only [SecureHash.initialHash, SecureHash.initialWord, primes_eq]
  decide +kernel

/-- Eight more bits of a word. -/
theorem foldl_bitsOf (word : Word) (byte : Byte) :
    (SecureHash.bitsOf byte).foldl BitVec.shiftConcat word = word <<< 8 ||| byte.setWidth 32 := by
  have bits : SecureHash.bitsOf byte = [byte.getMsbD 0, byte.getMsbD 1, byte.getMsbD 2,
      byte.getMsbD 3, byte.getMsbD 4, byte.getMsbD 5, byte.getMsbD 6, byte.getMsbD 7] := rfl
  rw [bits]
  simp only [List.foldl_cons, List.foldl_nil]
  apply BitVec.eq_of_getLsbD_eq
  intro i within
  match i with
  | 0 | 1 | 2 | 3 | 4 | 5 | 6 | 7 => simp [BitVec.getMsbD]
  | i + 8 =>
      have below (k : Nat) (less : k ≤ 8) : i + k < 32 := by omega
      simp [BitVec.getMsbD, below]

/-- A word of four bytes. -/
theorem wordOf_bytes (first second third fourth : Byte) :
    SecureHash.wordOf ([first, second, third, fourth].flatMap SecureHash.bitsOf) =
      first.setWidth 32 <<< 24 ||| second.setWidth 32 <<< 16 ||| third.setWidth 32 <<< 8 |||
        fourth.setWidth 32 := by
  simp only [SecureHash.wordOf, List.flatMap_cons, List.flatMap_nil, List.append_nil,
    List.foldl_append, foldl_bitsOf, BitVec.shiftLeft_or_distrib, ← BitVec.shiftLeft_add]
  simp

theorem length_bitsOf (byte : Byte) : (SecureHash.bitsOf byte).length = 8 := by
  simp [SecureHash.bitsOf]

/-- Bits of bytes are cut where the bytes are. -/
theorem drop_flatMap_bitsOf (block : List Byte) (count : Nat) :
    (block.flatMap SecureHash.bitsOf).drop (8 * count) = (block.drop count).flatMap SecureHash.bitsOf := by
  induction count generalizing block with
  | zero => rfl
  | succ count ih =>
      cases block with
      | nil => simp
      | cons byte block =>
          rw [List.flatMap_cons, Nat.mul_succ, Nat.add_comm, ← List.drop_drop,
            List.drop_left' (length_bitsOf byte), ih, List.drop_succ_cons]

theorem take_flatMap_bitsOf (block : List Byte) (count : Nat) :
    (block.flatMap SecureHash.bitsOf).take (8 * count) = (block.take count).flatMap SecureHash.bitsOf := by
  induction count generalizing block with
  | zero => rfl
  | succ count ih =>
      cases block with
      | nil => simp
      | cons byte block =>
          have cut : 8 * (count + 1) = (SecureHash.bitsOf byte).length + 8 * count := by
            rw [length_bitsOf]
            omega
          rw [List.flatMap_cons, cut, List.take_length_add_append, ih, List.take_succ_cons,
            List.flatMap_cons]

theorem blockWord_eq {block : List Byte} (full : block.length = 64) {t : Nat} (within : t < 16) :
    SecureHash.blockWord (block.flatMap SecureHash.bitsOf) t = loadWord block t := by
  have start : 32 * t = 8 * (t * 4) := by omega
  have four : (block.drop (t * 4)).take 4 = [block.getD (t * 4) 0, block.getD (t * 4 + 1) 0,
      block.getD (t * 4 + 2) 0, block.getD (t * 4 + 3) 0] := by
    apply List.ext_getElem
    · simp only [List.length_take, List.length_drop, List.length_cons, List.length_nil]
      omega
    · intro i short _
      have few : i < 4 := by
        rw [List.length_take] at short
        omega
      have inside : t * 4 + i < block.length := by omega
      match i with
      | 0 =>
          have first : t * 4 < block.length := inside
          simp [List.getD_eq_getElem?_getD, List.getElem?_eq_getElem first]
      | 1 | 2 | 3 => simp [List.getD_eq_getElem?_getD, List.getElem?_eq_getElem inside]
  rw [SecureHash.blockWord, start, drop_flatMap_bitsOf, take_flatMap_bitsOf _ 4, four, wordOf_bytes]
  rfl

/-- The words agree with the schedule of the block up to `count`. -/
def Scheduled (block : List Byte) (count : Nat) (words : List Word) : Prop :=
  words.length = 64 ∧ ∀ t < count, words.getD t 0 =
    SecureHash.scheduleWord (block.flatMap SecureHash.bitsOf) t

/-- One more word, computed as the schedule has it. -/
theorem Scheduled.set {block : List Byte} {count : Nat} {words : List Word}
    (scheduled : Scheduled block count words) (within : count < 64) {word : Word}
    (agrees : word = SecureHash.scheduleWord (block.flatMap SecureHash.bitsOf) count) :
    Scheduled block (count + 1) (words.set count word) := by
  obtain ⟨length, before⟩ := scheduled
  refine ⟨by rw [List.length_set, length], fun t earlier => ?_⟩
  by_cases here : count = t
  · subst here
    rw [List.getD_eq_getElem?_getD, List.getElem?_set_self (by omega), Option.getD_some, agrees]
  · rw [List.getD_eq_getElem?_getD, List.getElem?_set_ne here, ← List.getD_eq_getElem?_getD,
      before t (by omega)]

/-- The first loop over the words. -/
theorem scheduled_loaded {block : List Byte} (full : block.length = 64) (count : Nat)
    (within : count ≤ 16) : Scheduled block count
      ((List.range count).foldl (fun words index => words.set index (loadWord block index))
        (List.replicate 64 0)) := by
  induction count with
  | zero => exact ⟨List.length_replicate, by omega⟩
  | succ count ih =>
      rw [List.range_succ, List.foldl_append, List.foldl_cons, List.foldl_nil]
      apply (ih (by omega)).set (by omega)
      rw [SecureHash.scheduleWord, if_pos (by omega), blockWord_eq full (by omega)]

/-- The second loop. -/
theorem scheduled_extended {block : List Byte} {words : List Word}
    (loaded : Scheduled block 16 words) (count : Nat) (within : count ≤ 48) :
    Scheduled block (16 + count) ((List.range' 16 count).foldl
      (fun words index => words.set index (nextWord words index)) words) := by
  induction count with
  | zero => exact loaded
  | succ count ih =>
      rw [List.range'_concat, List.foldl_append, List.foldl_cons, List.foldl_nil, Nat.one_mul]
      have scheduled := ih (by omega)
      apply scheduled.set (by omega)
      have before := scheduled.2
      rw [SecureHash.scheduleWord, if_neg (by omega), nextWord, before _ (by omega),
        before _ (by omega), before _ (by omega), before _ (by omega)]
      simp only [rotateRight32_eq, SecureHash.smallSigma0, SecureHash.smallSigma1]
      ac_rfl

theorem messageWords_getD {block : List Byte} (full : block.length = 64) :
    ∀ t < 64, (messageWords block).getD t 0 =
      SecureHash.scheduleWord (block.flatMap SecureHash.bitsOf) t :=
  (scheduled_extended (scheduled_loaded full 16 (Nat.le_refl _)) 48 (Nat.le_refl _)).2

/-- The registers under the names of the standard. -/
def Registers.working (r : Registers) : SecureHash.Working :=
  ⟨r.a, r.b, r.c, r.d, r.e, r.f, r.g, r.h⟩

theorem roundStep_working {block : List Byte} (full : block.length = 64) (r : Registers) {t : Nat}
    (within : t < 64) : (roundStep (messageWords block) r t).working =
      SecureHash.round (SecureHash.constant t)
        (SecureHash.scheduleWord (block.flatMap SecureHash.bitsOf) t) r.working := by
  rw [← roundConstants_eq t within, ← messageWords_getD full t within]
  simp only [roundStep, Registers.working, SecureHash.round, rotateRight32_eq, SecureHash.bigSigma0,
    SecureHash.bigSigma1, SecureHash.ch, SecureHash.maj]

theorem foldl_roundStep {block : List Byte} (full : block.length = 64) (r : Registers)
    (steps : List Nat) (within : ∀ t ∈ steps, t < 64) :
    (steps.foldl (roundStep (messageWords block)) r).working =
      steps.foldl (fun v t => SecureHash.round (SecureHash.constant t)
        (SecureHash.scheduleWord (block.flatMap SecureHash.bitsOf) t) v) r.working := by
  induction steps generalizing r with
  | nil => rfl
  | cons t steps ih =>
      obtain ⟨first, rest⟩ := List.forall_mem_cons.mp within
      rw [List.foldl_cons, List.foldl_cons, ih _ rest, roundStep_working full r first]

/-- The registers are added to the words of the state one by one. -/
theorem addRegisters_eq {r : Registers} {v : SecureHash.Working} (same : r.working = v)
    (w0 w1 w2 w3 w4 w5 w6 w7 : Word) :
    #v[w0 + r.a, w1 + r.b, w2 + r.c, w3 + r.d, w4 + r.e, w5 + r.f, w6 + r.g, w7 + r.h] =
    #v[v.a + w0, v.b + w1, v.c + w2, v.d + w3, v.e + w4, v.f + w5, v.g + w6, v.h + w7] := by
  subst same
  simp only [Registers.working, BitVec.add_comm]

/-- `transform` is the hash computation of a block. -/
theorem transform_eq {block : List Byte} (full : block.length = 64) (state : Vector Word 8) :
    transform state block = SecureHash.compress state (block.flatMap SecureHash.bitsOf) := by
  apply addRegisters_eq
  apply foldl_roundStep full
  intro t within
  exact List.mem_range.mp within

/-- The bytes of the unfinished block. -/
def Sha256.pending (hash : Sha256) : List Byte := hash.block.take hash.blockSize

theorem length_pending (hash : Sha256) : hash.pending.length = hash.blockSize := by
  have := hash.block_length
  have := hash.blockSize_lt
  rw [Sha256.pending, List.length_take]
  omega

theorem take_copyTo {block data : List Byte} {offset : Nat} (within : offset ≤ block.length) :
    (copyTo block offset data).take (offset + data.length) = block.take offset ++ data := by
  apply List.take_left'
  rw [List.length_append, List.length_take]
  omega

/-- Data that fills the block leaves no older byte in it. -/
theorem copyTo_full {block data : List Byte} {offset : Nat} (length : block.length = 64)
    (fills : offset + data.length = 64) : copyTo block offset data = block.take offset ++ data := by
  have nothing : block.drop (offset + data.length) = [] := by
    apply List.drop_of_length_le
    omega
  rw [copyTo, nothing, List.append_nil]

/-- The loop of `update` transforms the blocks that fill up and keeps the rest. -/
theorem absorb_spec (hash : Sha256) (data : List Byte) :
    ((hash.absorb data).state, (hash.absorb data).pending) =
        foldBlocks 64 transform hash.state (hash.pending ++ data) ∧
      (hash.absorb data).totalBytes = hash.totalBytes := by
  have below := hash.blockSize_lt
  have length := hash.block_length
  have kept := length_pending hash
  by_cases none : data = []
  · subst none
    rw [Sha256.absorb, dif_pos rfl, List.append_nil, foldBlocks_of_short _ (by omega)]
    exact ⟨rfl, rfl⟩
  · have some := List.length_pos_iff.mpr none
    rw [Sha256.absorb, dif_neg none]
    dsimp only
    by_cases short : data.length < 64 - hash.blockSize
    case neg =>
      simp only [if_neg short]
      rw [dif_pos (by omega)]
      have taken : (data.take (64 - hash.blockSize)).length = 64 - hash.blockSize := by
        rw [List.length_take]
        omega
      have fills := @copyTo_full _ (data.take (64 - hash.blockSize)) hash.blockSize length (by omega)
      have whole : hash.pending ++ data =
          (hash.pending ++ data.take (64 - hash.blockSize)) ++ data.drop (64 - hash.blockSize) := by
        rw [List.append_assoc, List.take_append_drop]
      have block : (hash.pending ++ data.take (64 - hash.blockSize)).length = 64 := by
        rw [List.length_append]
        omega
      have filled : hash.pending ++ data.take (64 - hash.blockSize) =
          copyTo hash.block hash.blockSize (data.take (64 - hash.blockSize)) := fills.symm
      rw [whole, foldBlocks_block _ block (by decide), filled]
      exact absorb_spec _ _
    case pos =>
      simp only [if_pos short, List.take_length, List.drop_length]
      rw [dif_neg (by omega)]
      rw [Sha256.absorb, dif_pos rfl, foldBlocks_of_short]
      · exact ⟨Prod.ext rfl (take_copyTo (by omega)), rfl⟩
      · rw [List.length_append]
        omega
  termination_by data.length
  decreasing_by
    rw [List.length_drop]
    omega

/-- Any pieces come to the blocks of the whole. -/
theorem foldl_update (hash : Sha256) (pieces : List (List Byte)) :
    ((pieces.foldl Sha256.update hash).state, (pieces.foldl Sha256.update hash).pending) =
        foldBlocks 64 transform hash.state (hash.pending ++ pieces.flatten) ∧
      (pieces.foldl Sha256.update hash).totalBytes =
        hash.totalBytes + BitVec.ofNat 64 pieces.flatten.length := by
  induction pieces generalizing hash with
  | nil =>
      have short : hash.pending.length < 64 := by
        rw [length_pending]
        exact hash.blockSize_lt
      rw [List.flatten_nil, List.append_nil, foldBlocks_of_short _ short]
      exact ⟨rfl, (BitVec.add_zero _).symm⟩
  | cons piece pieces ih =>
      obtain ⟨blocks, total⟩ := absorb_spec
        { hash with totalBytes := hash.totalBytes + BitVec.ofNat 64 piece.length } piece
      obtain ⟨rest, count⟩ := ih (hash.update piece)
      rw [List.foldl_cons, List.flatten_cons, ← List.append_assoc, foldBlocks_append]
      constructor
      · rw [rest]
        exact congrArg (fun before : Vector Word 8 × List Byte =>
          foldBlocks 64 transform before.1 (before.2 ++ pieces.flatten)) blocks
      · have updated : (hash.update piece).totalBytes =
            hash.totalBytes + BitVec.ofNat 64 piece.length := total
        rw [count, updated, List.length_append, BitVec.ofNat_add, BitVec.add_assoc]

/-- The eight bytes of a 64-bit number, the most significant first. -/
def lengthBytes (bitCount : BitVec 64) : List Byte :=
  (List.range 8).map fun i => (bitCount >>> ((7 - i) * 8)).setWidth 8

theorem setLength_eq {front back : List Byte} (front_length : front.length = 56)
    (back_length : back.length = 8) (bitCount : BitVec 64) :
    (List.range 8).foldl (fun block index =>
      block.set (63 - index) ((bitCount >>> (index * 8)).setWidth 8)) (front ++ back) =
      front ++ lengthBytes bitCount := by
  match back, back_length with
  | [_, _, _, _, _, _, _, _], _ =>
      simp [List.range_succ, front_length, lengthBytes]

/-- The last block: what is in it, zeros, and the length. -/
theorem closeBlock_eq (state : Vector Word 8) {block : List Byte} {blockSize : Nat}
    (full : block.length = 64) (room : blockSize ≤ 56) (bitCount : BitVec 64) :
    closeBlock state block blockSize bitCount = transform state
      (block.take blockSize ++ List.replicate (56 - blockSize) 0 ++ lengthBytes bitCount) := by
  have cut : copyTo block blockSize (List.replicate (56 - blockSize) 0) =
      (block.take blockSize ++ List.replicate (56 - blockSize) 0) ++ block.drop 56 := by
    rw [copyTo, List.length_replicate]
    congr 2
    omega
  have front : (block.take blockSize ++ List.replicate (56 - blockSize) (0 : Byte)).length = 56 := by
    rw [List.length_append, List.length_take, List.length_replicate]
    omega
  have back : (block.drop 56).length = 8 := by
    rw [List.length_drop]
    omega
  rw [closeBlock, cut, setLength_eq front back]

/-- The zero bytes between the mark and the length. -/
def zeroBytes (length : Nat) : Nat := (119 - length % 64) % 64

/-- The bytes after a message of some length. -/
def paddingBytes (length : Nat) (bitCount : BitVec 64) : List Byte :=
  0x80 :: List.replicate (zeroBytes length) 0 ++ lengthBytes bitCount

theorem length_lengthBytes (bitCount : BitVec 64) : (lengthBytes bitCount).length = 8 := by
  simp [lengthBytes]

/-- `finish` hashes the bytes it has left with the padding behind them, in one block or
two. -/
theorem finish_eq (hash : Sha256) :
    hash.finish = ((foldBlocks 64 transform hash.state (hash.pending ++
      paddingBytes hash.blockSize (hash.totalBytes * 8))).1).toList.flatMap hexWord := by
  have below := hash.blockSize_lt
  have length := hash.block_length
  have kept := length_pending hash
  have marked : (copyTo hash.block hash.blockSize [0x80]).length = 64 :=
    length_copyTo length (by simp; omega)
  have front : (copyTo hash.block hash.blockSize [0x80]).take (hash.blockSize + 1) =
      hash.pending ++ [0x80] := by
    have within : hash.blockSize ≤ hash.block.length := by omega
    exact @take_copyTo hash.block [0x80] hash.blockSize within
  have alone (state : Vector Word 8) {block : List Byte} (full : block.length = 64) :
      (foldBlocks 64 transform state block).1 = transform state block := by
    rw [← List.append_nil block, foldBlocks_block state full (by decide),
      foldBlocks_of_short _ (by decide), List.append_nil]
  have closing := length_lengthBytes (hash.totalBytes * 8)
  rw [Sha256.finish]
  dsimp only
  congr 2
  by_cases two : hash.blockSize + 1 > 56
  · have zeros : zeroBytes hash.blockSize = (64 - (hash.blockSize + 1)) + 56 := by
      unfold zeroBytes
      omega
    have filled := @copyTo_full _ (List.replicate (64 - (hash.blockSize + 1)) 0) (hash.blockSize + 1)
      marked (by rw [List.length_replicate]; omega)
    rw [front] at filled
    have full : (copyTo (copyTo hash.block hash.blockSize [0x80]) (hash.blockSize + 1)
        (List.replicate (64 - (hash.blockSize + 1)) 0)).length = 64 :=
      length_copyTo marked (by rw [List.length_replicate]; omega)
    have whole : hash.pending ++ paddingBytes hash.blockSize (hash.totalBytes * 8) =
        (hash.pending ++ [0x80] ++ List.replicate (64 - (hash.blockSize + 1)) 0) ++
          (List.replicate 56 0 ++ lengthBytes (hash.totalBytes * 8)) := by
      simp [paddingBytes, zeros, List.replicate_add]
    rw [if_pos two, closeBlock_eq _ full (by omega), whole, ← filled,
      foldBlocks_block _ full (by decide), alone]
    · rfl
    · rw [List.length_append, List.length_replicate, closing]
  · have zeros : zeroBytes hash.blockSize = 56 - (hash.blockSize + 1) := by
      unfold zeroBytes
      omega
    have whole : hash.pending ++ paddingBytes hash.blockSize (hash.totalBytes * 8) =
        hash.pending ++ [0x80] ++ List.replicate (56 - (hash.blockSize + 1)) 0 ++
          lengthBytes (hash.totalBytes * 8) := by
      simp [paddingBytes, zeros]
    rw [if_neg two, closeBlock_eq _ marked (by omega), front, whole, alone]
    simp only [List.length_append, List.length_replicate, List.length_singleton, kept, closing]
    omega

theorem getMsbD_lengthByte (bitCount : BitVec 64) {i j : Nat} (byte : i < 8) (bit : j < 8) :
    (((bitCount >>> ((7 - i) * 8)).setWidth 8 : Byte)).getMsbD j = bitCount.getMsbD (8 * i + j) := by
  have place : (7 - i) * 8 + (8 - 1 - j) = 64 - 1 - (8 * i + j) := by omega
  have low : 8 - 1 - j < 8 := by omega
  have inside : 8 * i + j < 64 := by omega
  simp only [BitVec.getMsbD, bit, inside, decide_true, Bool.true_and, BitVec.getLsbD_setWidth, low,
    BitVec.getLsbD_ushiftRight, place]

theorem flatMap_lengthBytes (bitCount : BitVec 64) :
    (lengthBytes bitCount).flatMap SecureHash.bitsOf = (List.range 64).map bitCount.getMsbD := by
  have bytes : (lengthBytes bitCount).flatMap SecureHash.bitsOf =
      (List.range 8).flatMap fun i => (List.range 8).map fun j => bitCount.getMsbD (8 * i + j) := by
    rw [lengthBytes, List.flatMap_map]
    apply List.flatMap_congr
    intro i byte
    apply List.map_congr_left
    intro j bit
    exact getMsbD_lengthByte bitCount (List.mem_range.mp byte) (List.mem_range.mp bit)
  rw [bytes]
  generalize bitCount.getMsbD = bits
  rfl

theorem flatMap_zeros (count : Nat) :
    (List.replicate count (0 : Byte)).flatMap SecureHash.bitsOf = List.replicate (8 * count) false := by
  induction count with
  | zero => rfl
  | succ count ih =>
      have zero : SecureHash.bitsOf 0 = List.replicate 8 false := by decide
      rw [List.replicate_succ, List.flatMap_cons, ih, zero, List.replicate_append_replicate]
      congr 1
      omega

/-- The padding of the bits is the padding of the bytes. -/
theorem padded_flatMap (message : List Byte) :
    SecureHash.padded (message.flatMap SecureHash.bitsOf) =
      (message ++ paddingBytes message.length (BitVec.ofNat 64 message.length * 8)).flatMap
        SecureHash.bitsOf := by
  have length : (message.flatMap SecureHash.bitsOf).length = 8 * message.length := by
    induction message with
    | nil => rfl
    | cons byte message ih =>
        rw [List.flatMap_cons, List.length_append, ih, length_bitsOf, List.length_cons]
        omega
  have zeros : SecureHash.zeroBits (8 * message.length) = 7 + 8 * zeroBytes message.length := by
    unfold SecureHash.zeroBits zeroBytes
    omega
  have mark : SecureHash.bitsOf 0x80 = true :: List.replicate 7 false := by decide
  have count : BitVec.ofNat 64 message.length * 8 = BitVec.ofNat 64 (8 * message.length) := by
    rw [Nat.mul_comm, BitVec.ofNat_mul]
    rfl
  rw [SecureHash.padded, length, zeros, paddingBytes, count, List.flatMap_append,
    List.cons_append, List.flatMap_cons, List.flatMap_append, flatMap_zeros, flatMap_lengthBytes, mark,
    SecureHash.lengthBits, List.replicate_add]
  simp only [List.append_assoc, List.cons_append]

/-- The digits of a number padded with zeros, read from its end. -/
theorem map_digits_succ (count value : Nat) :
    ((List.range (count + 2)).map fun i => Nat.digitChar (value / 16 ^ (count + 1 - i) % 16)) =
      ((List.range (count + 1)).map fun i => Nat.digitChar (value / 16 / 16 ^ (count - i) % 16)) ++
        [Nat.digitChar (value % 16)] := by
  rw [List.range_succ, List.map_append]
  congr 1
  · apply List.map_congr_left
    intro i within
    have earlier := List.mem_range.mp within
    have power : 16 ^ (count + 1 - i) = 16 * 16 ^ (count - i) := by
      rw [← Nat.pow_succ']
      congr 1
      omega
    rw [power, ← Nat.div_div_eq_div_mul]
  · simp

theorem leftpad_toDigits (count : Nat) : ∀ value < 16 ^ (count + 1),
    (Nat.toDigits 16 value).leftpad (count + 1) '0' =
      (List.range (count + 1)).map fun i => Nat.digitChar (value / 16 ^ (count - i) % 16) := by
  induction count with
  | zero =>
      intro value small
      have digit : value < 16 := small
      rw [Nat.toDigits_of_lt_base digit]
      simp [List.leftpad, Nat.mod_eq_of_lt digit]
  | succ count ih =>
      intro value small
      rw [map_digits_succ]
      by_cases digit : value < 16
      · have zero := ih 0 (Nat.pow_pos (by decide))
        rw [Nat.div_eq_of_lt digit, ← zero, Nat.toDigits_of_lt_base digit, Nat.mod_eq_of_lt digit]
        simp [List.leftpad, List.replicate_succ']
      · have less : value / 16 < 16 ^ (count + 1) := by
          rw [Nat.pow_succ] at small
          exact Nat.div_lt_of_lt_mul (by omega)
        rw [Nat.toDigits_of_base_le (by decide) (by omega), ← ih _ less]
        simp [List.leftpad]

theorem hexWord_eq (word : Word) : hexWord word = SecureHash.hexOf word :=
  leftpad_toDigits 7 word.toNat word.isLt

/-- The bytes of a message, in whatever pieces, are hashed to the digest of FIPS 180-4. -/
theorem sha256_exact (pieces : List (List Byte)) :
    (pieces.foldl Sha256.update Sha256.fresh).finish = SecureHash.digestText pieces.flatten := by
  obtain ⟨blocks, total⟩ := foldl_update Sha256.fresh pieces
  have none : Sha256.fresh.pending = [] := rfl
  have empty : Sha256.fresh.totalBytes = 0 := rfl
  rw [none, List.nil_append] at blocks
  have count : (pieces.foldl Sha256.update Sha256.fresh).totalBytes =
      BitVec.ofNat 64 pieces.flatten.length := by
    rw [total, empty]
    exact BitVec.zero_add _
  have left : (pieces.foldl Sha256.update Sha256.fresh).blockSize = pieces.flatten.length % 64 := by
    rw [← length_pending, ← length_foldBlocks (by decide) Sha256.fresh.state, ← blocks]
  have zeros : zeroBytes (pieces.flatten.length % 64) = zeroBytes pieces.flatten.length := by
    simp [zeroBytes]
  have bytes : foldBlocks 64 transform Sha256.fresh.state (pieces.flatten ++
      paddingBytes pieces.flatten.length (BitVec.ofNat 64 pieces.flatten.length * 8)) =
      foldBlocks 64 transform (pieces.foldl Sha256.update Sha256.fresh).state
        ((pieces.foldl Sha256.update Sha256.fresh).pending ++
          paddingBytes pieces.flatten.length (BitVec.ofNat 64 pieces.flatten.length * 8)) := by
    rw [foldBlocks_append, ← blocks]
  have bits := @foldBlocks_flatMap _ _ _ 64 transform SecureHash.bitsOf 8 length_bitsOf (by decide)
    SecureHash.compress (fun state block full => (transform_eq full state).symm) Sha256.fresh.state
    (pieces.flatten ++ paddingBytes pieces.flatten.length (BitVec.ofNat 64 pieces.flatten.length * 8))
  have hex : hexWord = SecureHash.hexOf := funext hexWord_eq
  rw [finish_eq, count, left, SecureHash.digestText, SecureHash.digest, padded_flatMap, ← fresh_state, hex]
  have words : 64 * 8 = 512 := rfl
  rw [words] at bits
  rw [bits, bytes, paddingBytes, zeros, ← paddingBytes]

/-- A file that was read without an error has the hash of what the reads returned. -/
theorem sha256File_hash (path : List Char) (pieces : List (List Byte)) :
    (sha256File path true pieces false).ok = true ∧
      (sha256File path true pieces false).sha256 = (pieces.foldl Sha256.update Sha256.fresh).finish := by
  have hashes (start : Sha256) (size : BitVec 64) :
      (pieces.foldl (fun (before : Sha256 × BitVec 64) piece =>
        (before.1.update piece, before.2 + BitVec.ofNat 64 piece.length)) (start, size)).1 =
        pieces.foldl Sha256.update start := by
    induction pieces generalizing start size with
    | nil => rfl
    | cons piece pieces ih => exact ih _ _
  refine ⟨rfl, ?_⟩
  rw [← hashes Sha256.fresh 0]
  rfl

end SearchEngine.Backup
