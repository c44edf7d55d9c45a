import Mathlib.Data.List.GetD
import SearchEngine.Index.ReferenceTokens

/-!
# The vectorised tokenizer

`simd_tokenizer.cpp` has the byte loop twice. `tokenize_scalar` asks for each byte
whether it is a delimiter; `tokenize_avx2` compares 32 bytes at a time, walks the
bits of the mask and leaves the last bytes to the scalar loop. Both remember a
token by its start in the buffer and what earlier buffers left in `carry`.
-/

namespace SearchEngine.Index

/-! ## Vector instructions -/

local instance neZero_byte : NeZero 256 := ⟨by decide⟩

/-- A 256-bit register, byte by byte. -/
abbrev Lanes := Fin 32 → BitVec 8

namespace Lanes

/-- `_mm256_loadu_si256` at an index of the buffer. -/
def loadu (data : List Byte) (start : Nat) : Lanes :=
  fun lane => BitVec.ofNat 8 (data.getD (start + lane) 0).val

/-- `_mm256_set1_epi8`. -/
def set1 (code : Nat) : Lanes := fun _ => BitVec.ofNat 8 code

/-- `_mm256_cmpeq_epi8`: all bits of a byte are set where the operands agree. -/
def cmpeq (left right : Lanes) : Lanes := fun lane => if left lane = right lane then 0xFF else 0

/-- `_mm256_or_si256`. -/
def or (left right : Lanes) : Lanes := fun lane => left lane ||| right lane

/-- `_mm256_movemask_epi8`: the highest bit of each byte. -/
def movemask (register : Lanes) : BitVec 32 :=
  (BitVec.ofBoolListLE (List.ofFn fun lane => (register lane).msb)).setWidth 32

theorem getLsbD_movemask (register : Lanes) (lane : Fin 32) :
    register.movemask.getLsbD lane = (register lane).msb := by
  have bound := lane.isLt
  rw [movemask, BitVec.getLsbD_setWidth, decide_eq_true bound, Bool.true_and,
    BitVec.getLsbD_ofBoolListLE, List.getD_eq_getElem _ _ (by rwa [List.length_ofFn]), List.getElem_ofFn]

theorem msb_or (left right : Lanes) (lane : Fin 32) :
    (or left right lane).msb = ((left lane).msb || (right lane).msb) := BitVec.msb_or

theorem msb_cmpeq_set1 (register : Lanes) (code : Nat) (lane : Fin 32) :
    (cmpeq register (set1 code) lane).msb = (register lane == BitVec.ofNat 8 code) := by
  unfold cmpeq set1
  by_cases same : register lane = BitVec.ofNat 8 code
  · rw [if_pos same, beq_iff_eq.mpr same]
    rfl
  · rw [if_neg same, beq_eq_false_iff_ne.mpr same]
    rfl

end Lanes

/-- The mask of the delimiters among 32 bytes, in the order `tokenize_avx2` joins
its comparisons. -/
def delimiterMask (chunk : Lanes) : BitVec 32 :=
  let delims1 := Lanes.or (.cmpeq chunk (.set1 32)) (.cmpeq chunk (.set1 9))
  let delims2 := Lanes.or (.cmpeq chunk (.set1 10)) (.cmpeq chunk (.set1 13))
  let delims3 := Lanes.or (.cmpeq chunk (.set1 12)) (.cmpeq chunk (.set1 11))
  let delims4 := Lanes.or (.cmpeq chunk (.set1 0)) delims1
  let delims12 := Lanes.or delims2 delims3
  (Lanes.or delims4 delims12).movemask

/-- A bit of the mask is the answer of `is_delim_char_scalar`. -/
theorem getLsbD_delimiterMask (data : List Byte) (start : Nat) (lane : Fin 32) :
    (delimiterMask (.loadu data start)).getLsbD lane = isDelim (data.getD (start + lane) 0) := by
  simp only [delimiterMask, Lanes.getLsbD_movemask, Lanes.msb_or, Lanes.msb_cmpeq_set1, Lanes.loadu]
  generalize data.getD (start + lane) 0 = byte
  revert byte
  decide +kernel

/-! ## The loops -/

/-- The variables of a loop, and the tokens handed to the callback so far. -/
structure TokenCursor where
  inToken : Bool
  tokenStart : Nat
  carry : List Byte
  calls : List (List Byte)
deriving DecidableEq

/-- The view `(data + start, stop - start)`. -/
def between (data : List Byte) (start stop : Nat) : List Byte := (data.drop start).take (stop - start)

/-- `emit_token_if_not_empty`, as what the callback gets. -/
def cleanedToken (oem : OemTable) (token : List Byte) : Option (List Byte) :=
  if (trimPunct oem token).isEmpty then none else some (trimPunct oem token)

namespace TokenCursor

/-- The variables before the first byte. -/
def start (carry : List Byte) : TokenCursor := ⟨!carry.isEmpty, 0, carry, []⟩

def emit (oem : OemTable) (token : List Byte) (cursor : TokenCursor) : TokenCursor :=
  { cursor with calls := cursor.calls ++ (cleanedToken oem token).toList }

/-- The body of both loops at an index, given whether its byte is a delimiter. -/
def visit (oem : OemTable) (data : List Byte) (delim : Nat → Bool) (cursor : TokenCursor)
    (index : Nat) : TokenCursor :=
  if delim index then
    if cursor.inToken then
      if cursor.carry.isEmpty then
        { cursor.emit oem (between data cursor.tokenStart index) with inToken := false }
      else
        { cursor.emit oem (cursor.carry ++ between data cursor.tokenStart index) with
          carry := []
          inToken := false }
    else cursor
  else if cursor.inToken then cursor
  else { cursor with tokenStart := index, inToken := true }

/-- What follows the loops: the rest becomes the carry, which the last chunk flushes. -/
def finish (oem : OemTable) (data : List Byte) (isLastChunk : Bool) (cursor : TokenCursor) :
    List (List Byte) × List Byte :=
  let carry :=
    if cursor.inToken then
      if cursor.carry.isEmpty then between data cursor.tokenStart data.length
      else cursor.carry ++ between data cursor.tokenStart data.length
    else cursor.carry
  if isLastChunk && !carry.isEmpty then ((cursor.emit oem carry).calls, [])
  else (cursor.calls, carry)

end TokenCursor

/-- The scalar loop from an index to the end of the buffer. -/
def scalarLoop (oem : OemTable) (data : List Byte) (index : Nat) (cursor : TokenCursor) : TokenCursor :=
  (List.range' index (data.length - index)).foldl
    (TokenCursor.visit oem data fun index => isDelim (data.getD index 0)) cursor

/-- `tokenize_scalar`: the tokens of the callback and the carry afterwards. -/
def tokenizeScalar (oem : OemTable) (carry : List Byte) (block : Block) :
    List (List Byte) × List Byte :=
  (scalarLoop oem block.data 0 (.start carry)).finish oem block.data block.isLastChunk

/-- The 32 bits of the mask of the bytes at an index. -/
def maskLoop (oem : OemTable) (data : List Byte) (index : Nat) (cursor : TokenCursor) : TokenCursor :=
  let mask := delimiterMask (.loadu data index)
  (List.range' index 32).foldl
    (TokenCursor.visit oem data fun position => (mask >>> (position - index)).getLsbD 0) cursor

/-- The loops of `tokenize_avx2`: blocks while 32 bytes are left, then the rest. -/
def avx2Loop (oem : OemTable) (data : List Byte) (index : Nat) (cursor : TokenCursor) : TokenCursor :=
  if index + 32 ≤ data.length then avx2Loop oem data (index + 32) (maskLoop oem data index cursor)
  else scalarLoop oem data index cursor
termination_by data.length - index

/-- `tokenize_avx2`. -/
def tokenizeAvx2 (oem : OemTable) (carry : List Byte) (block : Block) : List (List Byte) × List Byte :=
  (avx2Loop oem block.data 0 (.start carry)).finish oem block.data block.isLastChunk

/-- Buffers handed to a tokenizer one after another with a shared carry. -/
def tokenizeChunks (tokenize : List Byte → Block → List (List Byte) × List Byte) :
    List Byte → List Block → List (List Byte) × List Byte
  | carry, [] => ([], carry)
  | carry, block :: rest =>
      let rested := tokenizeChunks tokenize (tokenize carry block).2 rest
      ((tokenize carry block).1 ++ rested.1, rested.2)

/-! ## Both loops agree -/

theorem foldl_visit_congr (oem : OemTable) (data : List Byte) {left right : Nat → Bool}
    {indices : List Nat} (agree : ∀ index ∈ indices, left index = right index) (cursor : TokenCursor) :
    indices.foldl (TokenCursor.visit oem data left) cursor =
      indices.foldl (TokenCursor.visit oem data right) cursor := by
  induction indices generalizing cursor with
  | nil => rfl
  | cons index rest ih =>
      have here := agree index (List.mem_cons_self ..)
      have visited : TokenCursor.visit oem data left cursor index =
          TokenCursor.visit oem data right cursor index := by
        simp only [TokenCursor.visit, here]
      rw [List.foldl_cons, List.foldl_cons, visited]
      exact ih (fun other member => agree other (List.mem_cons_of_mem _ member)) _

/-- Walking the mask is the scalar loop over the same bytes. -/
theorem maskLoop_eq (oem : OemTable) (data : List Byte) (index : Nat) (cursor : TokenCursor) :
    maskLoop oem data index cursor =
      (List.range' index 32).foldl
        (TokenCursor.visit oem data fun index => isDelim (data.getD index 0)) cursor := by
  apply foldl_visit_congr
  intro position member
  obtain ⟨least, most⟩ := List.mem_range'_1.mp member
  have lane : position - index < 32 := by omega
  have bit := getLsbD_delimiterMask data index ⟨position - index, lane⟩
  have place : index + (position - index) = position := by omega
  rw [place] at bit
  rw [BitVec.getLsbD_ushiftRight, Nat.add_zero]
  exact bit

theorem avx2Loop_eq (oem : OemTable) (data : List Byte) (index : Nat) (cursor : TokenCursor) :
    avx2Loop oem data index cursor = scalarLoop oem data index cursor := by
  fun_induction avx2Loop oem data index cursor with
  | case1 index cursor full ih =>
      have cut : data.length - index = 32 + (data.length - (index + 32)) := by omega
      rw [ih, maskLoop_eq, scalarLoop, scalarLoop, cut, ← List.range'_append_1, List.foldl_append]
  | case2 index cursor => rfl

/-- The vectorised tokenizer agrees with the scalar one on every buffer. -/
theorem tokenizeAvx2_eq (oem : OemTable) (carry : List Byte) (block : Block) :
    tokenizeAvx2 oem carry block = tokenizeScalar oem carry block := by
  rw [tokenizeAvx2, avx2Loop_eq, tokenizeScalar]

/-! ## The scalar loop finds the tokens -/

theorem between_append (before rest : List Byte) {start : Nat} (inside : start ≤ before.length) :
    between (before ++ rest) start before.length = before.drop start := by
  have count : before.length - start = (before.drop start).length := by simp
  rw [between, List.drop_append_of_le_length inside, count, List.take_left]

/-- The cursor behind some bytes stands for the token that is pending there. -/
structure TokenCursor.StandsFor (cursor : TokenCursor) (before pending : List Byte) : Prop where
  inside : cursor.tokenStart ≤ before.length
  idle : cursor.inToken = false → cursor.carry = [] ∧ pending = []
  busy : cursor.inToken = true → pending = cursor.carry ++ before.drop cursor.tokenStart ∧ pending ≠ []

namespace TokenCursor.StandsFor

variable {oem : OemTable} {before pending : List Byte} {cursor : TokenCursor}

theorem start (carry : List Byte) : (TokenCursor.start carry).StandsFor [] carry where
  inside := Nat.le_refl 0
  idle := by
    cases carry with
    | nil => exact fun _ => ⟨rfl, rfl⟩
    | cons byte rest => nofun
  busy := by
    cases carry with
    | nil => nofun
    | cons byte rest => exact fun _ => ⟨(List.append_nil _).symm, by simp⟩

/-- The raw token that ends at a delimiter. -/
theorem visit_delim (standsFor : cursor.StandsFor before pending) (oem : OemTable) (byte : Byte)
    (rest : List Byte) (delim : Nat → Bool) (ends : delim before.length = true) :
    (cursor.visit oem (before ++ byte :: rest) delim before.length).StandsFor (before ++ [byte]) [] ∧
      (cursor.visit oem (before ++ byte :: rest) delim before.length).calls =
        cursor.calls ++ (unlessEmpty pending).filterMap (cleanedToken oem) := by
  have farther : cursor.tokenStart ≤ (before ++ [byte]).length := by
    have inside := standsFor.inside
    rw [List.length_append]
    omega
  cases running : cursor.inToken with
  | false =>
      obtain ⟨spent, rfl⟩ := standsFor.idle running
      simp only [TokenCursor.visit, ends, running, if_true, Bool.false_eq_true, if_false]
      refine ⟨⟨farther, fun _ => ⟨spent, rfl⟩, fun busy => ?_⟩, by simp [unlessEmpty]⟩
      rw [running] at busy
      cases busy
  | true =>
      obtain ⟨token, filled⟩ := standsFor.busy running
      have listed : unlessEmpty pending = [pending] := if_neg (by simpa using filled)
      simp only [TokenCursor.visit, ends, running, if_true, between_append _ _ standsFor.inside, listed]
      split
      · next spent =>
          rw [List.isEmpty_iff.mp spent, List.nil_append] at token
          rw [← token]
          exact ⟨⟨farther, fun _ => ⟨List.isEmpty_iff.mp spent, rfl⟩, fun busy => absurd busy Bool.false_ne_true⟩, by
            cases cleaned : cleanedToken oem pending <;> simp [TokenCursor.emit, cleaned]⟩
      · rw [← token]
        exact ⟨⟨farther, fun _ => ⟨rfl, rfl⟩, fun busy => absurd busy Bool.false_ne_true⟩, by
          cases cleaned : cleanedToken oem pending <;> simp [TokenCursor.emit, cleaned]⟩

/-- A byte that is no delimiter joins the pending token. -/
theorem visit_other (standsFor : cursor.StandsFor before pending) (oem : OemTable) (byte : Byte)
    (rest : List Byte) (delim : Nat → Bool) (goesOn : delim before.length = false) :
    (cursor.visit oem (before ++ byte :: rest) delim before.length).StandsFor (before ++ [byte])
        (pending ++ [byte]) ∧
      (cursor.visit oem (before ++ byte :: rest) delim before.length).calls = cursor.calls := by
  cases running : cursor.inToken with
  | false =>
      obtain ⟨spent, rfl⟩ := standsFor.idle running
      simp only [TokenCursor.visit, goesOn, running, Bool.false_eq_true, if_false, and_true]
      exact ⟨by simp, nofun, fun _ => ⟨by simp [spent], by simp⟩⟩
  | true =>
      obtain ⟨token, filled⟩ := standsFor.busy running
      have inside := standsFor.inside
      simp only [TokenCursor.visit, goesOn, running, Bool.false_eq_true, if_false, if_true, and_true]
      refine ⟨by rw [List.length_append]; omega, fun idle => ?_, fun _ => ⟨?_, by simp⟩⟩
      · rw [running] at idle
        cases idle
      · rw [token, List.drop_append_of_le_length inside, List.append_assoc]

/-- The loop over the bytes that are left takes the steps of the pending token. -/
theorem scalarLoop (standsFor : cursor.StandsFor before pending) (oem : OemTable) (rest : List Byte) :
    (scalarLoop oem (before ++ rest) before.length cursor).StandsFor (before ++ rest)
        (tokenizeBytes pending rest).2 ∧
      (Index.scalarLoop oem (before ++ rest) before.length cursor).calls =
        cursor.calls ++ (tokenizeBytes pending rest).1.filterMap (cleanedToken oem) := by
  induction rest generalizing before pending cursor with
  | nil => simpa [Index.scalarLoop, tokenizeBytes] using standsFor
  | cons byte rest ih =>
      have here : (before ++ byte :: rest).getD before.length 0 = byte := by
        simp [List.getD_eq_getElem?_getD]
      have longer : before ++ byte :: rest = (before ++ [byte]) ++ rest := by simp
      have count : (before ++ byte :: rest).length - before.length = rest.length + 1 := by simp
      have left : ((before ++ [byte]) ++ rest).length - (before ++ [byte]).length = rest.length := by
        simp only [List.length_append, List.length_singleton]
        omega
      have unfolded : Index.scalarLoop oem (before ++ byte :: rest) before.length cursor =
          Index.scalarLoop oem ((before ++ [byte]) ++ rest) (before ++ [byte]).length
            (cursor.visit oem (before ++ byte :: rest)
              (fun index => isDelim ((before ++ byte :: rest).getD index 0)) before.length) := by
        rw [Index.scalarLoop, count, Index.scalarLoop, left, ← longer, List.length_append,
          List.length_singleton, List.range'_succ, List.foldl_cons]
      cases ends : isDelim byte with
      | true =>
          obtain ⟨stands, calls⟩ := standsFor.visit_delim oem byte rest
            (fun index => isDelim ((before ++ byte :: rest).getD index 0)) (by rw [here, ends])
          obtain ⟨next, found⟩ := ih stands
          have tokens : tokenizeBytes pending (byte :: rest) =
              (unlessEmpty pending ++ (tokenizeBytes [] rest).1, (tokenizeBytes [] rest).2) := by
            rw [tokenizeBytes, if_pos ends, unlessEmpty]
            split <;> rfl
          rw [unfolded, longer, tokens, List.filterMap_append, ← List.append_assoc, ← calls]
          rw [← longer] at next found ⊢
          exact ⟨next, found⟩
      | false =>
          obtain ⟨stands, calls⟩ := standsFor.visit_other oem byte rest
            (fun index => isDelim ((before ++ byte :: rest).getD index 0)) (by rw [here, ends])
          obtain ⟨next, found⟩ := ih stands
          rw [tokenizeBytes, if_neg (by simp [ends]), unfolded, ← calls]
          rw [← longer] at next found ⊢
          exact ⟨next, found⟩

/-- After the loop the pending token is the carry, or the last chunk flushes it. -/
theorem finish {data : List Byte} (standsFor : cursor.StandsFor data pending) (isLastChunk : Bool) :
    cursor.finish oem data isLastChunk =
      if isLastChunk && !pending.isEmpty then (cursor.calls ++ (cleanedToken oem pending).toList, [])
      else (cursor.calls, pending) := by
  have carried : (if cursor.inToken then
      if cursor.carry.isEmpty then between data cursor.tokenStart data.length
      else cursor.carry ++ between data cursor.tokenStart data.length
    else cursor.carry) = pending := by
    have tail := between_append data [] standsFor.inside
    rw [List.append_nil] at tail
    cases running : cursor.inToken with
    | false =>
        obtain ⟨spent, rfl⟩ := standsFor.idle running
        rw [if_neg (by simp), spent]
    | true =>
        obtain ⟨token, _⟩ := standsFor.busy running
        rw [if_pos rfl, tail]
        split
        · next spent => rw [token, List.isEmpty_iff.mp spent, List.nil_append]
        · exact token.symm
  rw [TokenCursor.finish, carried]
  rfl

end TokenCursor.StandsFor

/-- The indices of the source find the tokens of the pending bytes. -/
theorem tokenizeScalar_eq (oem : OemTable) (carry : List Byte) (block : Block) :
    tokenizeScalar oem carry block =
      ((tokenizeBuffer carry block).1.filterMap (cleanedToken oem), (tokenizeBuffer carry block).2) := by
  obtain ⟨stands, calls⟩ := (TokenCursor.StandsFor.start carry).scalarLoop oem block.data
  have begun : (TokenCursor.start carry).calls = [] := rfl
  rw [List.nil_append, List.length_nil] at stands calls
  rw [begun, List.nil_append] at calls
  rw [tokenizeScalar, stands.finish, calls, tokenizeBuffer]
  split
  · cases cleaned : cleanedToken oem (tokenizeBytes carry block.data).2 <;>
      simp [List.filterMap_append, cleaned]
  · rfl

/-! ## Whole documents -/

/-- The last chunk leaves no carry. -/
theorem tokenizeBuffer_lastChunk (carry content : List Byte) :
    tokenizeBuffer carry ⟨content, true⟩ =
      ((tokenizeBytes carry content).1 ++ unlessEmpty (tokenizeBytes carry content).2, []) := by
  rw [tokenizeBuffer, unlessEmpty, Bool.true_and]
  cases left : (tokenizeBytes carry content).2 with
  | nil => simp [← left]
  | cons byte rest => rfl

theorem tokenizeChunks_eq (oem : OemTable) (carry : List Byte) (blocks : List Block) :
    (tokenizeChunks (tokenizeScalar oem) carry blocks).1 =
      (tokenizeBlocks carry blocks).filterMap (cleanedToken oem) := by
  induction blocks generalizing carry with
  | nil => rfl
  | cons block rest ih =>
      rw [tokenizeChunks, tokenizeBlocks, List.filterMap_append, ← ih, tokenizeScalar_eq]

/-- Empty buffers after the document change nothing. -/
theorem tokenizeChunks_idle (oem : OemTable) (idle : Nat) :
    tokenizeChunks (tokenizeScalar oem) [] (List.replicate idle ⟨[], false⟩) = ([], []) := by
  induction idle with
  | zero => rfl
  | succ idle ih =>
      have nothing : tokenizeScalar oem [] ⟨[], false⟩ = ([], []) := by
        rw [tokenizeScalar_eq]
        rfl
      rw [List.replicate_succ, tokenizeChunks, nothing, ih, List.nil_append]

/-- The chunk that ends the document leaves no carry, whatever came before it. -/
theorem tokenizeChunks_carry (oem : OemTable) (carry : List Byte) {parts : List (List Byte)}
    (filled : parts ≠ []) (idle : Nat) :
    (tokenizeChunks (tokenizeScalar oem) carry
      (splitBlock true parts ++ List.replicate idle ⟨[], false⟩)).2 = [] := by
  induction parts generalizing carry with
  | nil => exact absurd rfl filled
  | cons part remaining ih =>
      cases remaining with
      | nil =>
          rw [splitBlock, List.singleton_append, tokenizeChunks, tokenizeScalar_eq,
            tokenizeBuffer_lastChunk, tokenizeChunks_idle]
      | cons next others =>
          rw [splitBlock, List.cons_append, tokenizeChunks]
          exact ih _ (List.cons_ne_nil next others)

/-- Cut into chunks in any way, with the last one marked, a document yields to the
vectorised and to the scalar tokenizer alike the trimmed runs of bytes between its
delimiters, and leaves no carry. -/
theorem tokenizeChunks_exact (oem : OemTable) (parts : List (List Byte)) (idle : Nat) :
    tokenizeChunks (tokenizeAvx2 oem) [] (splitBlock true parts ++ List.replicate idle ⟨[], false⟩) =
        ((referenceTokens parts.flatten).filterMap (cleanedToken oem), []) ∧
      tokenizeChunks (tokenizeScalar oem) []
          (splitBlock true parts ++ List.replicate idle ⟨[], false⟩) =
        ((referenceTokens parts.flatten).filterMap (cleanedToken oem), []) := by
  have vectorised : tokenizeAvx2 oem = tokenizeScalar oem := by
    funext carry block
    exact tokenizeAvx2_eq oem carry block
  rw [vectorised, and_self]
  cases parts with
  | nil => exact tokenizeChunks_idle oem idle
  | cons part others =>
      have filled := List.cons_ne_nil part others
      apply Prod.ext
      · have nothing := tokenizeChunks_eq oem [] (List.replicate idle ⟨[], false⟩)
        rw [tokenizeChunks_idle] at nothing
        rw [tokenizeChunks_eq, tokenizeBlocks_append_split _ _ _ filled, tokenizeBlocks,
          tokenizeBuffer_lastChunk, List.filterMap_append, ← nothing, List.append_nil,
          referenceTokens_eq, trailingToken]
      · exact tokenizeChunks_carry oem [] filled idle

end SearchEngine.Index
