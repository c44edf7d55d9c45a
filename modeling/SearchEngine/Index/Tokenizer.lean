import SearchEngine.Index.PostingList
import Mathlib.Data.List.DropRight

/-!
# Reading and tokenizing a document

Documents are read in blocks of 64 KiB. `tokenize_oem866_buffer` cuts a block at
blank bytes and carries an unfinished token to the next block; only a block that
ended the file flushes it. The words of a document depend on its bytes alone: a
block may be cut further without a change (`tokenizeBlocks_append_split`).
-/

namespace SearchEngine.Index

open SearchEngine.Lib

/-- The case table and `std::ispunct` of the running locale. -/
structure OemTable where
  upper : Byte → Byte
  firstOem : Byte
  isPunct : Byte → Bool

/-- A locale without case and punctuation. -/
def OemTable.plain : OemTable := ⟨id, Byte.ofNat 128, fun _ => false⟩

/-- `is_delim_char_scalar`: space, tab, LF, CR, FF, VT and NUL. -/
def isDelim (byte : Byte) : Bool := (byte : Nat) ∈ [32, 9, 10, 13, 12, 11, 0]

/-- `trim_punct`. -/
def trimPunct (oem : OemTable) (token : List Byte) : List Byte :=
  (token.dropWhile oem.isPunct).rdropWhile oem.isPunct

/-- `OEMCase::iS_not_a_Oem(c) && ispunct(c)` of `normalizeToken`. -/
def isTrimmed (oem : OemTable) (byte : Byte) : Bool :=
  decide (byte ≠ oem.firstOem) && oem.isPunct byte

/-- `OEMFastTokenizer::normalizeToken`: upper case, then trim both ends. -/
def normalizeToken (oem : OemTable) (token : List Byte) : Word :=
  ((token.map oem.upper).dropWhile (isTrimmed oem)).rdropWhile (isTrimmed oem)

/-- The word counted for a raw token: `emit_token_if_not_empty` and the callback. -/
def wordOf (oem : OemTable) (token : List Byte) : Option Word :=
  if trimPunct oem token = [] then none
  else if normalizeToken oem (trimPunct oem token) = [] then none
  else some (normalizeToken oem (trimPunct oem token))

/-- The byte loop of `tokenize_oem866_buffer`. `pending` is the carry followed by
the bytes since `token_start`; it is what the block leaves in `carry`. -/
def tokenizeBytes : List Byte → List Byte → List (List Byte) × List Byte
  | pending, [] => ([], pending)
  | pending, byte :: rest =>
      if isDelim byte then
        if pending.isEmpty then tokenizeBytes [] rest
        else (pending :: (tokenizeBytes [] rest).1, (tokenizeBytes [] rest).2)
      else tokenizeBytes (pending ++ [byte]) rest

/-- A block as handed to the tokenizer, with `isLastChunk`. -/
structure Block where
  data : List Byte
  isLastChunk : Bool
  deriving DecidableEq

/-- `tokenize_oem866_buffer`: the raw tokens and the carry afterwards. -/
def tokenizeBuffer (carry : List Byte) (block : Block) : List (List Byte) × List Byte :=
  if block.isLastChunk && !(tokenizeBytes carry block.data).2.isEmpty then
    ((tokenizeBytes carry block.data).1 ++ [(tokenizeBytes carry block.data).2], [])
  else tokenizeBytes carry block.data

/-- The raw tokens of a document; a carry left by the last block is dropped. -/
def tokenizeBlocks : List Byte → List Block → List (List Byte)
  | _, [] => []
  | carry, block :: rest =>
      (tokenizeBuffer carry block).1 ++ tokenizeBlocks (tokenizeBuffer carry block).2 rest

/-- `BUF_SIZE` and `kReadBlockSize`. -/
def readBlockSize : Nat := 64 * 1024

/-- The read loop: a short read has seen the end of the file, a full one has not. -/
def readLoop : Nat → List Byte → List Block
  | 0, _ => []
  | fuel + 1, content =>
      if content.length < readBlockSize then
        if content.isEmpty then [] else [⟨content, true⟩]
      else ⟨content.take readBlockSize, false⟩ :: readLoop fuel (content.drop readBlockSize)

/-- The blocks `fileIndexing` reads; the loop ends within the given number of reads. -/
def readBlocks (content : List Byte) : List Block :=
  readLoop (content.length / readBlockSize + 1) content

/-- `++freqWordFile[w]` over the words of the raw tokens. -/
def countWords (oem : OemTable) (tokens : List (List Byte)) : SortedMap Word Nat :=
  (tokens.filterMap (wordOf oem)).foldl (fun frequencies word =>
    frequencies.insert word ((frequencies.find? word).getD 0 + 1)) ∅

/-- `freqWordFile` of `fileIndexing` for a file with this content. -/
def frequencies (oem : OemTable) (content : List Byte) : SortedMap Word Nat :=
  countWords oem (tokenizeBlocks [] (readBlocks content))

/-- How often a word occurs in a content. -/
def occurrences (oem : OemTable) (content : List Byte) (word : Word) : Nat :=
  ((frequencies oem content).find? word).getD 0

/-- `batch.list`: the frequencies clamped to 32 bits. -/
def batchList (oem : OemTable) (content : List Byte) : List (Word × UInt32) :=
  (frequencies oem content).entries.map fun entry => (entry.1, clampCount entry.2)

theorem find?_countWords (oem : OemTable) (tokens : List (List Byte)) (word : Word) (count : Nat) :
    (countWords oem tokens).find? word = some count ↔
      count = (tokens.filterMap (wordOf oem)).count word ∧ 0 < count := by
  have folded : ∀ (words : List Word) (start : SortedMap Word Nat),
      ((words.foldl (fun frequencies word =>
        frequencies.insert word ((frequencies.find? word).getD 0 + 1)) start).find? word) =
        if words.count word = 0 then start.find? word
        else some ((start.find? word).getD 0 + words.count word) := by
    intro words
    induction words with
    | nil => simp
    | cons first rest ih =>
        intro start
        rw [List.foldl_cons, ih, SortedMap.find?_insert]
        by_cases same : first = word
        · subst same
          simp only [if_true, Option.getD_some, List.count_cons_self]
          by_cases once : rest.count first = 0
          · simp [once]
          · simp only [once, if_false]
            rw [if_neg (Nat.succ_ne_zero _), Nat.add_assoc, Nat.add_comm 1]
        · simp [same]
  rw [countWords, folded]
  by_cases absent : (tokens.filterMap (wordOf oem)).count word = 0
  · rw [if_pos absent, absent]
    simp only [SortedMap.find?_empty, reduceCtorEq, false_iff]
    omega
  · rw [if_neg absent]
    simp only [SortedMap.find?_empty, Option.getD_none, Nat.zero_add, Option.some.injEq]
    omega

/-- A counted word occurs. -/
theorem pos_of_mem_frequencies {oem : OemTable} {content : List Byte} {entry : Word × Nat}
    (member : entry ∈ (frequencies oem content).entries) : 0 < entry.2 :=
  ((find?_countWords oem _ entry.1 entry.2).mp (SortedMap.mem_entries_iff.mp member)).2

/-- A counted word is not empty. -/
theorem token_of_mem_frequencies {oem : OemTable} {content : List Byte} {entry : Word × Nat}
    (member : entry ∈ (frequencies oem content).entries) : entry.1 ≠ [] := by
  obtain ⟨countEq, positive⟩ :=
    (find?_countWords oem _ entry.1 entry.2).mp (SortedMap.mem_entries_iff.mp member)
  have counted : entry.1 ∈ (tokenizeBlocks [] (readBlocks content)).filterMap (wordOf oem) := by
    rw [← List.count_pos_iff]
    omega
  obtain ⟨token, _, found⟩ := List.mem_filterMap.mp counted
  unfold wordOf at found
  split at found
  · cases found
  split at found
  · cases found
  · rename_i filled
    rwa [← Option.some.inj found]

theorem map_fst_batchList (oem : OemTable) (content : List Byte) :
    (batchList oem content).map Prod.fst = (frequencies oem content).keys := by
  simp [batchList, SortedMap.keys]

/-- Each word is listed once. -/
theorem nodup_batchList (oem : OemTable) (content : List Byte) :
    ((batchList oem content).map Prod.fst).Nodup := by
  rw [map_fst_batchList]
  exact SortedMap.keys_nodup _

/-! ## Cutting blocks -/

theorem tokenizeBytes_append (pending first second : List Byte) :
    tokenizeBytes pending (first ++ second) =
      ((tokenizeBytes pending first).1 ++ (tokenizeBytes (tokenizeBytes pending first).2 second).1,
        (tokenizeBytes (tokenizeBytes pending first).2 second).2) := by
  induction first generalizing pending with
  | nil => rfl
  | cons byte rest ih =>
      simp only [List.cons_append, tokenizeBytes]
      split
      · split
        · exact ih []
        · rw [ih []]
          rfl
      · exact ih _

theorem tokenizeBlocks_cons_append (carry first second : List Byte) (isLastChunk : Bool)
    (rest : List Block) :
    tokenizeBlocks carry (⟨first, false⟩ :: ⟨second, isLastChunk⟩ :: rest) =
      tokenizeBlocks carry (⟨first ++ second, isLastChunk⟩ :: rest) := by
  simp only [tokenizeBlocks, tokenizeBuffer, tokenizeBytes_append, Bool.false_and,
    Bool.false_eq_true, if_false]
  split <;> simp

/-- The parts of a block of which only the last one may end the file. -/
def splitBlock (isLastChunk : Bool) : List (List Byte) → List Block
  | [] => []
  | [part] => [⟨part, isLastChunk⟩]
  | part :: next :: rest => ⟨part, false⟩ :: splitBlock isLastChunk (next :: rest)

/-- Cutting a block into parts yields the same tokens. -/
theorem tokenizeBlocks_append_split (carry : List Byte) {parts : List (List Byte)}
    (isLastChunk : Bool) (rest : List Block) (filled : parts ≠ []) :
    tokenizeBlocks carry (splitBlock isLastChunk parts ++ rest) =
      tokenizeBlocks carry (⟨parts.flatten, isLastChunk⟩ :: rest) := by
  induction parts generalizing carry with
  | nil => exact absurd rfl filled
  | cons part remaining ih =>
      cases remaining with
      | nil => simp [splitBlock]
      | cons next others =>
          rw [splitBlock, List.cons_append, List.flatten_cons, ← tokenizeBlocks_cons_append]
          conv_lhs => rw [tokenizeBlocks, ih _ (List.cons_ne_nil next others)]
          conv_rhs => rw [tokenizeBlocks]

end SearchEngine.Index
