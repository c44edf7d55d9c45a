import SearchEngine.Index.Tokenizer

/-!
# Reference tokenization

The reference splits the whole content at once: its tokens are the maximal runs
of bytes between delimiters. `fileIndexing` sees the content in 64 KiB reads and
finds the same tokens, except that a content which ends with a full read and
inside a token leaves that token in the carry.
-/

namespace SearchEngine.Index

open SearchEngine.Lib

/-- The maximal runs of bytes that are not delimiters. -/
def referenceTokens (content : List Byte) : List (List Byte) :=
  (content.splitOnP isDelim).filter fun token => !token.isEmpty

/-- The words of the whole content with their number of occurrences. -/
def referenceFrequencies (oem : OemTable) (content : List Byte) : SortedMap Word Nat :=
  countWords oem (referenceTokens content)

/-- How often a word occurs in the whole content. -/
def referenceCount (oem : OemTable) (content : List Byte) (word : Word) : Nat :=
  ((referenceTokens content).filterMap (wordOf oem)).count word

/-- The bytes after the last delimiter. -/
def trailingToken (content : List Byte) : List Byte := (tokenizeBytes [] content).2

/-- The word left in the carry: the content is a number of full reads and the
bytes after its last delimiter make a word. -/
def droppedWord (oem : OemTable) (content : List Byte) : Option Word :=
  if content.length % readBlockSize = 0 then wordOf oem (trailingToken content) else none

/-- `batch.list` as a map of numbers. -/
def listedFrequencies (oem : OemTable) (content : List Byte) : SortedMap Word Nat :=
  SortedMap.ofList ((batchList oem content).map fun entry => (entry.1, entry.2.toNat))

/-! ## The tokens of a whole content -/

/-- A list of a token that is listed only if it is not empty. -/
def unlessEmpty (token : List Byte) : List (List Byte) := if token.isEmpty then [] else [token]

/-- With the carry as its last token, the byte loop yields the maximal runs. -/
theorem tokenizeBytes_eq_splitOnPPrepend (pending content : List Byte) :
    (tokenizeBytes pending content).1 ++ unlessEmpty (tokenizeBytes pending content).2 =
      (List.splitOnPPrepend isDelim content pending.reverse).filter fun token => !token.isEmpty := by
  induction content generalizing pending with
  | nil =>
      simp only [tokenizeBytes, unlessEmpty, List.splitOnPPrepend_nil, List.reverse_reverse,
        List.nil_append]
      cases pending <;> rfl
  | cons byte rest ih =>
      rw [List.splitOnPPrepend_cons_eq_if, tokenizeBytes]
      split
      · have splitRest := ih []
        rw [List.reverse_nil, List.splitOnPPrepend_nil_right] at splitRest
        cases pending with
        | nil => simpa using splitRest
        | cons first others => simpa using splitRest
      · have splitRest := ih (pending ++ [byte])
        rwa [List.reverse_append] at splitRest

theorem referenceTokens_eq (content : List Byte) :
    referenceTokens content = (tokenizeBytes [] content).1 ++ unlessEmpty (trailingToken content) := by
  rw [trailingToken, tokenizeBytes_eq_splitOnPPrepend, List.reverse_nil,
    List.splitOnPPrepend_nil_right, referenceTokens]

/-- A single block with the end of the file has the reference tokens. -/
theorem tokenizeBlocks_lastChunk (carry content : List Byte) :
    tokenizeBlocks carry [⟨content, true⟩] =
      (tokenizeBytes carry content).1 ++ unlessEmpty (tokenizeBytes carry content).2 := by
  simp only [tokenizeBlocks, tokenizeBuffer, unlessEmpty, List.append_nil, Bool.true_and]
  cases empty : (tokenizeBytes carry content).2.isEmpty <;> simp

/-! ## The reads of a content -/

/-- Reading block by block finds the tokens of the whole content, without the
last one when the reads stopped before they saw the end of the file. -/
theorem tokenizeBlocks_readLoop (fuel : Nat) (carry content : List Byte)
    (enough : content.length / readBlockSize < fuel) :
    tokenizeBlocks carry (readLoop fuel content) =
      if content.length % readBlockSize = 0 then (tokenizeBytes carry content).1
      else (tokenizeBytes carry content).1 ++ unlessEmpty (tokenizeBytes carry content).2 := by
  have positive : 0 < readBlockSize := by decide
  induction fuel generalizing carry content with
  | zero => exact absurd enough (Nat.not_lt_zero _)
  | succ fuel ih =>
      unfold readLoop
      by_cases short : content.length < readBlockSize
      · rw [if_pos short, Nat.mod_eq_of_lt short]
        cases content with
        | nil => rfl
        | cons byte rest => exact tokenizeBlocks_lastChunk carry (byte :: rest)
      · have cut : content.length = (content.drop readBlockSize).length + readBlockSize := by
          rw [List.length_drop]
          omega
        have fewer : (content.drop readBlockSize).length / readBlockSize < fuel := by
          rw [cut, Nat.add_div_right _ positive] at enough
          omega
        have sameRest : (content.drop readBlockSize).length % readBlockSize =
            content.length % readBlockSize := by
          rw [cut, Nat.add_mod_right]
        have whole := tokenizeBytes_append carry (content.take readBlockSize)
          (content.drop readBlockSize)
        rw [List.take_append_drop] at whole
        rw [if_neg short, tokenizeBlocks, ih _ _ fewer, sameRest, whole]
        simp only [tokenizeBuffer, Bool.false_and, Bool.false_eq_true, if_false]
        split <;> simp

/-- The tokens `fileIndexing` finds, and the one it may leave behind. -/
theorem tokenizeBlocks_readBlocks (content : List Byte) :
    tokenizeBlocks [] (readBlocks content) =
      if content.length % readBlockSize = 0 then (tokenizeBytes [] content).1
      else referenceTokens content := by
  rw [readBlocks, tokenizeBlocks_readLoop _ _ _ (Nat.lt_succ_self _), referenceTokens_eq]
  rfl

theorem filterMap_unlessEmpty (oem : OemTable) (token : List Byte) :
    (unlessEmpty token).filterMap (wordOf oem) = (wordOf oem token).toList := by
  cases token with
  | nil => rfl
  | cons byte rest =>
      have kept : unlessEmpty (byte :: rest) = [byte :: rest] := rfl
      rw [kept, List.filterMap_cons, List.filterMap_nil]
      cases wordOf oem (byte :: rest) <;> rfl

/-- The words of a file are those found by `fileIndexing` and the dropped one. -/
theorem referenceWords_eq (oem : OemTable) (content : List Byte) :
    (referenceTokens content).filterMap (wordOf oem) =
      (tokenizeBlocks [] (readBlocks content)).filterMap (wordOf oem) ++
        (droppedWord oem content).toList := by
  rw [tokenizeBlocks_readBlocks, droppedWord]
  split
  · rw [referenceTokens_eq, List.filterMap_append, filterMap_unlessEmpty]
  · exact (List.append_nil _).symm

/-- An occurrence is missing exactly when its word is the dropped one. -/
theorem referenceCount_eq (oem : OemTable) (content : List Byte) (word : Word) :
    referenceCount oem content word =
      ((tokenizeBlocks [] (readBlocks content)).filterMap (wordOf oem)).count word +
        if droppedWord oem content = some word then 1 else 0 := by
  rw [referenceCount, referenceWords_eq, List.count_append]
  congr 1
  cases droppedWord oem content with
  | none => rfl
  | some dropped =>
      simp only [Option.toList_some, List.count_singleton, Option.some.injEq, beq_iff_eq]

end SearchEngine.Index
