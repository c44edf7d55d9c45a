import Mathlib.Order.Bounds.Basic
import SearchEngine.Search.ConcurrentSearch

/-!
# What an answer contains

The documents a request should find and their weights, from the postings alone, and
the answers of `getAnswer` measured against them.
-/

namespace SearchEngine.Search

open SearchEngine.Lib SearchEngine.Index

/-! ## Reference -/

/-- The words of a request: its parts between white space. -/
def requestWords (text : List Byte) : List Word := (text.splitOnP isSpace).filter fun word => !word.isEmpty

namespace SearchServer

/-- The documents that contain all of the words, or at least one; a request without
words finds nothing. -/
def Finds (server : SearchServer) (text : List Byte) (fileId : FileId) : Prop :=
  match server.queryWordMatch with
  | .all => requestWords text ≠ [] ∧ ∀ word ∈ requestWords text, (server.index.answer word fileId).isSome
  | .any => ∃ word ∈ requestWords text, (server.index.answer word fileId).isSome

/-- The count of a word in a document. -/
def countOf (server : SearchServer) (fileId : FileId) (word : Word) : Nat :=
  (server.index.answer word fileId).elim 0 UInt16.toNat

/-- The sum of the counts of the distinct words. -/
def weight (server : SearchServer) (text : List Byte) (fileId : FileId) : Nat :=
  ((requestWords text).dedup.map (server.countOf fileId)).sum

/-- The item shows the document: its path and flag, and its weight over the greatest one. -/
def Shows (server : SearchServer) (text : List Byte) (fileId : FileId) (item : AnswerItem) : Prop :=
  ∃ document greatest, server.documents fileId = some document ∧
    IsGreatest {weight | ∃ other, server.Finds text other ∧ server.weight text other = weight} greatest ∧
    item.path = document.path ∧ item.deleted = document.deleted ∧
    item.relevance = if greatest = 0 then .nan else .finite (server.weight text fileId / greatest)

/-- The items show as many of the documents found as the limit allows, by non-increasing
weight, and none that is left out weighs more than one of them. -/
def IsAnswer (server : SearchServer) (text : List Byte) (items : List AnswerItem) : Prop :=
  ∃ chosen omitted, (chosen ++ omitted).Nodup ∧
    (∀ fileId, fileId ∈ chosen ++ omitted ↔ server.Finds text fileId) ∧
    items.length = min server.responseLimit (chosen ++ omitted).length ∧
    chosen.Pairwise (fun earlier later => server.weight text later ≤ server.weight text earlier) ∧
    (∀ fileId ∈ chosen, ∀ other ∈ omitted, server.weight text other ≤ server.weight text fileId) ∧
    List.Forall₂ (server.Shows text) chosen items

end SearchServer

/-! ## The words -/

theorem readWords_eq (word text : List Byte) :
    readWords word text =
      ((text.splitOnP isSpace).modifyHead (word ++ ·)).filter fun word => !word.isEmpty := by
  induction text generalizing word with
  | nil => cases word <;> simp [readWords]
  | cons byte rest ih =>
      rw [List.splitOnP_cons_eq_if_modifyHead, readWords]
      by_cases space : isSpace byte
      · rw [if_pos space, if_pos space, List.modifyHead_cons, List.append_nil, List.filter_cons, ih]
        have same : (rest.splitOnP isSpace).modifyHead ([] ++ ·) = rest.splitOnP isSpace := by
          cases rest.splitOnP isSpace <;> rfl
        rw [same]
        cases word <;> simp
      · rw [if_neg space, if_neg space, ih]
        cases rest.splitOnP isSpace with
        | nil => rfl
        | cons head tail => simp

/-- The distinct words of a request, in their order. -/
theorem mem_keys_getUniqWords {text : List Byte} {word : Word} :
    word ∈ (getUniqWords text).keys ↔ word ∈ requestWords text := by
  have whole : (text.splitOnP isSpace).modifyHead ([] ++ ·) = text.splitOnP isSpace := by
    cases text.splitOnP isSpace <;> rfl
  rw [getUniqWords, OrderedSet.ofList, OrderedSet.mem_keys_insertAll, readWords_eq, whole]
  simp [requestWords, SortedMap.keys]

theorem keys_getUniqWords_perm (text : List Byte) :
    (getUniqWords text).keys.Perm (requestWords text).dedup := by
  apply (List.perm_ext_iff_of_nodup (SortedMap.keys_nodup _) (List.nodup_dedup _)).mpr
  intro word
  rw [mem_keys_getUniqWords, List.mem_dedup]

theorem keys_getUniqWords_eq_nil {text : List Byte} : (getUniqWords text).keys = [] ↔ requestWords text = [] := by
  simp only [List.eq_nil_iff_forall_not_mem, mem_keys_getUniqWords]

namespace SearchServer

variable {server : SearchServer} {text : List Byte}

/-! ## Documents and weights -/

/-- A document is in the set of a word when the word has a count for it. -/
theorem mem_posting_iff {word : Word} {fileId : FileId} :
    (∃ posting, (server.index.getPostingCopyByWord word).map (fun post => OrderedSet.ofList post.keys) =
      some posting ∧ fileId ∈ posting.keys) ↔ (server.index.answer word fileId).isSome := by
  unfold InvertedIndex.answer
  cases server.index.getPostingCopyByWord word with
  | none => simp
  | some post =>
      simp only [Option.map_some, Option.some.injEq, exists_eq_left', Option.bind_some]
      have unlisted : fileId ∉ (∅ : QueryPostingSet).keys := List.not_mem_nil
      rw [OrderedSet.ofList, OrderedSet.mem_keys_insertAll, or_iff_right unlisted, SortedMap.mem_keys_iff,
        Option.isSome_iff_exists]

/-- The documents of the combined postings are those the request should find. -/
theorem mem_intersectionSetFiles {files : QueryPostingSet}
    (found : server.intersectionSetFiles (getUniqWords text) = .ok files) {fileId : FileId} :
    fileId ∈ files.keys ↔ server.Finds text fileId := by
  unfold intersectionSetFiles at found
  split at found
  · rename_i noWords
    obtain rfl := Except.ok.inj found
    have empty := keys_getUniqWords_eq_nil.mp (List.isEmpty_iff.mp noWords)
    unfold Finds
    cases server.queryWordMatch <;> simp [empty, SortedMap.keys]
  · rename_i words
    split at found
    · cases found
    · obtain rfl := Except.ok.inj found
      rw [mem_combineQueryPostings]
      unfold Finds Matches
      have filled : requestWords text ≠ [] := fun none =>
        words (List.isEmpty_iff.mpr (keys_getUniqWords_eq_nil.mpr none))
      cases server.queryWordMatch with
      | all =>
          simp only [List.forall_mem_map, mem_keys_getUniqWords, mem_posting_iff]
          apply and_congr_left
          intro _
          apply iff_of_true
          · intro none
            exact filled (keys_getUniqWords_eq_nil.mp (List.map_eq_nil_iff.mp none))
          · exact filled
      | any =>
          simp only [List.mem_map]
          constructor
          · rintro ⟨posting, ⟨word, member, same⟩, inside⟩
            exact ⟨word, mem_keys_getUniqWords.mp member, mem_posting_iff.mp ⟨posting, same, inside⟩⟩
          · rintro ⟨word, member, contained⟩
            obtain ⟨posting, same, inside⟩ := mem_posting_iff.mpr contained
            exact ⟨posting, ⟨word, mem_keys_getUniqWords.mpr member, same⟩, inside⟩

/-- A loop that adds one number for each word. -/
theorem foldl_eq_add (add : Nat → Word → Nat) (number : Word → Nat)
    (each : ∀ sum word, add sum word = sum + number word) (words : List Word) (start : Nat) :
    words.foldl add start = start + (words.map number).sum := by
  induction words generalizing start with
  | nil => rfl
  | cons word rest ih => rw [List.foldl_cons, ih, each, List.map_cons, List.sum_cons, Nat.add_assoc]

/-- A result sums up the counts of the distinct words. -/
theorem sumOf_eq_weight (fileId : FileId) : server.sumOf (getUniqWords text) fileId = server.weight text fileId := by
  rw [sumOf, foldl_eq_add _ (server.countOf fileId), Nat.zero_add, ((keys_getUniqWords_perm text).map _).sum_eq]
  · rfl
  · intro sum word
    unfold countOf InvertedIndex.answer
    cases server.index.getPostingCopyByWord word with
    | none => simp
    | some post => cases found : post.find? fileId <;> simp [found]

/-! ## The selection -/

/-- The documents of the sorted results. -/
def ranking (server : SearchServer) (text : List Byte) : List FileId :=
  (sortResults (server.resultsOf text)).map RelativeIndex.fileId

theorem mem_resultsOf {files : QueryPostingSet}
    (found : server.intersectionSetFiles (getUniqWords text) = .ok files) {result : RelativeIndex} :
    result ∈ server.resultsOf text ↔
      server.Finds text result.fileId ∧ result.sum = server.weight text result.fileId := by
  simp only [resultsOf, found, List.mem_map, mem_intersectionSetFiles found]
  constructor
  · rintro ⟨fileId, finds, rfl⟩
    exact ⟨finds, sumOf_eq_weight fileId⟩
  · rintro ⟨finds, sum⟩
    refine ⟨result.fileId, finds, ?_⟩
    rw [relativeIndex, sumOf_eq_weight, ← sum]

theorem ranking_spec {files : QueryPostingSet}
    (found : server.intersectionSetFiles (getUniqWords text) = .ok files) :
    (server.ranking text).Nodup ∧ (∀ fileId, fileId ∈ server.ranking text ↔ server.Finds text fileId) ∧
      (server.ranking text).Pairwise fun earlier later => server.weight text later ≤ server.weight text earlier := by
  have permuted : (server.ranking text).Perm files.keys := by
    have plain : (server.resultsOf text).map RelativeIndex.fileId = files.keys := by
      simp only [resultsOf, found, List.map_map]
      exact List.map_id _
    rw [ranking, ← plain]
    exact (List.perm_insertionSort _ _).map _
  refine ⟨permuted.nodup_iff.mpr (SortedMap.keys_nodup _), fun fileId => ?_, ?_⟩
  · rw [permuted.mem_iff, mem_intersectionSetFiles found]
  · rw [ranking, List.pairwise_map]
    have total : Std.Total fun left right : RelativeIndex => right.sum ≤ left.sum :=
      ⟨fun left right => Nat.le_total right.sum left.sum⟩
    have transitive : IsTrans RelativeIndex fun left right => right.sum ≤ left.sum :=
      ⟨fun _ _ _ upper lower => lower.trans upper⟩
    have ordered : (sortResults (server.resultsOf text)).Pairwise fun left right => right.sum ≤ left.sum :=
      List.pairwise_insertionSort _ _
    apply ordered.imp_of_mem
    intro left right leftMember rightMember lower
    rw [mem_sortResults, mem_resultsOf found] at leftMember rightMember
    rwa [← leftMember.2, ← rightMember.2]

/-- The maximum of the results is the greatest weight of a document found. -/
theorem isGreatest_maxSum {files : QueryPostingSet}
    (found : server.intersectionSetFiles (getUniqWords text) = .ok files) {fileId : FileId}
    (finds : server.Finds text fileId) :
    IsGreatest {weight | ∃ other, server.Finds text other ∧ server.weight text other = weight}
      (maxSum (server.resultsOf text)) := by
  have listed : ∀ other, server.Finds text other →
      (⟨other, server.weight text other⟩ : RelativeIndex) ∈ server.resultsOf text :=
    fun other found' => (mem_resultsOf found).mpr ⟨found', rfl⟩
  constructor
  · rcases Nat.eq_zero_or_pos (maxSum (server.resultsOf text)) with zero | positive
    · have bound : server.weight text fileId ≤ maxSum (server.resultsOf text) := le_maxSum (listed fileId finds)
      exact ⟨fileId, finds, by omega⟩
    · obtain ⟨result, member, greatest⟩ := exists_maxSum positive
      obtain ⟨finds', sum⟩ := (mem_resultsOf found).mp member
      exact ⟨result.fileId, finds', sum.symm.trans greatest⟩
  · rintro _ ⟨other, finds', rfl⟩
    exact le_maxSum (listed other finds')

/-! ## The items -/

/-- The loop over the selected results: an item for each, or an exception at the first one
without a row. -/
theorem answerItems_cases (max : Nat) (selected : List (RelativeIndex × Option DocumentRecord)) :
    (∃ items, answerItems max selected = .ok items ∧ List.Forall₂ (fun pair item =>
      ∃ document, pair.2 = some document ∧ item = answerItem pair.1 document max) selected items) ∨
    answerItems max selected = .error .missingDocument ∧ ∃ pair ∈ selected, pair.2 = none := by
  induction selected with
  | nil => exact .inl ⟨[], rfl, .nil⟩
  | cons pair rest ih =>
      obtain ⟨result, row⟩ := pair
      cases row with
      | none => exact .inr ⟨rfl, _, List.mem_cons_self, rfl⟩
      | some document =>
          rcases ih with ⟨items, answered, shown⟩ | ⟨thrown, missing, member, none⟩
          · refine .inl ⟨answerItem result document max :: items, ?_, .cons ⟨document, rfl, rfl⟩ shown⟩
            rw [answerItems, answered]
            rfl
          · refine .inr ⟨?_, missing, List.mem_cons_of_mem _ member, none⟩
            rw [answerItems, thrown]
            rfl

/-- Every admitted call on a working index answers the request, or throws because a document
it chose has no row in the catalog. -/
theorem getAnswer_cases (text : List Byte) (accepting : server.accepting = true)
    (working : server.storageFailed = false) :
    (∃ items, server.getAnswer text = .ok items ∧ server.IsAnswer text items) ∨
      server.getAnswer text = .error .missingDocument ∧
        ∃ fileId ∈ (server.ranking text).take server.responseLimit, server.documents fileId = none := by
  obtain ⟨files, found⟩ : ∃ files, server.intersectionSetFiles (getUniqWords text) = .ok files := by
    unfold intersectionSetFiles
    rw [working]
    split <;> exact ⟨_, rfl⟩
  rw [getAnswer_of_accepting accepting found, working, if_neg Bool.false_ne_true]
  obtain ⟨distinct, members, sorted⟩ := ranking_spec found
  have split : (server.ranking text).take server.responseLimit ++
      (server.ranking text).drop server.responseLimit = server.ranking text := List.take_append_drop _ _
  rcases answerItems_cases (maxSum (server.resultsOf text)) (server.select (server.resultsOf text)) with
    ⟨items, answered, shown⟩ | ⟨thrown, ⟨result, row⟩, member, none⟩
  · refine .inl ⟨items, answered, (server.ranking text).take server.responseLimit,
      (server.ranking text).drop server.responseLimit, ?_, ?_, ?_, ?_, ?_, ?_⟩
    · rwa [split]
    · rwa [split]
    · rw [split, ← shown.length_eq]
      simp [select, ranking]
    · exact sorted.sublist (List.take_sublist _ _)
    · rw [← split, List.pairwise_append] at sorted
      exact sorted.2.2
    · rw [ranking, ← List.map_take, List.forall₂_map_left_iff]
      rw [select, List.forall₂_map_left_iff] at shown
      have listed : ∀ result ∈ (sortResults (server.resultsOf text)).take server.responseLimit,
          result ∈ server.resultsOf text :=
        fun result member => mem_sortResults.mp (List.mem_of_mem_take member)
      apply ((List.forall₂_and_left _ _).mpr ⟨listed, shown⟩).imp
      rintro result item ⟨member, document, row, rfl⟩
      obtain ⟨finds, sum⟩ := (mem_resultsOf found).mp member
      refine ⟨document, maxSum (server.resultsOf text), row, isGreatest_maxSum found finds, rfl, rfl, ?_⟩
      have positive : result.sum = 0 ∨ maxSum (server.resultsOf text) ≠ 0 := by
        have bound := le_maxSum member
        omega
      rw [answerItem, RelativeIndex.getRelativeIndex, ← sum]
      dsimp only
      split
      · rename_i zero
        rw [if_pos (positive.resolve_right fun nonzero => nonzero zero)]
      · rfl
  · obtain ⟨chosen, listed, same⟩ := List.mem_map.mp member
    obtain ⟨rfl, rfl⟩ := Prod.mk.inj same
    refine .inr ⟨thrown, chosen.fileId, ?_, none⟩
    rw [ranking, ← List.map_take]
    exact List.mem_map_of_mem listed

/-! ## A request for one document -/

/-- The request is answered. -/
theorem getAnswer_cases_twoDocuments :
    ∃ items, twoDocuments.getAnswer (Word.ofAscii "ALPHA") = .ok items ∧
      twoDocuments.IsAnswer (Word.ofAscii "ALPHA") items := by
  rcases @getAnswer_cases twoDocuments (Word.ofAscii "ALPHA") rfl rfl with answered | ⟨-, fileId, -, none⟩
  · exact answered
  · cases none

theorem finds_twoDocuments : twoDocuments.Finds (Word.ofAscii "ALPHA") 0 := by
  have words : requestWords (Word.ofAscii "ALPHA") = [Word.ofAscii "ALPHA"] := by decide +kernel
  refine ⟨by simp [words], fun word member => ?_⟩
  rw [words, List.mem_singleton] at member
  subst member
  decide +kernel

/-- The call returns the items of an answer. -/
def Answers (server : SearchServer) (text : List Byte) : Prop :=
  ∃ items, server.getAnswer text = .ok items ∧ server.IsAnswer text items

/-- A server that stops answers with nothing, a recorded storage failure is thrown, and so
is a document without a row. -/
theorem not_isAnswer_guarded :
    ¬ Answers { twoDocuments with accepting := false } (Word.ofAscii "ALPHA") ∧
      ¬ Answers { twoDocuments with storageFailed := true } (Word.ofAscii "ALPHA") ∧
        ¬ Answers { twoDocuments with documents := fun _ => none } (Word.ofAscii "ALPHA") := by
  refine ⟨?_, ?_, ?_⟩
  · rintro ⟨items, answered, chosen, omitted, -, found, length, -⟩
    obtain rfl := Except.ok.inj answered
    have listed : 0 ∈ chosen ++ omitted := (found 0).mpr finds_twoDocuments
    have some : 0 < (chosen ++ omitted).length := List.length_pos_of_mem listed
    have limit : 0 < SearchServer.responseLimit { twoDocuments with accepting := false } := by decide
    exact absurd length (Nat.ne_of_lt (Nat.lt_min.mpr ⟨limit, some⟩))
  · rintro ⟨items, answered, -⟩
    have thrown : SearchServer.getAnswer { twoDocuments with storageFailed := true } (Word.ofAscii "ALPHA") =
        .error .storage := by decide +kernel
    rw [thrown] at answered
    cases answered
  · rintro ⟨items, answered, -⟩
    have thrown : SearchServer.getAnswer { twoDocuments with documents := fun _ => none }
        (Word.ofAscii "ALPHA") = .error .missingDocument := by decide +kernel
    rw [thrown] at answered
    cases answered

end SearchServer

end SearchEngine.Search
