import Mathlib.Algebra.Order.Field.Rat
import Mathlib.Data.List.Induction
import Mathlib.Data.List.Sort
import SearchEngine.Index.DocumentCatalog
import SearchEngine.Index.InvertedIndex

/-!
# Queries on a fixed index

What `getAnswer` computes from the index without touching shared memory: the
words of a request, the documents that match them, the count of each document
and the items of the answer.
-/

namespace SearchEngine.Search

open SearchEngine.Lib SearchEngine.Index

inductive QueryWordMatch where
  | all
  | any
deriving DecidableEq

/-- The members of a `std::set`. -/
abbrev OrderedSet (α : Type) [LinearOrder α] := SortedMap α Unit

def OrderedSet.ofList {α : Type} [LinearOrder α] (members : List α) : OrderedSet α :=
  members.foldl (fun set member => set.insert member ()) ∅

abbrev QueryPostingSet := OrderedSet FileId

/-- `isspace` of the classic locale, which separates words in a stream. -/
def isSpace (byte : Byte) : Bool := (byte : Nat) == 32 || (9 ≤ (byte : Nat) && (byte : Nat) ≤ 13)

/-- The words that `iss >> word` reads. -/
def readWords : List Byte → List Byte → List Word
  | word, [] => if word.isEmpty then [] else [word]
  | word, byte :: rest =>
      if isSpace byte then if word.isEmpty then readWords [] rest else word :: readWords [] rest
      else readWords (word ++ [byte]) rest

def getUniqWords (text : List Byte) : OrderedSet Word := .ofList (readWords [] text)

/-- The loop of `combineQueryPostings` that stops at an empty intersection. -/
def intersectAll (result : QueryPostingSet) : List QueryPostingSet → QueryPostingSet
  | [] => result
  | next :: rest =>
      let intersection := result.filter fun fileId _ => (next.find? fileId).isSome
      if intersection.entries.isEmpty then intersection else intersectAll intersection rest

def combineQueryPostings (mode : QueryWordMatch) (postings : List (Option QueryPostingSet)) :
    QueryPostingSet :=
  match mode with
  | .any => postings.foldl (fun result posting =>
      (posting.getD ∅).keys.foldl (fun result fileId => result.insert fileId ()) result) ∅
  | .all =>
      if postings.any Option.isNone then ∅
      else
        -- `std::sort` may order sets of one size either way: the intersection is the same
        match (postings.filterMap id).insertionSort fun left right =>
          left.entries.length ≤ right.entries.length with
        | [] => ∅
        | first :: rest => intersectAll first rest

/-- The index state that searches share, its document table and the settings. -/
structure SearchServer where
  index : InvertedIndex
  /-- the failure that `rethrowStorageFailure` throws -/
  storageFailed : Bool
  documents : FileId → Option DocumentRecord
  queryWordMatch : QueryWordMatch
  maxResponse : Int
  /-- `beginOperation` admits calls -/
  accepting : Bool

/-- An exception of a call. -/
inductive Failure where
  | storage
  | missingDocument
deriving DecidableEq

structure RelativeIndex where
  fileId : FileId
  sum : Nat
deriving DecidableEq

/-- A quotient of two counts as a float: `x / 0` is not a number of the ordinary kind. -/
inductive Relevance where
  | finite (value : ℚ)
  | infinite
  | nan
deriving DecidableEq

/-- `getRelativeIndex` with the value read from the static maximum. -/
def RelativeIndex.getRelativeIndex (result : RelativeIndex) (max : Nat) : Relevance :=
  if max = 0 then if result.sum = 0 then .nan else .infinite
  else .finite (result.sum / max)

structure AnswerItem where
  path : Path
  relevance : Relevance
  deleted : Bool
deriving DecidableEq

namespace SearchServer

def responseLimit (server : SearchServer) : Nat :=
  if 0 < server.maxResponse then server.maxResponse.toNat else 0

def intersectionSetFiles (server : SearchServer) (request : OrderedSet Word) :
    Except Failure QueryPostingSet :=
  if request.keys.isEmpty then .ok ∅
  else if server.storageFailed then .error .storage
  else
    .ok (combineQueryPostings server.queryWordMatch <| request.keys.map fun word =>
      (server.index.getPostingCopyByWord word).map fun post => .ofList post.keys)

/-- The count that the constructor of `RelativeIndex` sums up. -/
def sumOf (server : SearchServer) (request : OrderedSet Word) (fileInd : FileId) : Nat :=
  request.keys.foldl (fun sum word =>
    if server.queryWordMatch = .all ∨ (server.index.getPostingCopyByWord word).isSome then
      match server.index.getPostingCopyByWord word with
      | none => sum
      | some post =>
          match post.find? fileInd with
          | none => sum
          | some frequency => sum + frequency.toNat
    else sum) 0

def relativeIndex (server : SearchServer) (request : OrderedSet Word) (fileInd : FileId) :
    RelativeIndex :=
  ⟨fileInd, server.sumOf request fileInd⟩

/-- `Results.sort()` with `operator<`: stable, greatest count first. -/
def sortResults (results : List RelativeIndex) : List RelativeIndex :=
  results.insertionSort fun left right => right.sum ≤ left.sum

/-- The first results with their rows of the document table. -/
def select (server : SearchServer) (results : List RelativeIndex) :
    List (RelativeIndex × Option DocumentRecord) :=
  ((sortResults results).take server.responseLimit).map fun result =>
    (result, server.documents result.fileId)

def answerItem (result : RelativeIndex) (document : DocumentRecord) (max : Nat) : AnswerItem :=
  ⟨document.path, result.getRelativeIndex max, document.deleted⟩

/-- The loop over the selected results when no other call runs. -/
def answerItems (max : Nat) : List (RelativeIndex × Option DocumentRecord) →
    Except Failure (List AnswerItem)
  | [] => .ok []
  | (_, none) :: _ => .error .missingDocument
  | (result, some document) :: rest =>
      (answerItems max rest).map fun items => answerItem result document max :: items

/-- The maximum after the constructors of the results. -/
def maxSum (results : List RelativeIndex) : Nat :=
  results.foldl (fun max result => if max < result.sum then result.sum else max) 0

/-- `getAnswer` when no other call runs. -/
def getAnswer (server : SearchServer) (text : List Byte) : Except Failure (List AnswerItem) :=
  if !server.accepting then .ok []
  else
    match server.intersectionSetFiles (getUniqWords text) with
    | .error failure => .error failure
    | .ok files =>
        let results := files.keys.map (server.relativeIndex (getUniqWords text))
        if server.storageFailed then .error .storage
        else answerItems (maxSum results) (server.select results)

end SearchServer

/-! ## Specification -/

theorem OrderedSet.mem_keys_insertAll {α : Type} [LinearOrder α] (members : List α)
    (set : OrderedSet α) {member : α} :
    member ∈ (members.foldl (fun set member => set.insert member ()) set).keys ↔
      member ∈ set.keys ∨ member ∈ members := by
  induction members generalizing set with
  | nil => simp
  | cons first rest ih =>
      rw [List.foldl_cons, ih, SortedMap.mem_keys_insert, List.mem_cons]
      constructor
      · rintro ((same | old) | later)
        · exact .inr (.inl same.symm)
        · exact .inl old
        · exact .inr (.inr later)
      · rintro (old | same | later)
        · exact .inl (.inr old)
        · exact .inl (.inl same.symm)
        · exact .inr later

/-- The documents of a request: with every word, or with any. -/
def Matches (mode : QueryWordMatch) (postings : List (Option QueryPostingSet)) (fileId : FileId) :
    Prop :=
  match mode with
  | .any => ∃ posting, some posting ∈ postings ∧ fileId ∈ posting.keys
  | .all => postings ≠ [] ∧ ∀ posting ∈ postings, ∃ present, posting = some present ∧ fileId ∈ present.keys

theorem mem_keys_unionAll (postings : List (Option QueryPostingSet)) (result : QueryPostingSet)
    {fileId : FileId} :
    fileId ∈ (postings.foldl (fun result posting =>
      (posting.getD ∅).keys.foldl (fun result fileId => result.insert fileId ()) result) result).keys ↔
      fileId ∈ result.keys ∨ ∃ posting, some posting ∈ postings ∧ fileId ∈ posting.keys := by
  induction postings generalizing result with
  | nil => simp
  | cons posting rest ih =>
      rw [List.foldl_cons, ih, OrderedSet.mem_keys_insertAll]
      cases posting with
      | none => simp [SortedMap.keys]
      | some present =>
          simp only [Option.getD_some, List.mem_cons, Option.some.injEq]
          grind

theorem mem_keys_intersectAll (others : List QueryPostingSet) (result : QueryPostingSet)
    {fileId : FileId} :
    fileId ∈ (intersectAll result others).keys ↔
      fileId ∈ result.keys ∧ ∀ other ∈ others, fileId ∈ other.keys := by
  induction others generalizing result with
  | nil => simp [intersectAll]
  | cons next rest ih =>
      have common : fileId ∈ (result.filter fun fileId _ => (next.find? fileId).isSome).keys ↔
          fileId ∈ result.keys ∧ fileId ∈ next.keys := by
        simp only [SortedMap.mem_keys_iff, SortedMap.find?_filter]
        cases result.find? fileId <;> cases next.find? fileId <;> simp
      simp only [intersectAll, List.forall_mem_cons]
      split
      · rename_i noneLeft
        have gone : fileId ∉ (result.filter fun fileId _ => (next.find? fileId).isSome).keys := by
          rw [SortedMap.keys, List.isEmpty_iff.mp noneLeft]
          simp
        grind
      · rw [ih, common, and_assoc]

/-- The combined postings are those of the documents that match the request. -/
theorem mem_combineQueryPostings {mode : QueryWordMatch} {postings : List (Option QueryPostingSet)}
    {fileId : FileId} :
    fileId ∈ (combineQueryPostings mode postings).keys ↔ Matches mode postings fileId := by
  cases mode with
  | any =>
      rw [combineQueryPostings, mem_keys_unionAll]
      simp [Matches, SortedMap.keys]
  | all =>
      simp only [combineQueryPostings, Matches]
      split
      · rename_i missing
        obtain ⟨posting, member, isNone⟩ := List.any_eq_true.mp missing
        obtain rfl := Option.isNone_iff_eq_none.mp isNone
        simp only [SortedMap.keys, SortedMap.entries_empty, List.map_nil, List.not_mem_nil, false_iff]
        rintro ⟨_, each⟩
        obtain ⟨_, impossible, _⟩ := each none member
        cases impossible
      · rename_i complete
        have present : ∀ posting ∈ postings, ∃ present, posting = some present := by
          intro posting member
          cases posting with
          | none => exact absurd (List.any_eq_true.mpr ⟨none, member, rfl⟩) complete
          | some present => exact ⟨present, rfl⟩
        have members : ∀ other, other ∈ (postings.filterMap id).insertionSort
            (fun left right => left.entries.length ≤ right.entries.length) ↔ some other ∈ postings := by
          intro other
          rw [List.mem_insertionSort, List.mem_filterMap]
          simp
        split
        · rename_i sorted
          rw [sorted] at members
          have none : postings = [] := by
            refine List.eq_nil_iff_forall_not_mem.mpr fun posting member => ?_
            obtain ⟨other, rfl⟩ := present posting member
            cases (members other).mpr member
          simp [none, SortedMap.keys]
        · rename_i first rest sorted
          rw [sorted] at members
          have each_iff : fileId ∈ (intersectAll first rest).keys ↔
              ∀ other ∈ first :: rest, fileId ∈ other.keys := by
            rw [mem_keys_intersectAll, List.forall_mem_cons]
          rw [each_iff]
          constructor
          · intro each
            refine ⟨List.ne_nil_of_mem ((members first).mp List.mem_cons_self), fun posting member => ?_⟩
            obtain ⟨other, rfl⟩ := present posting member
            exact ⟨other, rfl, each other ((members other).mpr member)⟩
          · rintro ⟨_, each⟩ other member
            obtain ⟨_, ⟨⟩, inside⟩ := each (some other) ((members other).mp member)
            exact inside

namespace SearchServer

theorem maxSum_append_singleton (results : List RelativeIndex) (result : RelativeIndex) :
    maxSum (results ++ [result]) = max (maxSum results) result.sum := by
  rw [maxSum, List.foldl_append]
  simp only [List.foldl_cons, List.foldl_nil]
  rw [← maxSum]
  split <;> omega

theorem le_maxSum {results : List RelativeIndex} {result : RelativeIndex}
    (member : result ∈ results) : result.sum ≤ maxSum results := by
  induction results using List.reverseRecOn with
  | nil => cases member
  | append_singleton earlier last ih =>
      rw [maxSum_append_singleton]
      rcases List.mem_append.mp member with older | new
      · exact (ih older).trans (le_max_left _ _)
      · obtain rfl := List.mem_singleton.mp new
        exact le_max_right _ _

theorem exists_maxSum {results : List RelativeIndex} (positive : 0 < maxSum results) :
    ∃ result ∈ results, result.sum = maxSum results := by
  induction results using List.reverseRecOn with
  | nil => cases positive
  | append_singleton earlier last ih =>
      rw [maxSum_append_singleton] at positive ⊢
      rcases Nat.le_total last.sum (maxSum earlier) with less | more
      · rw [max_eq_left less] at positive ⊢
        obtain ⟨result, member, eq⟩ := ih positive
        exact ⟨result, List.mem_append_left _ member, eq⟩
      · exact ⟨last, List.mem_append_right _ List.mem_cons_self, (max_eq_right more).symm⟩

theorem mem_sortResults {results : List RelativeIndex} {result : RelativeIndex} :
    result ∈ sortResults results ↔ result ∈ results :=
  List.mem_insertionSort _

/-- The first of the sorted results has the greatest count. -/
theorem sum_head_sortResults {results rest : List RelativeIndex} {first : RelativeIndex}
    (positive : 0 < maxSum results) (sorted : sortResults results = first :: rest) :
    first.sum = maxSum results := by
  have ordered : (sortResults results).Pairwise fun left right => right.sum ≤ left.sum := by
    have : Std.Total fun left right : RelativeIndex => right.sum ≤ left.sum :=
      ⟨fun left right => Nat.le_total right.sum left.sum⟩
    have : IsTrans RelativeIndex fun left right => right.sum ≤ left.sum :=
      ⟨fun _ _ _ upper lower => lower.trans upper⟩
    exact List.pairwise_insertionSort _ _
  obtain ⟨greatest, member, eq⟩ := exists_maxSum positive
  have listed := mem_sortResults.mpr member
  rw [sorted] at ordered listed
  have upper : first.sum ≤ maxSum results :=
    le_maxSum (mem_sortResults.mp (sorted ▸ List.mem_cons_self))
  rcases List.mem_cons.mp listed with rfl | later
  · exact eq
  · have lower := (List.pairwise_cons.mp ordered).1 greatest later
    omega

end SearchServer

end SearchEngine.Search
