import Mathlib.Algebra.Order.Field.Basic
import Mathlib.Tactic.Positivity
import SearchEngine.Lib.Machine
import SearchEngine.Search.Query

/-!
# Concurrent searches

Calls of `getAnswer` run together under a shared lock. The maximum by which a
call normalises its counts is a static member: every call sets it to zero,
raises it while the results are built and reads it again for each item of the
answer. A call is independent of the others while none of them moves that
member.
-/

namespace SearchEngine.Search

open SearchEngine.Lib SearchEngine.Index

/-- Where a call stands between two accesses of `RelativeIndex::max`. -/
inductive Phase where
  | entered
  | building (todo : List FileId) (results : List RelativeIndex)
  /-- the constructor has found its count above the maximum and is about to store it -/
  | raising (result : RelativeIndex) (todo : List FileId) (results : List RelativeIndex)
  | answering (todo : List (RelativeIndex × Option DocumentRecord)) (out : List AnswerItem)
  | finished (outcome : Except Failure (List AnswerItem))

/-- The items of a call that has ended with an answer. -/
def Phase.answer? : Phase → Option (List AnswerItem)
  | .finished (.ok items) => some items
  | _ => none

theorem Phase.eq_of_answer? {phase : Phase} {items : List AnswerItem}
    (answered : phase.answer? = some items) : phase = .finished (.ok items) := by
  cases phase with
  | finished outcome =>
      cases outcome with
      | ok others => exact congrArg (fun items => Phase.finished (.ok items)) (Option.some.inj answered)
      | error failure => cases answered
  | _ => cases answered

structure Call where
  text : List Byte
  phase : Phase

/-- The static maximum and the calls under way. -/
structure Searches where
  max : Nat
  calls : List Call

namespace Searches

/-- The calls before their first step, whatever earlier ones left in the maximum. -/
def start (max : Nat) (texts : List (List Byte)) : Searches :=
  ⟨max, texts.map fun text => ⟨text, .entered⟩⟩

end Searches

namespace SearchServer

/-- One step of a call: the maximum afterwards and where the call then stands. -/
def advance (server : SearchServer) (max : Nat) (call : Call) : Option (Nat × Phase) :=
  match call.phase with
  | .entered =>
      if !server.accepting then some (max, .finished (.ok []))
      else
        match server.intersectionSetFiles (getUniqWords call.text) with
        | .error failure => some (0, .finished (.error failure))
        | .ok files => some (0, .building files.keys [])
  | .building (fileInd :: todo) results =>
      let result := server.relativeIndex (getUniqWords call.text) fileInd
      if max < result.sum then some (max, .raising result todo results)
      else some (max, .building todo (results ++ [result]))
  | .building [] results =>
      if server.storageFailed then some (max, .finished (.error .storage))
      else some (max, .answering (server.select results) [])
  | .raising result todo results => some (result.sum, .building todo (results ++ [result]))
  | .answering ((_, none) :: _) _ => some (max, .finished (.error .missingDocument))
  | .answering ((result, some document) :: todo) out =>
      some (max, .answering todo (out ++ [answerItem result document max]))
  | .answering [] out => some (max, .finished (.ok out))
  | .finished _ => none

/-- Any interleaving of the steps of the calls; an action names the call that moves. -/
def searches (server : SearchServer) : Machine Searches Nat where
  step s position :=
    s.calls[position]?.bind fun call =>
      (server.advance s.max call).map fun moved =>
        ⟨moved.1, s.calls.set position { call with phase := moved.2 }⟩

/-! ## The property and its condition -/

/-- The documents that a request finds, with their counts. -/
def resultsOf (server : SearchServer) (text : List Byte) : List RelativeIndex :=
  match server.intersectionSetFiles (getUniqWords text) with
  | .error _ => []
  | .ok files => files.keys.map (server.relativeIndex (getUniqWords text))

/-- The items are the first of the sorted results, each with its own count over
the greatest count of the request: one for the first, between zero and one for all. -/
structure Ranked (server : SearchServer) (text : List Byte) (items : List AnswerItem) : Prop where
  normalised : ∀ (position : Nat) item, items[position]? = some item →
    ∃ (result : RelativeIndex) (document : DocumentRecord),
      (sortResults (server.resultsOf text))[position]? = some result ∧
      server.documents result.fileId = some document ∧
      item = (⟨document.path, .finite (result.sum / maxSum (server.resultsOf text)),
        document.deleted⟩ : AnswerItem)
  first : ∀ item ∈ items.head?, item.relevance = .finite 1
  bounded : ∀ item ∈ items, ∃ value, item.relevance = .finite value ∧ 0 ≤ value ∧ value ≤ 1

/-- Each call that has ended ended as it would alone, with ranked answers. -/
def Independent (server : SearchServer) (s : Searches) : Prop :=
  ∀ call ∈ s.calls, ∀ outcome, call.phase = .finished outcome →
    outcome = server.getAnswer call.text ∧ ∀ items, outcome = .ok items → server.Ranked call.text items

/-- The call has read or will read the maximum to normalise a count of its own. -/
def DependsOnMax (server : SearchServer) (phase : Phase) : Prop :=
  match phase with
  | .entered | .finished _ => False
  | .building todo results => 0 < server.responseLimit ∧ (todo ≠ [] ∨ results ≠ [])
  | .raising _ _ _ => 0 < server.responseLimit
  | .answering todo _ => todo ≠ []

instance (server : SearchServer) (phase : Phase) : Decidable (server.DependsOnMax phase) :=
  match phase with
  | .entered | .finished _ => inferInstanceAs (Decidable False)
  | .building _ _ => inferInstanceAs (Decidable (_ ∧ _))
  | .raising _ _ _ => inferInstanceAs (Decidable (_ < _))
  | .answering todo _ =>
      match todo with
      | [] => isFalse fun wrong => wrong rfl
      | _ :: _ => isTrue (List.cons_ne_nil _ _)

/-- What a step of a call stores in the maximum. -/
def stores (server : SearchServer) (phase : Phase) : Option Nat :=
  match phase with
  | .entered => if server.accepting then some 0 else none
  | .raising result _ _ => some result.sum
  | _ => none

/-- The documents a request finds do not all count zero. -/
def Counted (server : SearchServer) (text : List Byte) : Prop :=
  0 < server.responseLimit → server.resultsOf text ≠ [] → 0 < maxSum (server.resultsOf text)

instance (server : SearchServer) (text : List Byte) : Decidable (server.Counted text) :=
  inferInstanceAs (Decidable (_ → _ → _))

/-- The step changes the maximum under no other call that depends on it. -/
def Undisturbed (server : SearchServer) (s : Searches) (position : Nat) : Prop :=
  ∀ call ∈ s.calls[position]?, ∀ value ∈ server.stores call.phase, value ≠ s.max →
    ∀ other ∈ s.calls.eraseIdx position, ¬ server.DependsOnMax other.phase

instance (server : SearchServer) (s : Searches) (position : Nat) :
    Decidable (server.Undisturbed s position) :=
  inferInstanceAs (Decidable (∀ _ ∈ _, ∀ _ ∈ _, _ → ∀ _ ∈ _, _))

/-! ## Ranked answers -/

variable {server : SearchServer}

theorem ranked_nil (server : SearchServer) (text : List Byte) : server.Ranked text [] where
  normalised _ _ found := by simp at found
  first _ found := by simp at found
  bounded _ member := by cases member

theorem answerItems_getElem? {max : Nat} {selected : List (RelativeIndex × Option DocumentRecord)}
    {items : List AnswerItem} (answered : answerItems max selected = .ok items) {position : Nat}
    {item : AnswerItem} (there : items[position]? = some item) :
    ∃ result document, selected[position]? = some (result, some document) ∧
      item = answerItem result document max := by
  induction selected generalizing items position with
  | nil =>
      obtain rfl := Except.ok.inj answered
      simp at there
  | cons first rest ih =>
      obtain ⟨result, _ | document⟩ := first
      · cases answered
      · simp only [answerItems] at answered
        cases others : answerItems max rest with
        | error failure => simp [others, Except.map] at answered
        | ok tail =>
            simp only [others, Except.map, Except.ok.injEq] at answered
            subst answered
            cases position with
            | zero => exact ⟨result, document, rfl, (Option.some.inj there).symm⟩
            | succ position => exact ih others there

/-- The answer of a call on its own, in terms of what the request finds. -/
theorem getAnswer_of_accepting {text : List Byte} {files : QueryPostingSet}
    (accepting : server.accepting = true)
    (found : server.intersectionSetFiles (getUniqWords text) = .ok files) :
    server.getAnswer text =
      if server.storageFailed then .error .storage
      else answerItems (maxSum (server.resultsOf text)) (server.select (server.resultsOf text)) := by
  simp [getAnswer, resultsOf, accepting, found]

/-- Where the counts of a request are not all zero its answers are ranked. -/
theorem ranked_of_counted {text : List Byte} (counted : server.Counted text)
    {items : List AnswerItem} (answered : server.getAnswer text = .ok items) :
    server.Ranked text items := by
  cases accepting : server.accepting with
  | false =>
      simp only [getAnswer, accepting, Bool.not_false, if_true, Except.ok.injEq] at answered
      exact answered ▸ ranked_nil server text
  | true =>
  cases found : server.intersectionSetFiles (getUniqWords text) with
  | error failure => simp [getAnswer, accepting, found] at answered
  | ok files =>
  rw [getAnswer_of_accepting accepting found] at answered
  split at answered
  case isTrue => cases answered
  case isFalse =>
  have located : ∀ (position : Nat) item, items[position]? = some item → 0 < maxSum (server.resultsOf text) ∧
      ∃ (result : RelativeIndex) (document : DocumentRecord),
        (sortResults (server.resultsOf text))[position]? = some result ∧
        server.documents result.fileId = some document ∧
        item = (⟨document.path, .finite (result.sum / maxSum (server.resultsOf text)),
          document.deleted⟩ : AnswerItem) := by
    intro position item there
    obtain ⟨result, document, selected, rfl⟩ := answerItems_getElem? answered there
    simp only [select, List.getElem?_map, Option.map_eq_some_iff, Prod.mk.injEq] at selected
    obtain ⟨_, taken, rfl, row⟩ := selected
    have bound := (List.getElem?_eq_some_iff.mp taken).1
    simp only [List.length_take, Nat.lt_min] at bound
    have listed := List.getElem?_take_of_lt bound.1 ▸ taken
    have positive : 0 < maxSum (server.resultsOf text) := by
      refine counted (Nat.zero_lt_of_lt bound.1) fun none => ?_
      simp [none, sortResults] at bound
    refine ⟨positive, _, document, listed, row, ?_⟩
    simp [answerItem, RelativeIndex.getRelativeIndex, positive.ne']
  refine ⟨fun position item there => (located position item there).2, ?_, ?_⟩
  · intro item head
    rw [List.head?_eq_getElem?] at head
    obtain ⟨positive, result, document, listed, _, rfl⟩ := located 0 item head
    obtain ⟨rest, sorted⟩ : ∃ rest, sortResults (server.resultsOf text) = result :: rest := by
      cases sorted : sortResults (server.resultsOf text) with
      | nil => simp [sorted] at listed
      | cons first rest =>
          simp only [sorted, List.getElem?_cons_zero, Option.some.injEq] at listed
          exact ⟨rest, by rw [listed]⟩
    have greatest := sum_head_sortResults positive sorted
    have nonzero : (maxSum (server.resultsOf text) : ℚ) ≠ 0 := by exact_mod_cast positive.ne'
    simp only [greatest, div_self nonzero]
  · intro item member
    obtain ⟨position, there⟩ := List.mem_iff_getElem?.mp member
    obtain ⟨positive, result, document, listed, _, rfl⟩ := located position item there
    have upper := le_maxSum (mem_sortResults.mp (List.mem_of_getElem? listed))
    refine ⟨_, rfl, by positivity, ?_⟩
    exact div_le_one_of_le₀ (by exact_mod_cast upper) (by positivity)

/-! ## The invariant -/

/-- The guard admits the call and the index answers it. -/
structure Admitted (server : SearchServer) (text : List Byte) : Prop where
  accepting : server.accepting = true
  found : ∃ files, server.intersectionSetFiles (getUniqWords text) = .ok files

/-- How far a call has come, and the value it relies on. -/
def Follows (server : SearchServer) (max : Nat) (call : Call) : Prop :=
  match call.phase with
  | .entered => True
  | .building todo results =>
      server.Admitted call.text ∧
      results ++ todo.map (server.relativeIndex (getUniqWords call.text)) = server.resultsOf call.text ∧
      (server.DependsOnMax call.phase → max = maxSum results)
  | .raising result todo results =>
      server.Admitted call.text ∧
      results ++ result :: todo.map (server.relativeIndex (getUniqWords call.text)) =
        server.resultsOf call.text ∧
      (server.DependsOnMax call.phase → max = maxSum results ∧ max < result.sum)
  | .answering todo out =>
      server.Admitted call.text ∧
      (server.DependsOnMax call.phase → max = maxSum (server.resultsOf call.text)) ∧
      server.getAnswer call.text =
        (answerItems (maxSum (server.resultsOf call.text)) todo).map (out ++ ·)
  | .finished outcome => outcome = server.getAnswer call.text

/-- A call that does not depend on the maximum follows under any other value. -/
theorem follows_of_not_depends {max other : Nat} {call : Call} (follows : server.Follows max call)
    (free : ¬ server.DependsOnMax call.phase) : server.Follows other call := by
  obtain ⟨text, phase⟩ := call
  cases phase with
  | entered => trivial
  | building todo results => exact ⟨follows.1, follows.2.1, fun wrong => absurd wrong free⟩
  | raising result todo results => exact ⟨follows.1, follows.2.1, fun wrong => absurd wrong free⟩
  | answering todo out => exact ⟨follows.1, fun wrong => absurd wrong free, follows.2.2⟩
  | finished outcome => exact follows

/-- A step stores what it announces, or leaves the maximum. -/
theorem advance_max {max next : Nat} {call : Call} {phase : Phase}
    (moved : server.advance max call = some (next, phase)) :
    next = max ∨ next ∈ server.stores call.phase := by
  obtain ⟨text, before⟩ := call
  cases before with
  | entered =>
      simp only [advance] at moved
      cases accepting : server.accepting with
      | false => simp_all
      | true =>
          simp only [accepting, Bool.not_true, Bool.false_eq_true, if_false] at moved
          split at moved <;> obtain ⟨rfl, _⟩ := Prod.mk.inj (Option.some.inj moved) <;>
            simp [stores, accepting]
  | building todo results =>
      left
      cases todo with
      | nil =>
          simp only [advance] at moved
          split at moved <;> exact (Prod.mk.inj (Option.some.inj moved)).1.symm
      | cons fileInd todo =>
          simp only [advance] at moved
          split at moved <;> exact (Prod.mk.inj (Option.some.inj moved)).1.symm
  | raising result todo results =>
      obtain ⟨rfl, _⟩ := Prod.mk.inj (Option.some.inj moved)
      exact .inr rfl
  | answering todo out =>
      left
      match todo, moved with
      | [], moved => exact (Prod.mk.inj (Option.some.inj moved)).1.symm
      | (_, none) :: _, moved => exact (Prod.mk.inj (Option.some.inj moved)).1.symm
      | (_, some _) :: _, moved => exact (Prod.mk.inj (Option.some.inj moved)).1.symm
  | finished outcome => cases moved

/-- A step of a call that follows. -/
theorem follows_advance {max next : Nat} {call : Call} {phase : Phase}
    (follows : server.Follows max call)
    (moved : server.advance max call = some (next, phase)) :
    server.Follows next { call with phase := phase } := by
  obtain ⟨text, before⟩ := call
  cases before with
  | entered =>
      simp only [advance] at moved
      cases accepting : server.accepting with
      | false =>
          simp only [accepting, Bool.not_false, if_true] at moved
          obtain ⟨rfl, rfl⟩ := Prod.mk.inj (Option.some.inj moved)
          simp [Follows, getAnswer, accepting]
      | true =>
          simp only [accepting, Bool.not_true, Bool.false_eq_true, if_false] at moved
          split at moved
          case h_1 failure failed =>
            obtain ⟨rfl, rfl⟩ := Prod.mk.inj (Option.some.inj moved)
            simp [Follows, getAnswer, accepting, failed]
          case h_2 files found =>
            obtain ⟨rfl, rfl⟩ := Prod.mk.inj (Option.some.inj moved)
            exact ⟨⟨accepting, files, found⟩, by simp [resultsOf, found], fun _ => rfl⟩
  | building todo results =>
      obtain ⟨admitted, complete, relies⟩ := follows
      cases todo with
      | nil =>
          simp only [List.map_nil, List.append_nil] at complete
          obtain ⟨files, found⟩ := admitted.found
          have alone := getAnswer_of_accepting admitted.accepting found
          simp only [advance] at moved
          split at moved
          case isTrue failed =>
            obtain ⟨rfl, rfl⟩ := Prod.mk.inj (Option.some.inj moved)
            simp only [Follows, alone, failed, if_true]
          case isFalse healthy =>
            obtain ⟨rfl, rfl⟩ := Prod.mk.inj (Option.some.inj moved)
            refine ⟨admitted, ?_, ?_⟩
            · intro depends
              rw [← complete]
              refine relies ⟨?_, .inr ?_⟩
              · by_contra none
                exact depends (by simp [select, Nat.eq_zero_of_not_pos none])
              · rintro rfl
                exact depends (by simp [select, sortResults])
            · simp only [alone, complete, healthy]
              cases answerItems (maxSum (server.resultsOf text)) (server.select (server.resultsOf text)) <;>
                simp [Except.map]
      | cons fileInd todo =>
          have relied : 0 < server.responseLimit → max = maxSum results :=
            fun some => relies ⟨some, .inl (List.cons_ne_nil _ _)⟩
          simp only [advance] at moved
          split at moved
          case isTrue above =>
            obtain ⟨rfl, rfl⟩ := Prod.mk.inj (Option.some.inj moved)
            exact ⟨admitted, complete, fun some => ⟨relied some, above⟩⟩
          case isFalse below =>
            obtain ⟨rfl, rfl⟩ := Prod.mk.inj (Option.some.inj moved)
            refine ⟨admitted, by rw [← complete]; simp, fun depends => ?_⟩
            rw [maxSum_append_singleton, ← relied depends.1]
            omega
  | raising result todo results =>
      obtain ⟨admitted, complete, relies⟩ := follows
      obtain ⟨rfl, rfl⟩ := Prod.mk.inj (Option.some.inj moved)
      refine ⟨admitted, by rw [← complete]; simp, fun depends => ?_⟩
      obtain ⟨relied, above⟩ := relies depends.1
      rw [maxSum_append_singleton]
      omega
  | answering todo out =>
      obtain ⟨admitted, relies, outcome⟩ := follows
      match todo, moved, relies, outcome with
      | [], moved, relies, outcome =>
          obtain ⟨rfl, rfl⟩ := Prod.mk.inj (Option.some.inj moved)
          simp only [answerItems, Except.map, List.append_nil] at outcome
          exact outcome.symm
      | (result, none) :: todo, moved, relies, outcome =>
          obtain ⟨rfl, rfl⟩ := Prod.mk.inj (Option.some.inj moved)
          exact outcome.symm
      | (result, some document) :: todo, moved, relies, outcome =>
          obtain ⟨rfl, rfl⟩ := Prod.mk.inj (Option.some.inj moved)
          have relied := relies (List.cons_ne_nil _ _)
          refine ⟨admitted, fun _ => relied, ?_⟩
          rw [outcome, relied]
          simp only [answerItems]
          cases answerItems (maxSum (server.resultsOf text)) todo <;> simp [Except.map]
  | finished outcome => cases moved

/-- The invariant of undisturbed runs. -/
def AllFollow (server : SearchServer) (s : Searches) : Prop :=
  ∀ call ∈ s.calls, server.Follows s.max call

theorem allFollow_start (server : SearchServer) (max : Nat) (texts : List (List Byte)) :
    server.AllFollow (.start max texts) := by
  intro call member
  obtain ⟨text, _, rfl⟩ := List.mem_map.mp member
  trivial

theorem allFollow_step {s next : Searches} {position : Nat} (all : server.AllFollow s)
    (undisturbed : server.Undisturbed s position)
    (stepped : server.searches.step s position = some next) : server.AllFollow next := by
  obtain ⟨call, there, moved⟩ := Option.bind_eq_some_iff.mp stepped
  obtain ⟨⟨max, phase⟩, advanced, rfl⟩ := Option.map_eq_some_iff.mp moved
  have quiet := undisturbed call there
  intro other member
  obtain ⟨index, found⟩ := List.mem_iff_getElem?.mp member
  by_cases same : index = position
  · subst same
    have bound := (List.getElem?_eq_some_iff.mp there).1
    simp only [List.getElem?_set_self bound, Option.some.injEq] at found
    subst found
    exact follows_advance (all call (List.mem_of_getElem? there)) advanced
  · simp only [List.getElem?_set_ne (Ne.symm same)] at found
    have follows := all other (List.mem_of_getElem? found)
    by_cases kept : max = s.max
    · exact kept.symm ▸ follows
    · have stored := (advance_max advanced).resolve_left kept
      have elsewhere : other ∈ s.calls.eraseIdx position :=
        List.mem_eraseIdx_iff_getElem?.mpr ⟨index, same, found⟩
      exact follows_of_not_depends follows (quiet max stored kept other elsewhere)

/-- No step changes the request of a call. -/
theorem texts_step {s next : Searches} {position : Nat}
    (stepped : server.searches.step s position = some next) :
    next.calls.map Call.text = s.calls.map Call.text := by
  obtain ⟨call, there, moved⟩ := Option.bind_eq_some_iff.mp stepped
  obtain ⟨⟨max, phase⟩, _, rfl⟩ := Option.map_eq_some_iff.mp moved
  obtain ⟨bound, at_position⟩ := List.getElem?_eq_some_iff.mp there
  rw [List.map_set, ← at_position]
  apply List.ext_getElem?
  intro index
  by_cases same : position = index
  · subst same
    simp [bound]
  · rw [List.getElem?_set_ne same]

/-- In every run whose steps disturb no other call, of requests that find some
count, each call that has ended returned what it returns alone, ranked by its own
greatest count. -/
theorem independent_of_undisturbed (server : SearchServer) (max : Nat) (texts : List (List Byte))
    (schedule : List Nat)
    (undisturbed : server.searches.Conforms server.Undisturbed (.start max texts) schedule)
    (counted : ∀ text ∈ texts, server.Counted text) :
    server.searches.Throughout server.Independent (.start max texts) schedule := by
  have implies : ∀ s : Searches, server.AllFollow s ∧ s.calls.map Call.text = texts →
      server.Independent s := by
    rintro s ⟨all, kept⟩ ⟨text, _⟩ member outcome rfl
    have alone : outcome = server.getAnswer text := all _ member
    refine ⟨alone, fun items answered => ?_⟩
    exact ranked_of_counted (counted text (kept ▸ List.mem_map_of_mem member))
      (alone.symm.trans answered)
  refine Machine.throughout_of_conforms implies ?_ ?_ undisturbed
  · rintro s position next ⟨all, kept⟩ allowed stepped
    exact ⟨allFollow_step all allowed stepped, (texts_step stepped).trans kept⟩
  · exact ⟨allFollow_start server max texts, by simp [Searches.start, Function.comp_def]⟩

/-- `getAnswer` is what a call returns that no other runs beside. -/
theorem outcome_of_single (server : SearchServer) (max : Nat) (text : List Byte)
    (schedule : List Nat) {final : Searches}
    (done : server.searches.run (.start max [text]) schedule = some final)
    {call : Call} (member : call ∈ final.calls) {outcome : Except Failure (List AnswerItem)}
    (ended : call.phase = .finished outcome) : outcome = server.getAnswer text := by
  have single : ∀ s : Searches, s.calls.map Call.text = [text] → ∀ position, server.Undisturbed s position := by
    intro s kept position call there value _ _ other member
    obtain ⟨only, only_eq⟩ : ∃ only, s.calls = [only] := by
      match s.calls, kept with
      | [only], _ => exact ⟨only, rfl⟩
    cases position with
    | zero => simp [only_eq] at member
    | succ position => simp [only_eq] at there
  have initial : server.AllFollow (.start max [text]) ∧
      (Searches.start max [text]).calls.map Call.text = [text] :=
    ⟨allFollow_start server max [text], by simp [Searches.start]⟩
  have preserved : ∀ s position next,
      server.AllFollow s ∧ s.calls.map Call.text = [text] →
        server.searches.step s position = some next →
          server.AllFollow next ∧ next.calls.map Call.text = [text] := by
    rintro s position next ⟨all, kept⟩ stepped
    exact ⟨allFollow_step all (single s kept position) stepped, (texts_step stepped).trans kept⟩
  obtain ⟨all, kept⟩ : server.AllFollow final ∧ final.calls.map Call.text = [text] :=
    Machine.invariant_reachable preserved initial done
  obtain rfl : call.text = text := List.mem_singleton.mp (kept ▸ List.mem_map_of_mem member)
  have follows := all call member
  rw [Follows, ended] at follows
  exact follows

/-! ## Two requests on two documents -/

/-- `ALPHA` occurs twice in the first document, `BETA` five times in the second. -/
def twoDocuments : SearchServer where
  index :=
    { InvertedIndex.empty with
      wordIds := .ofList [Word.ofAscii "ALPHA", Word.ofAscii "BETA"]
      dictionary := [(∅ : PostingList).insert 0 2, (∅ : PostingList).insert 1 5] }
  storageFailed := false
  documents fileId := some ⟨fileId, "D:/a.txt".toList, ⟨0, 1⟩, false⟩
  queryWordMatch := .all
  maxResponse := 10
  accepting := true

/-- The second call enters when the first has ended. -/
theorem independent_of_undisturbed_oneAfterAnother :
    twoDocuments.searches.Throughout twoDocuments.Independent
      (.start 0 [Word.ofAscii "ALPHA", Word.ofAscii "BETA"]) [0, 0, 0, 0, 0, 0, 1, 1, 1, 1, 1, 1] :=
  twoDocuments.independent_of_undisturbed 0 [Word.ofAscii "ALPHA", Word.ofAscii "BETA"] _
    (by decide +kernel) (by decide +kernel)

/-- The second call builds its results before the first reads the maximum back. -/
theorem not_independent_overlapping :
    ¬ ∀ (server : SearchServer) (max : Nat) (texts : List (List Byte)) (schedule : List Nat)
      (final : Searches), server.searches.run (.start max texts) schedule = some final →
        server.Independent final := by
  intro claim
  have outcome : (twoDocuments.searches.run (.start 0 [Word.ofAscii "ALPHA", Word.ofAscii "BETA"])
      [0, 0, 0, 0, 1, 1, 1, 0, 0]).map (fun final =>
        (final.calls[0]?.map Call.text, final.calls[0]?.bind fun call => call.phase.answer?)) =
      some (some (Word.ofAscii "ALPHA"), some [⟨"D:/a.txt".toList, .finite (2 / 5), false⟩]) := by
    decide +kernel
  obtain ⟨final, done, seen⟩ := Option.map_eq_some_iff.mp outcome
  obtain ⟨text, answered⟩ := Prod.mk.inj seen
  obtain ⟨call, there, answered⟩ := Option.bind_eq_some_iff.mp answered
  rw [there] at text
  have alone := (claim twoDocuments 0 _ _ final done call (List.mem_of_getElem? there) _
    (Phase.eq_of_answer? answered)).1
  rw [Option.some.inj text] at alone
  exact absurd alone (by decide +kernel)

end SearchServer

end SearchEngine.Search
