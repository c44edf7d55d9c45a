import SearchEngine.Index.PointUpdates

/-!
# Point updates converge

A run of point updates whose steps meet `ConvergesStep` ends, once nothing is
pending, with every changed file as its last event left it (`PointResults`).
-/

namespace SearchEngine.Index

open SearchEngine.Lib

namespace System

variable {oem : OemTable} {storage : CatalogStorage} {db : Database} {precountPostings : Bool}
  {s : System} {history : History} {actions : List Action} {final : System × History}

/-- What point updates leave behind: a file last changed by an update is listed with
the words of the content read for it and is not deleted; a file last changed by a
deletion is flagged everywhere and keeps the postings it was last indexed with. -/
structure PointResults (oem : OemTable) (s : System) (history : History) : Prop where
  updated : ∀ path ticket bytes, history.lastChange path = some (.update ticket) →
    history.contentRead ticket = some bytes → ∃ fileId,
      s.catalog.standing s.db path = some (fileId, false, false) ∧ s.db.rowDeleted fileId = false ∧
        ∀ word, s.index.answer word fileId = countedAnswer oem bytes word
  deleted : ∀ path, history.lastChange path = some .deletion → ∃ fileId,
    s.catalog.standing s.db path = some (fileId, true, true) ∧ s.db.rowDeleted fileId = true ∧
      ∀ word, s.index.answer word fileId = history.lastIndexed fileId word

/-- An idle convergent system shows the results of its point updates. -/
theorem Convergent.results (convergent : s.Convergent oem history) (coherent : s.Coherent history)
    (idle : s.Idle) : s.PointResults oem history := by
  have grounded : ∀ fileId, fileId ∉ s.inFlight := by
    intro fileId
    rw [idle.inFlight_eq]
    exact List.not_mem_nil
  have answers : ∀ fileId word, s.index.answer word fileId = history.expected fileId word := by
    intro fileId word
    rw [InvertedIndex.answer_eq_drainedAnswer coherent.postings.flat, ← idle.pendingTasks_eq]
    exact coherent.postings.stored fileId (grounded fileId) word
  constructor
  case updated =>
    intro path ticket bytes change read
    obtain ⟨fileId, _, settled⟩ := (convergent.known path).updated ticket bytes change read
    obtain ⟨standing, unflagged, expected⟩ := settled (grounded fileId)
    refine ⟨fileId, standing, unflagged, fun word => ?_⟩
    rw [answers, expected]
  case deleted =>
    intro path change
    obtain ⟨fileId, standing, flagged, read⟩ := (convergent.known path).deleted change
    refine ⟨fileId, standing, flagged, fun word => ?_⟩
    rw [answers, convergent.indexed fileId read]

/-- An index started on a database with unique paths. -/
theorem convergent_start (unique : db.PathsUnique)
    (started : start storage db precountPostings = some s) : s.Convergent oem s.loadedHistory := by
  obtain ⟨index, _, rfl⟩ := Option.map_eq_some_iff.mp started
  constructor
  case paths => exact DocumentCatalog.pathsAgree_openCatalog storage unique
  case written => rfl
  case tickets =>
    constructor
    case distinct => exact List.nodup_nil
    case waiting => exact fun _ waiting => by cases waiting
    case issued => exact fun _ _ change => by cases change
    case read => exact fun _ _ => rfl
    case single => exact fun _ _ _ change => by cases change
  case known =>
    intro path
    constructor
    case indexing => exact fun _ member => by cases member
    case batches => exact fun _ member => by cases member
    case deletions => exact fun _ _ member => by cases member
    case updated => exact fun _ _ change => by cases change
    case deleted => exact fun change => by cases change
  case indexed => exact fun _ _ => rfl

/-- A run of steps that converge keeps the system coherent and convergent. -/
theorem Convergent.run (convergent : s.Convergent oem history) (coherent : s.Coherent history)
    (conforms : (monitored oem).Conforms
      (fun state action => state.1.ConvergesStep state.2 action) (s, history) actions)
    (done : (monitored oem).run (s, history) actions = some final) :
    final.1.Convergent oem final.2 ∧ final.1.Coherent final.2 := by
  let invariant : System × History → Prop := fun state =>
    state.1.Convergent oem state.2 ∧ state.1.Coherent state.2
  have kept : ∀ state action after, invariant state → state.1.ConvergesStep state.2 action →
      (monitored oem).step state action = some after → invariant after := by
    rintro ⟨before, recorded⟩ action after ⟨known, sound⟩ allowed taken
    obtain ⟨reached, stepped, rfl⟩ := Option.map_eq_some_iff.mp taken
    exact ⟨known.step sound allowed stepped, sound.step allowed.2.1 stepped⟩
  have initial : invariant (s, history) := ⟨convergent, coherent⟩
  exact Machine.invariant_run kept initial conforms done

/-- Point updates converge for every schedule whose changes of one file do not overlap,
whose deletions find a read and written document, and whose counts fit. -/
theorem pointResults_of_converges (resolves : db.PostingsResolve) (unique : db.PathsUnique)
    (started : start storage db precountPostings = some s)
    (conforms : (monitored oem).Conforms
      (fun state action => state.1.ConvergesStep state.2 action) (s, s.loadedHistory) actions)
    (done : (monitored oem).run (s, s.loadedHistory) actions = some final) (idle : final.1.Idle) :
    final.1.PointResults oem final.2 := by
  obtain ⟨convergent, coherent⟩ := (convergent_start unique started).run
    (coherent_start resolves started) conforms done
  exact convergent.results coherent idle

/-- Two files are updated in turn, then the first is deleted. -/
def updateAndDeletion : List Action :=
  [.enqueueFileUpdate "a".toList (some ⟨1, 9⟩), .enqueueFileUpdate "b".toList (some ⟨1, 4⟩),
    .runStrand .increasing, .runStrand .increasing,
    .runIndexing 1 (some (Word.ofAscii "ANNA")) (batchList .plain (Word.ofAscii "ANNA")),
    .runIndexing 0 (some (Word.ofAscii "EVA EVA")) (batchList .plain (Word.ofAscii "EVA EVA")),
    .runStrand .increasing, .runStrand .increasing, .enqueueFileDeletion "a".toList,
    .runCommit 1, .runStrand .increasing, .runCommit 0]

theorem pointResults_of_converges_updateAndDeletion :
    ∃ final, (monitored .plain).run (emptyStart, emptyStart.loadedHistory) updateAndDeletion =
        some final ∧ final.1.PointResults .plain final.2 := by
  have computed : ((monitored .plain).run (emptyStart, emptyStart.loadedHistory)
      updateAndDeletion).any (fun final => decide final.1.Idle) = true := by decide +kernel
  obtain ⟨final, done, idle⟩ := (Option.any_eq_true _ _).mp computed
  exact ⟨final, done, pointResults_of_converges postingsResolve_empty
    (fun _ _ _ _ stored => by cases stored) started_emptyStart (by decide +kernel) done
    (of_decide_eq_true idle)⟩

/-- The second change of a file starts before the postings of the first are added. -/
def overlappingUpdates : List Action :=
  [.enqueueFileUpdate "a".toList (some ⟨1, 4⟩), .enqueueFileUpdate "a".toList (some ⟨2, 4⟩),
    .runStrand .increasing, .runStrand .increasing,
    .runIndexing 0 (some (Word.ofAscii "ANNA")) (batchList .plain (Word.ofAscii "ANNA")),
    .runIndexing 0 (some (Word.ofAscii "ANNA")) (batchList .plain (Word.ofAscii "ANNA")),
    .runStrand .increasing, .runStrand .increasing, .runCommit 0, .runCommit 0]

/-- The word is counted twice. -/
theorem not_pointResults_overlappingUpdates :
    (∀ action ∈ overlappingUpdates, PointAction action) ∧
      ∃ final, (monitored .plain).run (emptyStart, emptyStart.loadedHistory) overlappingUpdates =
          some final ∧ final.1.Idle ∧ ¬ final.1.PointResults .plain final.2 := by
  refine ⟨by decide, ?_⟩
  have computed : ((monitored .plain).run (emptyStart, emptyStart.loadedHistory)
      overlappingUpdates).any (fun final => decide (final.1.Idle ∧
        final.2.lastChange "a".toList = some (.update 1) ∧
        final.2.contentRead 1 = some (Word.ofAscii "ANNA") ∧
        final.1.catalog.standing final.1.db "a".toList = some (0, false, false) ∧
        final.1.index.answer (Word.ofAscii "ANNA") 0 = some 2)) = true := by decide +kernel
  obtain ⟨final, done, facts⟩ := (Option.any_eq_true _ _).mp computed
  obtain ⟨idle, change, read, standing, answer⟩ := of_decide_eq_true facts
  refine ⟨final, done, idle, fun results => ?_⟩
  obtain ⟨fileId, found, _, answers⟩ := results.updated _ 1 _ change read
  obtain ⟨rfl, _⟩ := Prod.mk.inj (Option.some.inj (standing.symm.trans found))
  have counted : countedAnswer .plain (Word.ofAscii "ANNA") (Word.ofAscii "ANNA") = some 1 := by
    decide +kernel
  have twice := answers (Word.ofAscii "ANNA")
  rw [answer, counted] at twice
  exact absurd twice (by decide)

end System

end SearchEngine.Index
