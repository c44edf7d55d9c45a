import SearchEngine.Index.CatalogPaths

/-!
# Point updates under every schedule

The events of a path post an upsert or a soft deletion to the strand; the read, the
batch and the commit of an update follow in any interleaving with the tasks of
other events. `Convergent` says what these tasks know of the path they work for,
and `PointResults` what a run leaves behind once nothing is pending. Two changes
of one file that overlap are not covered; the run at the end counts the words of
such a file twice.
-/

namespace SearchEngine.Index

open SearchEngine.Lib

/-- The stored count of a word in a content, if it occurs. -/
def countedAnswer (oem : OemTable) (bytes : List Byte) (word : Word) : Option UInt16 :=
  if occurrences oem bytes word = 0 then none else some (saturateCount (occurrences oem bytes word))

/-- The counts of a batch list the words of its content in some order. -/
theorem batchCounts_of_perm_batchList {oem : OemTable} {list : List (Word × UInt32)}
    {bytes : List Byte} (permuted : list.Perm (batchList oem bytes))
    (fits : ∀ entry ∈ list, CountFits entry.2.toNat) (word : Word) :
    InvertedIndex.batchCounts list word = countedAnswer oem bytes word := by
  have distinct := (System.words_of_perm_batchList permuted).1
  rw [InvertedIndex.batchCounts, countedAnswer, occurrences]
  cases counted : (frequencies oem bytes).find? word with
  | none =>
      have absent : SortedMap.findEntry word list = none := by
        by_contra present
        obtain ⟨count, found⟩ := Option.ne_none_iff_exists'.mp present
        have listed := permuted.mem_iff.mp (SortedMap.mem_of_findEntry_eq_some found)
        obtain ⟨entry, member, same⟩ := List.mem_map.mp listed
        obtain ⟨rfl, _⟩ := Prod.mk.inj same
        rw [SortedMap.mem_entries_iff.mp member] at counted
        cases counted
      simp [absent]
  | some count =>
      have member := SortedMap.mem_entries_iff.mpr counted
      have listed : (word, clampCount count) ∈ list :=
        permuted.mem_iff.mpr (List.mem_map.mpr ⟨(word, count), member, rfl⟩)
      have positive : 0 < count := pos_of_mem_frequencies member
      have fitting : CountFits (clampCount count).toNat := fits (word, clampCount count) listed
      rw [CountFits, saturateCount_clampCount, wrapCount, clampCount_toNat] at fitting
      rw [(SortedMap.findEntry_eq_some_iff distinct).mpr listed, Option.map_some, Option.getD_some,
        if_neg positive.ne', fitting]

namespace Database

/-- A soft deletion written alone flags the row of its document. -/
theorem docs_writeBatch_markDeleted {db after : Database} {order : IterationOrder} {marked : FileId}
    (written : db.writeBatch order [.markDeleted marked] = some after) (fileId : FileId) :
    after.docs.find? fileId =
      if fileId = marked then (db.docs.find? fileId).map fun row => { row with deleted := true }
      else db.docs.find? fileId := by
  have records := congrArg DocRecord.row (congrFun (writeBatch_spec written).1 fileId)
  have applied : mirrorRules.applyAll db.records [.markDeleted marked] fileId =
      mirrorRules.applyOp db.records (.markDeleted marked) fileId := rfl
  rw [applied, applyOp_markDeleted] at records
  refine records.trans ?_
  split <;> rfl

/-- A document written alone has the row of the write. -/
theorem docs_writeBatch_write {db after : Database} {order : IterationOrder} {file : FileWrite}
    (written : db.writeBatch order [.write file] = some after) (fileId : FileId) :
    after.docs.find? fileId =
      if fileId = file.fileId then
        some ⟨file.path, file.mtimeTicks, file.size, file.markDeletedAfterWrite⟩
      else db.docs.find? fileId := by
  have records := congrArg DocRecord.row (congrFun (writeBatch_spec written).1 fileId)
  have applied : mirrorRules.applyAll db.records [.write file] fileId =
      mirrorRules.applyOp db.records (.write file) fileId := rfl
  rw [applied, applyOp_write] at records
  refine records.trans ?_
  split <;> rfl

theorem rowDeleted_congr {db after : Database} {fileId : FileId}
    (same : after.docs.find? fileId = db.docs.find? fileId) :
    after.rowDeleted fileId = db.rowDeleted fileId := by
  rw [rowDeleted, same, rowDeleted]

end Database

namespace DocumentCatalog

variable {catalog : DocumentCatalog} {db : Database}

theorem standing_eq_some_iff {path : Path} {fileId : FileId} {flags : Bool × Bool} :
    catalog.standing db path = some (fileId, flags) ↔
      ∃ record, catalog.findByPath db path = some record ∧ record.id = fileId ∧
        (record.deleted, catalog.isDeleted db record.id) = flags := by
  simp only [standing, Option.map_eq_some_iff, Prod.mk.injEq]

/-- Different paths have different numbers. -/
theorem PathsAgree.path_eq (agree : catalog.PathsAgree db) {left right : Path} {fileId : FileId}
    {leftFlags rightFlags : Bool × Bool} (leftStanding : catalog.standing db left = some (fileId, leftFlags))
    (rightStanding : catalog.standing db right = some (fileId, rightFlags)) : left = right := by
  obtain ⟨leftRecord, leftFound, rfl, _⟩ := standing_eq_some_iff.mp leftStanding
  obtain ⟨rightRecord, rightFound, same, _⟩ := standing_eq_some_iff.mp rightStanding
  exact agree.injective left right leftRecord rightRecord leftFound rightFound same.symm

end DocumentCatalog

/-- The path a batch or a deletion works for. -/
def StrandTask.pathOf : StrandTask → Option Path
  | .processBatch batch => some batch.path
  | .softDelete _ _ path => some path
  | _ => none

/-- The ticket of an upsert. -/
def StrandTask.updateTicket : StrandTask → Option Nat
  | .upsert ticket _ _ => some ticket
  | _ => none

namespace System

variable {oem : OemTable} {s next : System} {history : History}

/-- The tickets of the upserts the strand has not run. -/
def waitingTickets (s : System) : List Nat := s.strand.filterMap StrandTask.updateTicket

/-- The catalog holds the path active under this number; if queries still see it as
deleted, its row is flagged. -/
def ActiveAs (s : System) (path : Path) (fileId : FileId) : Prop :=
  ∃ flag, s.catalog.standing s.db path = some (fileId, false, flag) ∧
    (flag = true → s.db.rowDeleted fileId = true)

/-- Every full update stays out of the way of the point updates. -/
def PointAction : Action → Prop
  | .updateDocumentBase _ _ | .finishUpdate _ => False
  | _ => True

instance (action : Action) : Decidable (PointAction action) :=
  match action with
  | .updateDocumentBase _ _ | .finishUpdate _ => isFalse not_false
  | .enqueueFileUpdate _ _ | .enqueueFileDeletion _ | .compact _ | .runStrand _ | .runIndexing _ _ _
  | .runCommit _ | .writeQueue _ => isTrue trivial

/-- The condition on the strand task about to run: a deletion finds its document
read, written and not in flight; the counts of a batch fit, and a file without
words has no row flagged as deleted. -/
def ConvergesStrand (s : System) (history : History) : StrandTask → Prop
  | .softDelete _ id path => id ∉ s.inFlight ∧ (s.db.docs.find? id).isSome = true ∧
      s.catalog.Persisted path ∧ history.unread id = false
  | .processBatch batch => (∀ entry ∈ batch.list, CountFits entry.2.toNat) ∧
      (batch.list = [] → s.db.rowDeleted batch.fileId = false)
  | _ => True

instance (s : System) (history : History) (task : StrandTask) :
    Decidable (s.ConvergesStrand history task) :=
  match task with
  | .softDelete _ _ _ => inferInstanceAs (Decidable (_ ∧ _ = true ∧ DocumentCatalog.Persisted _ _ ∧ _))
  | .processBatch batch => inferInstanceAs (Decidable ((∀ entry ∈ batch.list, _) ∧ (_ → _)))
  | .upsert _ _ _ | .compact _ => isTrue trivial

/-- The strand task an action runs. -/
def strandTask (s : System) : Action → Option StrandTask
  | .runStrand _ => s.strand.head?
  | _ => none

/-- The condition on a step of a point update. -/
def ConvergesStep (s : System) (history : History) (action : Action) : Prop :=
  PointAction action ∧ s.Tame action ∧ ∀ task ∈ s.strandTask action, s.ConvergesStrand history task

instance (s : System) (history : History) (action : Action) :
    Decidable (s.ConvergesStep history action) :=
  inferInstanceAs (Decidable (_ ∧ _ ∧ ∀ task ∈ s.strandTask action, _))

/-- The tickets of the upserts are fresh, those of the last changes distinct. -/
structure FreshTickets (s : System) (history : History) : Prop where
  distinct : s.waitingTickets.Nodup
  waiting : ∀ ticket ∈ s.waitingTickets, ticket < s.nextTicket ∧
    history.contentRead ticket = none ∧ ∀ path, history.lastChange path ≠ some (.update ticket)
  issued : ∀ path ticket, history.lastChange path = some (.update ticket) → ticket < s.nextTicket
  read : ∀ ticket, s.nextTicket ≤ ticket → history.contentRead ticket = none
  single : ∀ left right ticket, history.lastChange left = some (.update ticket) →
    history.lastChange right = some (.update ticket) → left = right

/-- What the tasks that work for a path, and the last change of the path, know of its
document. -/
structure PathConvergent (oem : OemTable) (s : System) (history : History) (path : Path) : Prop where
  indexing : ∀ task ∈ s.indexing, task.path = path →
    task.requireCatalogCommitBeforePublish = true ∧ ∃ ticket, task.ticket = some ticket ∧
      history.lastChange path = some (.update ticket) ∧ history.contentRead ticket = none ∧
      s.ActiveAs path task.fileId
  batches : ∀ batch, StrandTask.processBatch batch ∈ s.strand → batch.path = path →
    batch.requireCatalogCommitBeforePublish = true ∧ ∃ ticket bytes, batch.ticket = some ticket ∧
      history.lastChange path = some (.update ticket) ∧ history.contentRead ticket = some bytes ∧
      batch.list.Perm (batchList oem bytes) ∧ s.ActiveAs path batch.fileId
  deletions : ∀ ticket id, StrandTask.softDelete ticket id path ∈ s.strand →
    ∃ flags, s.catalog.standing s.db path = some (id, flags)
  updated : ∀ ticket bytes, history.lastChange path = some (.update ticket) →
    history.contentRead ticket = some bytes → ∃ fileId, s.ActiveAs path fileId ∧
      (fileId ∉ s.inFlight → s.catalog.standing s.db path = some (fileId, false, false) ∧
        s.db.rowDeleted fileId = false ∧ history.expected fileId = countedAnswer oem bytes)
  deleted : history.lastChange path = some .deletion → ∃ fileId,
    s.catalog.standing s.db path = some (fileId, true, true) ∧ s.db.rowDeleted fileId = true ∧
      history.unread fileId = false

/-- What holds between the steps of point updates. -/
structure Convergent (oem : OemTable) (s : System) (history : History) : Prop where
  paths : s.catalog.PathsAgree s.db
  written : s.queue = []
  tickets : s.FreshTickets history
  known : ∀ path, s.PathConvergent oem history path
  indexed : ∀ fileId, history.unread fileId = false →
    history.expected fileId = history.lastIndexed fileId

/-- A step that leaves the document of a path and the tasks for it as they are. -/
theorem PathConvergent.frame {other : History} {path : Path}
    (known : s.PathConvergent oem history path)
    (standing : next.catalog.standing next.db path = s.catalog.standing s.db path)
    (lastChange : other.lastChange path = history.lastChange path)
    (reads : ∀ ticket, history.lastChange path = some (.update ticket) →
      other.contentRead ticket = history.contentRead ticket)
    (document : ∀ fileId flags, s.catalog.standing s.db path = some (fileId, flags) →
      next.db.rowDeleted fileId = s.db.rowDeleted fileId ∧
        other.expected fileId = history.expected fileId ∧
        other.unread fileId = history.unread fileId ∧
        (fileId ∈ s.inFlight → fileId ∈ next.inFlight))
    (indexing : ∀ task ∈ next.indexing, task.path = path → task ∈ s.indexing)
    (strand : ∀ task ∈ next.strand, task.pathOf = some path → task ∈ s.strand) :
    next.PathConvergent oem other path := by
  have active : ∀ fileId, s.ActiveAs path fileId → next.ActiveAs path fileId := by
    rintro fileId ⟨flag, found, flagged⟩
    refine ⟨flag, standing.trans found, ?_⟩
    rw [(document fileId _ found).1]
    exact flagged
  constructor
  case indexing =>
    intro task member samePath
    obtain ⟨required, ticket, tagged, change, unread, activeAs⟩ :=
      known.indexing task (indexing task member samePath) samePath
    exact ⟨required, ticket, tagged, lastChange.trans change, (reads ticket change).trans unread,
      active _ activeAs⟩
  case batches =>
    intro batch member samePath
    have old := strand _ member (congrArg some samePath)
    obtain ⟨required, ticket, bytes, tagged, change, read, listed, activeAs⟩ :=
      known.batches batch old samePath
    exact ⟨required, ticket, bytes, tagged, lastChange.trans change, (reads ticket change).trans read,
      listed, active _ activeAs⟩
  case deletions =>
    intro ticket id member
    rw [standing]
    exact known.deletions ticket id (strand _ member rfl)
  case updated =>
    intro ticket bytes change read
    rw [lastChange] at change
    rw [reads ticket change] at read
    obtain ⟨fileId, activeAs, settled⟩ := known.updated ticket bytes change read
    refine ⟨fileId, active fileId activeAs, fun grounded => ?_⟩
    obtain ⟨flag, found, _⟩ := activeAs
    obtain ⟨row, expected, _, flights⟩ := document fileId _ found
    rw [standing, row, expected]
    exact settled fun flies => grounded (flights flies)
  case deleted =>
    intro change
    rw [lastChange] at change
    obtain ⟨fileId, found, flagged, read⟩ := known.deleted change
    obtain ⟨row, _, unread, _⟩ := document fileId _ found
    exact ⟨fileId, standing.trans found, row.trans flagged, unread.trans read⟩

/-! ## Tickets -/

/-- Fewer waiting tickets and fewer paths last changed by an update. -/
theorem FreshTickets.mono {other : History} (fresh : s.FreshTickets history)
    (waiting : next.waitingTickets.Sublist s.waitingTickets) (above : s.nextTicket ≤ next.nextTicket)
    (changes : ∀ path ticket, other.lastChange path = some (.update ticket) →
      history.lastChange path = some (.update ticket))
    (reads : other.contentRead = history.contentRead) : next.FreshTickets other := by
  constructor
  case distinct => exact fresh.distinct.sublist waiting
  case waiting =>
    intro ticket member
    obtain ⟨small, unread, unused⟩ := fresh.waiting ticket (waiting.subset member)
    exact ⟨small.trans_le above, (congrFun reads ticket).trans unread,
      fun path change => unused path (changes path ticket change)⟩
  case issued =>
    exact fun path ticket change => (fresh.issued path ticket (changes path ticket change)).trans_le above
  case read =>
    intro ticket large
    rw [reads]
    exact fresh.read ticket (above.trans large)
  case single =>
    intro left right ticket leftChange rightChange
    exact fresh.single left right ticket (changes left ticket leftChange) (changes right ticket rightChange)

/-- A new update event takes the next ticket. -/
theorem FreshTickets.issue (fresh : s.FreshTickets history)
    (waiting : next.waitingTickets = s.waitingTickets ++ [s.nextTicket])
    (above : next.nextTicket = s.nextTicket + 1) : next.FreshTickets history := by
  constructor
  case distinct =>
    rw [waiting, List.nodup_append]
    refine ⟨fresh.distinct, List.nodup_singleton _, ?_⟩
    intro old member new listed
    rw [List.mem_singleton.mp listed]
    exact (fresh.waiting old member).1.ne
  case waiting =>
    intro ticket member
    rw [waiting] at member
    rcases List.mem_append.mp member with old | new
    · obtain ⟨small, unread, unused⟩ := fresh.waiting ticket old
      exact ⟨by omega, unread, unused⟩
    · obtain rfl := List.mem_singleton.mp new
      refine ⟨by omega, fresh.read _ le_rfl, fun path change => ?_⟩
      exact lt_irrefl _ (fresh.issued path _ change)
  case issued =>
    intro path ticket change
    have small := fresh.issued path ticket change
    omega
  case read => exact fun ticket large => fresh.read ticket (by omega)
  case single => exact fresh.single

/-- The upsert of a ticket makes it the last change of its path. -/
theorem FreshTickets.use {ticket : Nat} {path : Path} (fresh : s.FreshTickets history)
    (waiting : s.waitingTickets = ticket :: next.waitingTickets)
    (same : next.nextTicket = s.nextTicket) :
    next.FreshTickets { history with
      lastChange := Function.update history.lastChange path (some (.update ticket)) } := by
  have used : ticket ∈ s.waitingTickets := waiting ▸ List.mem_cons_self
  obtain ⟨small, _, unused⟩ := fresh.waiting ticket used
  have distinct := fresh.distinct
  rw [waiting, List.nodup_cons] at distinct
  have which : ∀ {other : Path} {older : Nat}, Function.update history.lastChange path
      (some (.update ticket)) other = some (.update older) →
        (other = path ∧ older = ticket) ∨ (other ≠ path ∧ older ≠ ticket ∧
          history.lastChange other = some (.update older)) := by
    intro other older change
    by_cases samePath : other = path
    · subst samePath
      rw [Function.update_self] at change
      exact .inl ⟨rfl, (PointEvent.update.inj (Option.some.inj change)).symm⟩
    · rw [Function.update_of_ne samePath] at change
      refine .inr ⟨samePath, ?_, change⟩
      rintro rfl
      exact unused other change
  constructor
  case distinct => exact distinct.2
  case waiting =>
    intro other member
    obtain ⟨otherSmall, unread, otherUnused⟩ :=
      fresh.waiting other (waiting ▸ List.mem_cons_of_mem _ member)
    refine ⟨same ▸ otherSmall, unread, fun otherPath change => ?_⟩
    rcases which change with ⟨_, rfl⟩ | ⟨_, _, old⟩
    · exact distinct.1 member
    · exact otherUnused otherPath old
  case issued =>
    intro otherPath other change
    rw [same]
    rcases which change with ⟨_, rfl⟩ | ⟨_, _, old⟩
    · exact small
    · exact fresh.issued otherPath other old
  case read => exact fun other large => fresh.read other (same ▸ large)
  case single =>
    intro left right other leftChange rightChange
    rcases which leftChange with ⟨leftPath, leftTicket⟩ | ⟨_, leftTicket, leftOld⟩ <;>
      rcases which rightChange with ⟨rightPath, rightTicket⟩ | ⟨_, rightTicket, rightOld⟩
    · rw [leftPath, rightPath]
    · exact absurd leftTicket rightTicket
    · exact absurd rightTicket leftTicket
    · exact fresh.single left right other leftOld rightOld

/-- The content read for the last change of a path. -/
theorem FreshTickets.readContent {ticket : Nat} {path : Path} {content : Option (List Byte)}
    (fresh : s.FreshTickets history) (change : history.lastChange path = some (.update ticket))
    (waiting : next.waitingTickets = s.waitingTickets) (same : next.nextTicket = s.nextTicket) :
    next.FreshTickets { history with
      contentRead := Function.update history.contentRead ticket content } := by
  constructor
  case distinct => exact waiting ▸ fresh.distinct
  case waiting =>
    intro other member
    obtain ⟨small, unread, unused⟩ := fresh.waiting other (waiting ▸ member)
    have different : other ≠ ticket := by
      rintro rfl
      exact unused path change
    exact ⟨same ▸ small, (Function.update_of_ne different _ _).trans unread, unused⟩
  case issued => exact fun other older old => same ▸ fresh.issued other older old
  case read =>
    intro other large
    have different : other ≠ ticket := by
      rintro rfl
      have small := fresh.issued path other change
      omega
    exact (Function.update_of_ne different _ _).trans (fresh.read other (same ▸ large))
  case single => exact fresh.single

/-! ## Tasks of the strand -/

/-- A task of another path leaves the strand. -/
theorem mem_of_mem_rest {task other : StrandTask} {rest : List StrandTask}
    (front : s.strand = task :: rest) (member : other ∈ rest) : other ∈ s.strand :=
  front ▸ List.mem_cons_of_mem _ member

/-- Dropping the task at the front keeps the documents in flight, its own apart. -/
theorem mem_inFlight_rest {task : StrandTask} {rest : List StrandTask}
    (front : s.strand = task :: rest) {fileId : FileId} (other : task.batchFile ≠ some fileId)
    (flies : fileId ∈ s.inFlight) : fileId ∈ ({ s with strand := rest } : System).inFlight := by
  rw [inFlight, front] at flies
  rcases List.mem_append.mp flies with indexed | posted
  · exact List.mem_append_left _ indexed
  · obtain ⟨listed, member, batched⟩ := List.mem_filterMap.mp posted
    rcases List.mem_cons.mp member with rfl | later
    · exact absurd batched other
    · exact List.mem_append_right _ (List.mem_filterMap.mpr ⟨listed, later, batched⟩)

theorem waitingTickets_rest {task : StrandTask} {rest : List StrandTask}
    (front : s.strand = task :: rest) :
    ({ s with strand := rest } : System).waitingTickets.Sublist s.waitingTickets := by
  rw [waitingTickets, waitingTickets, front]
  exact (List.sublist_cons_self task rest).filterMap _

/-- The number of a path known to a task. -/
theorem ActiveAs.id_eq {path : Path} {fileId other : FileId} {flags : Bool × Bool}
    (active : s.ActiveAs path fileId)
    (standing : s.catalog.standing s.db path = some (other, flags)) : fileId = other := by
  obtain ⟨flag, found, _⟩ := active
  rw [found] at standing
  exact congrArg Prod.fst (Option.some.inj standing)

theorem Convergent.runUpsert {ticket : Nat} {path : Path} {metadata : DocumentMetadata}
    {rest : List StrandTask} (convergent : s.Convergent oem history)
    (front : s.strand = .upsert ticket path metadata :: rest)
    (tame : s.TameStrand (.upsert ticket path metadata)) :
    (({ s with strand := rest } : System).runUpsert ticket path metadata).Convergent oem
      (observeStrand s history (.upsert ticket path metadata)) := by
  have noBatch : ∀ fileId, (StrandTask.upsert ticket path metadata).batchFile ≠ some fileId :=
    fun _ impossible => by cases impossible
  obtain ⟨agree, others, own, sameNumber⟩ := convergent.paths.upsert path metadata
  by_cases changed : (s.catalog.upsert s.db path metadata).2.2 = true
  · obtain ⟨grounded, _⟩ := tame changed
    rw [System.runUpsert, if_pos changed, observeStrand, if_pos changed]
    have waits : s.waitingTickets = ticket :: ({ s with strand := rest } : System).waitingTickets := by
      simp [waitingTickets, front, StrandTask.updateTicket]
    have unread : history.contentRead ticket = none :=
      (convergent.tickets.waiting ticket (waits ▸ List.mem_cons_self)).2.1
    -- no earlier task works for the path: its document is not in flight
    have noTask : ∀ fileId, fileId ∈ s.inFlight → ¬ s.ActiveAs path fileId := by
      rintro fileId flies ⟨flag, found, _⟩
      exact grounded (sameNumber fileId _ found ▸ flies)
    constructor
    case paths => exact agree
    case written => exact convergent.written
    case tickets => exact convergent.tickets.use waits rfl
    case indexed => exact convergent.indexed
    case known =>
      intro other
      by_cases samePath : other = path
      · subst samePath
        constructor
        case indexing =>
          intro task member taskPath
          rcases List.mem_append.mp member with old | new
          · obtain ⟨_, _, _, _, _, active⟩ := (convergent.known other).indexing task old taskPath
            have flies : task.fileId ∈ s.inFlight :=
              List.mem_append_left _ (List.mem_map_of_mem old)
            exact absurd active (noTask _ flies)
          · obtain rfl := List.mem_singleton.mp new
            exact ⟨rfl, ticket, rfl, Function.update_self .., unread, own⟩
        case batches =>
          intro batch member batchPath
          have old := mem_of_mem_rest front member
          obtain ⟨_, _, _, _, _, _, _, active⟩ := (convergent.known other).batches batch old batchPath
          have flies : batch.fileId ∈ s.inFlight :=
            List.mem_append_right _ (List.mem_filterMap.mpr ⟨_, old, rfl⟩)
          exact absurd active (noTask _ flies)
        case deletions =>
          intro deletion id member
          obtain ⟨flags, found⟩ :=
            (convergent.known other).deletions deletion id (mem_of_mem_rest front member)
          obtain ⟨flag, standing, _⟩ := own
          exact ⟨_, sameNumber id flags found ▸ standing⟩
        case updated =>
          intro older bytes change read
          have latest := (Function.update_self other _ history.lastChange).symm.trans change
          obtain rfl := PointEvent.update.inj (Option.some.inj latest)
          cases unread.symm.trans read
        case deleted =>
          intro change
          cases (Function.update_self other _ history.lastChange).symm.trans change
      · refine (convergent.known other).frame (others other samePath)
          (Function.update_of_ne samePath _ _) (fun _ _ => rfl) ?_ ?_ ?_
        · intro fileId flags _
          refine ⟨rfl, rfl, rfl, fun flies => ?_⟩
          have kept := mem_inFlight_rest front (noBatch fileId) flies
          simp only [inFlight, List.map_append, List.mem_append] at kept ⊢
          exact kept.imp_left .inl
        · intro task member taskPath
          rcases List.mem_append.mp member with old | new
          · exact old
          · obtain rfl := List.mem_singleton.mp new
            exact absurd taskPath.symm samePath
        · exact fun task member _ => mem_of_mem_rest front member
  · have unchanged := Bool.not_eq_true _ ▸ changed
    rw [System.runUpsert, if_neg changed, observeStrand, if_neg changed]
    constructor
    case paths => exact agree
    case written => exact convergent.written
    case tickets =>
      exact convergent.tickets.mono (waitingTickets_rest front) le_rfl (fun _ _ change => change) rfl
    case indexed => exact convergent.indexed
    case known =>
      intro other
      have standing : (s.catalog.upsert s.db path metadata).1.standing s.db other =
          s.catalog.standing s.db other := by
        by_cases samePath : other = path
        · exact samePath ▸ (DocumentCatalog.standing_upsert_of_unchanged unchanged).1
        · exact others other samePath
      exact (convergent.known other).frame standing rfl (fun _ _ => rfl)
        (fun fileId _ _ => ⟨rfl, rfl, rfl, mem_inFlight_rest front (noBatch fileId)⟩)
        (fun _ member _ => member) (fun _ member _ => mem_of_mem_rest front member)

theorem Convergent.runSoftDelete {order : IterationOrder} {ticket : Nat} {id : FileId} {path : Path}
    {rest : List StrandTask} (convergent : s.Convergent oem history)
    (front : s.strand = .softDelete ticket id path :: rest)
    (allowed : s.ConvergesStrand history (.softDelete ticket id path))
    (done : ({ s with strand := rest } : System).runSoftDelete order id = some next) :
    next.Convergent oem (observeStrand s history (.softDelete ticket id path)) := by
  obtain ⟨grounded, rowPresent, persisted, read⟩ := allowed
  have noBatch : ∀ fileId, (StrandTask.softDelete ticket id path).batchFile ≠ some fileId :=
    fun _ impossible => by cases impossible
  obtain ⟨flushed, flush, rfl⟩ := Option.map_eq_some_iff.mp done
  obtain ⟨after, written, rfl⟩ := flushPending_eq flush
  simp only [convergent.written, List.nil_append] at written
  have marked := Database.docs_writeBatch_markDeleted written
  obtain ⟨flags, standing⟩ := (convergent.known path).deletions ticket id (front ▸ List.mem_cons_self)
  obtain ⟨record, found, rfl, _⟩ := DocumentCatalog.standing_eq_some_iff.mp standing
  obtain ⟨agree, others, own⟩ := convergent.paths.remove found persisted
    (convergent.paths.unique.writeBatch written) marked
  have noTask : ∀ fileId, fileId ∈ s.inFlight → ¬ s.ActiveAs path fileId := by
    intro fileId flies active
    exact grounded (active.id_eq standing ▸ flies)
  constructor
  case paths => exact agree
  case written => rfl
  case tickets =>
    refine convergent.tickets.mono (waitingTickets_rest front) le_rfl ?_ rfl
    intro other older change
    by_cases samePath : other = path
    · subst samePath
      cases (Function.update_self other _ history.lastChange).symm.trans change
    · exact (Function.update_of_ne samePath _ _).symm.trans change
  case indexed => exact convergent.indexed
  case known =>
    intro other
    by_cases samePath : other = path
    · subst samePath
      constructor
      case indexing =>
        intro task member taskPath
        obtain ⟨_, _, _, _, _, active⟩ := (convergent.known other).indexing task member taskPath
        exact absurd active (noTask _ (List.mem_append_left _ (List.mem_map_of_mem member)))
      case batches =>
        intro batch member batchPath
        have old := mem_of_mem_rest front member
        obtain ⟨_, _, _, _, _, _, _, active⟩ := (convergent.known other).batches batch old batchPath
        exact absurd active
          (noTask _ (List.mem_append_right _ (List.mem_filterMap.mpr ⟨_, old, rfl⟩)))
      case deletions =>
        intro deletion listed member
        obtain ⟨_, known⟩ :=
          (convergent.known other).deletions deletion listed (mem_of_mem_rest front member)
        obtain ⟨rfl, _⟩ := Prod.mk.inj (Option.some.inj (standing.symm.trans known))
        exact ⟨_, own⟩
      case updated =>
        intro older bytes change
        cases (Function.update_self other _ history.lastChange).symm.trans change
      case deleted =>
        intro _
        refine ⟨record.id, own, ?_, read⟩
        obtain ⟨row, stored⟩ := Option.isSome_iff_exists.mp rowPresent
        simp only [Database.rowDeleted, marked, if_true]
        rw [stored]
        rfl
    · refine (convergent.known other).frame (others other samePath)
        (Function.update_of_ne samePath _ _) (fun _ _ => rfl) ?_ (fun _ member _ => member)
        (fun _ member _ => mem_of_mem_rest front member)
      intro fileId otherFlags otherStanding
      have different : fileId ≠ record.id := by
        rintro rfl
        exact samePath (convergent.paths.path_eq otherStanding standing)
      refine ⟨Database.rowDeleted_congr ?_, rfl, rfl, mem_inFlight_rest front (noBatch fileId)⟩
      rw [marked, if_neg different]

/-- The batch of a path ends its change. -/
theorem Convergent.runProcessBatch {order : IterationOrder} {batch : PostingBatch}
    {rest : List StrandTask} (convergent : s.Convergent oem history)
    (front : s.strand = .processBatch batch :: rest)
    (allowed : s.ConvergesStrand history (.processBatch batch))
    (single : s.inFlight.Nodup)
    (done : ({ s with strand := rest } : System).runProcessBatch order batch = some next) :
    next.Convergent oem (observeStrand s history (.processBatch batch)) := by
  obtain ⟨fits, wordless⟩ := allowed
  have listed : StrandTask.processBatch batch ∈ s.strand := front ▸ List.mem_cons_self
  obtain ⟨required, ticket, bytes, tagged, change, read, permuted, active⟩ :=
    (convergent.known batch.path).batches batch listed rfl
  obtain ⟨flag, standing, flagged⟩ := active
  have flights : s.inFlight.Perm (batch.fileId :: ({ s with strand := rest } : System).inFlight) := by
    simp [inFlight, front, StrandTask.batchFile]
  have grounded : batch.fileId ∉ ({ s with strand := rest } : System).inFlight :=
    (List.nodup_cons.mp (flights.nodup_iff.mp single)).1
  -- what the batch leaves behind, with and without words
  have outcome : next.strand = rest ∧ next.indexing = s.indexing ∧ next.queue = [] ∧
      next.nextTicket = s.nextTicket ∧ next.catalog.PathsAgree next.db ∧
      (∀ other, other ≠ batch.path → next.catalog.standing next.db other =
        s.catalog.standing s.db other) ∧
      next.catalog.standing next.db batch.path = some (batch.fileId, false, false) ∧
      next.db.rowDeleted batch.fileId = false ∧
      ∀ fileId, fileId ≠ batch.fileId → next.db.rowDeleted fileId = s.db.rowDeleted fileId := by
    by_cases noWords : batch.list = []
    · rw [System.runProcessBatch, noWords, List.isEmpty_nil, if_pos rfl] at done
      obtain rfl := Option.some.inj done
      have unflagged := wordless noWords
      have unseen : flag = false := by
        by_contra seen
        rw [Bool.not_eq_false] at seen
        rw [flagged seen] at unflagged
        cases unflagged
      exact ⟨rfl, rfl, convergent.written, rfl, convergent.paths, fun _ _ => rfl, unseen ▸ standing,
        unflagged, fun _ _ => rfl⟩
    · rw [runProcessBatch_eq _ _ _ noWords, if_pos required] at done
      obtain ⟨flushed, flush, rfl⟩ := Option.map_eq_some_iff.mp done
      obtain ⟨after, written, rfl⟩ := flushPending_eq flush
      simp only [System.staged, convergent.written, List.nil_append, batchWrite] at written
      have docs := Database.docs_writeBatch_write written
      obtain ⟨record, found, sameId, flags⟩ := DocumentCatalog.standing_eq_some_iff.mp standing
      have activeRecord : record.deleted = false := congrArg Prod.fst flags
      simp only [← sameId] at docs
      obtain ⟨agree, others, own⟩ := convergent.paths.persist found activeRecord
        (convergent.paths.unique.writeBatch written) rfl rfl docs
      rw [sameId] at agree others own docs
      refine ⟨rfl, rfl, rfl, rfl, agree, others, own, ?_, ?_⟩
      · simp [Database.rowDeleted, docs]
      · intro fileId different
        refine Database.rowDeleted_congr ?_
        rw [docs, if_neg different]
  obtain ⟨strand, indexing, queue, nextTicket, agree, others, own, unflagged, rows⟩ := outcome
  have sameFlights : next.inFlight = ({ s with strand := rest } : System).inFlight := by
    rw [inFlight, inFlight, strand, indexing]
  constructor
  case paths => exact agree
  case written => exact queue
  case tickets =>
    refine convergent.tickets.mono ?_ nextTicket.ge (fun _ _ same => same) rfl
    have waits := waitingTickets_rest front
    rw [waitingTickets, strand]
    exact waits
  case indexed =>
    intro fileId known
    by_cases same : fileId = batch.fileId
    · subst same
      exact (Function.update_self batch.fileId _ history.expected).trans
        (Function.update_self batch.fileId _ history.lastIndexed).symm
    · have unread := (Function.update_of_ne same _ history.unread).symm.trans known
      exact (Function.update_of_ne same _ history.expected).trans
        ((convergent.indexed fileId unread).trans
          (Function.update_of_ne same _ history.lastIndexed).symm)
  case known =>
    intro other
    by_cases samePath : other = batch.path
    · subst samePath
      constructor
      case indexing =>
        intro task member taskPath
        rw [indexing] at member
        obtain ⟨_, _, _, _, _, taskActive⟩ :=
          (convergent.known batch.path).indexing task member taskPath
        have sameFile := taskActive.id_eq standing
        exact absurd (sameFile ▸ List.mem_append_left _ (List.mem_map_of_mem member)) grounded
      case batches =>
        intro later member laterPath
        rw [strand] at member
        obtain ⟨_, _, _, _, _, _, _, laterActive⟩ :=
          (convergent.known batch.path).batches later (mem_of_mem_rest front member) laterPath
        have sameFile := laterActive.id_eq standing
        exact absurd (sameFile ▸ List.mem_append_right _
          (List.mem_filterMap.mpr ⟨_, member, rfl⟩)) grounded
      case deletions =>
        intro deletion id member
        rw [strand] at member
        obtain ⟨_, known⟩ :=
          (convergent.known batch.path).deletions deletion id (mem_of_mem_rest front member)
        obtain ⟨rfl, _⟩ := Prod.mk.inj (Option.some.inj (standing.symm.trans known))
        exact ⟨_, own⟩
      case updated =>
        intro older olderBytes latest olderRead
        have sameTicket : older = ticket :=
          PointEvent.update.inj (Option.some.inj (latest.symm.trans change))
        subst sameTicket
        have sameBytes : olderBytes = bytes := Option.some.inj (olderRead.symm.trans read)
        subst sameBytes
        refine ⟨batch.fileId, ⟨false, own, fun impossible => by cases impossible⟩, fun _ => ?_⟩
        refine ⟨own, unflagged, (Function.update_self batch.fileId _ history.expected).trans ?_⟩
        funext word
        exact batchCounts_of_perm_batchList permuted fits word
      case deleted =>
        intro latest
        cases latest.symm.trans change
    · refine (convergent.known other).frame (others other samePath) rfl (fun _ _ => rfl) ?_
        (fun _ member _ => indexing ▸ member)
        (fun _ member _ => mem_of_mem_rest front (strand ▸ member))
      intro fileId flags otherStanding
      have different : fileId ≠ batch.fileId := by
        rintro rfl
        exact samePath (convergent.paths.path_eq otherStanding standing)
      refine ⟨rows fileId different, Function.update_of_ne different _ _,
        Function.update_of_ne different _ _, fun flies => ?_⟩
      rw [sameFlights]
      exact mem_inFlight_rest front (fun same => different (Option.some.inj same).symm) flies

/-- The strand runs its oldest task. -/
theorem Convergent.runStrand {order : IterationOrder} (convergent : s.Convergent oem history)
    (coherent : s.Coherent history) (allowed : s.ConvergesStep history (.runStrand order))
    (done : s.runStrand order = some next) :
    next.Convergent oem ((s.strand.head?.map (observeStrand s history)).getD history) := by
  obtain ⟨_, tame, allowed⟩ := allowed
  unfold System.runStrand at done
  cases front : s.strand with
  | nil =>
      rw [front] at done
      cases done
  | cons task rest =>
      rw [front] at done
      have taskTame := tame task (by rw [front]; rfl)
      have taskAllowed := allowed task (by rw [strandTask, front]; rfl)
      rw [List.head?_cons, Option.map_some, Option.getD_some]
      cases task with
      | upsert ticket path metadata =>
          obtain rfl := Option.some.inj done
          exact convergent.runUpsert front taskTame
      | softDelete ticket id path => exact convergent.runSoftDelete front taskAllowed done
      | processBatch batch => exact convergent.runProcessBatch front taskAllowed coherent.single done
      | compact thresholdPercent =>
          obtain rfl := Option.some.inj done
          have noBatch : ∀ fileId, (StrandTask.compact thresholdPercent).batchFile ≠ some fileId :=
            fun _ impossible => by cases impossible
          -- a compaction touches neither the catalog nor the database
          have dropped : ∀ index : InvertedIndex,
              ({ s with strand := rest, index := index } : System).Convergent oem history := fun index =>
            { convergent with
              tickets := convergent.tickets.mono (waitingTickets_rest front) le_rfl
                (fun _ _ change => change) rfl
              known := fun path => (convergent.known path).frame rfl rfl (fun _ _ => rfl)
                (fun fileId _ _ => ⟨rfl, rfl, rfl, mem_inFlight_rest front (noBatch fileId)⟩)
                (fun _ member _ => member) (fun _ member _ => mem_of_mem_rest front member) }
          unfold System.runCompact
          split
          · exact dropped s.index
          · exact dropped _

/-! ## Tasks of the CPU pool -/

theorem Convergent.runIndexing {position : Nat} {content : Option (List Byte)}
    {list : List (Word × UInt32)} (convergent : s.Convergent oem history)
    (single : s.inFlight.Nodup) (done : s.runIndexing oem position content list = some next) :
    next.Convergent oem
      ((s.indexing[position]?.map fun task => observeIndexing history task content).getD history) := by
  obtain ⟨task, found, permuted, outcome⟩ := runIndexing_cases done
  have listed : task ∈ s.indexing := permuted.mem_iff.mpr List.mem_cons_self
  obtain ⟨required, ticket, tagged, change, unread, active⟩ :=
    (convergent.known task.path).indexing task listed rfl
  obtain ⟨flag, standing, flagged⟩ := active
  have flights : s.inFlight.Perm (task.fileId :: ({ s with
      indexing := s.indexing.eraseIdx position } : System).inFlight) :=
    (permuted.map IndexingTask.fileId).append_right _
  have grounded := (List.nodup_cons.mp (flights.nodup_iff.mp single)).1
  have stays : ∀ fileId, fileId ≠ task.fileId → fileId ∈ s.inFlight →
      fileId ∈ ({ s with indexing := s.indexing.eraseIdx position } : System).inFlight :=
    fun fileId different flies => (mem_iff_of_perm_cons flights single fileId).mpr ⟨flies, different⟩
  have remaining : ∀ other ∈ s.indexing.eraseIdx position, other ∈ s.indexing :=
    fun other member => permuted.mem_iff.mpr (List.mem_cons_of_mem _ member)
  -- no other task or batch works for the path
  have noOther : ∀ fileId, fileId ∈ ({ s with indexing := s.indexing.eraseIdx position } :
      System).inFlight → ¬ s.ActiveAs task.path fileId :=
    fun fileId flies otherActive => grounded (otherActive.id_eq standing ▸ flies)
  have numbers : ∀ path fileId flags, path ≠ task.path →
      s.catalog.standing s.db path = some (fileId, flags) → fileId ≠ task.fileId := by
    rintro path fileId flags differs otherStanding rfl
    exact differs (convergent.paths.path_eq otherStanding standing)
  rw [found, Option.map_some, Option.getD_some]
  rcases outcome with ⟨rfl, rfl⟩ | ⟨bytes, rfl, contents, rfl⟩
  · constructor
    case paths => exact convergent.paths
    case written => exact convergent.written
    case tickets => exact convergent.tickets.mono (.refl _) le_rfl (fun _ _ same => same) rfl
    case indexed =>
      intro fileId known
      by_cases same : fileId = task.fileId
      · subst same
        cases (Function.update_self task.fileId _ history.unread).symm.trans known
      · have read := (Function.update_of_ne same _ history.unread).symm.trans known
        exact (Function.update_of_ne same _ history.expected).trans (convergent.indexed fileId read)
    case known =>
      intro path
      by_cases samePath : path = task.path
      · subst samePath
        have known := convergent.known task.path
        constructor
        case indexing => exact fun other member => known.indexing other (remaining other member)
        case batches => exact known.batches
        case deletions => exact known.deletions
        case updated =>
          intro older bytes latest read
          obtain rfl := PointEvent.update.inj (Option.some.inj (change.symm.trans latest))
          cases unread.symm.trans read
        case deleted => exact fun latest => by cases latest.symm.trans change
      · refine (convergent.known path).frame rfl rfl (fun _ _ => rfl) ?_
          (fun other member _ => remaining other member) (fun _ member _ => member)
        intro fileId flags otherStanding
        have different := numbers path fileId flags samePath otherStanding
        exact ⟨rfl, Function.update_of_ne different _ _, Function.update_of_ne different _ _,
          stays fileId different⟩
  · have observed : observeIndexing history task (some bytes) = { history with
        contentRead := Function.update history.contentRead ticket (some bytes) } := by
      rw [observeIndexing, tagged]
    rw [observed]
    constructor
    case paths => exact convergent.paths
    case written => exact convergent.written
    case tickets =>
      refine convergent.tickets.readContent change ?_ rfl
      simp [waitingTickets, StrandTask.updateTicket]
    case indexed => exact convergent.indexed
    case known =>
      intro path
      by_cases samePath : path = task.path
      · subst samePath
        have known := convergent.known task.path
        constructor
        case indexing =>
          intro other member otherPath
          obtain ⟨_, _, _, _, _, otherActive⟩ := known.indexing other (remaining other member) otherPath
          exact absurd otherActive
            (noOther _ (List.mem_append_left _ (List.mem_map_of_mem member)))
        case batches =>
          intro batch member batchPath
          rcases List.mem_append.mp member with old | new
          · obtain ⟨_, _, _, _, _, _, _, otherActive⟩ := known.batches batch old batchPath
            exact absurd otherActive
              (noOther _ (List.mem_append_right _ (List.mem_filterMap.mpr ⟨_, old, rfl⟩)))
          · obtain rfl := StrandTask.processBatch.inj (List.mem_singleton.mp new)
            exact ⟨required, ticket, bytes, tagged, change,
              Function.update_self ticket _ history.contentRead, contents, flag, standing, flagged⟩
        case deletions =>
          intro deletion id member
          rcases List.mem_append.mp member with old | new
          · exact known.deletions deletion id old
          · cases List.mem_singleton.mp new
        case updated =>
          intro _ _ _ _
          refine ⟨task.fileId, ⟨flag, standing, flagged⟩, fun quiet => absurd ?_ quiet⟩
          exact List.mem_append_right _ (List.mem_filterMap.mpr
            ⟨_, List.mem_append_right _ (List.mem_singleton_self _), rfl⟩)
        case deleted => exact fun latest => by cases latest.symm.trans change
      · refine (convergent.known path).frame rfl rfl ?_ ?_
          (fun other member _ => remaining other member) ?_
        · intro older latest
          refine Function.update_of_ne ?_ _ _
          rintro rfl
          exact samePath (convergent.tickets.single path task.path older latest change)
        · intro fileId flags otherStanding
          refine ⟨rfl, rfl, rfl, fun flies => ?_⟩
          have kept := stays fileId (numbers path fileId flags samePath otherStanding) flies
          simp only [inFlight, List.filterMap_append, List.mem_append] at kept ⊢
          exact kept.imp_right .inl
        · intro posted member postedPath
          rcases List.mem_append.mp member with old | new
          · exact old
          · rw [List.mem_singleton.mp new] at postedPath
            exact absurd (Option.some.inj postedPath).symm samePath

/-! ## Requests -/

theorem Convergent.enqueueFileUpdate {path : Path} {found : Option DocumentMetadata}
    (convergent : s.Convergent oem history) (done : s.enqueueFileUpdate path found = some next) :
    next.Convergent oem history := by
  unfold System.enqueueFileUpdate at done
  split at done
  · cases done
  cases found with
  | none =>
      obtain rfl := Option.some.inj done
      exact {
        paths := convergent.paths
        written := convergent.written
        tickets := convergent.tickets.mono (.refl _) le_rfl (fun _ _ change => change) rfl
        known := fun other => (convergent.known other).frame rfl rfl (fun _ _ => rfl)
          (fun _ _ _ => ⟨rfl, rfl, rfl, id⟩) (fun _ member _ => member) (fun _ member _ => member)
        indexed := convergent.indexed }
  | some metadata =>
      obtain rfl := Option.some.inj done
      constructor
      case paths => exact convergent.paths
      case written => exact convergent.written
      case tickets =>
        refine convergent.tickets.issue ?_ rfl
        simp [waitingTickets, StrandTask.updateTicket]
      case known =>
        intro other
        refine (convergent.known other).frame rfl rfl (fun _ _ => rfl) ?_ (fun _ member _ => member) ?_
        · intro fileId _ _
          refine ⟨rfl, rfl, rfl, fun flies => ?_⟩
          simpa [inFlight, StrandTask.batchFile] using flies
        · intro posted member postedPath
          rcases List.mem_append.mp member with old | new
          · exact old
          · rw [List.mem_singleton.mp new] at postedPath
            cases postedPath
      case indexed => exact convergent.indexed

theorem Convergent.enqueueFileDeletion {path : Path} (convergent : s.Convergent oem history)
    (done : s.enqueueFileDeletion path = some next) : next.Convergent oem history := by
  unfold System.enqueueFileDeletion at done
  split at done
  · cases done
  split at done
  · obtain rfl := Option.some.inj done
    exact convergent
  · rename_i document found
    obtain rfl := Option.some.inj done
    constructor
    case paths => exact convergent.paths
    case written => exact convergent.written
    case tickets =>
      refine convergent.tickets.mono ?_ (Nat.le_succ _) (fun _ _ change => change) rfl
      simp [waitingTickets, StrandTask.updateTicket]
    case known =>
      intro other
      by_cases samePath : other = path
      · subst samePath
        have known := convergent.known other
        have sameFlights : ∀ task : StrandTask, task.batchFile = none →
            ({ s with strand := s.strand ++ [task], nextTicket := s.nextTicket + 1 } :
              System).inFlight = s.inFlight := by
          intro task noBatch
          simp [inFlight, noBatch]
        constructor
        case indexing => exact known.indexing
        case batches =>
          intro batch member
          rcases List.mem_append.mp member with old | new
          · exact known.batches batch old
          · cases List.mem_singleton.mp new
        case deletions =>
          intro deletion id member
          rcases List.mem_append.mp member with old | new
          · exact known.deletions deletion id old
          · obtain ⟨_, rfl, _⟩ := StrandTask.softDelete.inj (List.mem_singleton.mp new)
            exact ⟨_, DocumentCatalog.standing_eq_some_iff.mpr ⟨document, found, rfl, rfl⟩⟩
        case updated =>
          rw [sameFlights _ rfl]
          exact known.updated
        case deleted => exact known.deleted
      · refine (convergent.known other).frame rfl rfl (fun _ _ => rfl) ?_ (fun _ member _ => member) ?_
        · intro fileId _ _
          refine ⟨rfl, rfl, rfl, fun flies => ?_⟩
          simpa [inFlight, StrandTask.batchFile] using flies
        · intro posted member postedPath
          rcases List.mem_append.mp member with old | new
          · exact old
          · rw [List.mem_singleton.mp new] at postedPath
            exact absurd (Option.some.inj postedPath).symm samePath
    case indexed => exact convergent.indexed

/-- Every step of a point update keeps what its tasks know. -/
theorem Convergent.step {action : Action} (convergent : s.Convergent oem history)
    (coherent : s.Coherent history) (allowed : s.ConvergesStep history action)
    (done : s.step oem action = some next) : next.Convergent oem (observe s action history) := by
  cases action with
  | enqueueFileUpdate path found => exact convergent.enqueueFileUpdate done
  | enqueueFileDeletion path => exact convergent.enqueueFileDeletion done
  | compact thresholdPercent =>
      obtain rfl := Option.some.inj done
      have posted : ∀ path, ({ s with strand := s.strand ++ [.compact thresholdPercent] } :
          System).PathConvergent oem history path := by
        intro path
        refine (convergent.known path).frame rfl rfl (fun _ _ => rfl) ?_ (fun _ member _ => member) ?_
        · intro fileId _ _
          refine ⟨rfl, rfl, rfl, fun flies => ?_⟩
          simpa [inFlight, StrandTask.batchFile] using flies
        · intro task member taskPath
          rcases List.mem_append.mp member with old | new
          · exact old
          · rw [List.mem_singleton.mp new] at taskPath
            cases taskPath
      refine { convergent with tickets := ?_, known := posted }
      refine convergent.tickets.mono ?_ le_rfl (fun _ _ change => change) rfl
      simp [waitingTickets, StrandTask.updateTicket]
  | updateDocumentBase paths stat => exact absurd allowed.1 not_false
  | finishUpdate order => exact absurd allowed.1 not_false
  | runStrand order => exact convergent.runStrand coherent allowed done
  | runIndexing position content list => exact convergent.runIndexing coherent.single done
  | runCommit position =>
      obtain ⟨groups, _, rfl⟩ := Option.map_eq_some_iff.mp done
      exact {
        paths := convergent.paths
        written := convergent.written
        tickets := convergent.tickets.mono (.refl _) le_rfl (fun _ _ change => change) rfl
        known := fun path => (convergent.known path).frame rfl rfl (fun _ _ => rfl)
          (fun _ _ _ => ⟨rfl, rfl, rfl, id⟩) (fun _ member _ => member) (fun _ member _ => member)
        indexed := convergent.indexed }
  | writeQueue order =>
      obtain ⟨after, written, rfl⟩ := flushPending_eq done
      rw [convergent.written] at written
      have sameDatabase : after = s.db := (Option.some.inj written).symm
      rw [sameDatabase]
      exact {
        paths := convergent.paths
        written := rfl
        tickets := convergent.tickets.mono (.refl _) le_rfl (fun _ _ change => change) rfl
        known := fun path => (convergent.known path).frame rfl rfl (fun _ _ => rfl)
          (fun _ _ _ => ⟨rfl, rfl, rfl, id⟩) (fun _ member _ => member) (fun _ member _ => member)
        indexed := convergent.indexed }

end System

end SearchEngine.Index
