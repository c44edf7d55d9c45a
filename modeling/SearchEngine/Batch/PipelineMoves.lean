import SearchEngine.Batch.PipelineInvariant

/-!
# The moves keep the order

One lemma for each move of `PipelineInvariant`, and from them the order of every
reachable state of the pipeline.
-/

namespace SearchEngine.Batch.Pipeline

open SearchEngine.Lib SearchEngine.Index

variable {builder : BatchIndexBuilder}

/-! ## Fields after an update -/

section Fields

variable (s : Pipeline builder) (reader other : Fin builder.readerThreads)
  (worker lane : Fin builder.indexerThreads)

@[simp] theorem readers_setReader (phase : Reader builder) :
    (s.setReader reader phase).readers other = if other = reader then phase else s.readers other :=
  Function.update_apply ..

@[simp] theorem lanes_setLane (queue : BoundedByteQueue FileBlock) :
    (s.setLane worker queue).lanes lane = if lane = worker then queue else s.lanes lane :=
  Function.update_apply ..

@[simp] theorem indexers_setIndexer (indexer : Indexer) :
    (s.setIndexer worker indexer).indexers lane =
      if lane = worker then indexer else s.indexers lane :=
  Function.update_apply ..

@[simp] theorem readers_setLane (queue : BoundedByteQueue FileBlock) :
    (s.setLane worker queue).readers = s.readers := rfl

@[simp] theorem readers_setIndexer (indexer : Indexer) :
    (s.setIndexer worker indexer).readers = s.readers := rfl

@[simp] theorem lanes_setReader (phase : Reader builder) :
    (s.setReader reader phase).lanes = s.lanes := rfl

@[simp] theorem lanes_setIndexer (indexer : Indexer) :
    (s.setIndexer worker indexer).lanes = s.lanes := rfl

@[simp] theorem indexers_setReader (phase : Reader builder) :
    (s.setReader reader phase).indexers = s.indexers := rfl

@[simp] theorem indexers_setLane (queue : BoundedByteQueue FileBlock) :
    (s.setLane worker queue).indexers = s.indexers := rfl

@[simp] theorem transit_setReader (phase : Reader builder) :
    (s.setReader reader phase).transit = s.transit := rfl

/-- A lane operation changes what its own worker has to handle. -/
@[simp] theorem transit_setLane (queue : BoundedByteQueue FileBlock) :
    (s.setLane worker queue).transit lane =
      if lane = worker then (s.indexers worker).current.toList ++ queue.items
      else s.transit lane := by
  unfold transit
  by_cases same : lane = worker <;> simp [same]

@[simp] theorem transit_setIndexer (indexer : Indexer) :
    (s.setIndexer worker indexer).transit lane =
      if lane = worker then indexer.current.toList ++ (s.lanes worker).items
      else s.transit lane := by
  unfold transit
  by_cases same : lane = worker <;> simp [same]

end Fields

/-! ## Documents a move does not concern -/

variable {oem : OemTable} {files : List SourceFile} {s after : Pipeline builder}
  {h later : History builder}

/-- A document keeps its state when its place, its reader and its worker do. -/
theorem Settled.of_same {fileId : FileId} (settled : Settled oem files s h fileId)
    (place : later.place fileId = h.place fileId)
    (handled : later.handled fileId = h.handled fileId) (jobs : s.nextJob ≤ after.nextJob)
    (waits : h.place fileId = .waiting → after.nextJob ≤ fileId)
    (holder : ∀ reader, h.place fileId = .held reader → after.readers reader = s.readers reader)
    (sender : ∀ reader worker, h.place fileId = .sending reader worker →
      outgoing (after.readers reader) = outgoing (s.readers reader))
    (workers : ∀ worker, (h.place fileId).worker = some worker →
      after.transit worker = s.transit worker ∧
        (after.indexers worker).document = (s.indexers worker).document) :
    Settled oem files after later fileId := by
  cases located : h.place fileId with
  | waiting =>
      rw [settled_waiting located] at settled
      rw [settled_waiting (place.trans located), handled]
      exact ⟨waits located, settled.2⟩
  | held reader =>
      rw [settled_held located] at settled
      obtain ⟨taken, untouched, acquires⟩ := settled
      rw [settled_held (place.trans located), handled, holder reader located]
      exact ⟨taken.trans_le jobs, untouched, acquires⟩
  | sending reader worker =>
      rw [settled_sending located] at settled
      obtain ⟨taken, document, remaining⟩ := settled
      obtain ⟨sameTransit, sameDocument⟩ := workers worker (by rw [located]; rfl)
      rw [settled_sending (place.trans located), handled, sameTransit, sameDocument,
        sender reader worker located]
      exact ⟨taken.trans_le jobs, document, remaining⟩
  | sent worker =>
      rw [settled_sent located] at settled
      obtain ⟨taken, document⟩ := settled
      obtain ⟨sameTransit, sameDocument⟩ := workers worker (by rw [located]; rfl)
      rw [settled_sent (place.trans located), handled, sameTransit, sameDocument]
      exact ⟨taken.trans_le jobs, document⟩
  | committed worker =>
      rw [settled_committed located] at settled
      rw [settled_committed (place.trans located), handled]
      exact ⟨settled.1.trans_le jobs, settled.2⟩

namespace Documents

/-- A document beyond the next job waits. -/
theorem waiting (documents : Documents oem files s h) {fileId : FileId}
    (listed : fileId < files.length) (untaken : s.nextJob ≤ fileId) :
    h.place fileId = .waiting := by
  have settled := documents.settled fileId listed
  unfold Settled at settled
  split at settled
  · assumption
  all_goals exact absurd settled.1 (Nat.not_lt.mpr untaken)

/-- A document held by a reader is the one the reader acquires a worker for. -/
theorem acquires_of_held (documents : Documents oem files s h) {fileId : FileId}
    {reader : Fin builder.readerThreads} (listed : fileId < files.length)
    (held : h.place fileId = .held reader) : s.readers reader = .acquiring fileId :=
  ((settled_held held).mp (documents.settled fileId listed)).2.2

/-- A document on its way is the one its reader sends. -/
theorem sends_of_sending (documents : Documents oem files s h) {fileId : FileId}
    {reader : Fin builder.readerThreads} {worker : Fin builder.indexerThreads}
    (listed : fileId < files.length) (sending : h.place fileId = .sending reader worker) :
    ∃ remaining, outgoing (s.readers reader) = some (fileId, worker, remaining) := by
  obtain ⟨_, _, remaining, sends, _⟩ :=
    (settled_sending sending).mp (documents.settled fileId listed)
  exact ⟨remaining, sends⟩

/-- A move that leaves what readers hold and what workers have leaves the documents. -/
theorem of_same (documents : Documents oem files s h)
    (jobs : after.nextJob = s.nextJob ∨ s.nextJob ≤ after.nextJob ∧ files.length ≤ s.nextJob)
    (acquiring : ∀ reader fileId, after.readers reader = .acquiring fileId ↔
      s.readers reader = .acquiring fileId)
    (sender : ∀ reader, outgoing (after.readers reader) = outgoing (s.readers reader))
    (transit : ∀ worker, after.transit worker = s.transit worker)
    (document : ∀ worker, (after.indexers worker).document = (s.indexers worker).document)
    (available : after.available = s.available) : Documents oem files after h where
  settled fileId listed := by
    have later : s.nextJob ≤ after.nextJob := by omega
    refine (documents.settled fileId listed).of_same rfl rfl later (fun waits => ?_)
      (fun reader held => ?_) (fun reader _ _ => sender reader)
      fun worker _ => ⟨transit worker, document worker⟩
    · have untaken := ((settled_waiting waits).mp (documents.settled fileId listed)).1
      omega
    · have acquires := documents.acquires_of_held listed held
      rw [acquires]
      exact (acquiring reader fileId).mpr acquires
  acquiring reader fileId acquires :=
    documents.acquiring reader fileId ((acquiring reader fileId).mp acquires)
  sender reader fileId worker remaining sends :=
    documents.sender reader fileId worker remaining ((sender reader).symm.trans sends)
  alone := documents.alone
  available worker := by
    rw [available]
    exact documents.available worker
  unoccupied worker free := by
    rw [available] at free
    rw [transit, document]
    exact documents.unoccupied worker free
  nodup := by
    rw [available]
    exact documents.nodup

/-- A reader that has no document moves on without one. -/
theorem setReader (documents : Documents oem files s h) {reader : Fin builder.readerThreads}
    {phase : Reader builder}
    (free : ∀ fileId, s.readers reader ≠ .acquiring fileId ∧ phase ≠ .acquiring fileId)
    (same : outgoing phase = outgoing (s.readers reader)) :
    Documents oem files (s.setReader reader phase) h := by
  refine documents.of_same (.inl rfl) (fun other fileId => ?_) (fun other => ?_) (fun _ => rfl)
    (fun _ => rfl) rfl
  · rw [readers_setReader]
    split
    · rename_i equal
      rw [equal]
      exact iff_of_false (free fileId).2 (free fileId).1
    · rfl
  · rw [readers_setReader]
    split
    · rename_i equal
      rw [equal, same]
    · rfl

/-- The next document goes to the reader that takes it. -/
theorem take (documents : Documents oem files s h) {reader : Fin builder.readerThreads}
    (metadata : List DocumentMetadata) (idle : s.readers reader = .idle)
    (listed : s.nextJob < files.length) :
    Documents oem files
      ({ s with nextJob := s.nextJob + 1, documentMetadata := metadata }.setReader reader
        (.acquiring s.nextJob))
      { h with place := Function.update h.place s.nextJob (.held reader) } := by
  have waits := documents.waiting listed le_rfl
  have sameWorker : ∀ fileId, (Function.update h.place s.nextJob (.held reader) fileId).worker =
      (h.place fileId).worker := by
    intro fileId
    rw [Function.update_apply]
    split
    · rename_i same
      rw [same, waits]
      rfl
    · rfl
  have elsewhere : ∀ {fileId place}, h.place fileId = place → place ≠ .waiting →
      Function.update h.place s.nextJob (.held reader) fileId = place := by
    intro fileId place located taken
    refine (Function.update_of_ne ?_ _ _).trans located
    rintro rfl
    exact taken (located.symm.trans waits)
  constructor
  case settled =>
    intro fileId inList
    by_cases same : fileId = s.nextJob
    · subst same
      have settled := (settled_waiting waits).mp (documents.settled s.nextJob inList)
      rw [settled_held (Function.update_self ..)]
      exact ⟨Nat.lt_succ_self _, settled.2, by simp⟩
    · refine (documents.settled fileId inList).of_same (Function.update_of_ne same _ _) rfl
        (Nat.le_succ _) (fun waiting => ?_) (fun other held => ?_) (fun other worker sending => ?_)
        fun _ _ => ⟨rfl, rfl⟩
      · have untaken := ((settled_waiting waiting).mp (documents.settled fileId inList)).1
        exact Nat.lt_of_le_of_ne untaken (Ne.symm same)
      · have acquires := documents.acquires_of_held inList held
        rw [readers_setReader, if_neg]
        rintro rfl
        rw [idle] at acquires
        cases acquires
      · obtain ⟨_, sends⟩ := documents.sends_of_sending inList sending
        rw [readers_setReader, if_neg]
        rintro rfl
        rw [idle] at sends
        cases sends
  case acquiring =>
    intro other fileId acquires
    rw [readers_setReader] at acquires
    split at acquires
    · rename_i same
      obtain rfl := Reader.acquiring.inj acquires
      exact ⟨listed, by rw [same]; exact Function.update_self ..⟩
    · obtain ⟨inList, held⟩ := documents.acquiring other fileId acquires
      exact ⟨inList, elsewhere held (by simp)⟩
  case sender =>
    intro other fileId worker remaining sends
    rw [readers_setReader] at sends
    split at sends
    · cases sends
    · obtain ⟨inList, sending⟩ := documents.sender other fileId worker remaining sends
      exact ⟨inList, elsewhere sending (by simp)⟩
  case alone =>
    intro first firstListed second secondListed worker
    rw [sameWorker, sameWorker]
    exact documents.alone first firstListed second secondListed worker
  case available =>
    intro worker
    simp only [sameWorker]
    exact documents.available worker
  case unoccupied => exact documents.unoccupied
  case nodup => exact documents.nodup

/-- An available worker gets the document of the reader that acquires it. -/
theorem acquire (documents : Documents oem files s h) {reader : Fin builder.readerThreads}
    {fileId : FileId} {worker : Fin builder.indexerThreads}
    {rest : List (Fin builder.indexerThreads)} (waits : s.readers reader = .acquiring fileId)
    (free : s.available = worker :: rest) :
    Documents oem files
      ({ s with available := rest }.setReader reader (.sending fileId worker
        [{ kind := .start, fileId }] (readBlocks (contentOf files fileId))))
      { h with place := Function.update h.place fileId (.sending reader worker) } := by
  obtain ⟨listed, held⟩ := documents.acquiring reader fileId waits
  have inAvailable : worker ∈ s.available := by
    rw [free]
    exact List.mem_cons_self
  have vacant := (documents.available worker).mp inAvailable
  obtain ⟨noTransit, noDocument⟩ := documents.unoccupied worker inAvailable
  have distinct : worker ∉ rest ∧ rest.Nodup := by
    rw [← List.nodup_cons, ← free]
    exact documents.nodup
  have placed : Function.update h.place fileId (.sending reader worker) fileId =
      .sending reader worker := Function.update_self ..
  have elsewhere : ∀ {other : FileId}, other ≠ fileId →
      Function.update h.place fileId (.sending reader worker) other = h.place other :=
    fun different => Function.update_of_ne different _ _
  constructor
  case settled =>
    intro other inList
    by_cases same : other = fileId
    · subst same
      obtain ⟨taken, untouched, _⟩ := (settled_held held).mp (documents.settled other inList)
      rw [settled_sending placed]
      refine ⟨taken, ?_, _, by rw [readers_setReader, if_pos rfl]; rfl, ?_⟩
      · rw [untouched]
        exact noDocument
      · rw [untouched, blocksOf_eq, transit_setReader]
        have same : ({ s with available := rest } : Pipeline builder).transit worker = [] := noTransit
        rw [same]
        rfl
    · refine (documents.settled other inList).of_same (elsewhere same) rfl le_rfl
        (fun waiting => ((settled_waiting waiting).mp (documents.settled other inList)).1)
        (fun holder heldOther => ?_) (fun sender lane sending => ?_) fun _ _ => ⟨rfl, rfl⟩
      · have acquires := documents.acquires_of_held inList heldOther
        rw [readers_setReader, if_neg]
        rintro rfl
        rw [waits] at acquires
        exact same (Reader.acquiring.inj acquires).symm
      · obtain ⟨_, sends⟩ := documents.sends_of_sending inList sending
        rw [readers_setReader, if_neg]
        rintro rfl
        rw [waits] at sends
        cases sends
  case acquiring =>
    intro other acquired acquires
    rw [readers_setReader] at acquires
    split at acquires
    · cases acquires
    · rename_i different
      obtain ⟨inList, heldOther⟩ := documents.acquiring other acquired acquires
      refine ⟨inList, (elsewhere ?_).trans heldOther⟩
      rintro rfl
      exact different (Place.held.inj (heldOther.symm.trans held))
  case sender =>
    intro other sent lane remaining sends
    rw [readers_setReader] at sends
    split at sends
    · rename_i same
      have equal := Option.some.inj sends
      obtain ⟨rfl, others⟩ := Prod.mk.inj equal
      obtain ⟨rfl, _⟩ := Prod.mk.inj others
      exact ⟨listed, by rw [same]; exact placed⟩
    · obtain ⟨inList, sending⟩ := documents.sender other sent lane remaining sends
      refine ⟨inList, (elsewhere ?_).trans sending⟩
      rintro rfl
      rw [held] at sending
      cases sending
  case alone =>
    intro first firstListed second secondListed lane atFirst atSecond
    by_cases firstSame : first = fileId <;> by_cases secondSame : second = fileId
    · exact firstSame.trans secondSame.symm
    · rw [firstSame] at atFirst
      obtain rfl : worker = lane := Option.some.inj ((congrArg Place.worker placed).symm.trans atFirst)
      exact absurd ((congrArg Place.worker (elsewhere secondSame)).symm.trans atSecond)
        (vacant second secondListed)
    · rw [secondSame] at atSecond
      obtain rfl : worker = lane :=
        Option.some.inj ((congrArg Place.worker placed).symm.trans atSecond)
      exact absurd ((congrArg Place.worker (elsewhere firstSame)).symm.trans atFirst)
        (vacant first firstListed)
    · exact documents.alone first firstListed second secondListed lane
        ((congrArg Place.worker (elsewhere firstSame)).symm.trans atFirst)
        ((congrArg Place.worker (elsewhere secondSame)).symm.trans atSecond)
  case available =>
    intro lane
    constructor
    · intro inRest other inList located
      have old : lane ∈ s.available := by
        rw [free]
        exact List.mem_cons_of_mem _ inRest
      by_cases same : other = fileId
      · rw [same] at located
        obtain rfl : worker = lane :=
          Option.some.inj ((congrArg Place.worker placed).symm.trans located)
        exact distinct.1 inRest
      · exact (documents.available lane).mp old other inList
          ((congrArg Place.worker (elsewhere same)).symm.trans located)
    · intro unused
      have different : lane ≠ worker := by
        rintro rfl
        exact unused fileId listed (congrArg Place.worker placed)
      have old : lane ∈ s.available := (documents.available lane).mpr fun other inList located => by
        by_cases same : other = fileId
        · rw [same, held] at located
          cases located
        · exact unused other inList ((congrArg Place.worker (elsewhere same)).trans located)
      rw [free] at old
      exact (List.mem_cons.mp old).resolve_left different
  case unoccupied =>
    intro lane inRest
    exact documents.unoccupied lane (by rw [free]; exact List.mem_cons_of_mem _ inRest)
  case nodup => exact distinct.2

/-- A worker with a document is not available. -/
theorem not_available (documents : Documents oem files s h) {fileId : FileId}
    {worker : Fin builder.indexerThreads} (listed : fileId < files.length)
    (place : (h.place fileId).worker = some worker) : worker ∉ s.available :=
  fun free => (documents.available worker).mp free fileId listed place

/-- Pushing a block moves it from the reader to the lane. -/
theorem push (documents : Documents oem files s h) {reader : Fin builder.readerThreads}
    {fileId : FileId} {worker : Fin builder.indexerThreads} {block : FileBlock}
    {rest : List FileBlock} {lane : BoundedByteQueue FileBlock} {phase : Reader builder}
    (sends : outgoing (s.readers reader) = some (fileId, worker, block :: rest))
    (pushed : (s.lanes worker).Pushed block lane)
    (next : outgoing phase = some (fileId, worker, rest)) :
    Documents oem files ((s.setLane worker lane).setReader reader phase) h := by
  obtain ⟨listed, sending⟩ := documents.sender reader fileId worker _ sends
  have located : (h.place fileId).worker = some worker := by
    rw [sending]
    rfl
  have silent : ∀ acquired, s.readers reader ≠ .acquiring acquired := by
    intro acquired acquires
    rw [acquires] at sends
    cases sends
  constructor
  case settled =>
    intro other inList
    by_cases same : other = fileId
    · subst same
      obtain ⟨taken, document, remaining, sent, blocks⟩ :=
        (settled_sending sending).mp (documents.settled other inList)
      obtain rfl : block :: rest = remaining := by simpa [sends] using sent
      rw [settled_sending sending]
      refine ⟨taken, document, rest, by rw [readers_setReader, if_pos rfl, next], ?_⟩
      rw [← blocks, transit_setReader, transit_setLane, if_pos rfl, pushed.items, transit]
      simp
    · refine (documents.settled other inList).of_same rfl rfl le_rfl
        (fun waiting => ((settled_waiting waiting).mp (documents.settled other inList)).1)
        (fun holder held => ?_) (fun sender lane sendingOther => ?_) fun lane place => ⟨?_, rfl⟩
      · have acquires := documents.acquires_of_held inList held
        rw [readers_setReader, if_neg, readers_setLane]
        rintro rfl
        exact silent other acquires
      · obtain ⟨_, sendsOther⟩ := documents.sends_of_sending inList sendingOther
        rw [readers_setReader, if_neg, readers_setLane]
        rintro rfl
        rw [sends] at sendsOther
        exact same (Prod.mk.inj (Option.some.inj sendsOther)).1.symm
      · rw [transit_setReader, transit_setLane, if_neg]
        rintro rfl
        exact same (documents.alone other inList fileId listed _ place located)
  case acquiring =>
    intro other acquired acquires
    rw [readers_setReader] at acquires
    split at acquires
    · rw [acquires] at next
      cases next
    · exact documents.acquiring other acquired acquires
  case sender =>
    intro other sent target remaining sendsOther
    rw [readers_setReader] at sendsOther
    split at sendsOther
    · rename_i same
      obtain ⟨rfl, others⟩ := Prod.mk.inj (Option.some.inj (next.symm.trans sendsOther))
      obtain ⟨rfl, _⟩ := Prod.mk.inj others
      rw [same]
      exact ⟨listed, sending⟩
    · exact documents.sender other sent target remaining sendsOther
  case alone => exact documents.alone
  case available => exact documents.available
  case unoccupied =>
    intro other free
    have different : other ≠ worker := by
      rintro rfl
      exact documents.not_available listed located free
    obtain ⟨noTransit, noDocument⟩ := documents.unoccupied other free
    rw [transit_setReader, transit_setLane, if_neg different]
    exact ⟨noTransit, noDocument⟩
  case nodup => exact documents.nodup

/-- Pushing `Complete` leaves the document with its worker. -/
theorem complete (documents : Documents oem files s h) {reader : Fin builder.readerThreads}
    {fileId : FileId} {worker : Fin builder.indexerThreads} {lane : BoundedByteQueue FileBlock}
    (completes : s.readers reader = .completing fileId worker)
    (pushed : (s.lanes worker).Pushed { kind := .complete, fileId } lane) :
    Documents oem files ((s.setLane worker lane).setReader reader .idle)
      { h with place := Function.update h.place fileId (.sent worker) } := by
  have sends : outgoing (s.readers reader) =
      some (fileId, worker, [{ kind := .complete, fileId }]) := by
    rw [completes]
    rfl
  obtain ⟨listed, sending⟩ := documents.sender reader fileId worker _ sends
  have located : (h.place fileId).worker = some worker := by
    rw [sending]
    rfl
  have placed : Function.update h.place fileId (.sent worker) fileId = .sent worker :=
    Function.update_self ..
  have elsewhere : ∀ {other : FileId}, other ≠ fileId →
      Function.update h.place fileId (.sent worker) other = h.place other :=
    fun different => Function.update_of_ne different _ _
  have sameWorker : ∀ other, (Function.update h.place fileId (.sent worker) other).worker =
      (h.place other).worker := by
    intro other
    by_cases same : other = fileId
    · rw [same, placed, located]
      rfl
    · rw [elsewhere same]
  constructor
  case settled =>
    intro other inList
    by_cases same : other = fileId
    · subst same
      obtain ⟨taken, document, remaining, sent, blocks⟩ :=
        (settled_sending sending).mp (documents.settled other inList)
      obtain rfl : [({ kind := .complete, fileId := other } : FileBlock)] = remaining := by
        simpa [sends] using sent
      rw [settled_sent placed, transit_setReader, transit_setLane, if_pos rfl, pushed.items]
      refine ⟨taken, document, ?_, _, List.mem_append_right _ (List.mem_append_right _
        (List.mem_singleton_self _)), rfl⟩
      rw [← blocks, transit]
      simp
    · refine (documents.settled other inList).of_same (elsewhere same) rfl le_rfl
        (fun waiting => ((settled_waiting waiting).mp (documents.settled other inList)).1)
        (fun holder held => ?_) (fun sender lane sendingOther => ?_) fun lane place => ⟨?_, rfl⟩
      · have acquires := documents.acquires_of_held inList held
        rw [readers_setReader, if_neg, readers_setLane]
        rintro rfl
        rw [completes] at acquires
        cases acquires
      · obtain ⟨_, sendsOther⟩ := documents.sends_of_sending inList sendingOther
        rw [readers_setReader, if_neg, readers_setLane]
        rintro rfl
        rw [sends] at sendsOther
        exact same (Prod.mk.inj (Option.some.inj sendsOther)).1.symm
      · rw [transit_setReader, transit_setLane, if_neg]
        rintro rfl
        exact same (documents.alone other inList fileId listed _ place located)
  case acquiring =>
    intro other acquired acquires
    rw [readers_setReader] at acquires
    split at acquires
    · cases acquires
    · obtain ⟨inList, held⟩ := documents.acquiring other acquired acquires
      refine ⟨inList, (elsewhere ?_).trans held⟩
      rintro rfl
      rw [sending] at held
      cases held
  case sender =>
    intro other sent target remaining sendsOther
    rw [readers_setReader] at sendsOther
    split at sendsOther
    · cases sendsOther
    · rename_i different
      obtain ⟨inList, sendingOther⟩ := documents.sender other sent target remaining sendsOther
      refine ⟨inList, (elsewhere ?_).trans sendingOther⟩
      rintro rfl
      exact different (Place.sending.inj (sendingOther.symm.trans sending)).1
  case alone =>
    intro first firstListed second secondListed lane
    rw [sameWorker, sameWorker]
    exact documents.alone first firstListed second secondListed lane
  case available =>
    intro lane
    simp only [sameWorker]
    exact documents.available lane
  case unoccupied =>
    intro other free
    have different : other ≠ worker := by
      rintro rfl
      exact documents.not_available listed located free
    obtain ⟨noTransit, noDocument⟩ := documents.unoccupied other free
    rw [transit_setReader, transit_setLane, if_neg different]
    exact ⟨noTransit, noDocument⟩
  case nodup => exact documents.nodup

/-! ## Indexers -/

/-- A worker that handles a block other than the last one stays with its document. -/
theorem progress (documents : Documents oem files s h) {worker : Fin builder.indexerThreads}
    {block : FileBlock} {document : DocumentAccumulator} (listed : block.fileId < files.length)
    (located : (h.place block.fileId).worker = some worker)
    (current : (s.indexers worker).current = some block) (kind : block.kind ≠ .complete)
    (opened : openDocument oem block.fileId (h.handled block.fileId ++ [block]) = some document) :
    Documents oem files
      (s.setIndexer worker { s.indexers worker with current := none, document := some document })
      { h with handled :=
          Function.update h.handled block.fileId (h.handled block.fileId ++ [block]) } := by
  have front : s.transit worker = block :: (s.lanes worker).items := by
    rw [transit, current]
    rfl
  have handled :
      ({ h with
        handled := Function.update h.handled block.fileId (h.handled block.fileId ++ [block]) } :
          History builder).handled block.fileId = h.handled block.fileId ++ [block] :=
    Function.update_self ..
  constructor
  case settled =>
    intro other inList
    by_cases same : other = block.fileId
    · subst same
      cases place : h.place block.fileId with
      | sending reader target =>
          obtain rfl : target = worker := by simpa [place, Place.worker] using located
          obtain ⟨taken, _, remaining, sends, blocks⟩ :=
            (settled_sending place).mp (documents.settled _ inList)
          rw [front] at blocks
          refine (settled_sending (by exact place)).mpr ⟨taken, ?_, remaining, sends, ?_⟩
          · rw [handled, opened, indexers_setIndexer, if_pos rfl]
          · rw [handled, transit_setIndexer, if_pos rfl]
            simpa using blocks
      | sent target =>
          obtain rfl : target = worker := by simpa [place, Place.worker] using located
          obtain ⟨taken, _, blocks, last, member, lastKind⟩ :=
            (settled_sent place).mp (documents.settled _ inList)
          rw [front] at blocks member
          have later : last ∈ (s.lanes target).items := by
            refine (List.mem_cons.mp member).resolve_left ?_
            rintro rfl
            exact kind lastKind
          refine (settled_sent (by exact place)).mpr ⟨taken, ?_, ?_, last, ?_, lastKind⟩
          · rw [handled, opened, indexers_setIndexer, if_pos rfl]
          · rw [handled, transit_setIndexer, if_pos rfl]
            simpa using blocks
          · rw [transit_setIndexer, if_pos rfl]
            exact later
      | waiting => simp [place, Place.worker] at located
      | held reader => simp [place, Place.worker] at located
      | committed target => simp [place, Place.worker] at located
    · refine (documents.settled other inList).of_same rfl (Function.update_of_ne same _ _) le_rfl
        (fun waiting => ((settled_waiting waiting).mp (documents.settled other inList)).1)
        (fun _ _ => rfl) (fun _ _ _ => rfl) fun lane place => ?_
      have different : lane ≠ worker := by
        rintro rfl
        exact same (documents.alone other inList _ listed _ place located)
      rw [transit_setIndexer, indexers_setIndexer, if_neg different, if_neg different]
      exact ⟨rfl, rfl⟩
  case acquiring => exact documents.acquiring
  case sender => exact documents.sender
  case alone => exact documents.alone
  case available => exact documents.available
  case unoccupied =>
    intro other free
    have different : other ≠ worker := by
      rintro rfl
      exact documents.not_available listed located free
    rw [transit_setIndexer, indexers_setIndexer, if_neg different, if_neg different]
    exact documents.unoccupied other free
  case nodup => exact documents.nodup

/-- A worker that handles the last block is available again. -/
theorem commit (documents : Documents oem files s h) {worker : Fin builder.indexerThreads}
    {block : FileBlock} {dictionary : LocalDictionary} {indexedFiles : Nat}
    {commits : Fin builder.indexerThreads → List FileId}
    (listed : block.fileId < files.length)
    (located : (h.place block.fileId).worker = some worker)
    (current : (s.indexers worker).current = some block) (kind : block.kind = .complete) :
    Documents oem files
      { ({ s with indexedFiles := indexedFiles }.setIndexer worker
          { s.indexers worker with current := none, document := none, dictionary := dictionary }) with
        available := s.available ++ [worker] }
      { place := Function.update h.place block.fileId (.committed worker)
        handled := Function.update h.handled block.fileId (h.handled block.fileId ++ [block])
        commits := commits } := by
  have front : s.transit worker = block :: (s.lanes worker).items := by
    rw [transit, current]
    rfl
  have whole : h.handled block.fileId ++ [block] = blocksOf builder files block.fileId ∧
      block.fileId < s.nextJob ∧ (s.lanes worker).items = [] ∧
        ∀ reader, h.place block.fileId ≠ .sending reader worker := by
    cases place : h.place block.fileId with
    | sending reader target =>
        obtain rfl : target = worker := by simpa [place, Place.worker] using located
        obtain ⟨_, _, remaining, sends, blocks⟩ :=
          (settled_sending place).mp (documents.settled _ listed)
        rw [front, List.cons_append] at blocks
        obtain ⟨_, kinds⟩ := next_block_cases oem blocks
        rcases kinds with ⟨_, start⟩ | ⟨_, data⟩ | ⟨_, _, rest⟩
        · rw [kind] at start
          cases start
        · rw [kind] at data
          cases data
        · obtain ⟨_, rfl⟩ := List.append_eq_nil_iff.mp rest
          cases phase : s.readers reader <;> simp [phase, outgoing] at sends
    | sent target =>
        obtain rfl : target = worker := by simpa [place, Place.worker] using located
        obtain ⟨taken, _, blocks, _⟩ := (settled_sent place).mp (documents.settled _ listed)
        rw [front] at blocks
        obtain ⟨_, kinds⟩ := next_block_cases oem blocks
        rcases kinds with ⟨_, start⟩ | ⟨_, data⟩ | ⟨_, _, rest⟩
        · rw [kind] at start
          cases start
        · rw [kind] at data
          cases data
        · rw [rest] at blocks
          exact ⟨blocks, taken, rest, by simp⟩
    | waiting => simp [place, Place.worker] at located
    | held reader => simp [place, Place.worker] at located
    | committed target => simp [place, Place.worker] at located
  obtain ⟨complete, taken, emptied, notSending⟩ := whole
  have placed : Function.update h.place block.fileId (.committed worker) block.fileId =
      .committed worker := Function.update_self ..
  have elsewhere : ∀ {other : FileId}, other ≠ block.fileId →
      Function.update h.place block.fileId (.committed worker) other = h.place other :=
    fun different => Function.update_of_ne different _ _
  have left : ∀ other lane, (Function.update h.place block.fileId (.committed worker) other).worker =
      some lane → other ≠ block.fileId ∧ (h.place other).worker = some lane := by
    intro other lane place
    by_cases same : other = block.fileId
    · rw [same, placed] at place
      cases place
    · rw [elsewhere same] at place
      exact ⟨same, place⟩
  constructor
  case settled =>
    intro other inList
    by_cases same : other = block.fileId
    · subst same
      rw [settled_committed placed]
      exact ⟨taken, (Function.update_self ..).trans complete⟩
    · refine (documents.settled other inList).of_same (elsewhere same) (Function.update_of_ne same _ _)
        le_rfl (fun waiting => ((settled_waiting waiting).mp (documents.settled other inList)).1)
        (fun _ _ => rfl) (fun _ _ _ => rfl) fun lane place => ?_
      have different : lane ≠ worker := by
        rintro rfl
        exact same (documents.alone other inList _ listed _ place located)
      exact ⟨(transit_setIndexer ..).trans (if_neg different),
        congrArg Indexer.document ((indexers_setIndexer ..).trans (if_neg different))⟩
  case acquiring =>
    intro reader acquired acquires
    obtain ⟨inList, held⟩ := documents.acquiring reader acquired acquires
    refine ⟨inList, (elsewhere ?_).trans held⟩
    rintro rfl
    rw [held] at located
    cases located
  case sender =>
    intro reader sent target remaining sends
    obtain ⟨inList, sending⟩ := documents.sender reader sent target remaining sends
    refine ⟨inList, (elsewhere ?_).trans sending⟩
    rintro rfl
    rw [sending] at located
    obtain rfl := Option.some.inj located
    exact notSending reader sending
  case alone =>
    intro first firstListed second secondListed lane atFirst atSecond
    exact documents.alone first firstListed second secondListed lane (left _ _ atFirst).2
      (left _ _ atSecond).2
  case available =>
    intro lane
    constructor
    · intro free other inList place
      obtain ⟨different, old⟩ := left other lane place
      rcases List.mem_append.mp free with before | new
      · exact (documents.available lane).mp before other inList old
      · obtain rfl := List.mem_singleton.mp new
        exact different (documents.alone other inList _ listed _ old located)
    · intro unused
      by_cases same : lane = worker
      · exact List.mem_append_right _ (List.mem_singleton.mpr same)
      · refine List.mem_append_left _ ((documents.available lane).mpr fun other inList place => ?_)
        by_cases sameFile : other = block.fileId
        · rw [sameFile, located] at place
          exact same (Option.some.inj place).symm
        · exact unused other inList ((congrArg Place.worker (elsewhere sameFile)).trans place)
  case unoccupied =>
    intro lane free
    rcases List.mem_append.mp free with before | new
    · have different : lane ≠ worker := by
        rintro rfl
        exact documents.not_available listed located before
      obtain ⟨noTransit, noDocument⟩ := documents.unoccupied lane before
      exact ⟨((transit_setIndexer ..).trans (if_neg different)).trans noTransit,
        (congrArg Indexer.document ((indexers_setIndexer ..).trans (if_neg different))).trans
          noDocument⟩
    · obtain rfl := List.mem_singleton.mp new
      refine ⟨(transit_setIndexer ..).trans ?_,
        congrArg Indexer.document ((indexers_setIndexer ..).trans (if_pos rfl))⟩
      rw [if_pos rfl]
      exact emptied
  case nodup =>
    exact documents.nodup.append (List.nodup_singleton _) (by
      simpa using documents.not_available listed located)

end Documents

end SearchEngine.Batch.Pipeline
