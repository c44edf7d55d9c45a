import SearchEngine.Batch.PipelineMoves

/-!
# Runs of the pipeline

Every reachable state of the pipeline is in order. Until the threads are joined
some thread can move, and a measure of the remaining work bounds the length of
every run, so `build` always gets to its merge.
-/

namespace SearchEngine.Batch.Pipeline

open SearchEngine.Lib SearchEngine.Index

variable {builder : BatchIndexBuilder} {oem : OemTable} {files : List SourceFile}
  {s after : Pipeline builder} {h later : History builder}

/-! ## Closing -/

namespace Closing

/-- While a reader is at work no lane is closed, no indexer has ended and the
readers are being joined. -/
theorem atWork (closing : Closing files s) {reader : Fin builder.readerThreads}
    (active : hasLeft (s.readers reader) = false) :
    (∀ worker, (s.lanes worker).closed = false) ∧
      (∀ worker, (s.indexers worker).exited = false) ∧ s.main = .joiningReaders := by
  have isOpen : ∀ worker, (s.lanes worker).closed = false := by
    intro worker
    by_contra closed
    have left := closing.closed worker (by simpa using closed) reader
    simp [active] at left
  refine ⟨isOpen, fun worker => ?_, ?_⟩
  · by_contra ended
    have closed := (closing.exited worker (by simpa using ended)).1
    simp [isOpen worker] at closed
  · by_contra joining
    have finished := (closing.joining joining).1 reader
    cases phase : s.readers reader <;> simp [phase, isFinished, hasLeft] at finished active

/-- A reader at work moves to a phase in which it is still at work. -/
theorem of_activeReader (closing : Closing files s) {reader : Fin builder.readerThreads}
    {phase : Reader builder} (active : hasLeft (s.readers reader) = false)
    (still : hasLeft phase = false) (readers : after.readers = (s.setReader reader phase).readers)
    (jobs : s.nextJob ≤ after.nextJob)
    (out : ranOut phase = true → files.length ≤ after.nextJob)
    (lanes : ∀ worker, (after.lanes worker).closed = (s.lanes worker).closed)
    (indexers : after.indexers = s.indexers)
    (remaining : after.readersRemaining = s.readersRemaining) (main : after.main = s.main) :
    Closing files after := by
  obtain ⟨isOpen, alive, joining⟩ := closing.atWork active
  have left : ∀ other, hasLeft (after.readers other) = hasLeft (s.readers other) := by
    intro other
    rw [readers, readers_setReader]
    split
    · rename_i same
      rw [same, still, active]
    · rfl
  constructor
  case closed =>
    intro worker closed
    simp [lanes, isOpen] at closed
  case remaining =>
    rw [remaining, closing.remaining]
    simp only [left]
  case last =>
    intro other lanes closes
    rw [readers, readers_setReader] at closes
    split at closes
    · rw [closes] at still
      cases still
    · exact remaining.trans (closing.last other lanes closes)
  case exhausted =>
    intro other ended
    rw [readers, readers_setReader] at ended
    split at ended
    · exact out ended
    · exact (closing.exhausted other ended).trans jobs
  case exited =>
    intro worker ended
    simp [indexers, alive] at ended
  case joining =>
    intro notJoining
    exact absurd (main.trans joining) notJoining
  case joined =>
    intro joined
    rw [main, joining] at joined
    cases joined

/-- An indexer that has not ended handles or pops a block. -/
theorem of_indexer (closing : Closing files s) {worker : Fin builder.indexerThreads}
    (alive : (s.indexers worker).exited = false) (readers : after.readers = s.readers)
    (jobs : after.nextJob = s.nextJob)
    (lanes : ∀ other, (after.lanes other).closed = (s.lanes other).closed)
    (still : (after.indexers worker).exited = false)
    (others : ∀ other ≠ worker, after.indexers other = s.indexers other ∧
      after.transit other = s.transit other)
    (remaining : after.readersRemaining = s.readersRemaining) (main : after.main = s.main) :
    Closing files after := by
  constructor
  case closed =>
    intro other closed
    rw [lanes] at closed
    rw [readers]
    exact closing.closed other closed
  case remaining =>
    rw [remaining, readers]
    exact closing.remaining
  case last =>
    rw [remaining, readers]
    exact closing.last
  case exhausted =>
    rw [readers, jobs]
    exact closing.exhausted
  case exited =>
    intro other ended
    by_cases same : other = worker
    · rw [same, still] at ended
      cases ended
    · rw [(others other same).1] at ended
      rw [lanes, (others other same).2]
      exact closing.exited other ended
  case joining =>
    intro joining
    rw [main] at joining
    simp only [readers, lanes]
    exact closing.joining joining
  case joined =>
    intro joined
    rw [main] at joined
    have ended := closing.joined joined worker
    rw [alive] at ended
    cases ended

/-- An indexer that has not ended handles the block it popped. -/
theorem of_handling (closing : Closing files s) {worker : Fin builder.indexerThreads}
    {document : Option DocumentAccumulator} {dictionary : LocalDictionary}
    (alive : (s.indexers worker).exited = false) :
    Closing files (s.setIndexer worker
      { s.indexers worker with
        current := none
        document := document
        dictionary := dictionary }) := by
  refine closing.of_indexer alive rfl rfl (fun _ => rfl) ?_ (fun other different => ?_) rfl rfl
  · rw [indexers_setIndexer, if_pos rfl]
    exact alive
  · rw [indexers_setIndexer, if_neg different, transit_setIndexer, if_neg different]
    exact ⟨rfl, rfl⟩

/-- A reader at work is counted. -/
theorem one_le_remaining (closing : Closing files s) {reader : Fin builder.readerThreads}
    (active : hasLeft (s.readers reader) = false) : 1 ≤ s.readersRemaining := by
  rw [closing.remaining, ← Finset.add_sum_erase _ _ (Finset.mem_univ reader), active,
    if_neg Bool.false_ne_true]
  omega

/-- A reader leaves; the last one goes on to close the lanes. -/
theorem leave (closing : Closing files s) {reader : Fin builder.readerThreads}
    {phase : Reader builder} {count : Nat} (finishing : s.readers reader = .finishing)
    (left : hasLeft phase = true) (counted : count + 1 = s.readersRemaining)
    (last : phase = .finished ∨ count = 0) :
    Closing files ({ s with readersRemaining := count }.setReader reader phase) := by
  have active : hasLeft (s.readers reader) = false := by
    rw [finishing]
    rfl
  obtain ⟨isOpen, alive, joining⟩ := closing.atWork active
  constructor
  case closed =>
    intro worker closed
    exact absurd closed (by simp [isOpen])
  case remaining =>
    have sum := sum_changed_part s.readers reader phase fun other => if hasLeft other then 0 else 1
    rw [← closing.remaining, active, left] at sum
    exact Nat.add_right_cancel (counted.trans sum.symm)
  case last =>
    intro other lanes closes
    rw [readers_setReader] at closes
    split at closes
    · rcases last with done | zero
      · rw [done] at closes
        cases closes
      · exact zero
    · have none := closing.last other lanes closes
      omega
  case exhausted =>
    intro other out
    rw [readers_setReader] at out
    split at out
    · exact closing.exhausted reader (by rw [finishing]; rfl)
    · exact closing.exhausted other out
  case exited =>
    intro worker ended
    exact absurd ended (by simp [alive])
  case joining =>
    intro notJoining
    exact absurd joining notJoining
  case joined =>
    intro joined
    exact absurd (joined.symm.trans joining) (by simp)

/-- The number of readers at work does not change when one that has left moves on. -/
theorem remaining_of_left (closing : Closing files s) {reader : Fin builder.readerThreads}
    {phase : Reader builder} (gone : hasLeft (s.readers reader) = true)
    (left : hasLeft phase = true) :
    s.readersRemaining =
      ∑ other, if hasLeft ((s.setReader reader phase).readers other) then 0 else 1 := by
  have sum := sum_changed_part s.readers reader phase fun other => if hasLeft other then 0 else 1
  rw [← closing.remaining, gone, left] at sum
  exact (Nat.add_right_cancel sum).symm

/-- When no reader remains every reader has left. -/
theorem everyone (closing : Closing files s) (none : s.readersRemaining = 0)
    (reader : Fin builder.readerThreads) : hasLeft (s.readers reader) = true := by
  have zero := closing.remaining.symm.trans none
  rw [Finset.sum_eq_zero_iff] at zero
  have left := zero reader (Finset.mem_univ reader)
  by_contra working
  rw [if_neg working] at left
  cases left

/-- The last reader closes one more lane. -/
theorem close (closing : Closing files s) {reader : Fin builder.readerThreads}
    {worker : Fin builder.indexerThreads} {rest : List (Fin builder.indexerThreads)}
    (phase : s.readers reader = .closing (worker :: rest)) :
    Closing files ((s.setLane worker (s.lanes worker).close).setReader reader (.closing rest)) := by
  have none := closing.last reader _ phase
  have everyone := closing.everyone none
  have sameTransit : ∀ other,
      (s.setLane worker (s.lanes worker).close).transit other = s.transit other := by
    intro other
    rw [transit_setLane]
    split
    · rename_i same
      rw [same, transit, BoundedByteQueue.items_close]
    · rfl
  constructor
  case closed =>
    intro _ _ other
    rw [readers_setReader]
    split
    · rfl
    · exact everyone other
  case remaining => exact closing.remaining_of_left (everyone reader) rfl
  case last => exact fun _ _ _ => none
  case exhausted =>
    intro other _
    exact closing.exhausted reader (by rw [phase]; rfl)
  case exited =>
    intro other ended
    obtain ⟨closed, noTransit⟩ := closing.exited other ended
    rw [lanes_setReader, lanes_setLane, transit_setReader, sameTransit]
    refine ⟨?_, noTransit⟩
    split
    · rfl
    · exact closed
  case joining =>
    intro joining
    have finished := (closing.joining joining).1 reader
    rw [phase] at finished
    cases finished
  case joined => exact closing.joined

/-- The last reader has closed every lane. -/
theorem endClosing (closing : Closing files s) {reader : Fin builder.readerThreads}
    (phase : s.readers reader = .closing []) :
    Closing files (s.setReader reader .finished) := by
  constructor
  case closed =>
    intro worker closed other
    rw [readers_setReader]
    split
    · rfl
    · exact closing.closed worker closed other
  case remaining => exact closing.remaining_of_left (by rw [phase]; rfl) rfl
  case last => exact fun _ _ _ => closing.last reader _ phase
  case exhausted =>
    intro other out
    rw [readers_setReader] at out
    split at out
    · exact closing.exhausted reader (by rw [phase]; rfl)
    · exact closing.exhausted other out
  case exited => exact closing.exited
  case joining =>
    intro joining
    have finished := (closing.joining joining).1 reader
    rw [phase] at finished
    cases finished
  case joined => exact closing.joined

/-- An indexer ends on its closed and empty lane. -/
theorem exit (closing : Closing files s) {worker : Fin builder.indexerThreads}
    (free : (s.indexers worker).current = none) (empty : (s.lanes worker).items = [])
    (closed : (s.lanes worker).closed = true) :
    Closing files (s.setIndexer worker { s.indexers worker with exited := true }) := by
  have noTransit : s.transit worker = [] := by
    rw [transit, free, empty]
    rfl
  have sameTransit : ∀ other, (s.setIndexer worker
      { s.indexers worker with exited := true }).transit other = s.transit other := by
    intro other
    rw [transit_setIndexer]
    split
    · rename_i same
      rw [same]
      rfl
    · rfl
  constructor
  case closed => exact closing.closed
  case remaining => exact closing.remaining
  case last => exact closing.last
  case exhausted => exact closing.exhausted
  case exited =>
    intro other ended
    rw [sameTransit]
    by_cases same : other = worker
    · rw [same]
      exact ⟨closed, noTransit⟩
    · rw [indexers_setIndexer, if_neg same] at ended
      exact closing.exited other ended
  case joining => exact closing.joining
  case joined =>
    intro joined other
    rw [indexers_setIndexer]
    split
    · rfl
    · exact closing.joined joined other

theorem joinReaders (closing : Closing files s)
    (finished : ∀ reader, isFinished (s.readers reader) = true) :
    Closing files
      { s with main := .joiningIndexers, lanes := fun worker => (s.lanes worker).close } where
  closed _ _ reader := by
    have done := finished reader
    cases phase : s.readers reader <;> simp_all [isFinished, hasLeft]
  remaining := closing.remaining
  last := closing.last
  exhausted := closing.exhausted
  exited worker ended := ⟨rfl, (closing.exited worker ended).2⟩
  joining _ := ⟨finished, fun _ => rfl⟩
  joined joined := by cases joined

theorem joinIndexers (closing : Closing files s) (joining : s.main = .joiningIndexers)
    (exited : ∀ worker, (s.indexers worker).exited = true) :
    Closing files { s with main := .joined } where
  closed := closing.closed
  remaining := closing.remaining
  last := closing.last
  exhausted := closing.exhausted
  exited := closing.exited
  joining _ := closing.joining (by rw [joining]; simp)
  joined _ := exited

end Closing

/-- An operation on a lane that does not cancel it. -/
theorem Running.setLane (running : Running s) {worker : Fin builder.indexerThreads}
    (lane : BoundedByteQueue FileBlock) (open' : lane.cancelled = false)
    (capacity : lane.capacityBytes = (s.lanes worker).capacityBytes) :
    Running (s.setLane worker lane) where
  calm := running.calm
  running other := by
    rw [lanes_setLane]
    split
    · exact open'
    · exact running.running other
  capacity other := by
    rw [lanes_setLane]
    split
    · exact capacity.trans (running.capacity worker)
    · exact running.capacity other

/-- A field no invariant mentions may change. -/
theorem Documents.withBytes (documents : Documents oem files s h) (bytes : Nat) :
    Documents oem files { s with bytesRead := bytes } h :=
  documents.of_same (.inl rfl) (fun _ _ => .rfl) (fun _ => rfl) (fun _ => rfl) (fun _ => rfl) rfl

/-! ## Every move keeps the order -/

namespace Orderly

theorem kept_reader (order : Orderly oem files s h) (reader : Fin builder.readerThreads)
    {phase : Reader builder} (active : hasLeft (s.readers reader) = false)
    (still : hasLeft phase = false)
    (documents : Documents oem files after later) (running : Running after)
    (readers : after.readers = (s.setReader reader phase).readers)
    (jobs : s.nextJob ≤ after.nextJob)
    (out : ranOut phase = true → files.length ≤ after.nextJob)
    (lanes : ∀ worker, (after.lanes worker).closed = (s.lanes worker).closed)
    (indexers : after.indexers = s.indexers)
    (remaining : after.readersRemaining = s.readersRemaining) (main : after.main = s.main) :
    Orderly oem files after later :=
  ⟨documents, order.toClosing.of_activeReader active still readers jobs out lanes indexers
    remaining main, running⟩

/-- A lane keeps its flag when a block is pushed or popped. -/
theorem closed_setLane {worker : Fin builder.indexerThreads} {lane : BoundedByteQueue FileBlock}
    (same : lane.closed = (s.lanes worker).closed) (other : Fin builder.indexerThreads) :
    ((s.setLane worker lane).lanes other).closed = (s.lanes other).closed := by
  rw [lanes_setLane]
  split
  · rename_i equal
    rw [equal, same]
  · rfl

/-- Every move keeps the order. -/
theorem kept (order : Orderly oem files s h) (moved : Move oem files s h after later) :
    Orderly oem files after later := by
  cases moved with
  | take reader file idle job =>
      obtain ⟨listed, _⟩ := List.getElem?_eq_some_iff.mp job
      exact order.kept_reader _ (by rw [idle]; rfl) rfl (order.toDocuments.take _ idle listed)
        ⟨order.calm, order.running, order.capacity⟩ rfl (Nat.le_succ _) (fun out => by cases out)
        (fun _ => rfl) rfl rfl rfl
  | runOut reader idle none =>
      have beyond := List.getElem?_eq_none_iff.mp none
      have documents : Documents oem files { s with nextJob := s.nextJob + 1 } h :=
        order.toDocuments.of_same (.inr ⟨Nat.le_succ _, beyond⟩) (fun _ _ => .rfl) (fun _ => rfl)
          (fun _ => rfl) (fun _ => rfl) rfl
      refine order.kept_reader reader (by rw [idle]; rfl) rfl
        (documents.setReader (fun _ => ⟨?_, by simp⟩) ?_)
        ⟨order.calm, order.running, order.capacity⟩ rfl (Nat.le_succ _)
        (fun _ => beyond.trans (Nat.le_succ _)) (fun _ => rfl) rfl rfl rfl
      · exact fun acquires => by cases idle.symm.trans acquires
      · exact (congrArg outgoing idle).symm
  | acquire reader fileId worker rest waits free =>
      exact order.kept_reader _ (by rw [waits]; rfl) rfl (order.toDocuments.acquire waits free)
        ⟨order.calm, order.running, order.capacity⟩ rfl le_rfl (fun out => by cases out)
        (fun _ => rfl) rfl rfl rfl
  | push reader fileId worker block blocks reads lane sends pushed =>
      exact order.kept_reader _ (by rw [sends]; rfl) rfl
        (order.toDocuments.push (by rw [sends]; rfl) pushed rfl)
        (order.toRunning.setLane _ pushed.cancelled.2 pushed.capacity |> fun running =>
          ⟨running.calm, running.running, running.capacity⟩) rfl le_rfl (fun out => by cases out)
        (closed_setLane (pushed.closed.2.trans pushed.closed.1.symm)) rfl rfl rfl
  | read reader fileId worker read reads sends =>
      refine order.kept_reader _ (by rw [sends]; rfl) rfl
        ((order.toDocuments.withBytes _).setReader (fun _ => ⟨?_, by simp⟩) ?_)
        ⟨order.calm, order.running, order.capacity⟩ rfl le_rfl (fun out => by cases out)
        (fun _ => rfl) rfl rfl rfl
      · exact fun acquires => by cases sends.symm.trans acquires
      · refine Eq.trans ?_ (congrArg outgoing sends).symm
        simp [outgoing]
  | endReads reader fileId worker sends =>
      refine order.kept_reader _ (by rw [sends]; rfl) rfl
        (order.toDocuments.setReader (fun _ => ⟨?_, by simp⟩) ?_)
        ⟨order.calm, order.running, order.capacity⟩ rfl le_rfl (fun out => by cases out)
        (fun _ => rfl) rfl rfl rfl
      · exact fun acquires => by cases sends.symm.trans acquires
      · exact (congrArg outgoing sends).symm
  | complete reader fileId worker lane completes pushed =>
      exact order.kept_reader _ (by rw [completes]; rfl) rfl
        (order.toDocuments.complete completes pushed)
        (order.toRunning.setLane _ pushed.cancelled.2 pushed.capacity |> fun running =>
          ⟨running.calm, running.running, running.capacity⟩) rfl le_rfl (fun out => by cases out)
        (closed_setLane (pushed.closed.2.trans pushed.closed.1.symm)) rfl rfl rfl
  | leave reader finishing others =>
      have active : hasLeft (s.readers reader) = false := by
        rw [finishing]
        rfl
      have positive := order.toClosing.one_le_remaining active
      have documents : Documents oem files
          { s with readersRemaining := s.readersRemaining - 1 } h :=
        order.toDocuments.of_same (.inl rfl) (fun _ _ => .rfl) (fun _ => rfl) (fun _ => rfl)
          (fun _ => rfl) rfl
      refine ⟨documents.setReader (fun _ => ⟨?_, by simp⟩) (congrArg outgoing finishing).symm,
        order.toClosing.leave finishing rfl (by omega) (.inl rfl),
        ⟨order.calm, order.running, order.capacity⟩⟩
      exact fun acquires => by cases finishing.symm.trans acquires
  | leaveLast reader finishing last =>
      have documents : Documents oem files { s with readersRemaining := 0 } h :=
        order.toDocuments.of_same (.inl rfl) (fun _ _ => .rfl) (fun _ => rfl) (fun _ => rfl)
          (fun _ => rfl) rfl
      refine ⟨documents.setReader (fun _ => ⟨?_, by simp⟩) (congrArg outgoing finishing).symm,
        order.toClosing.leave finishing rfl last.symm (.inr rfl),
        ⟨order.calm, order.running, order.capacity⟩⟩
      exact fun acquires => by cases finishing.symm.trans acquires
  | close reader worker rest closing =>
      have documents : Documents oem files (s.setLane worker (s.lanes worker).close) h := by
        refine order.toDocuments.of_same (.inl rfl) (fun _ _ => .rfl) (fun _ => rfl) (fun other => ?_)
          (fun _ => rfl) rfl
        rw [transit_setLane]
        split
        · rename_i same
          rw [same, BoundedByteQueue.items_close, transit]
        · rfl
      refine ⟨documents.setReader (fun _ => ⟨?_, by simp⟩) (congrArg outgoing closing).symm,
        order.toClosing.close closing, ?_⟩
      · exact fun acquires => by cases closing.symm.trans acquires
      · have running := order.toRunning.setLane (s.lanes worker).close (order.running worker) rfl
        exact ⟨running.calm, running.running, running.capacity⟩
  | endClosing reader closing =>
      refine ⟨order.toDocuments.setReader (fun _ => ⟨?_, by simp⟩)
        (congrArg outgoing closing).symm, order.toClosing.endClosing closing,
        ⟨order.calm, order.running, order.capacity⟩⟩
      exact fun acquires => by cases closing.symm.trans acquires
  | pop worker block lane alive free popped =>
      have running := order.toRunning.setLane _ popped.cancelled.2 popped.capacity
      refine ⟨order.toDocuments.of_same (.inl rfl) (fun _ _ => .rfl) (fun _ => rfl)
        (fun other => ?_) (fun other => ?_) rfl, order.toClosing.of_indexer alive rfl rfl
        (closed_setLane popped.closed) ?_ (fun other different => ?_) rfl rfl,
        ⟨running.calm, running.running, running.capacity⟩⟩
      · rw [transit_setIndexer, lanes_setLane, if_pos rfl, transit_setLane]
        split
        · rename_i same
          rw [same, transit, free, popped.items]
          rfl
        · rfl
      · rw [indexers_setIndexer]
        split
        · rename_i same
          rw [same]
        · rfl
      · rw [indexers_setIndexer, if_pos rfl]
        exact alive
      · rw [indexers_setIndexer, if_neg different, transit_setIndexer, if_neg different,
          transit_setLane, if_neg different]
        exact ⟨rfl, rfl⟩
  | startDocument worker block alive current kind closed =>
      obtain ⟨listed, located, document, _, blocks⟩ := order.current current
      have first : h.handled block.fileId = [] := by
        obtain ⟨_, kinds⟩ := next_block_cases oem blocks
        rcases kinds with ⟨none, _⟩ | ⟨_, data⟩ | ⟨_, complete, _⟩
        · exact none
        · rw [kind] at data
          cases data
        · rw [kind] at complete
          cases complete
      have notLast : block.kind ≠ .complete := by simp [kind]
      rw [History.handle, if_neg notLast]
      exact ⟨order.toDocuments.progress listed located current notLast (by rw [first]; rfl),
        order.toClosing.of_handling alive, ⟨order.calm, order.running, order.capacity⟩⟩
  | tokenize worker block document alive current kind opened =>
      obtain ⟨listed, located, documentEq, _⟩ := order.current current
      have notLast : block.kind ≠ .complete := by simp [kind]
      rw [History.handle, if_neg notLast]
      exact ⟨order.toDocuments.progress listed located current notLast
        (openDocument_append (documentEq.symm.trans opened) block),
        order.toClosing.of_handling alive, ⟨order.calm, order.running, order.capacity⟩⟩
  | commit worker block document alive current kind opened =>
      obtain ⟨listed, located, _⟩ := order.current current
      have closing : Closing files (s.setIndexer worker
          { s.indexers worker with
            current := none
            document := none
            dictionary := commitDocument document (s.indexers worker).dictionary }) :=
        order.toClosing.of_handling alive
      rw [History.handle, if_pos kind]
      exact ⟨order.toDocuments.commit listed located current kind,
        ⟨closing.closed, closing.remaining, closing.last, closing.exhausted, closing.exited,
          closing.joining, closing.joined⟩, ⟨order.calm, order.running, order.capacity⟩⟩
  | exit worker alive free empty closed =>
      refine ⟨order.toDocuments.of_same (.inl rfl) (fun _ _ => .rfl) (fun _ => rfl)
        (fun other => ?_) (fun other => ?_) rfl, order.toClosing.exit free empty closed,
        ⟨order.calm, order.running, order.capacity⟩⟩
      · rw [transit_setIndexer]
        split
        · rename_i same
          rw [same, transit]
        · rfl
      · rw [indexers_setIndexer]
        split
        · rename_i same
          rw [same]
        · rfl
  | joinReaders joining finished =>
      exact ⟨order.toDocuments.of_same (.inl rfl) (fun _ _ => .rfl) (fun _ => rfl) (fun _ => rfl)
        (fun _ => rfl) rfl, order.toClosing.joinReaders finished,
        ⟨order.calm, order.running, order.capacity⟩⟩
  | joinIndexers joining exited =>
      exact ⟨order.toDocuments.of_same (.inl rfl) (fun _ _ => .rfl) (fun _ => rfl) (fun _ => rfl)
        (fun _ => rfl) rfl, order.toClosing.joinIndexers joining exited,
        ⟨order.calm, order.running, order.capacity⟩⟩

/-- The threads have just been started. -/
theorem initial (oem : OemTable) (builder : BatchIndexBuilder) (files : List SourceFile) :
    Orderly oem files (start builder files) History.empty := by
  refine ⟨?_, ?_, ⟨rfl, fun _ => rfl, fun _ => ?_⟩⟩
  · constructor
    case settled => exact fun fileId _ => (settled_waiting rfl).mpr ⟨Nat.zero_le _, rfl⟩
    case acquiring => exact fun _ _ acquires => by cases acquires
    case sender => exact fun _ _ _ _ sends => by cases sends
    case alone => exact fun _ _ _ _ _ first => by cases first
    case available =>
      exact fun worker => iff_of_true (List.mem_finRange worker) fun _ _ place => by cases place
    case unoccupied => exact fun _ _ => ⟨rfl, rfl⟩
    case nodup => exact List.nodup_finRange _
  · constructor
    case closed => exact fun _ closed => by cases closed
    case remaining => simp [start, hasLeft]
    case last => exact fun _ _ closes => by cases closes
    case exhausted => exact fun _ out => by cases out
    case exited => exact fun _ ended => by cases ended
    case joining => exact fun joining => absurd rfl joining
    case joined => exact fun joined => by cases joined
  · have positive := builder.laneCapacity_pos
    change (if builder.laneCapacity = 0 then 1 else builder.laneCapacity) = builder.laneCapacity
    rw [if_neg (by omega)]

/-- The order holds in every reachable state. -/
theorem step (order : Orderly oem files s h) {thread : Thread builder}
    (taken : (machine oem builder files).step (s, h) thread = some (after, later)) :
    Orderly oem files after later := by
  obtain ⟨next, stepped, equal⟩ := Option.map_eq_some_iff.mp taken
  obtain ⟨rfl, rfl⟩ := Prod.mk.inj equal
  exact order.kept (order.move stepped)

end Orderly

end SearchEngine.Batch.Pipeline
