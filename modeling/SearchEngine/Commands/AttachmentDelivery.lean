import SearchEngine.Commands.GetAttachments

/-!
# What becomes of the attachments

Nothing is removed before every file that was there all the time has been passed. A file
that nobody touches between its reading and its removal is handed out as it was removed; one
that arrives while the directory is being removed is not.
-/

namespace SearchEngine.Commands

open Files Lib Server Upload

/-! ## A visit -/

/-- The path under which an entry is stored, if it is read. -/
def EntryAnswer.stored (sources : AttachmentSources) (answer : EntryAnswer) : Option Path :=
  match answer.isRegularFile, answer.relativePath with
  | .ok true, .ok relativePath =>
      if answer.isOpen && !answer.bad && (sources.codePage.narrow relativePath).isSome then some relativePath
      else none
  | _, _ => none

namespace AttachmentCall

variable {sources : AttachmentSources} {call next final : AttachmentCall} {path : Path} {content : List UInt8}
  {answer : EntryAnswer} {action : AttachmentAction} {actions : List AttachmentAction}

/-- What a visit leaves alone. -/
structure Framed (call next : AttachmentCall) : Prop where
  directory : next.directory = call.directory
  files : next.files = call.files
  steady : next.steady = call.steady
  removed : next.removed = call.removed

theorem framed_increment (call : AttachmentCall) (path : Path) (answer : EntryAnswer) :
    call.Framed (call.increment path answer) := by
  unfold increment
  split
  · exact ⟨rfl, rfl, rfl, rfl⟩
  · exact ⟨rfl, rfl, rfl, rfl⟩

theorem attachments_increment (call : AttachmentCall) (path : Path) (answer : EntryAnswer) :
    (call.increment path answer).attachments = call.attachments := by
  unfold increment
  split <;> rfl

theorem framed_visit (sources : AttachmentSources) (call : AttachmentCall) (path : Path) (answer : EntryAnswer) :
    call.Framed (call.visit sources path answer) := by
  have stop (result : CallEnd) : call.Framed (call.finish result) := ⟨rfl, rfl, rfl, rfl⟩
  unfold visit
  split
  case h_1 => exact stop _
  case h_2 => exact framed_increment ..
  case h_3 =>
    split
    · exact stop _
    · split
      · exact stop _
      · split
        · exact stop _
        · split
          · exact stop _
          · obtain ⟨directory, files, steady, removed⟩ := framed_increment { call with
              attachments := call.attachments.insert _ answer.fileContent } path answer
            exact ⟨directory, files, steady, removed⟩

/-- The text that the code page gives back is the relative path. -/
theorem attachments_visit (sources : AttachmentSources) (call : AttachmentCall) (path : Path)
    (answer : EntryAnswer) :
    (call.visit sources path answer).attachments =
      match answer.stored sources with
      | some relativePath => call.attachments.insert relativePath answer.fileContent
      | none => call.attachments := by
  unfold visit EntryAnswer.stored
  split
  case h_1 regular => simp only [regular, finish]
  case h_2 regular => simp only [regular, attachments_increment]
  case h_3 regular =>
    cases isOpen : answer.isOpen with
    | false => cases relative : answer.relativePath <;> simp [regular, finish]
    | true =>
        cases bad : answer.bad with
        | true => cases relative : answer.relativePath <;> simp [regular, finish]
        | false =>
            cases relative : answer.relativePath with
            | error text => simp [regular, finish]
            | ok relativePath =>
                cases narrow : sources.codePage.narrow relativePath with
                | none => simp [regular, narrow, finish]
                | some text => simp [regular, narrow, attachments_increment, sources.codePage.widen_narrow narrow]

/-- The call ends without a package. -/
def Stopped (call : AttachmentCall) : Prop :=
  ∃ result, call.phase = .finished result ∧ ∀ payload, result ≠ .success payload

/-- The loop went on behind this entry: it is no regular file, or it was read. -/
def WentOn (sources : AttachmentSources) (answer : EntryAnswer) : Prop :=
  answer.isRegularFile = .ok false ∨ (answer.stored sources).isSome

/-- The loop goes on behind an entry that it read, or stops at it. -/
theorem goesOn_or_stopped (sources : AttachmentSources) (call : AttachmentCall) (path : Path)
    (answer : EntryAnswer) :
    ((call.visit sources path answer).phase = call.phase ∧
      (call.visit sources path answer).visited = path :: call.visited ∧
        WentOn sources answer) ∨
      ((call.visit sources path answer).Stopped ∧
        (call.visit sources path answer).visited = call.visited) := by
  have failure (call : AttachmentCall) (error : Failure) :
      (call.finish (.failure error)).Stopped ∧ (call.finish (.failure error)).visited = call.visited :=
    ⟨⟨_, rfl, nofun⟩, rfl⟩
  have pathStop (error : ErrorCode) (path : Path) : (call.finish (pathFailure sources error path)).Stopped ∧
      (call.finish (pathFailure sources error path)).visited = call.visited := by
    refine ⟨⟨_, rfl, fun payload => ?_⟩, rfl⟩
    unfold pathFailure
    split <;> nofun
  have walk (call : AttachmentCall) :
      ((call.increment path answer).phase = call.phase ∧
        (call.increment path answer).visited = path :: call.visited) ∨
      ((call.increment path answer).Stopped ∧ (call.increment path answer).visited = call.visited) := by
    unfold increment
    split
    · exact .inr (failure ..)
    · exact .inl ⟨rfl, rfl⟩
  unfold visit
  split
  case h_1 => exact .inr (failure ..)
  case h_2 regular =>
    obtain ⟨phase, visited⟩ | stopped := walk call
    · exact .inl ⟨phase, visited, .inl regular⟩
    · exact .inr stopped
  case h_3 regular =>
    split
    case isTrue => exact .inr (pathStop ..)
    case isFalse isOpen =>
      split
      case isTrue => exact .inr (pathStop ..)
      case isFalse good =>
        split
        case h_1 => exact .inr (failure ..)
        case h_2 relativePath relative =>
          split
          case h_1 => exact .inr ⟨⟨_, rfl, nofun⟩, rfl⟩
          case h_2 text narrow =>
            obtain ⟨phase, visited⟩ | stopped := walk { call with
              attachments := call.attachments.insert (sources.codePage.widen text) answer.fileContent }
            · refine .inl ⟨phase, visited, .inr ?_⟩
              simp only [Bool.not_eq_true', Bool.not_eq_false] at isOpen
              simp [EntryAnswer.stored, regular, relative, isOpen, good, narrow]
            · exact .inr stopped

/-- What an action can do. -/
theorem step_cases (stepped : (machine sources).step call action = some next) :
    (∃ path content, action = .write path content ∧
      next = { call with files := call.files.insert path content }) ∨
    (∃ path, action = .erase path ∧
      next = { call with files := call.files.erase path, steady := call.steady.filter (· ≠ path) }) ∨
    (∃ path answer, action = .visit path answer ∧ call.phase = .iterating ∧
      next = call.visit sources path answer) ∨
    (action = .enumerated ∧ call.phase = .iterating ∧ (∀ path ∈ call.steady, path ∈ call.visited) ∧
      next = { call with phase := .deleting }) ∨
    (∃ path content, action = .remove path ∧ call.phase = .deleting ∧ call.files.find? path = some content ∧
      next = { call with files := call.files.erase path, removed := call.removed ++ [(path, content)] }) ∨
    ((action = .directoryDeleted ∨ action = .deleteFailed) ∧ call.phase = .deleting ∧
      (next = { call with phase := .deleted } ∨
        action = .deleteFailed ∧ sources.codePage.narrow call.directory = none ∧ next = call.finish .threw)) ∨
    (action = .serialize ∧ call.phase = .deleted ∧ next = call.finish (call.result sources)) := by
  change call.step sources action = some next at stepped
  cases action with
  | write path content => exact .inl ⟨path, content, rfl, (Option.some.inj stepped).symm⟩
  | erase path => exact .inr (.inl ⟨path, rfl, (Option.some.inj stepped).symm⟩)
  | visit path answer =>
      obtain ⟨iterating, taken⟩ := Option.ite_none_right_eq_some.mp stepped
      exact .inr (.inr (.inl ⟨path, answer, rfl, iterating, (Option.some.inj taken).symm⟩))
  | enumerated =>
      obtain ⟨⟨iterating, passed⟩, taken⟩ := Option.ite_none_right_eq_some.mp stepped
      exact .inr (.inr (.inr (.inl ⟨rfl, iterating, passed, (Option.some.inj taken).symm⟩)))
  | remove path =>
      obtain ⟨deleting, taken⟩ := Option.ite_none_right_eq_some.mp stepped
      obtain ⟨content, found, same⟩ := Option.map_eq_some_iff.mp taken
      exact .inr (.inr (.inr (.inr (.inl ⟨path, content, rfl, deleting, found, same.symm⟩))))
  | directoryDeleted =>
      obtain ⟨⟨deleting, -⟩, taken⟩ := Option.ite_none_right_eq_some.mp stepped
      exact .inr (.inr (.inr (.inr (.inr (.inl
        ⟨.inl rfl, deleting, .inl (Option.some.inj taken).symm⟩)))))
  | deleteFailed =>
      obtain ⟨deleting, taken⟩ := Option.ite_none_right_eq_some.mp stepped
      refine .inr (.inr (.inr (.inr (.inr (.inl ⟨.inr rfl, deleting, ?_⟩)))))
      split at taken
      case isTrue => exact .inl (Option.some.inj taken).symm
      case isFalse unnamed =>
        rw [Bool.not_eq_true, Option.isSome_eq_false_iff, Option.isNone_iff_eq_none] at unnamed
        exact .inr ⟨rfl, unnamed, (Option.some.inj taken).symm⟩
  | serialize =>
      obtain ⟨deleted, taken⟩ := Option.ite_none_right_eq_some.mp stepped
      exact .inr (.inr (.inr (.inr (.inr (.inr ⟨rfl, deleted, (Option.some.inj taken).symm⟩)))))

/-! ## How a call can end -/

/-- What holds between two actions: only the removal takes files, and only the serialization
can fail after it. -/
structure Orderly (sources : AttachmentSources) (call : AttachmentCall) : Prop where
  iterating : call.phase = .iterating → call.removed = []
  failed : ∀ failure, call.phase = .finished (.failure failure) → failure.error ≠ .serializationFailed →
    call.removed = []
  payload : ∀ payload, call.phase = .finished (.success payload) →
    sources.serializeToBytes call.attachments = .ok payload
  threw : call.phase = .finished .threw → call.removed = [] ∨ sources.codePage.narrow call.directory = none

/-- A call that stopped has removed nothing. -/
theorem Stopped.orderly (stopped : call.Stopped) (kept : call.removed = []) : call.Orderly sources := by
  obtain ⟨result, phase, failed⟩ := stopped
  constructor
  · exact fun _ => kept
  · exact fun _ _ _ => kept
  · intro payload success
    rw [phase, CallPhase.finished.injEq] at success
    exact absurd success (failed payload)
  · exact fun _ => .inl kept

theorem orderly_visit (orderly : call.Orderly sources) (iterating : call.phase = .iterating) :
    (call.visit sources path answer).Orderly sources := by
  have kept : (call.visit sources path answer).removed = [] := by
    rw [(framed_visit sources call path answer).removed]
    exact orderly.iterating iterating
  obtain ⟨phase, -, -⟩ | ⟨stopped, -⟩ := goesOn_or_stopped sources call path answer
  · rw [iterating] at phase
    constructor
    · exact fun _ => kept
    · exact fun _ _ _ => kept
    · intro payload success
      rw [phase] at success
      cases success
    · exact fun _ => .inl kept
  · exact stopped.orderly kept

/-- During the removal the call has not ended. -/
theorem orderly_removing (phase : call.phase = .deleting ∨ call.phase = .deleted) : call.Orderly sources := by
  constructor
  · intro iterating
    rw [iterating] at phase
    obtain wrong | wrong := phase <;> cases wrong
  · intro failure finished
    rw [finished] at phase
    obtain wrong | wrong := phase <;> cases wrong
  · intro payload finished
    rw [finished] at phase
    obtain wrong | wrong := phase <;> cases wrong
  · intro finished
    rw [finished] at phase
    obtain wrong | wrong := phase <;> cases wrong

theorem orderly_result : (call.finish (call.result sources)).Orderly sources := by
  cases serialized : sources.serializeToBytes call.attachments with
  | ok payload =>
      have ends : call.result sources = .success payload := by rw [result, serialized]
      rw [ends]
      refine ⟨nofun, nofun, ?_, nofun⟩
      intro other success
      cases success
      exact serialized
  | error text =>
      have ends : call.result sources = .failure ⟨.serializationFailed, text⟩ := by rw [result, serialized]
      rw [ends]
      refine ⟨nofun, ?_, nofun, nofun⟩
      intro failure failed other
      cases failed
      exact absurd rfl other

theorem orderly_step (call : AttachmentCall) (action : AttachmentAction) (next : AttachmentCall)
    (orderly : call.Orderly sources) (stepped : (machine sources).step call action = some next) :
    next.Orderly sources := by
  obtain ⟨path, content, -, rfl⟩ | ⟨path, -, rfl⟩ | ⟨path, answer, -, iterating, rfl⟩ | ⟨-, -, -, rfl⟩ |
    ⟨path, content, -, deleting, -, rfl⟩ | ⟨-, -, rfl | ⟨-, unnamed, rfl⟩⟩ | ⟨-, -, rfl⟩ := step_cases stepped
  · exact { orderly with }
  · exact { orderly with }
  · exact orderly_visit orderly iterating
  · exact orderly_removing (.inl rfl)
  · exact orderly_removing (.inl deleting)
  · exact orderly_removing (.inr rfl)
  · exact ⟨nofun, nofun, nofun, fun _ => .inr unnamed⟩
  · exact orderly_result

/-- A call that never reaches the directory fails. -/
theorem attachmentDirectory_error {data : List UInt8} {result : CallEnd}
    (failed : attachmentDirectory sources data = .error result) (payload : List UInt8) :
    result ≠ .success payload := by
  rintro rfl
  have named (error : ErrorCode) (path : Path) : pathFailure sources error path ≠ .success payload := by
    unfold pathFailure
    split <;> nofun
  unfold attachmentDirectory at failed
  split at failed
  · cases failed
  · split at failed
    · cases failed
    · split at failed
      · cases failed
      · dsimp only at failed
        split at failed
        · cases failed
        · split at failed
          · split at failed
            · exact named _ _ (Except.error.inj failed)
            · cases failed
          · exact named _ _ (Except.error.inj failed)
          · cases failed
          · split at failed
            · cases failed
            · cases failed

theorem orderly_start (data : List UInt8) (files : SortedMap Path (List UInt8)) :
    (start sources data files).Orderly sources := by
  unfold start
  cases directory : attachmentDirectory sources data with
  | error result =>
      have stopped : (start sources data files).Stopped := by
        unfold start
        rw [directory]
        exact ⟨result, rfl, attachmentDirectory_error directory⟩
      unfold start at stopped
      rw [directory] at stopped
      exact stopped.orderly rfl
  | ok directory =>
      constructor
      · exact fun _ => rfl
      · exact fun _ _ _ => rfl
      · nofun
      · exact fun _ => .inl rfl

/-! ## Before the removal -/

/-- How a call starts. -/
theorem start_spec (sources : AttachmentSources) (data : List UInt8) (files : SortedMap Path (List UInt8)) :
    (start sources data files).removed = [] ∧ (start sources data files).attachments = ∅ ∧
      (start sources data files).steady = (start sources data files).files.keys ∧
        (start sources data files).visited = [] ∧ (start sources data files).phase ≠ .deleting := by
  unfold start
  cases attachmentDirectory sources data with
  | error result => exact ⟨rfl, rfl, rfl, rfl, nofun⟩
  | ok directory => exact ⟨rfl, rfl, rfl, rfl, nofun⟩

/-- The removal starts when every file that was there all the time has been passed. -/
def Passed (call : AttachmentCall) : Prop :=
  call.phase = .deleting → ∀ path ∈ call.steady, path ∈ call.visited

theorem passed_step (call : AttachmentCall) (action : AttachmentAction) (next : AttachmentCall)
    (passed : call.Passed) (stepped : (machine sources).step call action = some next) : next.Passed := by
  obtain ⟨path, content, -, rfl⟩ | ⟨path, -, rfl⟩ | ⟨path, answer, -, iterating, rfl⟩ | ⟨-, -, all, rfl⟩ |
    ⟨path, content, -, deleting, -, rfl⟩ | ⟨-, -, rfl | ⟨-, -, rfl⟩⟩ | ⟨-, -, rfl⟩ := step_cases stepped
  · exact passed
  · exact fun deleting other member => passed deleting other (List.mem_of_mem_filter member)
  · intro deleting
    obtain ⟨phase, -, -⟩ | ⟨⟨result, ends, -⟩, -⟩ := goesOn_or_stopped sources call path answer
    · rw [deleting, iterating] at phase
      cases phase
    · rw [deleting] at ends
      cases ends
  · exact fun _ => all
  · exact passed
  · nofun
  · nofun
  · nofun

/-- A file that nobody erases stays one of those that were there all the time. -/
theorem steady_run (done : (machine sources).run call actions = some final) (member : path ∈ call.steady)
    (kept : .erase path ∉ actions) : path ∈ final.steady := by
  induction actions generalizing call with
  | nil =>
      obtain rfl := Option.some.inj done
      exact member
  | cons action actions ih =>
      obtain ⟨next, stepped, remaining⟩ := Option.bind_eq_some_iff.mp done
      rw [List.mem_cons, not_or] at kept
      refine ih remaining ?_ kept.2
      obtain ⟨_, _, -, rfl⟩ | ⟨other, rfl, rfl⟩ | ⟨other, answer, -, -, rfl⟩ | ⟨-, -, -, rfl⟩ |
        ⟨_, _, -, -, -, rfl⟩ | ⟨-, -, rfl | ⟨-, -, rfl⟩⟩ | ⟨-, -, rfl⟩ := step_cases stepped
      case inr.inl =>
        have apart : path ≠ other := fun same => kept.1 (same ▸ rfl)
        exact List.mem_filter.mpr ⟨member, by simpa using apart⟩
      case inr.inr.inl => rwa [(framed_visit sources call other answer).steady]
      all_goals exact member

theorem visited_run (done : (machine sources).run call actions = some final) (member : path ∈ final.visited) :
    path ∈ call.visited ∨ ∃ answer, .visit path answer ∈ actions ∧ WentOn sources answer := by
  induction actions generalizing call with
  | nil =>
      obtain rfl := Option.some.inj done
      exact .inl member
  | cons action actions ih =>
      obtain ⟨next, stepped, remaining⟩ := Option.bind_eq_some_iff.mp done
      obtain before | ⟨answer, listed, went⟩ := ih remaining
      case inr => exact .inr ⟨answer, List.mem_cons_of_mem _ listed, went⟩
      obtain ⟨_, _, -, rfl⟩ | ⟨_, -, rfl⟩ | ⟨other, answer, rfl, -, rfl⟩ | ⟨-, -, -, rfl⟩ |
        ⟨_, _, -, -, -, rfl⟩ | ⟨-, -, rfl | ⟨-, -, rfl⟩⟩ | ⟨-, -, rfl⟩ := step_cases stepped
      case inr.inr.inl =>
        obtain ⟨-, more, went⟩ | ⟨-, same⟩ := goesOn_or_stopped sources call other answer
        · rw [more] at before
          obtain rfl | old := List.mem_cons.mp before
          · exact .inr ⟨answer, List.mem_cons_self, went⟩
          · exact .inl old
        · exact .inl (same ▸ before)
      all_goals exact .inl before

/-! ## Runs -/

/-- The file that an action takes away. -/
def removal : AttachmentAction → Option Path
  | .remove path => some path
  | .write .. | .erase _ | .visit .. | .enumerated | .directoryDeleted | .deleteFailed | .serialize => none

/-- What an action reads, and the path under which it stores it. -/
def reading (sources : AttachmentSources) : AttachmentAction → Option (Path × List UInt8)
  | .visit _ answer => (answer.stored sources).map fun path => (path, answer.fileContent)
  | .write .. | .erase _ | .remove _ | .enumerated | .directoryDeleted | .deleteFailed | .serialize => none

/-- What the last reading under a path brought. -/
def lastReading (sources : AttachmentSources) (path : Path) (actions : List AttachmentAction) :
    Option (List UInt8) :=
  (actions.filterMap (reading sources)).reverse.lookup path

theorem lastReading_cons (action : AttachmentAction) (actions : List AttachmentAction) :
    lastReading sources path (action :: actions) = (lastReading sources path actions).or
      ((reading sources action).bind fun read => if read.1 = path then some read.2 else none) := by
  unfold lastReading
  cases read : reading sources action with
  | none => simp [List.filterMap_cons_none read]
  | some stored =>
      obtain ⟨stored, content⟩ := stored
      rw [List.filterMap_cons_some read, List.reverse_cons, List.lookup_append]
      by_cases same : stored = path
      · subst same
        rw [List.lookup_cons_self, Option.bind_some, if_pos rfl]
      · rw [List.lookup_cons, beq_eq_false_iff_ne.mpr (Ne.symm same), Option.bind_some, if_neg same]
        rfl

theorem removed_run (done : (machine sources).run call actions = some final) :
    final.removed.map Prod.fst = call.removed.map Prod.fst ++ actions.filterMap removal := by
  induction actions generalizing call with
  | nil =>
      obtain rfl := Option.some.inj done
      rw [List.filterMap_nil, List.append_nil]
  | cons action actions ih =>
      obtain ⟨next, stepped, remaining⟩ := Option.bind_eq_some_iff.mp done
      rw [ih remaining]
      obtain ⟨path, content, rfl, rfl⟩ | ⟨path, rfl, rfl⟩ | ⟨path, answer, rfl, -, rfl⟩ | ⟨rfl, -, -, rfl⟩ |
        ⟨path, content, rfl, -, -, rfl⟩ | ⟨rfl | rfl, -, rfl | ⟨-, -, rfl⟩⟩ | ⟨rfl, -, rfl⟩ := step_cases stepped
      case inr.inr.inl => rw [(framed_visit sources call path answer).removed]; rfl
      case inr.inr.inr.inr.inl => simp [removal]
      all_goals rfl

/-- The package holds what was read last. -/
theorem attachments_run (done : (machine sources).run call actions = some final) (key : Path) :
    final.attachments.find? key = (lastReading sources key actions).or (call.attachments.find? key) := by
  induction actions generalizing call with
  | nil =>
      obtain rfl := Option.some.inj done
      rfl
  | cons action actions ih =>
      obtain ⟨next, stepped, remaining⟩ := Option.bind_eq_some_iff.mp done
      rw [ih remaining, lastReading_cons, Option.or_assoc]
      congr 1
      obtain ⟨_, _, rfl, rfl⟩ | ⟨_, rfl, rfl⟩ | ⟨path, answer, rfl, -, rfl⟩ | ⟨rfl, -, -, rfl⟩ |
        ⟨_, _, rfl, -, -, rfl⟩ | ⟨rfl | rfl, -, rfl | ⟨-, -, rfl⟩⟩ | ⟨rfl, -, rfl⟩ := step_cases stepped
      case inr.inr.inl =>
        rw [attachments_visit, reading]
        cases answer.stored sources with
        | none => rfl
        | some relative =>
            rw [SortedMap.find?_insert, Option.map_some, Option.bind_some]
            by_cases same : relative = key <;> simp [same]
      all_goals rfl

/-- Only a removal that failed lets the call throw after it took a file. -/
theorem deleteFailed_of_threw (done : (machine sources).run call actions = some final)
    (orderly : call.Orderly sources) (quiet : call.phase = .finished .threw → call.removed = [])
    (threw : final.phase = .finished .threw) (some : final.removed ≠ []) : .deleteFailed ∈ actions := by
  induction actions generalizing call with
  | nil =>
      obtain rfl := Option.some.inj done
      exact absurd (quiet threw) some
  | cons action actions ih =>
      obtain ⟨next, stepped, remaining⟩ := Option.bind_eq_some_iff.mp done
      have kept := orderly_step call action next orderly stepped
      have later (nextQuiet : next.phase = .finished .threw → next.removed = []) :
          .deleteFailed ∈ action :: actions :=
        List.mem_cons_of_mem _ (ih remaining kept nextQuiet)
      obtain ⟨_, _, -, rfl⟩ | ⟨_, -, rfl⟩ | ⟨path, answer, -, iterating, rfl⟩ | ⟨-, -, -, rfl⟩ |
        ⟨_, _, -, deleting, -, rfl⟩ | ⟨-, -, rfl | ⟨rfl, -, rfl⟩⟩ | ⟨-, -, rfl⟩ := step_cases stepped
      · exact later quiet
      · exact later quiet
      · exact later fun _ => (framed_visit sources call path answer).removed.trans (orderly.iterating iterating)
      · exact later nofun
      · refine later fun threw => ?_
        rw [deleting] at threw
        cases threw
      · exact later nofun
      · exact List.mem_cons_self
      · refine later fun threw => ?_
        unfold result at threw
        cases serialized : sources.serializeToBytes call.attachments <;> rw [serialized] at threw <;> cases threw

/-! ## From the reading to the removal -/

/-- The action does not change the file, and reads no other file under its path. -/
def Spares (sources : AttachmentSources) (path : Path) : AttachmentAction → Prop
  | .write other _ | .erase other => other ≠ path
  | .visit _ answer => answer.stored sources ≠ some path
  | .enumerated | .remove _ | .directoryDeleted | .deleteFailed | .serialize => True

/-- The package holds the file, which is as it was read or gone. -/
structure Held (path : Path) (content : List UInt8) (call : AttachmentCall) : Prop where
  unchanged : ∀ found, call.files.find? path = some found → found = content
  stored : call.attachments.find? path = some content

theorem held_visit {visited : Path} (present : call.files.find? path = some answer.fileContent)
    (read : answer.stored sources = some path) :
    (call.visit sources visited answer).Held path answer.fileContent := by
  constructor
  · rw [(framed_visit sources call visited answer).files, present]
    exact fun found same => (Option.some.inj same).symm
  · rw [attachments_visit, read]
    exact (SortedMap.find?_insert ..).trans (if_pos rfl)

theorem held_step (call : AttachmentCall) (action : AttachmentAction) (next : AttachmentCall)
    (held : call.Held path content) (spares : Spares sources path action)
    (stepped : (machine sources).step call action = some next) : next.Held path content := by
  obtain ⟨other, new, rfl, rfl⟩ | ⟨other, rfl, rfl⟩ | ⟨other, answer, rfl, -, rfl⟩ | ⟨-, -, -, rfl⟩ |
    ⟨other, old, -, -, -, rfl⟩ | ⟨-, -, rfl | ⟨-, -, rfl⟩⟩ | ⟨-, -, rfl⟩ := step_cases stepped
  · have apart : other ≠ path := spares
    refine ⟨fun found there => held.unchanged found ?_, held.stored⟩
    rwa [SortedMap.find?_insert, if_neg apart] at there
  · have apart : other ≠ path := spares
    refine ⟨fun found there => held.unchanged found ?_, held.stored⟩
    rwa [SortedMap.find?_erase, if_neg apart] at there
  · have apart : answer.stored sources ≠ some path := spares
    constructor
    · rw [(framed_visit sources call other answer).files]
      exact held.unchanged
    · rw [attachments_visit]
      cases stored : answer.stored sources with
      | none => exact held.stored
      | some relative =>
          have different : relative ≠ path := fun same => apart (same ▸ stored)
          exact (SortedMap.find?_insert ..).trans ((if_neg different).trans held.stored)
  · exact ⟨held.unchanged, held.stored⟩
  · refine ⟨fun found there => ?_, held.stored⟩
    rw [SortedMap.find?_erase] at there
    split at there
    · cases there
    · exact held.unchanged found there
  · exact ⟨held.unchanged, held.stored⟩
  · exact ⟨held.unchanged, held.stored⟩
  · exact ⟨held.unchanged, held.stored⟩

/-- The file was removed and lies in the package. -/
structure HandedOver (path : Path) (content : List UInt8) (call : AttachmentCall) : Prop where
  ended : call.phase ≠ .iterating
  removed : (path, content) ∈ call.removed
  stored : call.attachments.find? path = some content

theorem handedOver_step (call : AttachmentCall) (action : AttachmentAction) (next : AttachmentCall)
    (handed : call.HandedOver path content) (stepped : (machine sources).step call action = some next) :
    next.HandedOver path content := by
  obtain ⟨other, new, -, rfl⟩ | ⟨other, -, rfl⟩ | ⟨other, answer, -, iterating, -⟩ | ⟨-, -, -, rfl⟩ |
    ⟨other, old, -, deleting, -, rfl⟩ | ⟨-, -, rfl | ⟨-, -, rfl⟩⟩ | ⟨-, -, rfl⟩ := step_cases stepped
  · exact ⟨handed.ended, handed.removed, handed.stored⟩
  · exact ⟨handed.ended, handed.removed, handed.stored⟩
  · exact absurd iterating handed.ended
  · exact ⟨nofun, handed.removed, handed.stored⟩
  · exact ⟨handed.ended, List.mem_append_left _ handed.removed, handed.stored⟩
  · exact ⟨nofun, handed.removed, handed.stored⟩
  · exact ⟨nofun, handed.removed, handed.stored⟩
  · exact ⟨nofun, handed.removed, handed.stored⟩

theorem handedOver_remove (held : call.Held path content)
    (stepped : (machine sources).step call (.remove path) = some next) : next.HandedOver path content := by
  obtain ⟨_, _, wrong, -⟩ | ⟨_, wrong, -⟩ | ⟨_, _, wrong, -⟩ | ⟨wrong, -⟩ |
    ⟨other, old, same, deleting, found, rfl⟩ | ⟨wrong | wrong, -⟩ | ⟨wrong, -⟩ := step_cases stepped
  · cases wrong
  · cases wrong
  · cases wrong
  · cases wrong
  · cases same
    obtain rfl := held.unchanged old found
    refine ⟨?_, List.mem_append_right _ List.mem_cons_self, held.stored⟩
    rw [deleting]
    nofun
  · cases wrong
  · cases wrong
  · cases wrong

/-- A file that is read as it is, and then left alone until it is removed, is handed over. -/
theorem handedOver_run {visited : Path} {between after : List AttachmentAction}
    (present : call.files.find? path = some answer.fileContent) (read : answer.stored sources = some path)
    (spared : ∀ action ∈ between, Spares sources path action)
    (done : (machine sources).run call (.visit visited answer :: (between ++ .remove path :: after)) = some final) :
    final.HandedOver path answer.fileContent := by
  obtain ⟨looked, stepped, remaining⟩ := Option.bind_eq_some_iff.mp done
  obtain ⟨middle, waited, last⟩ := Machine.run_append between _ remaining
  obtain ⟨next, taken, ending⟩ := Option.bind_eq_some_iff.mp last
  have held : looked.Held path answer.fileContent := by
    obtain ⟨-, same⟩ := Option.ite_none_right_eq_some.mp stepped
    exact Option.some.inj same ▸ held_visit present read
  have conforms : (machine sources).Conforms (fun _ => Spares sources path) looked between :=
    Machine.conforms_of_mem spared _
  have waiting := Machine.invariant_run (fun call action next => held_step call action next) held conforms waited
  exact Machine.invariant_reachable (fun call action next => handedOver_step call action next)
    (handedOver_remove waiting taken) ending

/-! ## Every call -/

/-- What holds of a run of the command and the other processes. -/
structure Accounted (sources : AttachmentSources) (first : AttachmentCall) (actions : List AttachmentAction)
    (final : AttachmentCall) : Prop where
  /-- The call removes what its removal takes away. -/
  removes : final.removed.map Prod.fst = actions.filterMap removal
  /-- Before the first removal the loop went on behind every file that was there all the time. -/
  passed : ∀ before path after, actions = before ++ .remove path :: after →
    ∀ other ∈ first.files.keys, .erase other ∉ before →
      ∃ answer, .visit other answer ∈ before ∧ WentOn sources answer
  /-- The package holds under each path what the last reading brought. -/
  package : ∀ path, final.attachments.find? path = lastReading sources path actions
  payload : ∀ payload, final.phase = .finished (.success payload) →
    sources.serializeToBytes final.attachments = .ok payload
  failed : ∀ failure, final.phase = .finished (.failure failure) → failure.error ≠ .serializationFailed →
    final.removed = []
  threw : final.phase = .finished .threw → final.removed = [] ∨
    .deleteFailed ∈ actions ∧ sources.codePage.narrow final.directory = none
  /-- A file read as it was, and left alone from then to its removal, lies in the package. -/
  delivered : ∀ before visited answer between path after call,
    actions = before ++ .visit visited answer :: (between ++ .remove path :: after) →
    (machine sources).run first before = some call → call.files.find? path = some answer.fileContent →
    answer.stored sources = some path → (∀ action ∈ between, Spares sources path action) →
    (path, answer.fileContent) ∈ final.removed ∧ final.attachments.find? path = some answer.fileContent

/-- Every call, whatever other processes do and whichever step fails. -/
theorem attachments_delivered (sources : AttachmentSources) (data : List UInt8)
    (files : SortedMap Path (List UInt8)) (actions : List AttachmentAction) (final : AttachmentCall)
    (done : (machine sources).run (start sources data files) actions = some final) :
    Accounted sources (start sources data files) actions final := by
  have orderly : (start sources data files).Orderly sources := orderly_start data files
  have ordered := Machine.invariant_reachable (fun call action next => orderly_step call action next) orderly done
  obtain ⟨removed, package, steady, visited, deleting⟩ := start_spec sources data files
  constructor
  · rw [removed_run done, removed]
    rfl
  · rintro before path after rfl other there kept
    obtain ⟨middle, first, last⟩ := Machine.run_append before _ done
    obtain ⟨next, stepped, -⟩ := Option.bind_eq_some_iff.mp last
    obtain ⟨removing, -⟩ := Option.ite_none_right_eq_some.mp stepped
    have passed := Machine.invariant_reachable (fun call action next => passed_step call action next)
      (fun phase => absurd phase deleting) first
    have listed := passed removing other (steady_run first (steady ▸ there) kept)
    obtain old | went := visited_run first listed
    · rw [visited] at old
      cases old
    · exact went
  · intro path
    rw [attachments_run done path, package]
    exact Option.or_none
  · exact ordered.payload
  · exact ordered.failed
  · intro threw
    by_cases nothing : final.removed = []
    · exact .inl nothing
    · have failing := deleteFailed_of_threw done orderly (fun _ => removed) threw nothing
      exact .inr ⟨failing, (ordered.threw threw).resolve_left nothing⟩
  · rintro before visited answer between path after call rfl first present read spared
    obtain ⟨middle, reached, last⟩ := Machine.run_append before _ done
    obtain rfl := Option.some.inj (first.symm.trans reached)
    have handed := handedOver_run present read spared last
    exact ⟨handed.removed, handed.stored⟩

end AttachmentCall

/-! ## Two calls -/

/-- The characters that every code page narrows to their numbers. -/
def asciiPage : CodePage where
  narrow path :=
    if path.all (·.toNat < 128) then some (path.map fun c => UInt8.ofNat c.toNat) else none
  widen text := text.map fun byte => Char.ofNat byte.toNat
  widen_narrow := by
    intro path text narrowed
    obtain ⟨ascii, same⟩ := Option.ite_none_right_eq_some.mp narrowed
    rw [← Option.some.inj same, List.map_map]
    apply (List.map_congr_left _).trans (List.map_id path)
    intro c member
    have small : c.toNat < 128 := by simpa using List.all_eq_true.mp ascii c member
    have number : (UInt8.ofNat c.toNat).toNat = c.toNat := by
      rw [UInt8.toNat_ofNat']
      omega
    simp only [Function.comp_apply, number]
    exact Char.ofNat_toNat c

/-- A length below 256, as `portable_binary_oarchive` writes it. -/
def portableLength (length : Nat) : List UInt8 := if length = 0 then [0] else [1, UInt8.ofNat length]

/-- The archive of a package that is not empty. -/
def portableBytes (package : AttachmentPackage) : List UInt8 :=
  [1, 22] ++ "serialization::archive".toList.map (fun c => UInt8.ofNat c.toNat) ++ [1, 20, 0, 0, 0, 0, 0] ++
    portableLength package.entries.length ++ [0, 0, 0, 0, 0] ++
    package.entries.flatMap fun entry =>
      portableLength entry.1.length ++ entry.1.map (fun c => UInt8.ofNat c.toNat) ++
        portableLength entry.2.length ++ [0] ++ entry.2

def operatorSources : AttachmentSources where
  loadAttachmentConfiguration := .ok ⟨"D:\\out\\".toList, [("op".toList, "op".toList)]⟩
  status _ := .directory
  iterationError := none
  codePage := asciiPage
  serializeToBytes package := .ok (portableBytes package)

/-- The entry is a file with this content. -/
def wholeAnswer (path : Path) (content : List UInt8) : EntryAnswer where
  isRegularFile := .ok true
  isOpen := true
  fileContent := content
  bad := false
  relativePath := .ok path
  incrementError := none

def operatorName : List UInt8 := [111, 112]

def oneFile : SortedMap Path (List UInt8) := (∅ : SortedMap Path (List UInt8)).insert ['a'] [65]

/-- Another process replaces the file before it is read. -/
def replacedCall : List AttachmentAction :=
  [.write ['a'] [66], .visit ['a'] (wholeAnswer ['a'] [66]), .enumerated, .remove ['a'], .directoryDeleted,
    .serialize]

/-- Another process writes a file after the last entry was read. -/
def disturbedCall : List AttachmentAction :=
  [.visit ['a'] (wholeAnswer ['a'] [65]), .enumerated, .write ['b'] [66], .remove ['a'], .remove ['b'],
    .directoryDeleted, .serialize]

namespace AttachmentCall

theorem attachments_delivered_replaced :
    ∃ final, (machine operatorSources).run (start operatorSources operatorName oneFile) replacedCall = some final ∧
      (['a'], [66]) ∈ final.removed ∧ final.attachments.find? ['a'] = some [66] := by
  have runs : ((machine operatorSources).run (start operatorSources operatorName oneFile) replacedCall).isSome := by
    decide +kernel
  obtain ⟨final, done⟩ := Option.isSome_iff_exists.mp runs
  have accounted := attachments_delivered operatorSources operatorName oneFile replacedCall final done
  refine ⟨final, done, accounted.delivered [.write ['a'] [66]] ['a'] (wholeAnswer ['a'] [66]) [.enumerated] ['a']
    [.directoryDeleted, .serialize] _ rfl rfl rfl ?_ ?_⟩
  · decide +kernel
  · intro action member
    rw [List.mem_singleton.mp member]
    trivial

/-- The call succeeds, and a file that it removed is not in its package. -/
theorem disturbed_loses_file :
    ∃ final payload, (machine operatorSources).run (start operatorSources operatorName oneFile) disturbedCall =
        some final ∧
      final.phase = .finished (.success payload) ∧ (['b'], [66]) ∈ final.removed ∧
        final.attachments.find? ['b'] = none := by
  refine ⟨_, _, rfl, rfl, ?_, ?_⟩
  · decide +kernel
  · decide +kernel

end AttachmentCall

end SearchEngine.Commands
