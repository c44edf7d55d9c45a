import SearchEngine.Lib.Machine

/-!
# Updates that shut the search out

`updateStep` sets `update_is_running` in its middle, and `getAnswer` waits while it is
set. Every call in between may throw. The flag is cleared at the end of the function
and when the document base could not be updated; an exception of any other call leaves
it set, and no later update clears it.
-/

namespace SearchEngine.Search

open SearchEngine.Lib

/-! ## Calls -/

/-- The lines that are written to the log. -/
inductive LogLine where
  | enter | beforeGuards | alreadyRunning | started | indexCreated | scanStart | scanDone
  | waitSearchStop | waitDone | beforeUpdate | updateStarted | waitingUpdate | updateFailed
  | updateFinished | compactDone | saving | completed | exited
  | saveStart | saveSkipped | noSerializer | liveSaved | rebuiltFromChunks | serializeBegin
  | serializeEnd | saved | saveFailed
deriving DecidableEq

/-- The calls of `updateStep` and `saveIndex` that may throw. -/
inductive UpdateCall where
  | log (line : LogLine)
  | createIndex | scanDirectories | lockSearch | startAsync | updateDocumentBase | compact
  | waitForIdle | getStats
  | ensureSerializer | flushPending | checkpoint | rebuildDictionary | serializerSave | shrinkDictionary
deriving DecidableEq

/-- What `saveIndex` finds: whether an update works on the index, whether a serializer is
configured and mirrors live, and whether the flat dictionary is filled. -/
structure SaveSituation where
  indexWorks : Bool
  configured : Bool
  live : Bool
  flat : Bool
deriving DecidableEq

/-- What one execution of `updateStep` meets: whether the operation is admitted, whether
`index->work` is set, and what its calls throw. -/
structure Surroundings where
  admitted : Bool
  indexWorks : Bool
  saving : SaveSituation
  thrown : UpdateCall → Option String

/-- The members that updates and searches share. `waiting` counts the searches that are
blocked in `cv_search_server.wait`. -/
structure UpdateGate where
  updateIsRunning : Bool
  mustStartUpdate : Bool
  hasIndex : Bool
  storageFailure : Option String
  waiting : Nat
deriving DecidableEq

/-- A function that may throw and leaves the members as they are then. -/
abbrev Update := ExceptT String (StateM UpdateGate)

namespace UpdateGate

/-- A constructed server. -/
def constructed : UpdateGate := ⟨false, false, false, none, 0⟩

/-- The flag is cleared and all searches are notified; they find it cleared. -/
def release (s : UpdateGate) : UpdateGate :=
  { s with updateIsRunning := false, mustStartUpdate := false, waiting := 0 }

/-- `recordStorageFailure` keeps the first failure. -/
def recordStorageFailure (s : UpdateGate) (thrown : String) : UpdateGate :=
  { s with storageFailure := s.storageFailure.or (some thrown) }

end UpdateGate

namespace Surroundings

variable (around : Surroundings)

/-- Make the calls in order; the first that throws ends the function. -/
def calls (around : Surroundings) : List UpdateCall → Update Unit
  | [] => pure ()
  | call :: rest =>
      match around.thrown call with
      | some thrown => throw thrown
      | none => around.calls rest

/-- The guarded part of `saveIndex`. -/
def storeIndex : Update Unit := do
  around.calls [.ensureSerializer]
  if !around.saving.configured then
    around.calls [.log .noSerializer]
  else if around.saving.live then
    around.calls [.flushPending, .checkpoint, .log .liveSaved]
  else
    -- `rebuiltFromChunks` is set when the dictionary is empty
    around.calls (if around.saving.flat then [] else [.rebuildDictionary])
    around.calls [.log .rebuiltFromChunks, .log .serializeBegin, .serializerSave, .log .serializeEnd,
      .log .saved]
    around.calls (if around.saving.flat then [] else [.shrinkDictionary])

/-- `InvertedIndex::saveIndex`. -/
def saveIndex : Update Unit := do
  around.calls [.log .saveStart]
  if around.saving.indexWorks then
    around.calls [.log .saveSkipped]
  else
    tryCatch around.storeIndex fun thrown => do
      modify fun s => s.recordStorageFailure thrown
      around.calls [.log .saveFailed]
      throw thrown

/-- The index is created by the first update. -/
def ensureIndex (hasIndex : Bool) : Update Unit := do
  if hasIndex then
    pure ()
  else
    around.calls [.createIndex]
    modify fun s => { s with hasIndex := true }
    around.calls [.log .indexCreated]

/-- `updateStep` between its guards and the line that sets the flag. -/
def prepareUpdate (hasIndex : Bool) : Update Unit := do
  around.calls [.log .started]
  around.ensureIndex hasIndex
  around.calls [.log .scanStart, .scanDirectories, .log .scanDone, .log .waitSearchStop, .lockSearch,
    .log .waitDone]

/-- `updateStep` between the update and the end. -/
def finishUpdate : Update Unit := do
  around.calls [.log .updateFinished, .compact, .waitForIdle, .log .compactDone, .log .saving]
  around.saveIndex
  around.calls [.getStats, .log .completed]

/-- `updateStep` from the line that sets the flag. -/
def publishUpdate : Update Unit := do
  modify fun s => { s with updateIsRunning := true, mustStartUpdate := false }
  around.calls [.log .beforeUpdate, .startAsync, .log .updateStarted, .log .waitingUpdate]
  tryCatch (around.calls [.updateDocumentBase]) fun thrown => do
    modify UpdateGate.release
    around.calls [.log .updateFailed]
    throw thrown
  around.finishUpdate
  modify UpdateGate.release
  around.calls [.log .exited]

/-- `SearchServer::updateStep`. -/
def updateStep : Update Unit := do
  if !around.admitted then
    modify fun s => { s with mustStartUpdate := false }
  else
    around.calls [.log .enter, .log .beforeGuards]
    let s ← get
    if s.updateIsRunning || (s.hasIndex && around.indexWorks) then
      around.calls [.log .alreadyRunning]
    else
      around.prepareUpdate s.hasIndex
      around.publishUpdate

end Surroundings

/-! ## Updates and searches -/

/-- An update runs under `updateM` and, while it works, under the exclusive `searchM`:
searches arrive between the updates. -/
inductive GateAction where
  | updateStep (around : Surroundings)
  | getAnswer

/-- `getAnswer` waits while an update is said to run. -/
def UpdateGate.getAnswer (s : UpdateGate) : UpdateGate :=
  if s.updateIsRunning then { s with waiting := s.waiting + 1 } else s

/-- The members after `updateStep` has returned or thrown. -/
def UpdateGate.updateStep (s : UpdateGate) (around : Surroundings) : UpdateGate :=
  (around.updateStep.run.run s).2

def gate : Machine UpdateGate GateAction where
  step s
    | .updateStep around => some (s.updateStep around)
    | .getAnswer => some s.getAnswer

/-- No update is said to run, and no search waits. -/
def UpdateGate.Open (s : UpdateGate) : Prop := s.updateIsRunning = false ∧ s.waiting = 0

instance (s : UpdateGate) : Decidable s.Open := inferInstanceAs (Decidable (_ ∧ _))

/-! ## When the flag is cleared -/

namespace Surroundings

variable (around : Surroundings)

/-- None of the calls throws. -/
def Quiet (calls : List UpdateCall) : Prop := ∀ call ∈ calls, around.thrown call = none

instance (calls : List UpdateCall) : Decidable (around.Quiet calls) :=
  inferInstanceAs (Decidable (∀ _ ∈ _, _))

/-- The calls of `storeIndex` when none of them throws. -/
def storeCalls (saving : SaveSituation) : List UpdateCall :=
  ([.ensureSerializer] : List UpdateCall) ++
    (if !saving.configured then [.log .noSerializer]
    else if saving.live then [.flushPending, .checkpoint, .log .liveSaved]
    else (if saving.flat then [] else [.rebuildDictionary] : List UpdateCall) ++
      (([.log .rebuiltFromChunks, .log .serializeBegin, .serializerSave, .log .serializeEnd, .log .saved] :
        List UpdateCall) ++ (if saving.flat then [] else [.shrinkDictionary] : List UpdateCall)) :
      List UpdateCall)

/-- The calls of `saveIndex`. -/
def saveCalls (saving : SaveSituation) : List UpdateCall :=
  ([.log .saveStart] : List UpdateCall) ++
    (if saving.indexWorks then [.log .saveSkipped] else storeCalls saving : List UpdateCall)

/-- The calls of `finishUpdate`. -/
def finishCalls (saving : SaveSituation) : List UpdateCall :=
  ([.log .updateFinished, .compact, .waitForIdle, .log .compactDone, .log .saving] : List UpdateCall) ++
    (saveCalls saving ++ ([.getStats, .log .completed] : List UpdateCall))

/-- The calls of `prepareUpdate`. -/
def prepareCalls (hasIndex : Bool) : List UpdateCall :=
  ([.log .started] : List UpdateCall) ++ ((if hasIndex then [] else [.createIndex, .log .indexCreated] : List UpdateCall) ++
    ([.log .scanStart, .scanDirectories, .log .scanDone, .log .waitSearchStop, .lockSearch, .log .waitDone] :
      List UpdateCall))

/-- The execution comes to set the flag: it is admitted, nothing runs, and the calls
before throw nothing. -/
def Starts (s : UpdateGate) : Prop :=
  around.admitted = true ∧ (s.updateIsRunning || (s.hasIndex && around.indexWorks)) = false ∧
    around.Quiet [.log .enter, .log .beforeGuards] ∧ around.Quiet (prepareCalls s.hasIndex)

/-- Once the flag is set, nothing but `updateDocumentBase` throws. -/
def Clears (s : UpdateGate) : Prop :=
  around.Starts s →
    around.Quiet [.log .beforeUpdate, .startAsync, .log .updateStarted, .log .waitingUpdate] ∧
      (around.thrown .updateDocumentBase = none → around.Quiet (finishCalls around.saving))

variable {around}

theorem quiet_append {first second : List UpdateCall} :
    around.Quiet (first ++ second) ↔ around.Quiet first ∧ around.Quiet second :=
  List.forall_mem_append

theorem run_bind {α β : Type} (first : Update α) (next : α → Update β) (s : UpdateGate) :
    (first >>= next).run.run s =
      match first.run.run s with
      | (.ok value, t) => (next value).run.run t
      | (.error thrown, t) => (.error thrown, t) := by
  rw [ExceptT.run_bind, StateT.run_bind]
  rcases first.run.run s with ⟨outcome, t⟩
  cases outcome <;> rfl

theorem run_tryCatch {α : Type} (first : Update α) (handler : String → Update α) (s : UpdateGate) :
    (tryCatch first handler).run.run s =
      match first.run.run s with
      | (.ok value, t) => (.ok value, t)
      | (.error thrown, t) => (handler thrown).run.run t := by
  simp only [tryCatch, tryCatchThe, MonadExceptOf.tryCatch, ExceptT.tryCatch, ExceptT.run, ExceptT.mk,
    StateT.run, bind, StateT.bind]
  rcases first s with ⟨outcome, t⟩
  cases outcome <;> rfl

/-- From the state on, the function throws unless the calls are quiet, and leaves the flag
and the waiting searches alone. -/
def Acts (around : Surroundings) (function : Update Unit) (calls : List UpdateCall) (s : UpdateGate) : Prop :=
  ∃ outcome t, function.run.run s = (outcome, t) ∧ (outcome = .ok () ↔ around.Quiet calls) ∧
    t.updateIsRunning = s.updateIsRunning ∧ t.waiting = s.waiting

/-- Calls leave the members as they are. -/
theorem run_calls (around : Surroundings) (calls : List UpdateCall) (s : UpdateGate) :
    ∃ outcome, (around.calls calls).run.run s = (outcome, s) ∧ (outcome = .ok () ↔ around.Quiet calls) := by
  induction calls with
  | nil => exact ⟨.ok (), rfl, by simp [Quiet]⟩
  | cons call rest ih =>
      obtain ⟨outcome, ran, quiet⟩ := ih
      unfold Surroundings.calls
      cases thrown : around.thrown call with
      | some error => exact ⟨.error error, rfl, by simp [Quiet, thrown]⟩
      | none => exact ⟨outcome, ran, by rw [quiet]; simp [Quiet, thrown]⟩

theorem acts_calls (calls : List UpdateCall) (s : UpdateGate) : around.Acts (around.calls calls) calls s := by
  obtain ⟨outcome, ran, quiet⟩ := run_calls around calls s
  exact ⟨outcome, s, ran, quiet, rfl, rfl⟩

/-- One function after another. -/
theorem Acts.bind {first : Update Unit} {next : Unit → Update Unit} {calls more : List UpdateCall}
    {s : UpdateGate} (acts : around.Acts first calls s)
    (rest : ∀ t : UpdateGate, t.updateIsRunning = s.updateIsRunning → t.waiting = s.waiting →
      around.Acts (next ()) more t) : around.Acts (first >>= next) (calls ++ more) s := by
  obtain ⟨outcome, t, ran, quiet, flag, waiting⟩ := acts
  unfold Acts
  rw [run_bind, ran, quiet_append]
  cases outcome with
  | ok value =>
      obtain ⟨last, u, later, moreQuiet, laterFlag, laterWaiting⟩ := rest t flag waiting
      refine ⟨last, u, later, ?_, laterFlag.trans flag, laterWaiting.trans waiting⟩
      rw [moreQuiet, and_iff_right (quiet.mp rfl)]
  | error thrown =>
      refine ⟨.error thrown, t, rfl, ?_, flag, waiting⟩
      rw [← quiet]
      simp

/-- A handler ends in a throw, with the flag as it was changed. -/
theorem run_rethrow (around : Surroundings) (change : UpdateGate → UpdateGate) (line : LogLine) (thrown : String)
    (s : UpdateGate) :
    ∃ other t, (do
        modify change
        around.calls [.log line]
        throw thrown : Update Unit).run.run s = (.error other, t) ∧
      t.updateIsRunning = (change s).updateIsRunning ∧ t.waiting = (change s).waiting := by
  obtain ⟨outcome, t, logged, -, flag, waiting⟩ := @acts_calls around [.log line] (change s)
  have changed : (modify change : Update Unit).run.run s = (.ok (), change s) := rfl
  rw [run_bind, changed]
  dsimp only
  rw [run_bind, logged]
  cases outcome with
  | ok value => exact ⟨thrown, t, rfl, flag, waiting⟩
  | error other => exact ⟨other, t, rfl, flag, waiting⟩

/-- What follows a function that is quiet, and how it ends otherwise. -/
theorem Acts.run_bind {first : Update Unit} {next : Unit → Update Unit} {calls : List UpdateCall}
    {s : UpdateGate} (acts : around.Acts first calls s) :
    ∃ t : UpdateGate, t.updateIsRunning = s.updateIsRunning ∧ t.waiting = s.waiting ∧
      (around.Quiet calls ∧ (first >>= next).run.run s = (next ()).run.run t ∨
        ¬ around.Quiet calls ∧ ((first >>= next).run.run s).2 = t) := by
  obtain ⟨outcome, t, ran, quiet, flag, waiting⟩ := acts
  refine ⟨t, flag, waiting, ?_⟩
  rw [Surroundings.run_bind, ran]
  cases outcome with
  | ok value => exact .inl ⟨quiet.mp rfl, rfl⟩
  | error thrown => exact .inr ⟨fun all => (by cases quiet.mpr all), rfl⟩

theorem acts_storeIndex (s : UpdateGate) : around.Acts around.storeIndex (storeCalls around.saving) s := by
  refine (acts_calls _ s).bind fun t _ _ => ?_
  split
  · exact acts_calls _ t
  · split
    · exact acts_calls _ t
    · exact (acts_calls _ t).bind fun u _ _ => (acts_calls _ u).bind fun v _ _ => acts_calls _ v

theorem acts_saveIndex (s : UpdateGate) : around.Acts around.saveIndex (saveCalls around.saving) s := by
  refine (acts_calls _ s).bind fun t _ _ => ?_
  split
  · exact acts_calls _ t
  · obtain ⟨outcome, u, ran, quiet, flag, waiting⟩ := @acts_storeIndex around t
    unfold Acts
    rw [run_tryCatch, ran]
    cases outcome with
    | ok value => exact ⟨.ok value, u, rfl, quiet, flag, waiting⟩
    | error thrown =>
        have noisy : ¬ around.Quiet (storeCalls around.saving) := fun all => by cases quiet.mpr all
        obtain ⟨other, v, rethrown, lastFlag, lastWaiting⟩ :=
          run_rethrow around (fun s => s.recordStorageFailure thrown) .saveFailed thrown u
        exact ⟨.error other, v, rethrown, by simp [noisy], lastFlag.trans flag, lastWaiting.trans waiting⟩

theorem acts_ensureIndex (hasIndex : Bool) (s : UpdateGate) :
    around.Acts (around.ensureIndex hasIndex) (if hasIndex then [] else [.createIndex, .log .indexCreated]) s := by
  unfold ensureIndex
  split
  · exact ⟨.ok (), s, rfl, by simp [Quiet], rfl, rfl⟩
  · have rest : ∀ t : UpdateGate, around.Acts (do
        modify fun s => { s with hasIndex := true }
        around.calls [.log .indexCreated]) [.log .indexCreated] t := by
      intro t
      obtain ⟨outcome, u, ran, quiet, flag, waiting⟩ :=
        @acts_calls around [.log .indexCreated] { t with hasIndex := true }
      exact ⟨outcome, u, ran, quiet, flag, waiting⟩
    exact (acts_calls [.createIndex] s).bind fun t _ _ => rest t

theorem acts_prepareUpdate (hasIndex : Bool) (s : UpdateGate) :
    around.Acts (around.prepareUpdate hasIndex) (prepareCalls hasIndex) s :=
  (acts_calls _ s).bind fun t _ _ => (acts_ensureIndex hasIndex t).bind fun u _ _ => acts_calls _ u

theorem acts_finishUpdate (s : UpdateGate) : around.Acts around.finishUpdate (finishCalls around.saving) s :=
  (acts_calls _ s).bind fun t _ _ => (acts_saveIndex t).bind fun u _ _ => acts_calls _ u

/-- From the line that sets the flag on, the flag is cleared, and no search is left waiting,
exactly when nothing but `updateDocumentBase` throws. -/
theorem run_publishUpdate (s : UpdateGate) :
    ∃ outcome t, around.publishUpdate.run.run s = (outcome, t) ∧
      (t.Open ↔ around.Quiet [.log .beforeUpdate, .startAsync, .log .updateStarted, .log .waitingUpdate] ∧
        (around.thrown .updateDocumentBase = none → around.Quiet (finishCalls around.saving))) ∧
      (¬ t.Open → t.updateIsRunning = true) := by
  have set : (modify fun s => { s with updateIsRunning := true, mustStartUpdate := false } :
      Update Unit).run.run s = (.ok (), { s with updateIsRunning := true, mustStartUpdate := false }) := rfl
  unfold publishUpdate
  rw [run_bind, set]
  dsimp only
  obtain ⟨outcome, t, ran, quiet, flag, -⟩ := @acts_calls around
    [.log .beforeUpdate, .startAsync, .log .updateStarted, .log .waitingUpdate]
    { s with updateIsRunning := true, mustStartUpdate := false }
  rw [run_bind, ran, ← quiet]
  cases outcome with
  | error thrown => exact ⟨.error thrown, t, rfl, by simp [UpdateGate.Open, flag], fun _ => flag⟩
  | ok value =>
      dsimp only
      rw [run_bind, run_tryCatch]
      obtain ⟨updated, u, updateRan, updateQuiet, updateFlag, -⟩ := @acts_calls around [.updateDocumentBase] t
      have works : around.Quiet [.updateDocumentBase] ↔ around.thrown .updateDocumentBase = none := by
        simp [Quiet]
      rw [works] at updateQuiet
      rw [updateRan, ← updateQuiet]
      cases updated with
      | error thrown =>
          obtain ⟨other, v, rethrown, lastFlag, lastWaiting⟩ :=
            run_rethrow around UpdateGate.release .updateFailed thrown u
          have isOpen : v.Open := ⟨lastFlag, lastWaiting⟩
          dsimp only
          rw [rethrown]
          exact ⟨.error other, v, rfl, by simp [isOpen], fun shut => absurd isOpen shut⟩
      | ok value =>
          dsimp only
          obtain ⟨finished, v, finishRan, finishQuiet, finishFlag, -⟩ := @acts_finishUpdate around u
          rw [run_bind, finishRan, ← finishQuiet]
          have running : v.updateIsRunning = true := finishFlag.trans (updateFlag.trans flag)
          cases finished with
          | error thrown => exact ⟨.error thrown, v, rfl, by simp [UpdateGate.Open, running], fun _ => running⟩
          | ok value =>
              have released : (modify UpdateGate.release : Update Unit).run.run v = (.ok (), v.release) := rfl
              obtain ⟨logged, w, logRan, -, logFlag, logWaiting⟩ := @acts_calls around [.log .exited] v.release
              have isOpen : w.Open := ⟨logFlag, logWaiting⟩
              dsimp only
              rw [run_bind, released]
              dsimp only
              rw [logRan]
              exact ⟨logged, w, rfl, by simp [isOpen], fun shut => absurd isOpen shut⟩

end Surroundings

namespace UpdateGate

open Surroundings

variable {s : UpdateGate} {around : Surroundings}

/-- An update that finds the gate open leaves it open exactly when it clears the flag, and
with the flag set otherwise. -/
theorem open_updateStep (isOpen : s.Open) :
    ((s.updateStep around).Open ↔ around.Clears s) ∧
      (¬ (s.updateStep around).Open → (s.updateStep around).updateIsRunning = true) := by
  have stays : ∀ t : UpdateGate, t.updateIsRunning = s.updateIsRunning → t.waiting = s.waiting →
      ¬ around.Starts s → (t.Open ↔ around.Clears s) ∧ (¬ t.Open → t.updateIsRunning = true) := by
    intro t flag waiting idle
    have still : t.Open := ⟨flag.trans isOpen.1, waiting.trans isOpen.2⟩
    exact ⟨iff_of_true still fun starts => absurd starts idle, fun shut => absurd still shut⟩
  unfold UpdateGate.updateStep Surroundings.updateStep
  cases admitted : around.admitted with
  | false => exact stays _ rfl rfl fun starts => by simp [Starts, admitted] at starts
  | true =>
      rw [if_neg (by simp)]
      obtain ⟨entered, ran, quiet⟩ := run_calls around [.log .enter, .log .beforeGuards] s
      rw [run_bind, ran]
      cases entered with
      | error thrown =>
          refine stays s rfl rfl fun starts => ?_
          cases quiet.mpr starts.2.2.1
      | ok value =>
          have read : (get : Update UpdateGate).run.run s = (.ok s, s) := rfl
          dsimp only
          rw [run_bind, read]
          dsimp only
          split
          · rename_i running
            obtain ⟨outcome, logged, -⟩ := run_calls around [.log .alreadyRunning] s
            rw [logged]
            exact stays s rfl rfl fun starts => by simp [starts.2.1] at running
          · rename_i idle
            obtain ⟨prepared, t, prepareRan, prepareQuiet, flag, waiting⟩ := @acts_prepareUpdate around s.hasIndex s
            rw [run_bind, prepareRan]
            cases prepared with
            | error thrown =>
                refine stays t flag waiting fun starts => ?_
                cases prepareQuiet.mpr starts.2.2.2
            | ok value =>
                have starts : around.Starts s :=
                  ⟨admitted, Bool.eq_false_iff.mpr idle, quiet.mp rfl, prepareQuiet.mp rfl⟩
                obtain ⟨outcome, u, publishRan, cleared, shut⟩ := @run_publishUpdate around t
                dsimp only
                rw [publishRan]
                refine ⟨?_, shut⟩
                rw [cleared, Clears, imp_iff_right starts]

/-- An update that finds the flag set returns at once. -/
theorem blocked_updateStep (blocked : s.updateIsRunning = true) :
    (s.updateStep around).updateIsRunning = true ∧ (s.updateStep around).waiting = s.waiting := by
  unfold UpdateGate.updateStep Surroundings.updateStep
  cases around.admitted with
  | false => exact ⟨blocked, rfl⟩
  | true =>
      rw [if_neg (by simp)]
      obtain ⟨entered, ran, -⟩ := run_calls around [.log .enter, .log .beforeGuards] s
      rw [run_bind, ran]
      cases entered with
      | error thrown => exact ⟨blocked, rfl⟩
      | ok value =>
          have read : (get : Update UpdateGate).run.run s = (.ok s, s) := rfl
          obtain ⟨outcome, logged, -⟩ := run_calls around [.log .alreadyRunning] s
          dsimp only
          rw [run_bind, read]
          dsimp only
          rw [if_pos (by simp [blocked]), logged]
          exact ⟨blocked, rfl⟩

/-- A flag that was left set is set for ever, and every search that comes waits. -/
theorem blocked_run {actions : List GateAction} {last : UpdateGate} (blocked : s.updateIsRunning = true)
    (done : gate.run s actions = some last) : last.updateIsRunning = true ∧ s.waiting ≤ last.waiting := by
  have kept : ∀ t action next, t.updateIsRunning = true ∧ s.waiting ≤ t.waiting →
      gate.step t action = some next → next.updateIsRunning = true ∧ s.waiting ≤ next.waiting := by
    rintro t (around | _) next ⟨running, more⟩ stepped
    · obtain rfl := Option.some.inj stepped
      obtain ⟨still, same⟩ := @blocked_updateStep t around running
      exact ⟨still, same ▸ more⟩
    · obtain rfl := Option.some.inj stepped
      rw [UpdateGate.getAnswer, if_pos running]
      exact ⟨running, more.trans (Nat.le_succ _)⟩
  have initial : s.updateIsRunning = true ∧ s.waiting ≤ s.waiting := ⟨blocked, le_rfl⟩
  exact Machine.invariant_reachable kept initial done

/-- In every run from the construction on, the gate is open between the calls exactly when
every update clears the flag it sets. -/
theorem open_throughout_iff (actions : List GateAction) :
    gate.Throughout UpdateGate.Open constructed actions ↔
      gate.Conforms (fun s action => ∀ around, action = .updateStep around → around.Clears s) constructed
        actions := by
  have implies : ∀ t : UpdateGate, t.Open → t.Open := fun _ isOpen => isOpen
  apply Machine.throughout_iff_conforms implies
  · rintro s (around | _) next isOpen clears stepped
    · obtain rfl := Option.some.inj stepped
      exact (open_updateStep isOpen).1.mpr (clears around rfl)
    · obtain rfl := Option.some.inj stepped
      rwa [UpdateGate.getAnswer, if_neg (by simp [isOpen.1])]
  · rintro s (around | _) isOpen held
    · refine ⟨s.updateStep around, rfl, fun stays => held ?_⟩
      rintro other same
      obtain rfl := GateAction.updateStep.inj same
      exact (open_updateStep isOpen).1.mp stays
    · exact absurd (fun around same => by cases same) held
  · exact ⟨rfl, rfl⟩

/-! ## A checkpoint that fails -/

/-- An admitted update of an index with a live mirror, in which nothing throws. -/
def quietUpdate : Surroundings := ⟨true, false, ⟨false, true, true, true⟩, fun _ => none⟩

/-- The checkpoint of the mirror fails. -/
def failedCheckpoint : Surroundings :=
  { quietUpdate with thrown := fun call => if call = .checkpoint then some "disk I/O error" else none }

/-- A search that comes after the failed checkpoint waits, also after the next update. -/
theorem not_open_failedCheckpoint :
    (¬ gate.Throughout UpdateGate.Open constructed [.updateStep failedCheckpoint]) ∧
      gate.run constructed [.updateStep failedCheckpoint, .getAnswer, .updateStep quietUpdate] =
        some ⟨true, false, true, some "disk I/O error", 1⟩ := by
  constructor
  · intro throughout
    have shut : ¬ (constructed.updateStep failedCheckpoint).Open := by decide +kernel
    exact shut (throughout.2 _ rfl)
  · decide +kernel

end UpdateGate

end SearchEngine.Search
