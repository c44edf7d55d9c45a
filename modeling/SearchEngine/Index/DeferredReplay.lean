import Mathlib.Data.Fintype.Basic
import SearchEngine.Index.PointDeferral

/-!
# Replay of deferred point events

A deferred path is replayed if a full update that has not taken the queue yet is
under way when it is inserted. Nothing else empties the queue: a path deferred
because of a compaction or another point call, or inserted after the drain of the
update that refused the lock, waits for some later full update.
-/

namespace SearchEngine.Index

open SearchEngine.Lib

namespace PointDeferral

/-- The update still has to take the deferred queue. -/
def ThreadPhase.AwaitsDrain : ThreadPhase → Prop
  | update .entered => False
  | update _ => True
  | _ => False

instance ThreadPhase.decidableAwaitsDrain (phase : ThreadPhase) : Decidable phase.AwaitsDrain :=
  match phase with
  | .idle => .isFalse id
  | .point _ _ _ _ => .isFalse id
  | .replaying _ => .isFalse id
  | .update .entered => .isFalse id
  | .update .locking => .isTrue trivial
  | .update .waitingForIdle => .isTrue trivial
  | .update .starting => .isTrue trivial
  | .update .updating => .isTrue trivial
  | .update .unlocking => .isTrue trivial
  | .update .draining => .isTrue trivial
  | .update .taking => .isTrue trivial

/-- The taken paths whose replay is still to be made. -/
def ThreadPhase.toReplay : ThreadPhase → List Path
  | point _ _ _ drain => drain.getD []
  | replaying rest => rest
  | _ => []

end PointDeferral

namespace Maintenance

open PointDeferral

variable {Thread : Type} [DecidableEq Thread]

theorem threads_setPhase (s : Maintenance Thread) (thread other : Thread) (phase : ThreadPhase) :
    (s.setPhase thread phase).threads other = if other = thread then phase else s.threads other :=
  Function.update_apply ..

/-- No update, compaction or call is in progress and no stop was requested. -/
def Quiescent (s : Maintenance Thread) : Prop :=
  s.stopping = false ∧ s.strand = .idle ∧ ∀ thread, s.threads thread = .idle

instance (s : Maintenance Thread) [Fintype Thread] : Decidable s.Quiescent :=
  inferInstanceAs (Decidable (_ ∧ _ ∧ _))

/-- At rest the deferred queue is empty and every deferred path was replayed. -/
def NoEventLost (s : Maintenance Thread) : Prop :=
  s.Quiescent → s.deferredPaths = [] ∧ s.unreplayed = []

instance (s : Maintenance Thread) [Fintype Thread] : Decidable s.NoEventLost :=
  inferInstanceAs (Decidable (_ → _ ∧ _))

/-- Some update waits for `updateMutex` or holds it, or has released it without
having taken the deferred queue. -/
def DrainAhead (s : Maintenance Thread) : Prop := ∃ thread, (s.threads thread).AwaitsDrain

instance (s : Maintenance Thread) [Fintype Thread] : Decidable s.DrainAhead :=
  inferInstanceAs (Decidable (∃ thread, (s.threads thread).AwaitsDrain))

/-- A thread may insert a path if a drain is ahead, and a replayed point call may
throw if it is the last one of its drain. -/
def PhaseAllowed (s : Maintenance Thread) : ThreadPhase → Choice → Prop
  | .point _ _ (.inserting _) _, _ => s.stopping = true ∨ s.DrainAhead
  | .point _ _ .rethrowing drain, _ => s.storageFailure = true → drain.getD [] = []
  | .point _ _ .body drain, .body .threw => drain.getD [] = []
  | _, _ => True

instance (s : Maintenance Thread) [Fintype Thread] (phase : ThreadPhase) (choice : Choice) :
    Decidable (s.PhaseAllowed phase choice) :=
  match phase, choice with
  | .point _ _ (.inserting _) _, _ => inferInstanceAs (Decidable (_ ∨ _))
  | .point _ _ .rethrowing _, _ => inferInstanceAs (Decidable (_ → _))
  | .point _ _ .body _, .body .threw => inferInstanceAs (Decidable (_ = _))
  | .point _ _ .body _, .body .posted => .isTrue trivial
  | .point _ _ .body _, .body .skipped => .isTrue trivial
  | .point _ _ .body _, .proceed => .isTrue trivial
  | .point _ _ .body _, .updated _ => .isTrue trivial
  | .point _ _ .body _, .take _ => .isTrue trivial
  | .point _ _ .body _, .replay _ => .isTrue trivial
  | .point _ _ .entered _, _ => .isTrue trivial
  | .point _ _ .tryLock _, _ => .isTrue trivial
  | .point _ _ .locked _, _ => .isTrue trivial
  | .point _ _ (.deferring _) _, _ => .isTrue trivial
  | .point _ _ (.inserted _) _, _ => .isTrue trivial
  | .idle, _ => .isTrue trivial
  | .update _, _ => .isTrue trivial
  | .replaying _, _ => .isTrue trivial

/-- The condition on an action in the state before it. -/
def ReplayAhead (s : Maintenance Thread) : Action Thread → Prop
  | .advance thread choice => s.PhaseAllowed (s.threads thread) choice
  | _ => True

instance (s : Maintenance Thread) [Fintype Thread] (action : Action Thread) :
    Decidable (s.ReplayAhead action) :=
  match action with
  | .advance thread choice => inferInstanceAs (Decidable (s.PhaseAllowed (s.threads thread) choice))
  | .enqueueFile _ _ _ => .isTrue trivial
  | .updateDocumentBase _ => .isTrue trivial
  | .compact => .isTrue trivial
  | .strand => .isTrue trivial
  | .finishTask => .isTrue trivial
  | .recordStorageFailure => .isTrue trivial
  | .stop => .isTrue trivial
  | .clearDeferred => .isTrue trivial

/-! ## What keeps deferred paths -/

/-- Every deferred path has a drain ahead, and every path that was not replayed is
deferred or already taken by a drain. -/
structure Covered (s : Maintenance Thread) : Prop where
  ahead : s.deferredPaths ≠ [] → s.DrainAhead
  kept : ∀ path ∈ s.unreplayed, path ∈ s.deferredPaths ∨ ∃ thread, path ∈ (s.threads thread).toReplay

/-- The invariant up to a stop request. -/
def Tended (s : Maintenance Thread) : Prop := s.stopping = true ∨ s.Covered

variable {s : Maintenance Thread}

/-- An awaited drain stays ahead when other threads move. -/
theorem DrainAhead.setPhase (ahead : s.DrainAhead) (thread : Thread) {phase : ThreadPhase}
    (awaits : (s.threads thread).AwaitsDrain → phase.AwaitsDrain) :
    (s.setPhase thread phase).DrainAhead := by
  obtain ⟨other, waits⟩ := ahead
  refine ⟨other, ?_⟩
  rw [threads_setPhase]
  split
  · rename_i same
    exact awaits (same ▸ waits)
  · exact waits

/-- A thread moves on with its drain and the paths it has to replay. -/
theorem Covered.setPhase (covered : s.Covered) (thread : Thread) {phase : ThreadPhase}
    (awaits : (s.threads thread).AwaitsDrain → phase.AwaitsDrain)
    (replays : ∀ path ∈ (s.threads thread).toReplay, path ∈ phase.toReplay) :
    (s.setPhase thread phase).Covered where
  ahead deferred := (covered.ahead deferred).setPhase thread awaits
  kept path owed := by
    refine (covered.kept path owed).imp_right fun ⟨other, listed⟩ => ⟨other, ?_⟩
    rw [threads_setPhase]
    split
    · rename_i same
      exact replays path (same ▸ listed)
    · exact listed

theorem Tended.setPhase (tended : s.Tended) (thread : Thread) {phase : ThreadPhase}
    (awaits : (s.threads thread).AwaitsDrain → phase.AwaitsDrain)
    (replays : ∀ path ∈ (s.threads thread).toReplay, path ∈ phase.toReplay) :
    (s.setPhase thread phase).Tended :=
  tended.imp_right fun covered => covered.setPhase thread awaits replays

theorem toReplay_afterCall (drain : Option (List Path)) :
    (afterCall drain).toReplay = drain.getD [] := by
  cases drain <;> rfl

/-- A point call goes on to its next access. -/
theorem Tended.pointPhase (tended : s.Tended) {thread : Thread} {kind : PointKind} {path : Path}
    {before : PointPhase} {drain : Option (List Path)}
    (here : s.threads thread = .point kind path before drain) (phase : PointPhase) :
    (s.setPhase thread (.point kind path phase drain)).Tended := by
  refine tended.setPhase thread (fun awaits => ?_) (fun listed member => ?_)
  · rw [here] at awaits
    exact awaits.elim
  · rw [here] at member
    exact member

/-- A point call returns to the drain that made it. -/
theorem Tended.pointReturn (tended : s.Tended) {thread : Thread} {kind : PointKind} {path : Path}
    {before : PointPhase} {drain : Option (List Path)}
    (here : s.threads thread = .point kind path before drain) (owns : Bool) :
    (s.pointReturn thread drain owns).Tended := by
  have unlocked : ({ s with updateLocked := s.updateLocked && !owns } : Maintenance Thread).Tended :=
    tended.imp_right fun covered => ⟨covered.ahead, covered.kept⟩
  refine unlocked.setPhase thread (fun awaits => ?_) (fun listed member => ?_)
  · exact (here ▸ awaits : ThreadPhase.AwaitsDrain (.point kind path before drain)).elim
  · rw [toReplay_afterCall]
    exact (here ▸ member : listed ∈ ThreadPhase.toReplay (.point kind path before drain))

/-- A point call throws with nothing left to replay. -/
theorem Tended.pointThrow (tended : s.Tended) {thread : Thread} {kind : PointKind} {path : Path}
    {before : PointPhase} {drain : Option (List Path)}
    (here : s.threads thread = .point kind path before drain) (last : drain.getD [] = [])
    (owns : Bool) : (s.pointThrow thread owns).Tended := by
  have unlocked : ({ s with updateLocked := s.updateLocked && !owns } : Maintenance Thread).Tended :=
    tended.imp_right fun covered => ⟨covered.ahead, covered.kept⟩
  refine unlocked.setPhase thread (fun awaits => ?_) (fun listed member => ?_)
  · exact (here ▸ awaits : ThreadPhase.AwaitsDrain (.point kind path before drain)).elim
  · have none : listed ∈ drain.getD [] :=
      (here ▸ member : listed ∈ ThreadPhase.toReplay (.point kind path before drain))
    rw [last] at none
    exact none

omit [DecidableEq Thread] in
/-- A path is inserted while a drain is ahead. -/
theorem Covered.defer (covered : s.Covered) (ahead : s.DrainAhead) (path : Path) :
    (s.defer path).Covered where
  ahead _ := ahead
  kept other owed := by
    have queued : ∀ listed, listed = path ∨ listed ∈ s.deferredPaths →
        listed ∈ (s.defer path).deferredPaths := by
      intro listed either
      simp only [Maintenance.defer]
      split
      · rename_i present
        exact either.elim (fun same => same ▸ List.contains_iff_mem.mp present) id
      · exact List.mem_append.mpr (either.symm.imp_right List.mem_singleton.mpr)
    have owedBefore : other = path ∨ other ∈ s.unreplayed := by
      simp only [Maintenance.defer] at owed
      split at owed
      · exact .inr owed
      · exact (List.mem_append.mp owed).symm.imp_left List.mem_singleton.mp
    rcases owedBefore with same | earlier
    · exact .inl (queued other (.inl same))
    · exact (covered.kept other earlier).imp_left fun present => queued other (.inr present)

theorem Tended.pointStep {after : Maintenance Thread} (tended : s.Tended) {thread : Thread}
    {kind : PointKind} {path : Path} {phase : PointPhase} {drain : Option (List Path)}
    {choice : Choice} (here : s.threads thread = .point kind path phase drain)
    (allowed : s.PhaseAllowed (.point kind path phase drain) choice)
    (taken : s.pointStep thread kind path drain phase choice = some after) : after.Tended := by
  unfold Maintenance.pointStep at taken
  split at taken
  case h_1 =>
    obtain rfl := Option.some.inj taken
    split
    · exact tended.pointReturn here false
    · exact tended.pointPhase here _
  case h_2 =>
    obtain rfl := Option.some.inj taken
    split
    · rename_i failed
      exact tended.pointThrow here (allowed failed) false
    · exact tended.pointPhase here _
  case h_3 =>
    obtain rfl := Option.some.inj taken
    split
    · exact tended.pointPhase here _
    · have acquired : ({ s with updateLocked := true } : Maintenance Thread).Tended :=
        tended.imp_right fun covered => ⟨covered.ahead, covered.kept⟩
      exact acquired.pointPhase here _
  case h_4 =>
    obtain rfl := Option.some.inj taken
    exact tended.pointPhase here _
  case h_5 =>
    obtain rfl := Option.some.inj taken
    have posted : ({ s with tracked := s.tracked + 1 } : Maintenance Thread).Tended :=
      tended.imp_right fun covered => ⟨covered.ahead, covered.kept⟩
    exact posted.pointReturn here true
  case h_6 =>
    obtain rfl := Option.some.inj taken
    exact tended.pointReturn here true
  case h_7 =>
    obtain rfl := Option.some.inj taken
    exact tended.pointThrow here allowed true
  case h_8 =>
    obtain rfl := Option.some.inj taken
    split
    · exact tended.pointReturn here _
    · exact tended.pointPhase here _
  case h_9 =>
    obtain rfl := Option.some.inj taken
    have deferred : (s.defer path).Tended := by
      rcases tended with stopping | covered
      · exact .inl stopping
      · exact allowed.imp_right fun ahead => covered.defer ahead path
    exact deferred.pointPhase here _
  case h_10 =>
    obtain rfl := Option.some.inj taken
    split
    · rename_i stopping
      exact .inl stopping
    · exact tended.pointReturn here _
  case h_11 => cases taken

/-- An update that has not taken the queue goes on to its next access. -/
theorem Tended.updatePhase (tended : s.Tended) {thread : Thread} {before phase : UpdatePhase}
    (here : s.threads thread = .update before)
    (awaits : (ThreadPhase.update before).AwaitsDrain → (ThreadPhase.update phase).AwaitsDrain) :
    (s.setPhase thread (.update phase)).Tended := by
  refine tended.setPhase thread (fun waits => awaits (here ▸ waits)) (fun listed member => ?_)
  rw [here] at member
  cases member

/-- The queue is taken: what was deferred is to be replayed. -/
theorem Covered.take (covered : s.Covered) {thread : Thread} {phase : UpdatePhase}
    (here : s.threads thread = .update phase) {paths : List Path}
    (taken : paths.Perm s.deferredPaths) :
    (s.clear.setPhase thread (.replaying paths)).Covered where
  ahead deferred := absurd rfl deferred
  kept path owed := by
    refine .inr ?_
    rcases covered.kept path owed with queued | ⟨other, listed⟩
    · refine ⟨thread, ?_⟩
      rw [threads_setPhase, if_pos rfl]
      exact taken.mem_iff.mpr queued
    · refine ⟨other, ?_⟩
      rw [threads_setPhase]
      split
      · rename_i same
        rw [same, here] at listed
        cases listed
      · exact listed

theorem Tended.updateStep {after : Maintenance Thread} (tended : s.Tended) {thread : Thread}
    {phase : UpdatePhase} {choice : Choice} (here : s.threads thread = .update phase)
    (taken : s.updateStep thread phase choice = some after) : after.Tended := by
  unfold Maintenance.updateStep at taken
  split at taken
  case h_1 =>
    obtain rfl := Option.some.inj taken
    refine tended.setPhase thread (fun waits => ?_) (fun listed member => ?_)
    · exact (here ▸ waits : ThreadPhase.AwaitsDrain (.update .entered)).elim
    · rw [here] at member
      cases member
  case h_2 =>
    split at taken
    · cases taken
    · obtain rfl := Option.some.inj taken
      have acquired : ({ s with updateLocked := true } : Maintenance Thread).Tended :=
        tended.imp_right fun covered => ⟨covered.ahead, covered.kept⟩
      exact acquired.updatePhase here id
  case h_3 =>
    split at taken
    · obtain rfl := Option.some.inj taken
      exact tended.updatePhase here id
    · cases taken
  case h_4 =>
    obtain rfl := Option.some.inj taken
    split
    · exact tended.updatePhase here id
    · have working : ({ s with work := true } : Maintenance Thread).Tended :=
        tended.imp_right fun covered => ⟨covered.ahead, covered.kept⟩
      exact working.updatePhase here id
  case h_5 failed =>
    obtain rfl := Option.some.inj taken
    have ended : ({ s with
        work := false
        storageFailure := s.storageFailure || failed } : Maintenance Thread).Tended :=
      tended.imp_right fun covered => ⟨covered.ahead, covered.kept⟩
    exact ended.updatePhase here id
  case h_6 =>
    obtain rfl := Option.some.inj taken
    have released : ({ s with updateLocked := false } : Maintenance Thread).Tended :=
      tended.imp_right fun covered => ⟨covered.ahead, covered.kept⟩
    exact released.updatePhase here id
  case h_7 =>
    obtain rfl := Option.some.inj taken
    split
    · rename_i stopping
      exact .inl stopping
    · exact tended.updatePhase here id
  case h_8 paths =>
    split at taken
    · rename_i perm
      obtain rfl := Option.some.inj taken
      exact tended.imp_right fun covered => covered.take here perm
    · cases taken
  case h_9 => cases taken

/-- A taken path is handed to a new point call. -/
theorem Covered.replay (covered : s.Covered) {thread : Thread} {path : Path} {rest : List Path}
    (here : s.threads thread = .replaying (path :: rest)) (kind : PointKind) :
    ({ s with unreplayed := s.unreplayed.filter fun other => decide (other ≠ path) }.setPhase thread
      (.point kind path .entered (some rest))).Covered where
  ahead deferred := by
    refine (covered.ahead deferred).setPhase thread (fun waits => ?_)
    exact (here ▸ waits : ThreadPhase.AwaitsDrain (.replaying (path :: rest))).elim
  kept other owed := by
    obtain ⟨owed, differs⟩ := List.mem_filter.mp owed
    refine (covered.kept other owed).imp_right fun ⟨holder, listed⟩ => ⟨holder, ?_⟩
    rw [threads_setPhase]
    split
    · rename_i same
      rw [same, here] at listed
      exact (List.mem_cons.mp listed).resolve_left (of_decide_eq_true differs)
    · exact listed

theorem Tended.replayStep {after : Maintenance Thread} (tended : s.Tended) {thread : Thread}
    {rest : List Path} {choice : Choice} (here : s.threads thread = .replaying rest)
    (taken : s.replayStep thread rest choice = some after) : after.Tended := by
  unfold Maintenance.replayStep at taken
  split at taken
  case h_1 =>
    obtain rfl := Option.some.inj taken
    refine tended.setPhase thread (fun waits => ?_) (fun listed member => ?_)
    · exact (here ▸ waits : ThreadPhase.AwaitsDrain (.replaying [])).elim
    · rw [here] at member
      cases member
  case h_2 path rest regular =>
    obtain rfl := Option.some.inj taken
    split
    · rename_i stopping
      exact .inl stopping
    · exact tended.imp_right fun covered => covered.replay here _
  case h_3 => cases taken

omit [DecidableEq Thread] in
/-- The compaction task touches neither the queue nor a drain. -/
theorem Tended.strandStep {after : Maintenance Thread} (tended : s.Tended)
    (taken : s.strandStep = some after) : after.Tended := by
  have same : after.stopping = s.stopping ∧ after.deferredPaths = s.deferredPaths ∧
      after.unreplayed = s.unreplayed ∧ after.threads = s.threads := by
    unfold Maintenance.strandStep at taken
    split at taken
    · split at taken
      · cases taken
      · obtain rfl := Option.some.inj taken
        exact ⟨rfl, rfl, rfl, rfl⟩
    all_goals
      obtain rfl := Option.some.inj taken
      first
      | exact ⟨rfl, rfl, rfl, rfl⟩
      | split <;> exact ⟨rfl, rfl, rfl, rfl⟩
  obtain ⟨stopping, deferredPaths, unreplayed, threads⟩ := same
  refine tended.imp stopping.trans fun covered => ⟨fun deferred => ?_, fun path owed => ?_⟩
  · rw [deferredPaths] at deferred
    rw [DrainAhead, threads]
    exact covered.ahead deferred
  · rw [unreplayed] at owed
    rw [deferredPaths, threads]
    exact covered.kept path owed

/-- Every action that meets the condition keeps the invariant. -/
theorem Tended.step {after : Maintenance Thread} (tended : s.Tended) {action : Action Thread}
    (allowed : s.ReplayAhead action) (taken : s.step action = some after) : after.Tended := by
  cases action with
  | enqueueFile thread kind path =>
      simp only [Maintenance.step] at taken
      split at taken
      · rename_i idle
        obtain rfl := Option.some.inj taken
        refine tended.setPhase thread (fun waits => ?_) (fun listed member => ?_)
        · exact (idle ▸ waits : ThreadPhase.AwaitsDrain .idle).elim
        · rw [idle] at member
          cases member
      · cases taken
  | updateDocumentBase thread =>
      simp only [Maintenance.step] at taken
      split at taken
      · rename_i idle
        obtain rfl := Option.some.inj taken
        refine tended.setPhase thread (fun waits => ?_) (fun listed member => ?_)
        · exact (idle ▸ waits : ThreadPhase.AwaitsDrain .idle).elim
        · rw [idle] at member
          cases member
      · cases taken
  | compact =>
      obtain rfl := Option.some.inj taken
      exact tended.imp_right fun covered => ⟨covered.ahead, covered.kept⟩
  | advance thread choice =>
      change s.advance thread choice = some after at taken
      change s.PhaseAllowed (s.threads thread) choice at allowed
      rw [Maintenance.advance] at taken
      cases here : s.threads thread with
      | idle =>
          rw [here] at taken
          cases taken
      | point kind path phase drain =>
          rw [here] at taken allowed
          exact tended.pointStep here allowed taken
      | update phase =>
          rw [here] at taken
          exact tended.updateStep here taken
      | replaying rest =>
          rw [here] at taken
          exact tended.replayStep here taken
  | strand => exact tended.strandStep taken
  | finishTask =>
      simp only [Maintenance.step] at taken
      split at taken
      · cases taken
      · obtain rfl := Option.some.inj taken
        exact tended.imp_right fun covered => ⟨covered.ahead, covered.kept⟩
  | recordStorageFailure =>
      obtain rfl := Option.some.inj taken
      exact tended.imp_right fun covered => ⟨covered.ahead, covered.kept⟩
  | stop =>
      obtain rfl := Option.some.inj taken
      exact .inl rfl
  | clearDeferred =>
      simp only [Maintenance.step] at taken
      split at taken
      · rename_i stopping
        obtain rfl := Option.some.inj taken
        exact .inl stopping
      · cases taken

omit [DecidableEq Thread] in
/-- At rest the invariant leaves nothing deferred. -/
theorem Tended.noEventLost (tended : s.Tended) : s.NoEventLost := by
  rintro ⟨running, -, idle⟩
  have covered : s.Covered :=
    tended.resolve_left fun stopping => Bool.false_ne_true (running.symm.trans stopping)
  have empty : s.deferredPaths = [] := by
    by_contra deferred
    obtain ⟨thread, waits⟩ := covered.ahead deferred
    exact (idle thread ▸ waits : ThreadPhase.AwaitsDrain .idle)
  refine ⟨empty, List.eq_nil_iff_forall_not_mem.mpr fun path owed => ?_⟩
  rcases covered.kept path owed with queued | ⟨thread, listed⟩
  · rw [empty] at queued
    cases queued
  · rw [idle thread] at listed
    cases listed

/-! ## When no event is lost -/

/-- In a run whose deferrals all have a drain ahead of them, and whose drains are
not cut short by a throwing replay, no deferred event is lost. -/
theorem noEventLost_of_replayAhead {schedule : List (Action Thread)} {final : Maintenance Thread}
    (conforms : (machine Thread).Conforms ReplayAhead (start Thread) schedule)
    (done : (machine Thread).run (start Thread) schedule = some final) : final.NoEventLost := by
  have initial : (start Thread).Tended :=
    .inr ⟨fun deferred => absurd rfl deferred, fun _ owed => by cases owed⟩
  have kept : ∀ (before : Maintenance Thread) action next, before.Tended →
      before.ReplayAhead action → (machine Thread).step before action = some next → next.Tended :=
    fun _ _ _ tended allowed taken => tended.step allowed taken
  exact (Machine.invariant_run kept initial conforms done).noEventLost

/-- A file event is deferred by a running update, which replays it. -/
def deferredByUpdate : List (Action Bool) :=
  [.updateDocumentBase false, .advance false .proceed, .advance false .proceed,
   .enqueueFile true .fileUpdate ['a'], .advance true .proceed, .advance true .proceed,
   .advance true .proceed,
   .advance false .proceed, .advance false .proceed,
   .advance true .proceed, .advance true .proceed, .advance true .proceed,
   .advance false (.updated false), .advance false .proceed, .advance false .proceed,
   .advance false (.take [['a']]), .advance false (.replay true),
   .advance false .proceed, .advance false .proceed, .advance false .proceed,
   .advance false .proceed, .advance false (.body .posted), .advance false .proceed]

theorem noEventLost_of_replayAhead_deferredByUpdate :
    ∃ final, (machine Bool).run (start Bool) deferredByUpdate = some final ∧ final.Quiescent ∧
      final.tracked = 1 ∧ final.NoEventLost := by
  have ends : ((machine Bool).run (start Bool) deferredByUpdate).map (fun final =>
      (decide final.Quiescent, final.tracked)) = some (true, 1) := by
    decide +kernel
  obtain ⟨final, done, seen⟩ := Option.map_eq_some_iff.mp ends
  exact ⟨final, done, of_decide_eq_true (congrArg Prod.fst seen), congrArg Prod.snd seen,
    noEventLost_of_replayAhead (by decide +kernel) done⟩

/-- A file event meets a compaction, which never takes the queue. -/
def deferredByCompaction : List (Action Bool) :=
  [.compact, .strand, .strand, .strand, .strand,
   .enqueueFile true .fileUpdate ['a'], .advance true .proceed, .advance true .proceed,
   .advance true .proceed, .advance true .proceed, .advance true .proceed, .advance true .proceed,
   .strand]

/-- A file event is refused by a running update and inserted after its drain. -/
def deferredBehindDrain : List (Action Bool) :=
  [.updateDocumentBase false, .advance false .proceed, .advance false .proceed,
   .enqueueFile true .fileUpdate ['a'], .advance true .proceed, .advance true .proceed,
   .advance true .proceed,
   .advance false .proceed, .advance false .proceed, .advance false (.updated false),
   .advance false .proceed, .advance false .proceed, .advance false (.take []),
   .advance false .proceed,
   .advance true .proceed, .advance true .proceed, .advance true .proceed]

/-- Both runs end at rest with the path still deferred. -/
theorem not_noEventLost_deferred :
    (∃ final, (machine Bool).run (start Bool) deferredByCompaction = some final ∧
      final.Quiescent ∧ final.deferredPaths = [['a']] ∧ ¬ final.NoEventLost) ∧
    ∃ final, (machine Bool).run (start Bool) deferredBehindDrain = some final ∧
      final.Quiescent ∧ final.deferredPaths = [['a']] ∧ ¬ final.NoEventLost := by
  have ends : ∀ schedule ∈ [deferredByCompaction, deferredBehindDrain],
      ((machine Bool).run (start Bool) schedule).map (fun final =>
        (decide final.Quiescent, final.deferredPaths)) = some (true, [['a']]) := by
    decide +kernel
  have lost : ∀ schedule ∈ [deferredByCompaction, deferredBehindDrain],
      ∃ final, (machine Bool).run (start Bool) schedule = some final ∧
        final.Quiescent ∧ final.deferredPaths = [['a']] ∧ ¬ final.NoEventLost := by
    intro schedule listed
    obtain ⟨final, done, seen⟩ := Option.map_eq_some_iff.mp (ends schedule listed)
    have rests : final.Quiescent := of_decide_eq_true (congrArg Prod.fst seen)
    have waiting : final.deferredPaths = [['a']] := congrArg Prod.snd seen
    refine ⟨final, done, rests, waiting, fun kept => ?_⟩
    have empty := (kept rests).1
    rw [waiting] at empty
    cases empty
  exact ⟨lost _ (by simp), lost _ (by simp)⟩

end Maintenance

end SearchEngine.Index
