import Mathlib.Data.List.Count
import SearchEngine.Watcher.FileEventDispatcher

/-!
# Commands that throw

A flush swaps the queue of hashes into a local one and takes the entries out one
by one. A command that throws ends its flush, and the local queue is gone with
it. Every entry of the map is marked queued and counted once among the hashes in
flight; so the loss strands an entry exactly if a hash is left in the local queue.
-/

namespace SearchEngine.Watcher

open SearchEngine.Lib

/-- A step of the dispatcher, or the command that a flush executes throws. -/
inductive ThrowingAction where
  | act (action : Action)
  | throws (flush : Nat)
deriving DecidableEq

/-- The exception leaves `flushPending`; the scheduler swallows it. -/
def System.throws (config : Config) (flush : Nat) (s : System) : Option System :=
  match s.flushes[flush]? with
  | some (.dispatching evt _ _) =>
      if config.registered (commandOf evt) then
        some { s with flushes := s.flushes.set flush (.draining []) }
      else none
  | _ => none

/-- A dispatcher that is not stopped, and whose commands may throw. -/
def throwingMachine (config : Config) : Machine System ThrowingAction where
  step s
    | .act .stopAll => none
    | .act action => (machine config).step s action
    | .throws flush => s.throws config flush

/-- The hashes that some flush will look up: those in the queue and those in the
local queues of the flushes under way. -/
def System.inFlight (s : System) : List UInt64 := s.dispatcher.pendingQ ++ s.flushes.flatMap Flush.rest

/-- No flush is in progress. -/
def System.Idle (s : System) : Prop := ∀ flush ∈ s.flushes, flush = .draining []

/-- Every entry marked queued is found by exactly one flush to come or under way;
with no flush in progress its hash is once in the queue, and the next flush whose
commands return dispatches every entry. -/
structure System.NothingStranded (config : Config) (s : System) : Prop where
  once : ∀ h st, s.dispatcher.evtMap h = some st → st.queued = true → s.inFlight.count h = 1
  pending : s.Idle → ∀ h st, s.dispatcher.evtMap h = some st → st.queued = true →
    s.dispatcher.pendingQ.count h = 1
  dispatched : s.Idle → ∃ advances final,
    (throwingMachine config).run s (.act .startFlush :: List.replicate advances (.act (.advance s.flushes.length))) =
      some final ∧
    ∀ h st, s.dispatcher.evtMap h = some st → st.queued = true →
      .dispatched (commandOf st.evt) st.path ∈ final.trace

/-- A command throws only when its flush has no hash left. -/
def System.LosesNothing (config : Config) (s : System) : ThrowingAction → Prop
  | .throws flush => ∀ held ∈ s.flushes[flush]?, held.rest = [] ∨ s.throws config flush = none
  | .act _ => True

/-! ## The hashes in flight -/

variable {config : Config} {s next : System}

/-- What replacing one flush does to the count of a hash. -/
theorem count_flatMap_set {flushes : List Flush} {flush : Nat} {old : Flush}
    (standing : flushes[flush]? = some old) (new : Flush) (h : UInt64) :
    ((flushes.set flush new).flatMap Flush.rest).count h + old.rest.count h =
      (flushes.flatMap Flush.rest).count h + new.rest.count h := by
  induction flushes generalizing flush with
  | nil => cases standing
  | cons first flushes ih =>
      cases flush with
      | zero =>
          obtain rfl := Option.some.inj standing
          simp only [List.set_cons_zero, List.flatMap_cons, List.count_append]
          omega
      | succ flush =>
          have rest := ih standing
          simp only [List.set_cons_succ, List.flatMap_cons, List.count_append]
          omega

/-- Every entry is queued and counted once; no other hash is in flight. -/
structure System.Accounted (s : System) : Prop where
  running : s.dispatcher.stopping = false
  queued : ∀ h st, s.dispatcher.evtMap h = some st → st.queued = true
  counted : ∀ h, s.inFlight.count h = if (s.dispatcher.evtMap h).isSome then 1 else 0

theorem accounted_start : System.start.Accounted := ⟨rfl, fun _ _ found => (by cases found), fun _ => rfl⟩

/-- A push where nothing waits under the hash. -/
theorem pushFileEvent_of_none {d : FileEventDispatcher} {evt : FileEvent} {path : WString}
    (running : d.stopping = false) (accepted : config.shouldAcceptFileEvent evt path = true)
    (missing : d.evtMap (config.hash path) = none) :
    d.pushFileEvent config evt path =
      { d with
        evtMap := Function.update d.evtMap (config.hash path) (some ⟨evt, path, true⟩)
        pendingQ := d.pendingQ ++ [config.hash path] } := by
  simp [FileEventDispatcher.pushFileEvent, running, accepted, missing]

/-- A push where an entry waits. -/
theorem pushFileEvent_of_queued {d : FileEventDispatcher} {evt : FileEvent} {path : WString} {st : EventState}
    (running : d.stopping = false) (accepted : config.shouldAcceptFileEvent evt path = true)
    (found : d.evtMap (config.hash path) = some st) (queued : st.queued = true) :
    d.pushFileEvent config evt path =
      { d with
        evtMap := Function.update d.evtMap (config.hash path) (some ⟨merge2 st.evt evt, path, true⟩) } := by
  simp [FileEventDispatcher.pushFileEvent, running, accepted, found, queued]

/-- An entry that appears or changes under a hash is queued. -/
theorem queued_update {evtMap : UInt64 → Option EventState} {key : UInt64} {evt : FileEvent} {path : WString}
    (queued : ∀ h st, evtMap h = some st → st.queued = true) :
    ∀ h st, Function.update evtMap key (some ⟨evt, path, true⟩) h = some st → st.queued = true := by
  intro h st found
  by_cases here : h = key
  · subst here
    rw [Function.update_self] at found
    obtain rfl := Option.some.inj found
    rfl
  · rw [Function.update_of_ne here] at found
    exact queued h st found

/-- A push adds the hash where there was no entry. -/
theorem System.Accounted.push (accounted : s.Accounted) (evt : FileEvent) (path : WString) :
    (s.push config evt path).Accounted := by
  obtain ⟨running, queued, counted⟩ := accounted
  by_cases accepted : config.shouldAcceptFileEvent evt path = true
  · rw [System.push]
    cases there : s.dispatcher.evtMap (config.hash path) with
    | none =>
        rw [pushFileEvent_of_none running accepted there]
        refine ⟨running, queued_update queued, fun h => ?_⟩
        have before := counted h
        simp only [System.inFlight, List.count_append] at before ⊢
        by_cases here : h = config.hash path
        · subst here
          rw [there] at before
          simp at before ⊢
          omega
        · simp only [here, Function.update_of_ne, ne_eq, not_false_eq_true, ← before]
          simp [Ne.symm here]
    | some st =>
        rw [pushFileEvent_of_queued running accepted there (queued _ _ there)]
        refine ⟨running, queued_update queued, fun h => ?_⟩
        have before := counted h
        simp only [System.inFlight] at before ⊢
        by_cases here : h = config.hash path
        · subst here
          rw [before]
          simp [there]
        · rw [before]
          simp [here]
  · have same : s.push config evt path = s := by
      simp [System.push, FileEventDispatcher.pushFileEvent, running, accepted]
    rw [same]
    exact ⟨running, queued, counted⟩

theorem System.Accounted.startFlush (accounted : s.Accounted) : s.startFlush.Accounted := by
  obtain ⟨running, queued, counted⟩ := accounted
  rw [System.startFlush, if_neg (by simp [running])]
  refine ⟨running, queued, fun h => (counted h).symm ▸ ?_⟩
  rw [System.inFlight, System.inFlight]
  simp [Flush.rest, Nat.add_comm]

/-- A step of a flush looks up the hash that it takes out of flight. -/
theorem System.Accounted.advance (accounted : s.Accounted) {flush : Nat}
    (stepped : s.advance config flush = some next) : next.Accounted := by
  obtain ⟨running, queued, counted⟩ := accounted
  simp only [System.advance, running, Bool.false_eq_true, if_false] at stepped
  split at stepped
  case h_1 | h_2 => cases stepped
  case h_3 h rest standing =>
    split at stepped
    case h_1 missing =>
      have present := counted h
      have moved := count_flatMap_set standing (.draining rest) h
      rw [System.inFlight, List.count_append, missing] at present
      simp [Flush.rest] at moved present
      omega
    case h_2 st found =>
      obtain rfl := Option.some.inj stepped
      refine ⟨running, fun k other there => ?_, fun k => ?_⟩
      · by_cases here : k = h
        · subst here
          simp [FileEventDispatcher.erase] at there
        · refine queued k other ?_
          simpa [FileEventDispatcher.erase, here] using there
      · have before := counted k
        have moved := count_flatMap_set standing (.dispatching st.evt st.path rest) k
        rw [System.inFlight, List.count_append] at before ⊢
        by_cases here : k = h
        · subst here
          simp [Flush.rest, FileEventDispatcher.erase, found] at before moved ⊢
          omega
        · simp [Flush.rest, FileEventDispatcher.erase, here, Ne.symm here] at before moved ⊢
          omega
  case h_4 evt path rest standing =>
    obtain rfl := Option.some.inj stepped
    refine ⟨running, queued, fun k => ?_⟩
    have before := counted k
    have moved : _ + rest.count k = _ + rest.count k := count_flatMap_set standing (.draining rest) k
    rw [System.inFlight, List.count_append] at before ⊢
    change s.dispatcher.pendingQ.count k + ((s.flushes.set flush (.draining rest)).flatMap Flush.rest).count k =
      if (s.dispatcher.evtMap k).isSome then 1 else 0
    omega

/-- An exception that loses nothing keeps the account. -/
theorem System.Accounted.throws (accounted : s.Accounted) {flush : Nat}
    (allowed : s.LosesNothing config (.throws flush)) (stepped : s.throws config flush = some next) :
    next.Accounted := by
  have losesNothing := allowed
  rw [System.throws] at stepped
  split at stepped
  case h_2 => cases stepped
  case h_1 evt path rest standing =>
    split at stepped
    case isFalse => cases stepped
    case isTrue registered =>
      have empty : rest = [] := by
        rcases losesNothing _ standing with empty | disabled
        · exact empty
        · simp [System.throws, standing, registered] at disabled
      obtain rfl := Option.some.inj stepped
      refine ⟨accounted.running, accounted.queued, fun k => ?_⟩
      have before := accounted.counted k
      have moved := count_flatMap_set standing (.draining []) k
      rw [System.inFlight, List.count_append] at before ⊢
      simp only [Flush.rest, empty, List.count_nil, Nat.add_zero] at moved
      change _ + _ = if (s.dispatcher.evtMap k).isSome then 1 else 0
      rw [moved]
      exact before

theorem System.Accounted.step (accounted : s.Accounted) {action : ThrowingAction}
    (allowed : s.LosesNothing config action) (stepped : (throwingMachine config).step s action = some next) :
    next.Accounted := by
  cases action with
  | throws flush => exact accounted.throws allowed stepped
  | act action =>
      cases action with
      | push evt path =>
          obtain rfl := Option.some.inj stepped
          exact accounted.push evt path
      | startFlush =>
          obtain rfl := Option.some.inj stepped
          exact accounted.startFlush
      | advance flush => exact accounted.advance stepped
      | stopAll => cases stepped

/-! ## A flush whose commands return -/

/-- Such a flush dispatches the entry of every hash in its local queue. -/
theorem exists_run_draining {flush : Nat} {keys : List UInt64} (running : s.dispatcher.stopping = false)
    (standing : s.flushes[flush]? = some (.draining keys)) (distinct : keys.Nodup)
    (known : ∀ h ∈ keys, (s.dispatcher.evtMap h).isSome) :
    ∃ advances final, (throwingMachine config).run s (List.replicate advances (.act (.advance flush))) =
        some final ∧
      (∀ happening ∈ s.trace, happening ∈ final.trace) ∧
      ∀ h ∈ keys, ∀ st, s.dispatcher.evtMap h = some st →
        .dispatched (commandOf st.evt) st.path ∈ final.trace := by
  induction keys generalizing s with
  | nil => exact ⟨0, s, rfl, fun _ there => there, fun _ wrong => absurd wrong List.not_mem_nil⟩
  | cons h keys ih =>
      obtain ⟨st, found⟩ := Option.isSome_iff_exists.mp (known h List.mem_cons_self)
      obtain ⟨notLater, distinctRest⟩ := List.nodup_cons.mp distinct
      have bound : flush < s.flushes.length := (List.getElem?_eq_some_iff.mp standing).1
      let taken : System :=
        { dispatcher := s.dispatcher.erase h
          flushes := s.flushes.set flush (.dispatching st.evt st.path keys)
          trace := .dispatched (commandOf st.evt) st.path :: s.trace }
      let returned : System :=
        { taken with
          flushes := taken.flushes.set flush (.draining keys)
          trace :=
            if config.registered (commandOf st.evt) then .executed (commandOf st.evt) st.path :: taken.trace
            else taken.trace }
      have takes : (throwingMachine config).step s (.act (.advance flush)) = some taken := by
        simp [throwingMachine, machine, System.advance, standing, running, found, taken]
      have holds : taken.flushes[flush]? = some (.dispatching st.evt st.path keys) := by
        simp [taken, bound]
      have executes : (throwingMachine config).step taken (.act (.advance flush)) = some returned := by
        simp [throwingMachine, machine, System.advance, holds, returned]
      have stands : returned.flushes[flush]? = some (.draining keys) := by
        simp [returned, taken, bound]
      have recorded : ∀ happening ∈ taken.trace, happening ∈ returned.trace := by
        intro happening there
        by_cases registered : config.registered (commandOf st.evt)
        · simp [returned, registered, there]
        · simp [returned, registered, there]
      have others : ∀ k, k ≠ h → returned.dispatcher.evtMap k = s.dispatcher.evtMap k := by
        intro k other
        simp [returned, taken, FileEventDispatcher.erase, other]
      have still : returned.dispatcher.stopping = false := running
      obtain ⟨advances, final, ran, kept, reached⟩ := ih still stands distinctRest fun k later => by
        rw [others k (fun same => notLater (same ▸ later))]
        exact known k (List.mem_cons_of_mem _ later)
      refine ⟨advances + 2, final, ?_, fun happening there => ?_, fun k member other there => ?_⟩
      · rw [List.replicate_succ, List.replicate_succ, Machine.run, takes, Option.bind_some, Machine.run, executes]
        exact ran
      · exact kept _ (recorded _ (List.mem_cons_of_mem _ there))
      · rcases List.mem_cons.mp member with rfl | later
        · obtain rfl := Option.some.inj (found.symm.trans there)
          exact kept _ (recorded _ List.mem_cons_self)
        · refine reached k later other ?_
          rw [others k fun same => notLater (same ▸ later)]
          exact there

/-- Nothing is stranded where everything is accounted for. -/
theorem System.Accounted.nothingStranded (accounted : s.Accounted) : s.NothingStranded config := by
  have pendingOnly : s.Idle → s.inFlight = s.dispatcher.pendingQ := by
    intro idle
    have none : s.flushes.flatMap Flush.rest = [] := by
      rw [List.flatMap_eq_nil_iff]
      intro flush member
      rw [idle flush member]
      rfl
    rw [System.inFlight, none, List.append_nil]
  have once : ∀ h st, s.dispatcher.evtMap h = some st → s.inFlight.count h = 1 := by
    intro h st found
    rw [accounted.counted, found]
    rfl
  refine ⟨fun h st found _ => once h st found, fun idle h st found _ => ?_, fun idle => ?_⟩
  · rw [← pendingOnly idle]
    exact once h st found
  · have atMostOnce : ∀ h, s.inFlight.count h ≤ 1 := by
      intro h
      rw [accounted.counted]
      split <;> omega
    have started : (throwingMachine config).step s (.act .startFlush) = some s.startFlush := rfl
    have flushing : s.startFlush =
        { s with
          dispatcher := { s.dispatcher with pendingQ := [] }
          flushes := s.flushes ++ [.draining s.dispatcher.pendingQ] } := by
      rw [System.startFlush, if_neg (by simp [accounted.running])]
    have standing : s.startFlush.flushes[s.flushes.length]? = some (.draining s.dispatcher.pendingQ) := by
      rw [flushing]
      simp
    have distinct : s.dispatcher.pendingQ.Nodup := by
      rw [← pendingOnly idle]
      exact List.nodup_iff_count_le_one.mpr atMostOnce
    have known : ∀ h ∈ s.dispatcher.pendingQ, (s.startFlush.dispatcher.evtMap h).isSome := by
      intro h member
      rw [flushing]
      have counted := accounted.counted h
      rw [pendingOnly idle] at counted
      have positive : 0 < s.dispatcher.pendingQ.count h := List.count_pos_iff.mpr member
      by_contra missing
      rw [if_neg missing] at counted
      omega
    obtain ⟨advances, final, ran, _, reached⟩ :=
      @exists_run_draining config _ _ _ accounted.startFlush.running standing distinct known
    refine ⟨advances, final, ?_, fun h st found _ => ?_⟩
    · rw [Machine.run, started, Option.bind_some]
      exact ran
    · have waits : h ∈ s.dispatcher.pendingQ := by
        rw [← pendingOnly idle]
        exact List.count_pos_iff.mp (by rw [once h st found]; exact Nat.one_pos)
      refine reached h waits st ?_
      rw [flushing]
      exact found

/-- A hash that is lost with its local queue strands its entry. -/
theorem System.Accounted.stranded_of_throws (accounted : s.Accounted) {action : ThrowingAction}
    (loses : ¬ s.LosesNothing config action) :
    ∃ next, (throwingMachine config).step s action = some next ∧ ¬ next.NothingStranded config := by
  cases action with
  | act action => exact absurd trivial loses
  | throws flush =>
      simp only [System.LosesNothing, not_forall, not_or] at loses
      obtain ⟨held, standing, left, enabled⟩ := loses
      obtain ⟨after, threw⟩ := Option.ne_none_iff_exists'.mp enabled
      refine ⟨after, threw, fun fine => ?_⟩
      rw [System.throws] at threw
      split at threw
      case h_2 => cases threw
      case h_1 evt path rest there =>
        split at threw
        case isFalse => cases threw
        case isTrue =>
          obtain rfl := Option.some.inj threw
          obtain rfl := Option.some.inj (there.symm.trans standing)
          obtain ⟨h, keys, keys_eq⟩ := List.exists_cons_of_ne_nil left
          have before := accounted.counted h
          have moved := count_flatMap_set standing (.draining []) h
          rw [System.inFlight, List.count_append] at before
          simp only [Flush.rest] at moved keys_eq
          rw [keys_eq] at moved
          simp only [List.count_cons_self, List.count_nil] at moved
          split at before
          case isTrue present =>
            obtain ⟨st, found⟩ := Option.isSome_iff_exists.mp present
            have once := fine.once h st found (accounted.queued h st found)
            rw [System.inFlight, List.count_append] at once
            simp only at once
            omega
          case isFalse => omega

/-- In a run of a dispatcher that is not stopped, nothing is stranded in any state
exactly if no command throws while its flush has hashes left. -/
theorem nothingStranded_iff_losesNothing (config : Config) (steps : List ThrowingAction) :
    (throwingMachine config).Throughout (System.NothingStranded config) System.start steps ↔
      (throwingMachine config).Conforms (System.LosesNothing config) System.start steps :=
  Machine.throughout_iff_conforms (fun _ accounted => accounted.nothingStranded)
    (fun _ _ _ accounted allowed stepped => accounted.step allowed stepped)
    (fun _ _ accounted loses => accounted.stranded_of_throws loses) accounted_start

/-- A dispatcher that accepts every path and hashes it by its length. -/
def byLength : Config where
  hash path := UInt64.ofNat path.length
  matchesConfiguredExtension _ := true
  isPathExcluded _ := false
  registered _ := true

/-- Two files are added; the command of the first throws. The entry of the second
stays marked queued, and its hash is in no queue. -/
theorem not_nothingStranded_secondPath :
    ¬ ∀ (config : Config) (steps : List ThrowingAction) (final : System),
      (throwingMachine config).run System.start steps = some final → final.NothingStranded config := by
  intro claim
  have outcome : ((throwingMachine byLength).run System.start
      [.act (.push .added [65]), .act (.push .added [65, 66]), .act .startFlush, .act (.advance 0), .throws 0]).map
        (fun final => (final.inFlight, final.dispatcher.evtMap 2)) =
          some ([], some ⟨.added, [65, 66], true⟩) := by
    decide +kernel
  obtain ⟨final, done, seen⟩ := Option.map_eq_some_iff.mp outcome
  obtain ⟨nothing, found⟩ := Prod.mk.inj seen
  have once := (claim _ _ final done).once _ _ found rfl
  rw [nothing] at once
  cases once

end SearchEngine.Watcher
