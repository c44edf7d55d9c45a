import Mathlib.Data.List.Infix
import SearchEngine.Watcher.FileEventDispatcher

/-!
# The last event of a path

While no two paths meet under one hash, no event revives an entry that is marked
removed and no two flushes hold commands of one path, the command executed last
for a path is the one of its last accepted event.
-/

namespace SearchEngine.Watcher

variable {config : Config} {s next : System}

/-! ## The property and its condition -/

/-- Commands follow events: one command for each batch of events of a path, in
order, and nothing left undone once every entry is flushed. -/
structure System.LastEventWins (s : System) : Prop where
  wins : s.Drained → ∀ path evt, (PathView.of path s.trace).lastAccepted = some evt →
    (PathView.of path s.trace).lastExecuted = some (commandOf evt)
  follows : ∀ earlier command path, .dispatched command path :: earlier <:+ s.trace →
    (PathView.of path earlier).fresh = true
  executes : ∀ earlier command path, .executed command path :: earlier <:+ s.trace →
    (PathView.of path earlier).owed = some command

/-- A push leaves what waits for every other path as it is. -/
def System.KeepsOthers (config : Config) (s : System) (action : Action) : Prop :=
  ∀ evt path next, action = .push evt path → (machine config).step s action = some next →
    ∀ other, other ≠ path → next.pendingOf config other = s.pendingOf config other

/-- The entry that the next step of a flush takes. -/
def System.taking (s : System) (flush : Nat) : Option EventState :=
  match s.flushes[flush]? with
  | some (.draining (h :: _)) => s.dispatcher.evtMap h
  | _ => none

/-- An accepted push meets no entry of another path, and no entry marked removed
unless it removes again; an entry is taken when its command is registered and
no flush still holds a command of its path. -/
def System.Separate (config : Config) (s : System) : Action → Prop
  | .push evt path => config.shouldAcceptFileEvent evt path = true →
      ∀ st ∈ s.dispatcher.evtMap (config.hash path),
        st.path = path ∧ (st.evt = .removed → commandOf evt = .removed)
  | .advance flush => ∀ st ∈ s.taking flush,
      config.registered (commandOf st.evt) = true ∧
        ∀ other ∈ s.flushes, other.holds ≠ some st.path
  | .startFlush | .stopAll => True

instance (config : Config) (s : System) (action : Action) :
    Decidable (s.Separate config action) :=
  match action with
  | .push _ _ => inferInstanceAs (Decidable (_ → _))
  | .advance _ => inferInstanceAs (Decidable (∀ _ ∈ _, _))
  | .startFlush | .stopAll => inferInstanceAs (Decidable True)

/-- The dispatcher is not stopped and the step is separate. -/
def System.Undisturbed (config : Config) (s : System) (action : Action) : Prop :=
  action ≠ .stopAll ∧ s.Separate config action

instance (config : Config) (s : System) (action : Action) :
    Decidable (s.Undisturbed config action) :=
  inferInstanceAs (Decidable (_ ∧ _))

/-! ## What one step can do -/

/-- The merge table keeps the command of the newer event, except that an entry
marked removed is never revived. -/
theorem commandOf_merge2 {old neu : FileEvent} (kept : old = .removed → commandOf neu = .removed) :
    commandOf (merge2 old neu) = commandOf neu := by
  cases old <;> cases neu <;> simp_all [merge2, commandOf]

@[simp] theorem merge2_removed_added : merge2 .removed .added = .removed := rfl

/-- The entry that an accepted push leaves under the hash of its path. -/
def Config.entryAfter (config : Config) (evt : FileEvent) (path : WString)
    (d : FileEventDispatcher) : EventState where
  evt :=
    match d.evtMap (config.hash path) with
    | some st => if st.queued then merge2 st.evt evt else evt
    | none => evt
  path := path
  queued := true

/-- The ways in which a step of a running dispatcher changes the system. -/
inductive System.Moved (config : Config) (s : System) : Action → System → Prop where
  | refused {evt path} : s.Moved config (.push evt path) s
  | pushed {evt path} {d : FileEventDispatcher}
      (accepted : config.shouldAcceptFileEvent evt path = true)
      (evtMap : d.evtMap = Function.update s.dispatcher.evtMap (config.hash path)
        (some (config.entryAfter evt path s.dispatcher)))
      (running : d.stopping = false)
      (kept : ∀ h ∈ s.dispatcher.pendingQ, h ∈ d.pendingQ)
      (queued : (∀ st ∈ s.dispatcher.evtMap (config.hash path), st.queued = false) →
        config.hash path ∈ d.pendingQ) :
      s.Moved config (.push evt path)
        { dispatcher := d, flushes := s.flushes, trace := .accepted evt path :: s.trace }
  | started : s.Moved config .startFlush
      { s with
        dispatcher := { s.dispatcher with pendingQ := [] }
        flushes := s.flushes ++ [.draining s.dispatcher.pendingQ] }
  | skipped {flush h rest} (standing : s.flushes[flush]? = some (.draining (h :: rest)))
      (missing : s.dispatcher.evtMap h = none) :
      s.Moved config (.advance flush) { s with flushes := s.flushes.set flush (.draining rest) }
  | dispatched {flush h rest st} (standing : s.flushes[flush]? = some (.draining (h :: rest)))
      (found : s.dispatcher.evtMap h = some st) :
      s.Moved config (.advance flush)
        { dispatcher := s.dispatcher.erase h
          flushes := s.flushes.set flush (.dispatching st.evt st.path rest)
          trace := .dispatched (commandOf st.evt) st.path :: s.trace }
  | executed {flush evt path rest}
      (standing : s.flushes[flush]? = some (.dispatching evt path rest)) :
      s.Moved config (.advance flush)
        { s with
          flushes := s.flushes.set flush (.draining rest)
          trace :=
            if config.registered (commandOf evt) then .executed (commandOf evt) path :: s.trace
            else s.trace }

theorem System.moved_push (running : s.dispatcher.stopping = false) (evt : FileEvent)
    (path : WString) : s.Moved config (.push evt path) (s.push config evt path) := by
  by_cases accepted : config.shouldAcceptFileEvent evt path = true
  case neg =>
    have same : s.push config evt path = s := by
      simp [System.push, FileEventDispatcher.pushFileEvent, running, accepted]
    rw [same]
    exact .refused
  case pos =>
    simp only [System.push, running, accepted, Bool.not_true, Bool.or_self, Bool.false_eq_true,
      if_false]
    refine .pushed accepted ?_ ?_ ?_ ?_
    all_goals
      cases found : s.dispatcher.evtMap (config.hash path) with
      | none => simp +contextual [FileEventDispatcher.pushFileEvent, Config.entryAfter, running, accepted, found]
      | some st =>
          cases waiting : st.queued <;>
            simp +contextual [FileEventDispatcher.pushFileEvent, Config.entryAfter, running, accepted, found, waiting]

theorem System.moved_of_step {action : Action} (running : s.dispatcher.stopping = false)
    (undisturbed : action ≠ .stopAll) (stepped : (machine config).step s action = some next) :
    s.Moved config action next := by
  cases action with
  | push evt path =>
      obtain rfl := Option.some.inj stepped
      exact System.moved_push running evt path
  | startFlush =>
      obtain rfl := Option.some.inj stepped
      show s.Moved config .startFlush s.startFlush
      rw [System.startFlush, if_neg (by simp [running])]
      exact .started
  | stopAll => exact absurd rfl undisturbed
  | advance flush =>
      simp only [machine, System.advance, running, Bool.false_eq_true, if_false] at stepped
      split at stepped
      case h_1 | h_2 => cases stepped
      case h_3 h rest standing =>
        split at stepped
        case h_1 missing =>
          obtain rfl := Option.some.inj stepped
          exact .skipped standing missing
        case h_2 st found =>
          obtain rfl := Option.some.inj stepped
          exact .dispatched standing found
      case h_4 evt path rest standing =>
        obtain rfl := Option.some.inj stepped
        exact .executed standing

/-! ## What waits, is held and has been executed -/

@[simp] theorem PathView.next_accepted_self (view : PathView) (evt : FileEvent) (path : WString) :
    view.next path (.accepted evt path) = { view with lastAccepted := some evt, fresh := true } :=
  if_pos rfl

@[simp] theorem PathView.next_dispatched_self (view : PathView) (command : FileEvent)
    (path : WString) :
    view.next path (.dispatched command path) = { view with fresh := false, owed := some command } :=
  if_pos rfl

@[simp] theorem PathView.next_executed_self (view : PathView) (command : FileEvent)
    (path : WString) :
    view.next path (.executed command path) =
      { view with owed := none, lastExecuted := some command } :=
  if_pos rfl

/-- The path that a happening is about. -/
def Happening.path : Happening → WString
  | accepted _ path | dispatched _ path | executed _ path => path

theorem PathView.next_of_ne {view : PathView} {path : WString} (happening : Happening)
    (other : path ≠ happening.path) : view.next path happening = view := by
  cases happening <;> exact if_neg (Ne.symm other)

/-- How an entry, the flush that holds a command and the history of a path fit. -/
structure PathView.Fits (view : PathView) (waiting : Option FileEvent) (held : Prop) : Prop where
  fresh_iff : view.fresh = waiting.isSome
  waits : ∀ evt ∈ waiting, ∃ last, view.lastAccepted = some last ∧ commandOf evt = commandOf last
  settled : view.fresh = false → ∀ last, view.lastAccepted = some last →
    view.owed = some (commandOf last) ∨
      view.owed = none ∧ view.lastExecuted = some (commandOf last)
  held_of_owed : ∀ command, view.owed = some command → held

/-- A flush holds a command of the path. -/
def System.Holds (s : System) (path : WString) : Prop :=
  ∃ flush : Nat, ∃ held : Flush, s.flushes[flush]? = some held ∧ held.holds = some path

/-- The invariant of undisturbed runs. -/
structure System.Coalesced (config : Config) (s : System) : Prop where
  running : s.dispatcher.stopping = false
  keyed : ∀ h st, s.dispatcher.evtMap h = some st → config.hash st.path = h ∧ st.queued = true
  queued : ∀ h st, s.dispatcher.evtMap h = some st →
    h ∈ s.dispatcher.pendingQ ∨ ∃ (flush : Nat) (held : Flush), s.flushes[flush]? = some held ∧ h ∈ held.rest
  fits : ∀ path, (PathView.of path s.trace).Fits (s.pendingOf config path) (s.Holds path)
  holds : ∀ (flush : Nat) evt path rest, s.flushes[flush]? = some (.dispatching evt path rest) →
    config.registered (commandOf evt) = true ∧
      (PathView.of path s.trace).owed = some (commandOf evt)
  alone : ∀ path (one two : Nat) (first second : Flush),
    s.flushes[one]? = some first → s.flushes[two]? = some second →
    first.holds = some path → second.holds = some path → one = two
  follows : ∀ earlier command path, .dispatched command path :: earlier <:+ s.trace →
    (PathView.of path earlier).fresh = true
  executes : ∀ earlier command path, .executed command path :: earlier <:+ s.trace →
    (PathView.of path earlier).owed = some command

theorem coalesced_start (config : Config) : System.start.Coalesced config where
  running := rfl
  keyed _ _ found := by cases found
  queued _ _ found := by cases found
  fits path := ⟨rfl, fun _ waits => (by cases waits), fun _ _ known => (by cases known),
    fun _ owed => (by cases owed)⟩
  holds _ _ _ _ standing := by cases standing
  alone _ _ _ _ _ standing := by cases standing
  follows _ _ _ part := by cases List.suffix_nil.mp part
  executes _ _ _ part := by cases List.suffix_nil.mp part

/-- With the queue empty and every flush at its end nothing waits and nothing is held. -/
theorem System.Coalesced.lastEventWins (coalesced : s.Coalesced config) : s.LastEventWins where
  follows := coalesced.follows
  executes := coalesced.executes
  wins := by
    rintro ⟨empty, ended⟩ path evt accepted
    have idle : ∀ (flush : Nat) (held : Flush), s.flushes[flush]? = some held →
        held = .draining [] :=
      fun flush held standing => ended held (List.mem_of_getElem? standing)
    have vacant : s.dispatcher.evtMap (config.hash path) = none := by
      cases found : s.dispatcher.evtMap (config.hash path) with
      | none => rfl
      | some st =>
          rcases coalesced.queued _ st found with inQueue | ⟨flush, held, standing, inRest⟩
          · rw [empty] at inQueue
            cases inQueue
          · rw [idle flush held standing] at inRest
            cases inRest
    have fits := coalesced.fits path
    have stale : (PathView.of path s.trace).fresh = false := by
      rw [fits.fresh_iff, System.pendingOf, vacant]
      rfl
    rcases fits.settled stale evt accepted with owed | ⟨_, executed⟩
    · obtain ⟨flush, held, standing, holds⟩ := fits.held_of_owed _ owed
      rw [idle flush held standing] at holds
      cases holds
    · exact executed

/-! ## One step -/

theorem standing_set {flushes : List Flush} {flush : Nat} {old new : Flush}
    (standing : flushes[flush]? = some old) {index : Nat} {held : Flush} :
    (flushes.set flush new)[index]? = some held ↔
      index = flush ∧ held = new ∨ index ≠ flush ∧ flushes[index]? = some held := by
  have bound := (List.getElem?_eq_some_iff.mp standing).1
  by_cases same : index = flush
  · subst same
    simp [bound, eq_comm]
  · simp [same, List.getElem?_set_ne (Ne.symm same)]

theorem standing_append {flushes : List Flush} {new : Flush} {index : Nat} {held : Flush} :
    (flushes ++ [new])[index]? = some held ↔
      flushes[index]? = some held ∨ index = flushes.length ∧ held = new := by
  rcases Nat.lt_trichotomy index flushes.length with less | equal | more
  · simp [List.getElem?_append_left less, Nat.ne_of_lt less]
  · subst equal
    simp [eq_comm]
  · have past : ¬ index < flushes.length := by omega
    simp [List.getElem?_append_right more.le, List.getElem?_eq_none more.le,
      Nat.sub_ne_zero_of_lt more, Nat.ne_of_gt more]

/-- A held command of a path stays held when a flush that does not hold the path moves. -/
theorem holds_set {flushes : List Flush} {flush : Nat} {old new : Flush}
    (standing : flushes[flush]? = some old) {path : WString} (free : old.holds ≠ some path)
    (holds : ∃ index : Nat, ∃ held : Flush, flushes[index]? = some held ∧ held.holds = some path) :
    ∃ index : Nat, ∃ held : Flush,
      (flushes.set flush new)[index]? = some held ∧ held.holds = some path := by
  obtain ⟨index, held, there, holds⟩ := holds
  refine ⟨index, held, (standing_set standing).mpr (.inr ⟨?_, there⟩), holds⟩
  rintro rfl
  obtain rfl := Option.some.inj (standing.symm.trans there)
  exact free holds

/-- Under the condition of a push, the entry of its hash concerns its own path only. -/
theorem pendingOf_pushed {evt : FileEvent} {path : WString} {d : FileEventDispatcher}
    (evtMap : d.evtMap = Function.update s.dispatcher.evtMap (config.hash path)
      (some (config.entryAfter evt path s.dispatcher)))
    (own : ∀ st ∈ s.dispatcher.evtMap (config.hash path), st.path = path) {flushes : List Flush}
    {trace : List Happening} {other : WString} (ne : other ≠ path) :
    (⟨d, flushes, trace⟩ : System).pendingOf config other = s.pendingOf config other := by
  by_cases collides : config.hash other = config.hash path
  · have before : s.pendingOf config other = none := by
      cases found : s.dispatcher.evtMap (config.hash path) with
      | none => simp [System.pendingOf, collides, found]
      | some st =>
          have st_path : st.path = path := own st found
          simp [System.pendingOf, collides, found, st_path, Ne.symm ne]
    rw [before]
    simp [System.pendingOf, evtMap, collides, Config.entryAfter, Ne.symm ne]
  · simp [System.pendingOf, evtMap, collides]

theorem pendingOf_pushed_self {evt : FileEvent} {path : WString} {d : FileEventDispatcher}
    (evtMap : d.evtMap = Function.update s.dispatcher.evtMap (config.hash path)
      (some (config.entryAfter evt path s.dispatcher))) {flushes : List Flush}
    {trace : List Happening} :
    (⟨d, flushes, trace⟩ : System).pendingOf config path =
      some (config.entryAfter evt path s.dispatcher).evt := by
  simp [System.pendingOf, evtMap, Config.entryAfter]

theorem commandOf_entryAfter {evt : FileEvent} {path : WString}
    (kept : ∀ st ∈ s.dispatcher.evtMap (config.hash path),
      st.evt = .removed → commandOf evt = .removed) :
    commandOf (config.entryAfter evt path s.dispatcher).evt = commandOf evt := by
  cases found : s.dispatcher.evtMap (config.hash path) with
  | none => simp [Config.entryAfter, found]
  | some st =>
      cases waiting : st.queued with
      | false => simp [Config.entryAfter, found, waiting]
      | true =>
          simp only [Config.entryAfter, found, waiting, if_true]
          exact commandOf_merge2 (kept st found)

theorem System.Coalesced.pushed {evt : FileEvent} {path : WString} {d : FileEventDispatcher}
    (coalesced : s.Coalesced config) (separate : s.Separate config (.push evt path))
    (accepted : config.shouldAcceptFileEvent evt path = true)
    (evtMap : d.evtMap = Function.update s.dispatcher.evtMap (config.hash path)
      (some (config.entryAfter evt path s.dispatcher)))
    (running : d.stopping = false) (kept : ∀ h ∈ s.dispatcher.pendingQ, h ∈ d.pendingQ)
    (queued : (∀ st ∈ s.dispatcher.evtMap (config.hash path), st.queued = false) →
      config.hash path ∈ d.pendingQ) :
    System.Coalesced config ⟨d, s.flushes, .accepted evt path :: s.trace⟩ := by
  have own := separate accepted
  refine ⟨running, ?_, ?_, ?_, ?_, coalesced.alone, ?_, ?_⟩
  case refine_1 =>
    intro h st found
    by_cases here : h = config.hash path
    · subst here
      simp only [evtMap, Function.update_self, Option.some.injEq] at found
      subst found
      exact ⟨rfl, rfl⟩
    · simp only [evtMap, Function.update_of_ne here] at found
      exact coalesced.keyed h st found
  case refine_2 =>
    intro h st found
    have already : ∀ st', s.dispatcher.evtMap h = some st' →
        h ∈ d.pendingQ ∨ ∃ (flush : Nat) (held : Flush), s.flushes[flush]? = some held ∧ h ∈ held.rest :=
      fun st' found' => (coalesced.queued h st' found').imp_left (kept h)
    by_cases here : h = config.hash path
    · cases before : s.dispatcher.evtMap (config.hash path) with
      | none => exact .inl (here ▸ queued (by simp [before]))
      | some st' => exact already st' (here ▸ before)
    · simp only [evtMap, Function.update_of_ne here] at found
      exact already st found
  case refine_3 =>
    intro other
    have fits := coalesced.fits other
    by_cases same : other = path
    · subst same
      rw [pendingOf_pushed_self evtMap]
      simp only [PathView.of, PathView.next_accepted_self]
      refine ⟨rfl, ?_, fun stale => (nomatch stale), fits.held_of_owed⟩
      rintro _ ⟨⟩
      exact ⟨evt, rfl, commandOf_entryAfter fun st found => (own st found).2⟩
    · rw [pendingOf_pushed evtMap (fun st found => (own st found).1) same]
      simp only [PathView.of]
      rw [PathView.next_of_ne (.accepted evt path) same]
      exact fits
  case refine_4 =>
    intro flush evt' path' rest standing
    obtain ⟨registered, owed⟩ := coalesced.holds flush evt' path' rest standing
    refine ⟨registered, ?_⟩
    simp only [PathView.of, PathView.next]
    split <;> exact owed
  case refine_5 | refine_6 =>
    intro earlier command path' part
    rcases List.suffix_cons_iff.mp part with head | older
    · cases head
    · first
      | exact coalesced.follows earlier command path' older
      | exact coalesced.executes earlier command path' older

theorem System.Coalesced.started (coalesced : s.Coalesced config) :
    System.Coalesced config
      { s with
        dispatcher := { s.dispatcher with pendingQ := [] }
        flushes := s.flushes ++ [.draining s.dispatcher.pendingQ] } := by
  refine ⟨coalesced.running, coalesced.keyed, ?_, ?_, ?_, ?_, coalesced.follows, coalesced.executes⟩
  case refine_1 =>
    intro h st found
    rcases coalesced.queued h st found with inQueue | ⟨flush, held, standing, inRest⟩
    · exact .inr ⟨_, _, standing_append.mpr (.inr ⟨rfl, rfl⟩), inQueue⟩
    · exact .inr ⟨flush, held, standing_append.mpr (.inl standing), inRest⟩
  case refine_2 =>
    intro path
    have fits := coalesced.fits path
    refine ⟨fits.fresh_iff, fits.waits, fits.settled, fun command owed => ?_⟩
    obtain ⟨flush, held, standing, holds⟩ := fits.held_of_owed command owed
    exact ⟨flush, held, standing_append.mpr (.inl standing), holds⟩
  case refine_3 =>
    intro flush evt path rest standing
    rcases standing_append.mp standing with older | ⟨_, new⟩
    · exact coalesced.holds flush evt path rest older
    · cases new
  case refine_4 =>
    intro path one two first second atOne atTwo firstHolds secondHolds
    rcases standing_append.mp atOne with oneOlder | ⟨_, rfl⟩
    · rcases standing_append.mp atTwo with twoOlder | ⟨_, rfl⟩
      · exact coalesced.alone path one two first second oneOlder twoOlder firstHolds secondHolds
      · cases secondHolds
    · cases firstHolds

/-- What stays queued when the hash at the head of a flush is done with. -/
theorem System.Coalesced.still_queued (coalesced : s.Coalesced config) {flush : Nat} {h : UInt64}
    {rest : List UInt64} (standing : s.flushes[flush]? = some (.draining (h :: rest)))
    {new : Flush} (moved : new.rest = rest) {other : UInt64} {st : EventState} (ne : other ≠ h)
    (found : s.dispatcher.evtMap other = some st) :
    other ∈ s.dispatcher.pendingQ ∨ ∃ (index : Nat) (held : Flush),
      (s.flushes.set flush new)[index]? = some held ∧ other ∈ held.rest := by
  rcases coalesced.queued other st found with inQueue | ⟨index, held, there, inRest⟩
  · exact .inl inQueue
  · by_cases same : index = flush
    · subst same
      obtain rfl := Option.some.inj (standing.symm.trans there)
      have inTail : other ∈ rest := (List.mem_cons.mp inRest).resolve_left ne
      exact .inr ⟨index, new, (standing_set standing).mpr (.inl ⟨rfl, rfl⟩), moved ▸ inTail⟩
    · exact .inr ⟨index, held, (standing_set standing).mpr (.inr ⟨same, there⟩), inRest⟩

theorem System.Coalesced.skipped {flush : Nat} {h : UInt64} {rest : List UInt64}
    (coalesced : s.Coalesced config)
    (standing : s.flushes[flush]? = some (.draining (h :: rest)))
    (missing : s.dispatcher.evtMap h = none) :
    System.Coalesced config { s with flushes := s.flushes.set flush (.draining rest) } := by
  refine ⟨coalesced.running, coalesced.keyed, ?_, ?_, ?_, ?_, coalesced.follows, coalesced.executes⟩
  case refine_1 =>
    intro other st found
    refine coalesced.still_queued standing rfl ?_ found
    rintro rfl
    cases missing.symm.trans found
  case refine_2 =>
    intro path
    have fits := coalesced.fits path
    refine ⟨fits.fresh_iff, fits.waits, fits.settled, fun command owed => ?_⟩
    exact holds_set standing (fun wrong => nomatch wrong) (fits.held_of_owed command owed)
  case refine_3 =>
    intro index evt path rest' there
    rcases (standing_set standing).mp there with ⟨_, new⟩ | ⟨_, older⟩
    · cases new
    · exact coalesced.holds index evt path rest' older
  case refine_4 =>
    intro path one two first second atOne atTwo firstHolds secondHolds
    rcases (standing_set standing).mp atOne with ⟨_, rfl⟩ | ⟨_, oneOlder⟩
    · cases firstHolds
    · rcases (standing_set standing).mp atTwo with ⟨_, rfl⟩ | ⟨_, twoOlder⟩
      · cases secondHolds
      · exact coalesced.alone path one two first second oneOlder twoOlder firstHolds secondHolds

/-- Taking an entry out hides no entry of another path. -/
theorem pendingOf_erased {h : UInt64} {st : EventState} {flushes : List Flush}
    {trace : List Happening} (found : s.dispatcher.evtMap h = some st) {other : WString}
    (ne : other ≠ st.path) :
    (⟨s.dispatcher.erase h, flushes, trace⟩ : System).pendingOf config other =
      s.pendingOf config other := by
  by_cases here : config.hash other = h
  · simp [System.pendingOf, FileEventDispatcher.erase, here, found, Ne.symm ne]
  · simp [System.pendingOf, FileEventDispatcher.erase, here]

theorem System.Coalesced.dispatched {flush : Nat} {h : UInt64} {rest : List UInt64}
    {st : EventState} (coalesced : s.Coalesced config) (separate : s.Separate config (.advance flush))
    (standing : s.flushes[flush]? = some (.draining (h :: rest)))
    (found : s.dispatcher.evtMap h = some st) :
    System.Coalesced config
      { dispatcher := s.dispatcher.erase h
        flushes := s.flushes.set flush (.dispatching st.evt st.path rest)
        trace := .dispatched (commandOf st.evt) st.path :: s.trace } := by
  obtain ⟨registered, free⟩ := separate st (by simpa [System.taking, standing] using found)
  obtain ⟨hash_path, _⟩ := coalesced.keyed h st found
  have waiting : s.pendingOf config st.path = some st.evt := by
    simp [System.pendingOf, hash_path, found]
  have fits := coalesced.fits st.path
  have fresh : (PathView.of st.path s.trace).fresh = true := by
    rw [fits.fresh_iff, waiting]
    rfl
  have free_at : ∀ (index : Nat) (held : Flush), s.flushes[index]? = some held →
      held.holds ≠ some st.path :=
    fun index held there => free held (List.mem_of_getElem? there)
  refine ⟨coalesced.running, ?_, ?_, ?_, ?_, ?_, ?_, ?_⟩
  case refine_1 =>
    intro other st' found'
    by_cases here : other = h
    · simp [FileEventDispatcher.erase, here] at found'
    · simp only [FileEventDispatcher.erase, Function.update_of_ne here] at found'
      exact coalesced.keyed other st' found'
  case refine_2 =>
    intro other st' found'
    by_cases here : other = h
    · simp [FileEventDispatcher.erase, here] at found'
    · simp only [FileEventDispatcher.erase, Function.update_of_ne here] at found'
      exact coalesced.still_queued standing rfl here found'
  case refine_3 =>
    intro other
    by_cases same : other = st.path
    · subst same
      simp only [PathView.of, PathView.next_dispatched_self]
      refine ⟨?_, ?_, fun _ last accepted => ?_, fun _ _ => ?_⟩
      · simp [System.pendingOf, FileEventDispatcher.erase, hash_path]
      · simp [System.pendingOf, FileEventDispatcher.erase, hash_path]
      · obtain ⟨last', accepted', agrees⟩ := fits.waits st.evt waiting
        obtain rfl := Option.some.inj (accepted.symm.trans accepted')
        exact .inl (congrArg some agrees)
      · exact ⟨flush, _, (standing_set standing).mpr (.inl ⟨rfl, rfl⟩), rfl⟩
    · rw [pendingOf_erased found same]
      have fits := coalesced.fits other
      simp only [PathView.of]
      rw [PathView.next_of_ne (.dispatched (commandOf st.evt) st.path) same]
      refine ⟨fits.fresh_iff, fits.waits, fits.settled, fun command owed => ?_⟩
      exact holds_set standing (fun wrong => nomatch wrong) (fits.held_of_owed command owed)
  case refine_4 =>
    intro index evt path rest' there
    rcases (standing_set standing).mp there with ⟨_, new⟩ | ⟨_, older⟩
    · cases new
      refine ⟨registered, ?_⟩
      simp only [PathView.of, PathView.next_dispatched_self]
    · have ne : path ≠ st.path := by
        rintro rfl
        exact free_at index _ older rfl
      simp only [PathView.of]
      rw [PathView.next_of_ne (.dispatched (commandOf st.evt) st.path) ne]
      exact coalesced.holds index evt path rest' older
  case refine_5 =>
    intro path one two first second atOne atTwo firstHolds secondHolds
    rcases (standing_set standing).mp atOne with ⟨oneHere, rfl⟩ | ⟨_, oneOlder⟩
    · rcases (standing_set standing).mp atTwo with ⟨twoHere, _⟩ | ⟨_, twoOlder⟩
      · exact oneHere.trans twoHere.symm
      · exact absurd (secondHolds.trans firstHolds.symm) (free_at two second twoOlder)
    · rcases (standing_set standing).mp atTwo with ⟨_, rfl⟩ | ⟨_, twoOlder⟩
      · exact absurd (firstHolds.trans secondHolds.symm) (free_at one first oneOlder)
      · exact coalesced.alone path one two first second oneOlder twoOlder firstHolds secondHolds
  case refine_6 =>
    intro earlier command path part
    rcases List.suffix_cons_iff.mp part with head | older
    · cases head
      exact fresh
    · exact coalesced.follows earlier command path older
  case refine_7 =>
    intro earlier command path part
    rcases List.suffix_cons_iff.mp part with head | older
    · cases head
    · exact coalesced.executes earlier command path older

theorem System.Coalesced.executed {flush : Nat} {evt : FileEvent} {path : WString}
    {rest : List UInt64} (coalesced : s.Coalesced config)
    (standing : s.flushes[flush]? = some (.dispatching evt path rest)) :
    System.Coalesced config
      { s with
        flushes := s.flushes.set flush (.draining rest)
        trace :=
          if config.registered (commandOf evt) then .executed (commandOf evt) path :: s.trace
          else s.trace } := by
  obtain ⟨registered, owes⟩ := coalesced.holds flush evt path rest standing
  rw [if_pos registered]
  refine ⟨coalesced.running, coalesced.keyed, ?_, ?_, ?_, ?_, ?_, ?_⟩
  case refine_1 =>
    intro h st found
    rcases coalesced.queued h st found with inQueue | ⟨index, held, there, inRest⟩
    · exact .inl inQueue
    · by_cases same : index = flush
      · subst same
        obtain rfl := Option.some.inj (standing.symm.trans there)
        exact .inr ⟨index, _, (standing_set standing).mpr (.inl ⟨rfl, rfl⟩), inRest⟩
      · exact .inr ⟨index, held, (standing_set standing).mpr (.inr ⟨same, there⟩), inRest⟩
  case refine_2 =>
    intro other
    have fits := coalesced.fits other
    by_cases same : other = path
    · subst same
      simp only [PathView.of, PathView.next_executed_self]
      refine ⟨fits.fresh_iff, fits.waits, fun stale last accepted => ?_, fun _ owed => (nomatch owed)⟩
      rcases fits.settled stale last accepted with owed | ⟨done, _⟩
      · exact .inr ⟨rfl, owes.symm.trans owed⟩
      · cases owes.symm.trans done
    · simp only [PathView.of]
      rw [PathView.next_of_ne (.executed (commandOf evt) path) same]
      refine ⟨fits.fresh_iff, fits.waits, fits.settled, fun command owed => ?_⟩
      refine holds_set standing ?_ (fits.held_of_owed command owed)
      rintro ⟨⟩
      exact same rfl
  case refine_3 =>
    intro index evt' path' rest' there
    rcases (standing_set standing).mp there with ⟨_, new⟩ | ⟨elsewhere, older⟩
    · cases new
    · have ne : path' ≠ path := by
        rintro rfl
        exact elsewhere (coalesced.alone path' index flush _ _ older standing rfl rfl)
      simp only [PathView.of]
      rw [PathView.next_of_ne (.executed (commandOf evt) path) ne]
      exact coalesced.holds index evt' path' rest' older
  case refine_4 =>
    intro path' one two first second atOne atTwo firstHolds secondHolds
    rcases (standing_set standing).mp atOne with ⟨_, rfl⟩ | ⟨_, oneOlder⟩
    · cases firstHolds
    · rcases (standing_set standing).mp atTwo with ⟨_, rfl⟩ | ⟨_, twoOlder⟩
      · cases secondHolds
      · exact coalesced.alone path' one two first second oneOlder twoOlder firstHolds secondHolds
  case refine_5 =>
    intro earlier command path' part
    rcases List.suffix_cons_iff.mp part with head | older
    · cases head
    · exact coalesced.follows earlier command path' older
  case refine_6 =>
    intro earlier command path' part
    rcases List.suffix_cons_iff.mp part with head | older
    · cases head
      exact owes
    · exact coalesced.executes earlier command path' older

/-- An undisturbed step keeps the invariant. -/
theorem System.Coalesced.step {action : Action} (coalesced : s.Coalesced config)
    (undisturbed : s.Undisturbed config action) (stepped : (machine config).step s action = some next) :
    next.Coalesced config := by
  cases System.moved_of_step coalesced.running undisturbed.1 stepped with
  | refused => exact coalesced
  | pushed accepted evtMap running kept queued =>
      exact coalesced.pushed undisturbed.2 accepted evtMap running kept queued
  | started => exact coalesced.started
  | skipped standing missing => exact coalesced.skipped standing missing
  | dispatched standing found => exact coalesced.dispatched undisturbed.2 standing found
  | executed standing => exact coalesced.executed standing

/-- An undisturbed push leaves the entries of other paths alone. -/
theorem System.Coalesced.keepsOthers {action : Action} (coalesced : s.Coalesced config)
    (undisturbed : s.Undisturbed config action) : s.KeepsOthers config action := by
  rintro evt path next rfl stepped other ne
  cases System.moved_of_step coalesced.running undisturbed.1 stepped with
  | refused => rfl
  | pushed accepted evtMap _ _ _ =>
      exact pendingOf_pushed evtMap (fun st found => (undisturbed.2 accepted st found).1) ne

/-! ## Whole runs -/

/-- In every run whose steps are undisturbed the last event of each path wins in
every state, and no push touches what waits for another path. -/
theorem lastEventWins_of_undisturbed (config : Config) (actions : List Action)
    (undisturbed : (machine config).Conforms (System.Undisturbed config) .start actions) :
    (machine config).Throughout System.LastEventWins .start actions ∧
      (machine config).Conforms (System.KeepsOthers config) .start actions := by
  constructor
  · exact Lib.Machine.throughout_of_conforms (fun _ coalesced => coalesced.lastEventWins)
      (fun _ _ _ coalesced allowed stepped => coalesced.step allowed stepped)
      (coalesced_start config) undisturbed
  · exact undisturbed.strengthen
      (fun _ _ _ coalesced allowed stepped => coalesced.step allowed stepped)
      (fun _ _ coalesced allowed => coalesced.keepsOthers allowed) (coalesced_start config)

/-- FNV-1a over the bytes of a wide string, low byte first. -/
def fnv1a (text : WString) : UInt64 :=
  (text.flatMap fun unit => [unit % 256, unit / 256]).foldl
    (fun hash byte => (hash ^^^ byte.toUInt64) * 1099511628211) 14695981039346656037

/-- A dispatcher of text files with the two commands of an active server. -/
def textFiles : Config where
  hash := fnv1a
  matchesConfiguredExtension path := [46, 116, 120, 116].isSuffixOf path
  isPathExcluded _ := false
  registered evt := evt = .added || evt = .removed

/-- The file `D:\a.txt`. -/
def savedFile : WString := [68, 58, 92, 97, 46, 116, 120, 116]

/-- A file changed twice, then removed while its command is under way. -/
def editedThenRemoved : List Action :=
  [.push .added savedFile, .push .modified savedFile, .startFlush, .advance 0,
    .push .removed savedFile, .advance 0, .startFlush, .advance 1, .advance 1]

theorem lastEventWins_of_undisturbed_editedThenRemoved :
    (machine textFiles).Throughout System.LastEventWins .start editedThenRemoved ∧
      (machine textFiles).Conforms (System.KeepsOthers textFiles) .start editedThenRemoved :=
  lastEventWins_of_undisturbed textFiles editedThenRemoved (by decide +kernel)

/-- An atomic save: the file is deleted and created again before the flush. -/
def atomicSave : List Action :=
  [.push .removed savedFile, .push .added savedFile, .startFlush, .advance 0, .advance 0]

theorem not_lastEventWins_atomicSave :
    ¬ ∀ (config : Config) (actions : List Action) (final : System), .stopAll ∉ actions →
      (machine config).run .start actions = some final → final.LastEventWins := by
  intro claim
  have outcome : ((machine textFiles).run .start atomicSave).map (fun final =>
      (decide final.Drained, PathView.of savedFile final.trace)) =
      some (true, ⟨some .added, false, none, some .removed⟩) := by
    decide +kernel
  obtain ⟨final, done, seen⟩ := Option.map_eq_some_iff.mp outcome
  obtain ⟨drained, view⟩ := Prod.mk.inj seen
  have wins := (claim textFiles atomicSave final (by decide) done).wins
    (of_decide_eq_true drained) savedFile .added (by rw [view])
  rw [view] at wins
  cases wins

end SearchEngine.Watcher
