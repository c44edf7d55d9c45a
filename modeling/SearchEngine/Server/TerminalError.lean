import SearchEngine.Server.AuthenticationGate

/-!
# Terminal errors

The read loop leaves when it queues a terminal error itself, and so does
`handleStreamingUpload` (`readFrame_leaves`). When `commandExec` queues one, the
read loop goes on and only the writer stops the session, after it has sent the
error. A frame that was sent behind the failing one is started if the read loop is
faster; if the writer is, no later frame is started.
-/

namespace SearchEngine.Server

open SearchEngine.Index SearchEngine.Lib SearchEngine.Lib.Coroutine

/-- A reply with close-after-write was queued. -/
def Trace.terminalQueued : Trace → Bool
  | [] => false
  | .called (.send item) queued :: earlier =>
      (queued && item.closesAfterWrite) || Trace.terminalQueued earlier
  | .called _ _ :: earlier => Trace.terminalQueued earlier
  | .frame :: earlier => Trace.terminalQueued earlier

/-- The call starts a command or an upload, or changes who the session acts for. -/
def startsWork : (call : Call) → Answer call → Bool
  | .tryStartCommand, started => started
  | .execCommand _ _, _ => true
  | .authenticate _, _ => true
  | .authorize _, _ => true
  | call, _ => call.handlesData

/-- Once a terminal error is queued, no later frame starts anything. -/
def Session.TerminalErrorEnds (s : Session) : Prop :=
  ∀ call answer earlier, .called call answer :: earlier <:+ s.trace →
    startsWork call answer = true →
    Trace.terminalQueued (Trace.earlierFrames earlier) = false

/-! ## Who queued a terminal error -/

/-- What the events tell about the errors of the current frame: whether its command was
started, and whether a terminal error was queued before it was. -/
structure ExitView where
  started : Bool
  refused : Bool

/-- Nothing happened yet. -/
def ExitView.initial : ExitView := ⟨false, false⟩

/-- The view after a call. -/
def ExitView.next (v : ExitView) : (call : Call) → Answer call → ExitView
  | .tryStartCommand, started => { v with started := v.started || started }
  | .send item, queued => { v with refused := v.refused || (queued && item.closesAfterWrite && !v.started) }
  | _, _ => v

/-- The view of a trace. -/
def ExitView.of : Trace → ExitView
  | [] => initial
  | .frame :: _ => initial
  | .called call answer :: earlier => (of earlier).next call answer

/-- A terminal error was queued by a command that had been started: by `commandExec`. -/
def Trace.commandFailed : Trace → Bool
  | [] => false
  | .called (.send item) queued :: earlier =>
      (queued && item.closesAfterWrite && (ExitView.of earlier).started) || Trace.commandFailed earlier
  | .called _ _ :: earlier => Trace.commandFailed earlier
  | .frame :: earlier => Trace.commandFailed earlier

/-- The header that a call brings in. -/
def FrameView.headerOf (v : FrameView) : (call : Call) → Answer call → Option Header
  | .readExactly _, some bytes =>
      match v.header with
      | none => some (Header.ofBytes bytes.val)
      | some _ => none
  | _, _ => none

/-- The header that an action brings in. -/
def Session.headerRead (s : Session) : Action → Option Header
  | .answer call answer => (FrameView.of s.trace).headerOf call answer
  | _ => none

/-- The read loop takes up a frame that it hands on only if no command has queued a
terminal error: the writer has stopped the session before. -/
def Session.WriterIsFaster (s : Session) (action : Action) : Prop :=
  match s.headerRead action with
  | none => True
  | some header =>
      header.startsCommand s.credentials.authenticated = true → s.trace.commandFailed = false

instance (s : Session) (action : Action) : Decidable (s.WriterIsFaster action) :=
  match read : s.headerRead action with
  | none => decidable_of_iff True (by simp [Session.WriterIsFaster, read])
  | some header =>
      decidable_of_iff (header.startsCommand s.credentials.authenticated = true →
        s.trace.commandFailed = false) (by simp [Session.WriterIsFaster, read])

variable {s next : Session}

/-! ## The exits of a frame -/

/-- The contract under which the errors of a frame are watched; it asks for nothing. -/
def exitContract : Contract Call Answer ExitView where
  requires _ _ := True
  answers _ _ _ := True
  next := ExitView.next

/-- The read loop does not go on after a terminal error that no command queued. -/
def Leaves (outcome : Except Thrown Bool) (v : ExitView) : Prop := v.refused = true → outcome ≠ .ok true

/-- Nothing of interest happened. -/
def Unmoved {Result : Type} (v : ExitView) (_ : Except Thrown Result) (after : ExitView) : Prop := after = v

section Exits

variable {v : ExitView} {requestHeader : Header} {Result : Type}

theorem leaves_of_unrefused (unrefused : v.refused = false) (outcome : Except Thrown Bool) : Leaves outcome v := by
  intro refused
  rw [unrefused] at refused
  cases refused

/-- Once the command is started, the view stays as it is. -/
theorem ExitView.next_of_started (started : v.started = true) (call : Call) (answer : Answer call) :
    v.next call answer = v := by
  obtain ⟨_, refused⟩ := v
  subst started
  cases call <;> simp [ExitView.next]

theorem unmoved_of_started (started : v.started = true) (program : Task Result) :
    program.Meets exitContract (Unmoved v) v := by
  induction program with
  | done result => rfl
  | raise thrown => rfl
  | suspend call resume ih =>
      refine ⟨trivial, fun answer _ => ?_⟩
      change (resume answer).Meets exitContract (Unmoved v) (v.next call answer)
      rw [v.next_of_started started]
      exact ih answer

theorem leaves_of_started (started : v.started = true) (unrefused : v.refused = false) (program : Task Bool) :
    program.Meets exitContract Leaves v :=
  (unmoved_of_started started program).mono fun outcome _ same => same ▸ leaves_of_unrefused unrefused outcome

/-- What `queueError` leaves: it does not throw, and an error that keeps the session goes unnoticed. -/
def Queued (v : ExitView) (closeAfterWrite : Bool) (outcome : Except Thrown Bool) (after : ExitView) : Prop :=
  (∃ queued, outcome = .ok queued) ∧ (closeAfterWrite = false → after = v)

theorem queueError_exits (error : ErrorCode) (closeAfterWrite : Bool) :
    (queueError error closeAfterWrite).Meets exitContract (Queued v closeAfterWrite) v := by
  unfold queueError
  refine Meets.call trivial fun typedResponse _ => ?_
  refine Meets.call trivial fun queued _ => ?_
  have closes : (errorItem typedResponse error closeAfterWrite).closesAfterWrite = closeAfterWrite := by
    unfold errorItem
    split <;> rfl
  split
  · rename_i terminal
    refine Meets.call trivial fun _ _ => ⟨⟨queued, rfl⟩, fun kept => ?_⟩
    simp [kept] at terminal
  · refine ⟨⟨queued, rfl⟩, fun kept => ?_⟩
    rw [kept] at closes
    simp [exitContract, ExitView.next, closes, kept]

/-- The frame is left with whatever error was queued. -/
theorem refuse_leaves (error : ErrorCode) (closeAfterWrite : Bool) :
    (refuse error closeAfterWrite false).Meets exitContract Leaves v := by
  refine Meets.bind (queueError_exits error closeAfterWrite) (fun _ _ _ _ wrong => nomatch wrong) ?_
  rintro thrown after ⟨⟨_, wrong⟩, -⟩
  nomatch wrong

/-- An error that does not close the session may let the read loop go on. -/
theorem refuse_goesOn (error : ErrorCode) (unrefused : v.refused = false) :
    (refuse error false true).Meets exitContract Leaves v := by
  refine Meets.bind (queueError_exits error false) ?_ ?_
  · rintro queued after ⟨-, same⟩
    obtain rfl := same rfl
    exact leaves_of_unrefused unrefused _
  · rintro thrown after ⟨⟨_, wrong⟩, -⟩
    nomatch wrong

theorem receiveSome_unmoved (limit : Nat) : (receiveSome limit).Meets exitContract (Unmoved v) v := by
  unfold receiveSome
  refine Meets.call trivial fun answer _ => ?_
  cases answer with
  | none => rfl
  | some bytes => rfl

theorem receiveAll_unmoved (rounds remaining : Nat) :
    (receiveAll rounds remaining).Meets exitContract (Unmoved v) v := by
  induction rounds generalizing remaining with
  | zero => rfl
  | succ rounds ih =>
      rw [receiveAll]
      split
      · rfl
      refine Meets.bind (receiveSome_unmoved _) ?_ fun _ _ same => same
      rintro bytes after rfl
      refine Meets.bind (ih _) ?_ fun _ _ same => same
      rintro rest after rfl
      rfl

theorem drainBody_unmoved (rounds remaining : Nat) :
    (drainBody rounds remaining).Meets exitContract (Unmoved v) v := by
  induction rounds generalizing remaining with
  | zero => rfl
  | succ rounds ih =>
      rw [drainBody]
      split
      · rfl
      refine Meets.call trivial fun answer _ => ?_
      cases answer with
      | none => rfl
      | some bytes => exact ih _

/-- A command that is refused or started, with what follows either. -/
theorem tryStartCommand_leaves (unrefused : v.refused = false) {after : Bool → Task Bool}
    (refused : (after false).Meets exitContract Leaves v) :
    (ask .tryStartCommand >>= after).Meets exitContract Leaves v := by
  refine Meets.call trivial fun started _ => ?_
  cases started with
  | false =>
      have same : v.next .tryStartCommand false = v := by simp [ExitView.next]
      rwa [← same] at refused
  | true =>
      have running : (v.next .tryStartCommand true).started = true := by simp [ExitView.next]
      exact leaves_of_started running unrefused _

theorem handleStreamingUpload_leaves (unrefused : v.refused = false) :
    (handleStreamingUpload requestHeader).Meets exitContract Leaves v := by
  unfold handleStreamingUpload
  split
  · exact refuse_leaves _ _
  refine Meets.call trivial fun credentials _ => ?_
  dsimp only
  split
  · exact refuse_leaves _ _
  split
  · exact refuse_leaves _ _
  exact tryStartCommand_leaves unrefused (refuse_leaves _ _)

theorem handleLegacyMessage_leaves (normalizedCommand : Command) (unrefused : v.refused = false) :
    (handleLegacyMessage requestHeader normalizedCommand).Meets exitContract Leaves v := by
  unfold handleLegacyMessage
  refine Meets.call trivial fun credentials _ => ?_
  dsimp only
  split
  · exact refuse_leaves _ _
  refine Meets.bind (drainBody_unmoved _ _) ?_ ?_
  · rintro drained after rfl
    split
    · exact fun _ wrong => nomatch wrong
    · exact refuse_goesOn _ unrefused
  · rintro thrown after rfl
    exact fun _ wrong => nomatch wrong

theorem handleLegacyUpload_leaves (unrefused : v.refused = false) :
    (handleLegacyUpload requestHeader).Meets exitContract Leaves v := by
  unfold handleLegacyUpload
  refine Meets.call trivial fun credentials _ => ?_
  dsimp only
  split
  · exact refuse_leaves _ _
  exact tryStartCommand_leaves unrefused (refuse_leaves _ _)

theorem handleCommand_leaves (unrefused : v.refused = false) :
    (handleCommand requestHeader).Meets exitContract Leaves v := by
  unfold handleCommand
  refine Meets.call trivial fun allocated _ => ?_
  split
  · exact fun _ wrong => nomatch wrong
  refine Meets.bind (receiveAll_unmoved _ _) ?_ ?_
  · rintro requestData after rfl
    exact tryStartCommand_leaves unrefused (refuse_leaves _ _)
  · rintro thrown after rfl
    exact fun _ wrong => nomatch wrong

theorem receive_unmoved (count : Nat) : (receive count).Meets exitContract (Unmoved v) v := by
  unfold receive
  refine Meets.call trivial fun answer _ => ?_
  cases answer with
  | none => rfl
  | some bytes => rfl

/-- Every exit of a frame that queues a terminal error itself ends the read loop. -/
theorem readFrame_leaves : readFrame.Meets exitContract Leaves .initial := by
  unfold readFrame
  refine Meets.bind (receive_unmoved _) ?_ fun _ _ _ _ wrong => nomatch wrong
  rintro bytes after rfl
  dsimp only
  split
  · exact handleStreamingUpload_leaves rfl
  split
  · exact refuse_leaves _ _
  split
  · exact handleLegacyMessage_leaves _ rfl
  split
  · exact refuse_leaves _ _
  split
  · exact handleLegacyUpload_leaves rfl
  · exact handleCommand_leaves rfl

end Exits

/-- What holds between the read loop and its own terminal errors. -/
structure Session.Leaving (s : Session) : Prop where
  follows : Session.Follows exitContract Leaves (ExitView.of s.trace) s.reader
  atTop : s.reader = .loopTop → (ExitView.of s.trace).refused = false
  frames : ∀ earlier, .frame :: earlier <:+ s.trace → (ExitView.of earlier).refused = false

theorem leaving_start (input : List Byte) (peerLocal : Bool) (otherCommands : Nat) (stopping : Bool) :
    (Session.start input peerLocal otherCommands stopping).Leaving where
  follows := trivial
  atTop _ := rfl
  frames _ part := nomatch List.suffix_nil.mp part

/-- The read loop is back at its condition only if it queued no terminal error. -/
theorem unrefused_of_loopTop {task : Task Bool} {v : ExitView} (met : task.Meets exitContract Leaves v)
    (atTop : Reader.ofTask task = .loopTop) : v.refused = false := by
  cases task with
  | done result =>
      cases result with
      | false => nomatch atTop
      | true =>
          cases refused : v.refused with
          | false => rfl
          | true => exact absurd rfl (met refused)
  | raise thrown => nomatch atTop
  | suspend call resume => nomatch atTop

theorem Session.Leaving.step {action : Action} (leaving : s.Leaving) (stepped : s.step action = some next) :
    next.Leaving := by
  cases Session.moved_of_step stepped with
  | began atTop alive eq =>
      subst eq
      refine ⟨Session.follows_ofTask readFrame_leaves, fun top => unrefused_of_loopTop readFrame_leaves top, ?_⟩
      intro earlier part
      rcases List.suffix_cons_iff.mp part with same | older
      · obtain rfl := (List.cons.inj same).2
        exact leaving.atTop atTop
      · exact leaving.frames earlier older
  | @answered call answer resume after chosen waiting performed eq =>
      subst eq
      have follows := leaving.follows
      rw [waiting] at follows
      have trace : after.trace = s.trace := by rw [Session.perform_eq performed]
      have met : (resume answer).Meets exitContract Leaves ((ExitView.of s.trace).next call answer) :=
        follows.2 answer trivial
      refine ⟨?_, ?_, ?_⟩
      · simp only [Session.resumeWith, trace]
        exact Session.follows_ofTask met
      · simp only [Session.resumeWith, trace]
        exact fun top => unrefused_of_loopTop met top
      · simp only [Session.resumeWith, trace]
        intro earlier part
        rcases List.suffix_cons_iff.mp part with same | older
        · cases same
        · exact leaving.frames earlier older
  | aside beside =>
      refine ⟨?_, fun top => ?_, ?_⟩
      · rcases beside.reader with same | gone | gone
        · rw [beside.trace, same]
          exact leaving.follows
        · rw [gone]
          trivial
        · rw [gone]
          trivial
      · rw [beside.trace]
        rcases beside.reader with same | gone | gone
        · exact leaving.atTop (same ▸ top)
        · rw [gone] at top
          cases top
        · rw [gone] at top
          cases top
      · rw [beside.trace]
        exact leaving.frames

/-- A terminal error comes from a command, or from the read loop in its last frame. -/
theorem commandFailed_or_refused {trace : Trace}
    (frames : ∀ earlier, .frame :: earlier <:+ trace → (ExitView.of earlier).refused = false)
    (queued : trace.terminalQueued = true) : trace.commandFailed = true ∨ (ExitView.of trace).refused = true := by
  induction trace with
  | nil => nomatch queued
  | cons event earlier ih =>
      have before : ∀ older, .frame :: older <:+ earlier → (ExitView.of older).refused = false :=
        fun older part => frames older (part.trans (List.suffix_cons event earlier))
      cases event with
      | frame =>
          refine .inl ((ih before queued).resolve_right fun refused => ?_)
          rw [frames earlier List.suffix_rfl] at refused
          cases refused
      | called call answer =>
          cases call with
          | send item =>
              simp only [Trace.terminalQueued, Bool.or_eq_true, Bool.and_eq_true] at queued
              simp only [Trace.commandFailed, ExitView.of, ExitView.next, Bool.or_eq_true, Bool.and_eq_true]
              rcases queued with here | older
              · cases started : (ExitView.of earlier).started with
                | true => exact .inl (.inl ⟨here, rfl⟩)
                | false => exact .inr (.inr ⟨here, rfl⟩)
              · exact (ih before older).imp .inr .inl
          | _ => exact ih before queued

/-- Before the current frame only a command has queued a terminal error. -/
theorem commandFailed_earlierFrames {trace : Trace}
    (frames : ∀ earlier, .frame :: earlier <:+ trace → (ExitView.of earlier).refused = false)
    (queued : trace.earlierFrames.terminalQueued = true) : trace.earlierFrames.commandFailed = true := by
  induction trace with
  | nil => nomatch queued
  | cons event earlier ih =>
      have before : ∀ older, .frame :: older <:+ earlier → (ExitView.of older).refused = false :=
        fun older part => frames older (part.trans (List.suffix_cons event earlier))
      cases event with
      | frame =>
          refine (commandFailed_or_refused before queued).resolve_right fun refused => ?_
          rw [frames earlier List.suffix_rfl] at refused
          cases refused
      | called call answer => exact ih before queued

/-! ## The frame that is being handled -/

/-- No command fails in a part of the trace when none does in the whole. -/
theorem commandFailed_of_suffix {earlier trace : Trace} (part : earlier <:+ trace)
    (none : trace.commandFailed = false) : earlier.commandFailed = false := by
  induction trace with
  | nil =>
      obtain rfl := List.suffix_nil.mp part
      rfl
  | cons event rest ih =>
      have before : Trace.commandFailed rest = false := by
        cases event with
        | frame => exact none
        | called call answer =>
            cases call with
            | send item => exact (Bool.or_eq_false_iff.mp none).2
            | _ => exact none
      rcases List.suffix_cons_iff.mp part with rfl | older
      · exact none
      · exact ih older before

/-- Work starts only in a frame that the read loop hands on. -/
theorem startable_of_startsWork {v : FrameView} {call : Call} {answer : Answer call}
    (permitted : v.Permitted call) (starts : startsWork call answer = true) : v.Startable := by
  cases call with
  | tryStartCommand => exact permitted
  | execCommand command request => exact permitted.1
  | resolveFile command request => exact permitted.1
  | authenticate request => exact permitted.1
  | authorize credentials => exact permitted.1
  | parseMetadata bytes => exact permitted.1
  | outputRoot command => exact permitted.1
  | planRaznTarget metadata => exact permitted.1
  | planTlgTarget operatorName metadata => exact permitted.1.1
  | prepare fileSize => exact permitted.1
  | writeChunk chunk => exact permitted.1
  | publish => exact permitted.1
  | _ => nomatch starts

/-- A frame becomes one that is handed on when its header comes in. -/
theorem startable_next {v : FrameView} {call : Call} {answer : Answer call}
    (startable : (v.next call answer).Startable) :
    v.Startable ∨ ∃ header, v.headerOf call answer = some header ∧
      header.startsCommand v.before.authenticated = true := by
  cases call with
  | readExactly count =>
      cases answer with
      | none => exact .inl startable
      | some bytes =>
          cases known : v.header with
          | none =>
              obtain ⟨header, same, starts⟩ := startable
              simp only [FrameView.next, FrameView.read, known] at same starts
              obtain rfl := Option.some.inj same
              exact .inr ⟨_, by simp [FrameView.headerOf, known], starts⟩
          | some header =>
              simpa only [FrameView.Startable, FrameView.next, FrameView.read, known] using
                Or.inl startable
  | readSome limit => cases answer <;> exact .inl startable
  | authenticate request => cases answer <;> exact .inl startable
  | _ => exact .inl startable

/-- A header comes in once. -/
theorem unread_of_headerOf {v : FrameView} {call : Call} {answer : Answer call} {header : Header}
    (read : v.headerOf call answer = some header) : v.header = none := by
  unfold FrameView.headerOf at read
  split at read
  · cases known : v.header with
    | none => rfl
    | some earlier =>
        rw [known] at read
        nomatch read
  · nomatch read

/-- No command has failed when a frame is taken up that is handed on. -/
theorem Session.WriterIsFaster.commandFailed {action : Action} {header : Header}
    (faster : s.WriterIsFaster action) (read : s.headerRead action = some header)
    (starts : header.startsCommand s.credentials.authenticated = true) :
    s.trace.commandFailed = false := by
  unfold Session.WriterIsFaster at faster
  rw [read] at faster
  exact faster starts

/-- The header stays known. -/
theorem header_of_next {v : FrameView} {call : Call} {answer : Answer call}
    (unread : (v.next call answer).header = none) :
    v.header = none ∧ (v.next call answer).before = v.before := by
  cases call with
  | readExactly count =>
      cases answer with
      | none => exact ⟨unread, rfl⟩
      | some bytes => cases known : v.header <;> simp [FrameView.next, FrameView.read, known] at unread
  | readSome limit => cases answer <;> exact ⟨unread, rfl⟩
  | authenticate request => cases answer <;> exact ⟨unread, rfl⟩
  | _ => exact ⟨unread, rfl⟩

/-! ## Runs in which the writer is faster -/

/-- No terminal error was queued before a frame that is handed on. -/
structure Session.Clean (s : Session) : Prop where
  gated : s.Gated
  leaving : s.Leaving
  unread : (FrameView.of s.trace).header = none →
    (FrameView.of s.trace).credentials = (FrameView.of s.trace).before
  clean : ∀ earlier, earlier <:+ s.trace → (FrameView.of earlier).Startable →
    (Trace.earlierFrames earlier).terminalQueued = false

theorem clean_start (input : List Byte) (peerLocal : Bool) (otherCommands : Nat) (stopping : Bool) :
    (Session.start input peerLocal otherCommands stopping).Clean where
  gated := gated_start input peerLocal otherCommands stopping
  leaving := leaving_start input peerLocal otherCommands stopping
  unread _ := rfl
  clean earlier part _ := by
    obtain rfl := List.suffix_nil.mp part
    rfl

theorem Session.Clean.terminalErrorEnds (clean : s.Clean) : s.TerminalErrorEnds := by
  intro call answer earlier part starts
  have permitted := clean.gated.permitted call answer earlier part
  exact clean.clean earlier ((List.suffix_cons _ earlier).trans part)
    (startable_of_startsWork permitted starts)

theorem Session.Clean.step {action : Action} (clean : s.Clean) (faster : s.WriterIsFaster action)
    (stepped : s.step action = some next) : next.Clean := by
  have gated := clean.gated.step stepped
  have leaving := clean.leaving.step stepped
  cases Session.moved_of_step stepped with
  | began atTop alive eq =>
      subst eq
      refine ⟨gated, leaving, fun _ => rfl, fun earlier part startable => ?_⟩
      rcases List.suffix_cons_iff.mp part with rfl | older
      · obtain ⟨header, known, _⟩ := startable
        exact absurd known.symm (Option.some_ne_none header)
      · exact clean.clean earlier older startable
  | @answered call answer resume after chosen waiting performed eq =>
      subst eq chosen
      have follows := clean.gated.follows
      rw [waiting] at follows
      have permitted : (FrameView.of s.trace).Permitted call := follows.1
      have trace : after.trace = s.trace := by rw [Session.perform_eq performed]
      refine ⟨gated, leaving, ?_, ?_⟩
      · simp only [Session.resumeWith, trace, FrameView.of]
        intro unread
        obtain ⟨earlierUnread, before⟩ := header_of_next unread
        rw [FrameView.credentials_next, before, ← clean.unread earlierUnread]
        cases call with
        | authorize granted =>
            obtain ⟨⟨header, known, _⟩, _⟩ := permitted
            rw [earlierUnread] at known
            exact absurd known.symm (Option.some_ne_none header)
        | _ => rfl
      · simp only [Session.resumeWith, trace]
        intro earlier part startable
        rcases List.suffix_cons_iff.mp part with rfl | older
        · rcases startable_next startable with already | ⟨header, read, starts⟩
          · exact clean.clean s.trace List.suffix_rfl already
          · rw [← clean.unread (unread_of_headerOf read), ← clean.gated.credentials] at starts
            have unfailed := commandFailed_of_suffix (earlierFrames_suffix s.trace)
              (faster.commandFailed read starts)
            -- what the read loop queued itself would have been in its last frame
            change s.trace.earlierFrames.terminalQueued = false
            by_contra queued
            rw [commandFailed_earlierFrames clean.leaving.frames (by simpa using queued)] at unfailed
            cases unfailed
        · exact clean.clean earlier older startable
  | aside beside =>
      refine ⟨gated, leaving, ?_, ?_⟩
      · rw [beside.trace]
        exact clean.unread
      · rw [beside.trace]
        exact clean.clean

/-- In a run in which the writer is faster, a terminal error ends the session. -/
theorem terminalErrorEnds_of_writerIsFaster (input : List Byte) (peerLocal : Bool)
    (otherCommands : Nat) (stopping : Bool) (actions : List Action)
    (faster : Session.machine.Conforms Session.WriterIsFaster
      (Session.start input peerLocal otherCommands stopping) actions) :
    Session.machine.Throughout Session.TerminalErrorEnds
      (Session.start input peerLocal otherCommands stopping) actions :=
  Machine.throughout_of_conforms (fun _ clean => clean.terminalErrorEnds)
    (fun _ _ _ clean allowed stepped => clean.step allowed stepped)
    (clean_start input peerLocal otherCommands stopping) faster

/-- A client fails to authenticate; the error is queued and the read loop goes on. -/
def failsAuthentication : List Action :=
  [.nextFrame, takesHeader ⟨0, .authenticateV1⟩, .answer (.allocateRequestData 0) true,
    .answer .tryStartCommand true, .answer .credentials .initial, .answer .isArchiveMode false,
    .answer .isAuthInitialized true, .answer (.authenticate []) (.failed .invalidJson),
    .answer .typedErrorsEnabled false,
    .answer (.send (errorItem false .invalidJson true)) true,
    .answer .markTerminalErrorQueued (), .answer .finishCommand ()]

/-- A client that sends a registration right behind a failing authentication. -/
def pipelinedRegistration : Session :=
  Session.start (Header.bytes ⟨0, .authenticateV1⟩ ++ Header.bytes ⟨5, .userRegistry⟩ ++ adminName)
    true 0 false

/-- The writer sends the error and stops the session; the registration stays unread. -/
theorem terminalErrorEnds_of_writerIsFaster_stopped :
    Session.machine.Conforms Session.WriterIsFaster pipelinedRegistration
        (failsAuthentication ++ [.writerReceive, .writerWrite true, .nextFrame]) ∧
      Session.machine.Throughout Session.TerminalErrorEnds pipelinedRegistration
        (failsAuthentication ++ [.writerReceive, .writerWrite true, .nextFrame]) := by
  have faster : Session.machine.Conforms Session.WriterIsFaster pipelinedRegistration
      (failsAuthentication ++ [.writerReceive, .writerWrite true, .nextFrame]) := by decide +kernel
  exact ⟨faster, terminalErrorEnds_of_writerIsFaster _ true 0 false _ faster⟩

/-- Work started in a frame behind a terminal error. -/
def Trace.startsLate : Trace → Bool
  | [] => false
  | .frame :: earlier => Trace.startsLate earlier
  | .called call answer :: earlier =>
      (startsWork call answer && Trace.terminalQueued (Trace.earlierFrames earlier)) ||
        Trace.startsLate earlier

theorem not_startsLate (ends : s.TerminalErrorEnds) : s.trace.startsLate = false := by
  have parts : ∀ trace, trace <:+ s.trace → Trace.startsLate trace = false := by
    intro trace part
    induction trace with
    | nil => rfl
    | cons event earlier ih =>
        have rest := ih ((List.suffix_cons event earlier).trans part)
        cases event with
        | frame => exact rest
        | called call answer =>
            simp only [Trace.startsLate, Bool.or_eq_false_iff, Bool.and_eq_false_iff]
            refine ⟨?_, rest⟩
            cases starts : startsWork call answer with
            | false => exact .inl rfl
            | true => exact .inr (ends call answer earlier part starts)
  exact parts s.trace List.suffix_rfl

/-- The read loop is faster: "admin" is granted behind the terminal error. -/
theorem not_terminalErrorEnds_pipelinedRegistration :
    ∃ final, Session.machine.run pipelinedRegistration (failsAuthentication ++ registersAdmin) =
        some final ∧ final.credentials.adminSession = true ∧ ¬ final.TerminalErrorEnds := by
  have ends : (Session.machine.run pipelinedRegistration
      (failsAuthentication ++ registersAdmin)).map
      (fun final => (final.credentials.adminSession, final.trace.startsLate)) =
        some (true, true) := by decide +kernel
  obtain ⟨final, ran, values⟩ := Option.map_eq_some_iff.mp ends
  obtain ⟨admin, late⟩ := Prod.mk.inj values
  refine ⟨final, ran, admin, fun holds => ?_⟩
  rw [not_startsLate holds] at late
  nomatch late

end SearchEngine.Server
