import SearchEngine.Lib.Machine
import SearchEngine.Server.Session

/-!
# A session as a system

The read loop, the write loop and `stop` share the write channel, the socket and
the flags of a session; other sessions share `ServerActivity`. One action answers
the call the read loop waits in, or is one step of the writer, of `stop` or of
another session, so a schedule is any interleaving of them. `stopOnExecutor`
closes the channel and the socket together, and `stopped` stands for all three.
-/

namespace SearchEngine.Server

open SearchEngine.Index SearchEngine.Lib

/-- What the read loop has done; a new frame begins when the loop condition holds. -/
inductive Event where
  | frame
  | called (call : Call) (answer : Answer call)

/-- The events of a session, newest first. -/
abbrev Trace := List Event

/-- The events before the current frame. -/
def Trace.earlierFrames : Trace → Trace
  | [] => []
  | .frame :: earlier => earlier
  | .called _ _ :: earlier => Trace.earlierFrames earlier

theorem earlierFrames_suffix (trace : Trace) : trace.earlierFrames <:+ trace := by
  induction trace with
  | nil => exact List.suffix_rfl
  | cons event earlier ih =>
      cases event with
      | frame => exact List.suffix_cons _ earlier
      | called call answer => exact ih.trans (List.suffix_cons _ earlier)

/-- `ServerActivity`; the count of open sessions is only waited for. -/
structure ServerActivity where
  activeCommands : Nat
  stopping : Bool
  deriving DecidableEq

namespace ServerActivity

/-- `tryStartCommand`; the first part is its result. -/
def tryStartCommand (activity : ServerActivity) : Bool × ServerActivity :=
  if activity.stopping then (false, activity)
  else (true, { activity with activeCommands := activity.activeCommands + 1 })

/-- `finishCommand`. -/
def finishCommand (activity : ServerActivity) : ServerActivity :=
  if 0 < activity.activeCommands then
    { activity with activeCommands := activity.activeCommands - 1 }
  else activity

@[simp] theorem activeCommands_finishCommand (activity : ServerActivity) :
    activity.finishCommand.activeCommands = activity.activeCommands - 1 := by
  unfold finishCommand
  split
  · rfl
  · omega

/-- A started command is counted. -/
theorem tryStartCommand_of_started {activity : ServerActivity}
    (started : activity.tryStartCommand.1 = true) :
    activity.tryStartCommand.2.activeCommands = activity.activeCommands + 1 := by
  unfold tryStartCommand at started ⊢
  split
  case isTrue stopping =>
    rw [if_pos stopping] at started
    nomatch started
  case isFalse => rfl

/-- A refused command is not counted. -/
theorem tryStartCommand_of_refused {activity : ServerActivity}
    (refused : activity.tryStartCommand.1 = false) : activity.tryStartCommand.2 = activity := by
  unfold tryStartCommand at refused ⊢
  split
  case isTrue => rfl
  case isFalse running =>
    rw [if_neg running] at refused
    nomatch refused

/-- `stopAccepting`. -/
def stopAccepting (activity : ServerActivity) : ServerActivity := { activity with stopping := true }

end ServerActivity

/-- The bytes that an answer brings in. -/
def bytesOf : (call : Call) → Answer call → List Byte
  | .readExactly _, some bytes => bytes.val
  | .readSome _, some bytes => bytes.val
  | _, _ => []

/-- The item that a call queues. -/
def queuedBy : (call : Call) → Answer call → List WriteItem
  | .send item, true => [item]
  | _, _ => []

/-- Where the read loop stands: at its condition, waiting for an answer, returned,
or completed. -/
inductive Reader where
  | loopTop
  | waiting (call : Call) (resume : Answer call → Task Bool)
  | returned
  | finished

/-- The read loop goes on with what is left of a frame. -/
def Reader.ofTask : Task Bool → Reader
  | .done true => .loopTop
  | .done false => .returned
  | .raise _ => .returned
  | .suspend call resume => .waiting call resume

/-- Where `writeLoop` stands. -/
inductive Writer where
  | loopTop
  | writing (item : WriteItem)
  | returned
  | finished
  deriving DecidableEq

/-- `session` with the socket behind it. `input` is what the client sends and was not
read; `otherCommands` counts the commands of other sessions; `trace` and `written`
record what happened. -/
structure Session where
  input : List Byte
  peerLocal : Bool
  credentials : Credentials
  typedErrorsEnabled : Bool
  terminalErrorQueued : Bool
  stopped : Bool
  writeChannel : List WriteItem
  activity : ServerActivity
  otherCommands : Nat
  reader : Reader
  writer : Writer
  trace : Trace
  written : List WriteItem

/-- What the scheduler chooses. -/
inductive Action where
  | nextFrame
  | answer (call : Call) (answer : Answer call)
  | completeReader
  | writerReceive
  | writerWrite (sent : Bool)
  | completeWriter
  | stop
  | stopAccepting
  | otherStarts
  | otherFinishes

/-- The header of a frame comes in. -/
def takesHeader (header : Header) : Action :=
  .answer (.readExactly Header.wireSize)
    (some ⟨header.bytes, by simp [Header.bytes, Header.wireSize]⟩)

namespace Session

variable {s : Session}

/-- A session as it is accepted; the server may be stopping already. -/
def start (input : List Byte) (peerLocal : Bool) (otherCommands : Nat) (stopping : Bool) : Session where
  input := input
  peerLocal := peerLocal
  credentials := .initial
  typedErrorsEnabled := false
  terminalErrorQueued := false
  stopped := false
  writeChannel := []
  activity := ⟨otherCommands, stopping⟩
  otherCommands := otherCommands
  reader := .loopTop
  writer := .loopTop
  trace := []
  written := []

/-- `stopOnExecutor`. -/
def stopOnExecutor (s : Session) : Session := { s with stopped := true }

/-- Take the next bytes off the socket. -/
def takeInput (s : Session) (bytes : List Byte) : Option Session :=
  if s.stopped = false ∧ bytes <+: s.input then
    some { s with input := s.input.drop bytes.length }
  else none

/-- `async_send`; it waits while the channel is full and fails once it is closed. -/
def sendItem (s : Session) (item : WriteItem) : Bool → Option Session
  | true =>
      if s.stopped = false ∧ s.writeChannel.length < writeChannelCapacity then
        some { s with writeChannel := s.writeChannel ++ [item] }
      else none
  | false => if s.stopped then some s else none

/-- What a call does to the session; `none` is an answer that cannot come. -/
def perform (s : Session) : (call : Call) → Answer call → Option Session
  | .readExactly _, none => some s
  | .readExactly _, some bytes => s.takeInput bytes.val
  | .readSome _, none => some s
  | .readSome _, some bytes => s.takeInput bytes.val
  | .allocateRequestData size, allocated => if allocated || size ≠ 0 then some s else none
  | .allocateMetadata size, allocated => if allocated || size ≠ 0 then some s else none
  | .send item, queued => s.sendItem item queued
  | .typedErrorsEnabled, enabled => if s.typedErrorsEnabled = enabled then some s else none
  | .enableTypedErrors, _ => some { s with typedErrorsEnabled := true }
  | .markTerminalErrorQueued, _ => some { s with terminalErrorQueued := true }
  | .credentials, credentials => if s.credentials = credentials then some s else none
  | .authorize credentials, _ => some { s with credentials := credentials }
  | .isLocalAdminPeer, isLocal => if s.peerLocal || !isLocal then some s else none
  | .tryStartCommand, started =>
      if s.activity.tryStartCommand.1 = started then
        some { s with activity := s.activity.tryStartCommand.2 }
      else none
  | .finishCommand, _ => some { s with activity := s.activity.finishCommand }
  | .isArchiveMode, _ => some s
  | .execCommand _ _, _ => some s
  | .resolveFile _ _, _ => some s
  | .isAuthInitialized, _ => some s
  | .authenticate _, _ => some s
  | .parseClientName _, _ => some s
  | .parseMetadata _, _ => some s
  | .outputRoot _, _ => some s
  | .planRaznTarget _, _ => some s
  | .planTlgTarget _ _, _ => some s
  | .prepare _, _ => some s
  | .writeChunk _, _ => some s
  | .publish, _ => some s
  | .abort, _ => some s
  | .logRequest _, _ => some s

/-- Record an event and go on with the rest of the frame. -/
def resumeWith (s : Session) (event : Event) (task : Task Bool) : Session :=
  { s with trace := event :: s.trace, reader := .ofTask task }

/-- The answer to the pending call. -/
def answerCall (s : Session) (call : Call) (answer : Answer call) : Option Session :=
  match s.reader with
  | .waiting pending resume =>
      if same : pending = call then
        (s.perform call answer).map fun next =>
          next.resumeWith (.called call answer) (resume (same ▸ answer))
      else none
  | _ => none

/-- `while (!stopped_ && socket_.is_open())` of the read loop. -/
def nextFrame (s : Session) : Option Session :=
  match s.reader with
  | .loopTop =>
      if s.stopped then some { s with reader := .returned }
      else some (s.resumeWith .frame readFrame)
  | _ => none

/-- The completion handler of the read loop. -/
def completeReader (s : Session) : Option Session :=
  match s.reader with
  | .returned =>
      some (if s.terminalErrorQueued then { s with reader := .finished }
        else { s.stopOnExecutor with reader := .finished })
  | _ => none

/-- The condition of the write loop and `async_receive`. -/
def writerReceive (s : Session) : Option Session :=
  match s.writer with
  | .loopTop =>
      if s.stopped then some { s with writer := .returned }
      else
        match s.writeChannel with
        | [] => none
        | item :: rest => some { s with writeChannel := rest, writer := .writing item }
  | _ => none

/-- The writer is done with an item: `sent`, or the socket or the file failed. -/
def writerWrite (s : Session) (sent : Bool) : Option Session :=
  match s.writer with
  | .writing item =>
      if sent then
        if s.stopped then none
        else if item.closesAfterWrite then
          some { s.stopOnExecutor with written := s.written ++ [item], writer := .returned }
        else some { s with written := s.written ++ [item], writer := .loopTop }
      else
        match item with
        | .fileTransfer _ => some { s.stopOnExecutor with writer := .returned }
        | _ => some { s with writer := .returned }
  | _ => none

/-- The completion handler of the write loop. -/
def completeWriter (s : Session) : Option Session :=
  match s.writer with
  | .returned => some { s.stopOnExecutor with writer := .finished }
  | _ => none

/-- One action. -/
def step (s : Session) : Action → Option Session
  | .nextFrame => s.nextFrame
  | .answer call answer => s.answerCall call answer
  | .completeReader => s.completeReader
  | .writerReceive => s.writerReceive
  | .writerWrite sent => s.writerWrite sent
  | .completeWriter => s.completeWriter
  | .stop => some s.stopOnExecutor
  | .stopAccepting => some { s with activity := s.activity.stopAccepting }
  | .otherStarts =>
      if s.activity.tryStartCommand.1 then
        some { s with
          activity := s.activity.tryStartCommand.2
          otherCommands := s.otherCommands + 1 }
      else none
  | .otherFinishes =>
      if 0 < s.otherCommands then
        some { s with
          activity := s.activity.finishCommand
          otherCommands := s.otherCommands - 1 }
      else none

/-- A session and everything it shares. -/
def machine : Machine Session Action where
  step := step

/-! ## What an action changes -/

variable {next : Session} {call : Call} {answer : Answer call} {action : Action}

theorem takeInput_eq {bytes : List Byte} (taken : s.takeInput bytes = some next) :
    next = { s with input := s.input.drop bytes.length } ∧ bytes <+: s.input := by
  unfold takeInput at taken
  split at taken
  case isTrue available => exact ⟨(Option.some.inj taken).symm, available.2⟩
  case isFalse => nomatch taken

theorem sendItem_eq {item : WriteItem} {queued : Bool} (sent : s.sendItem item queued = some next) :
    next = { s with writeChannel := if queued then s.writeChannel ++ [item] else s.writeChannel } ∧
      (queued = false → s.stopped = true) := by
  cases queued with
  | true =>
      simp only [sendItem] at sent
      split at sent
      · exact ⟨(Option.some.inj sent).symm, fun wrong => nomatch wrong⟩
      · nomatch sent
  | false =>
      simp only [sendItem] at sent
      split at sent
      case isTrue stopped => exact ⟨(Option.some.inj sent).symm, fun _ => stopped⟩
      case isFalse => nomatch sent

/-- An answer changes nothing that belongs to the loops. -/
theorem perform_eq (done : s.perform call answer = some next) :
    next = { s with
      input := next.input
      credentials := next.credentials
      typedErrorsEnabled := next.typedErrorsEnabled
      terminalErrorQueued := next.terminalErrorQueued
      writeChannel := next.writeChannel
      activity := next.activity } := by
  unfold perform at done
  split at done
  all_goals first
    | (obtain rfl := Option.some.inj done; rfl)
    | (obtain ⟨same, _⟩ := takeInput_eq done; subst same; rfl)
    | (obtain ⟨same, _⟩ := sendItem_eq done; subst same; rfl)
    | (split at done
       · obtain rfl := Option.some.inj done
         rfl
       · nomatch done)

/-- The bytes of an answer come off the stream. -/
theorem input_perform (done : s.perform call answer = some next) :
    bytesOf call answer ++ next.input = s.input := by
  have read : ∀ {bytes}, s.takeInput bytes = some next → bytes ++ next.input = s.input := by
    intro bytes taken
    obtain ⟨rfl, rest, same⟩ := takeInput_eq taken
    rw [← same, List.drop_left]
  unfold perform at done
  split at done
  all_goals first
    | exact read done
    | (obtain rfl := Option.some.inj done; rfl)
    | (obtain ⟨rfl, _⟩ := sendItem_eq done; rfl)
    | (split at done
       · obtain rfl := Option.some.inj done
         rfl
       · nomatch done)

/-- The item of an answer goes into the channel. -/
theorem writeChannel_perform (done : s.perform call answer = some next) :
    next.writeChannel = s.writeChannel ++ queuedBy call answer := by
  unfold perform at done
  split at done
  case h_7 item queued =>
    rw [(sendItem_eq done).1]
    cases queued with
    | true => rfl
    | false => simp [queuedBy]
  all_goals simp only [queuedBy, List.append_nil]
  all_goals first
    | (obtain rfl := Option.some.inj done; rfl)
    | (obtain ⟨rfl, _⟩ := takeInput_eq done; rfl)
    | (split at done
       · obtain rfl := Option.some.inj done
         rfl
       · nomatch done)

/-- Only starting and finishing a command touch `ServerActivity`. -/
theorem activity_perform (done : s.perform call answer = some next)
    (notStart : call ≠ .tryStartCommand) (notFinish : call ≠ .finishCommand) :
    next.activity = s.activity := by
  unfold perform at done
  split at done
  all_goals first
    | exact absurd rfl notStart
    | exact absurd rfl notFinish
    | (obtain rfl := Option.some.inj done; rfl)
    | (obtain ⟨rfl, _⟩ := takeInput_eq done; rfl)
    | (obtain ⟨rfl, _⟩ := sendItem_eq done; rfl)
    | (split at done
       · obtain rfl := Option.some.inj done
         rfl
       · nomatch done)

/-- The items were queued in this order: what was written, what is being written or
was lost with the writer, and what waits in the channel. -/
def Delivered (s : Session) (items : List WriteItem) : Prop :=
  ∃ between, s.written ++ between ++ s.writeChannel = items ∧
    match s.writer with
    | .loopTop => between = []
    | .writing item => between = [item]
    | .returned => True
    | .finished => True

/-- A step of the writer, of `stop`, of another session, or of the read loop leaving. -/
structure Aside (s next : Session) : Prop where
  trace : next.trace = s.trace
  credentials : next.credentials = s.credentials
  peerLocal : next.peerLocal = s.peerLocal
  input : next.input = s.input
  stopped : s.stopped = true → next.stopped = true
  reader : next.reader = s.reader ∨ next.reader = .returned ∨ next.reader = .finished
  activity : s.otherCommands ≤ s.activity.activeCommands →
    next.activity.activeCommands + s.otherCommands =
      s.activity.activeCommands + next.otherCommands
  delivered : ∀ items, s.Delivered items → next.Delivered items

/-- The ways a session moves. -/
inductive Moved (s : Session) (action : Action) (next : Session) : Prop where
  | began (atTop : s.reader = .loopTop) (alive : s.stopped = false)
      (eq : next = s.resumeWith .frame readFrame)
  | answered {call : Call} {answer : Answer call} {resume : Answer call → Task Bool} {after : Session}
      (chosen : action = .answer call answer) (waiting : s.reader = .waiting call resume)
      (performed : s.perform call answer = some after)
      (eq : next = after.resumeWith (.called call answer) (resume answer))
  | aside (beside : Aside s next)

/-- The action leaves the reader and `ServerActivity` alone. -/
theorem Aside.plain (trace : next.trace = s.trace) (credentials : next.credentials = s.credentials)
    (peerLocal : next.peerLocal = s.peerLocal) (input : next.input = s.input)
    (stopped : s.stopped = true → next.stopped = true)
    (reader : next.reader = s.reader ∨ next.reader = .returned ∨ next.reader = .finished)
    (activity : next.activity.activeCommands = s.activity.activeCommands)
    (others : next.otherCommands = s.otherCommands)
    (delivered : ∀ items, s.Delivered items → next.Delivered items) : Aside s next :=
  ⟨trace, credentials, peerLocal, input, stopped, reader, fun _ => by rw [activity, others],
    delivered⟩

theorem moved_of_nextFrame (stepped : s.nextFrame = some next) : Moved s action next := by
  unfold nextFrame at stepped
  split at stepped
  case h_1 atTop =>
    split at stepped
    case isTrue =>
      obtain rfl := Option.some.inj stepped
      exact .aside (.plain rfl rfl rfl rfl id (.inr (.inl rfl)) rfl rfl fun _ same => same)
    case isFalse alive =>
      exact .began atTop (by simpa using alive) (Option.some.inj stepped).symm
  case h_2 => nomatch stepped

theorem moved_of_answerCall (stepped : s.answerCall call answer = some next) :
    Moved s (.answer call answer) next := by
  unfold answerCall at stepped
  split at stepped
  case h_1 pending resume waiting =>
    split at stepped
    case isTrue same =>
      subst same
      obtain ⟨after, performed, rfl⟩ := Option.map_eq_some_iff.mp stepped
      exact .answered rfl waiting performed rfl
    case isFalse => nomatch stepped
  case h_2 => nomatch stepped

theorem aside_of_completeReader (stepped : s.completeReader = some next) : Aside s next := by
  unfold completeReader at stepped
  split at stepped
  case h_1 =>
    obtain rfl := Option.some.inj stepped
    split
    · exact .plain rfl rfl rfl rfl id (.inr (.inr rfl)) rfl rfl fun _ same => same
    · exact .plain rfl rfl rfl rfl (fun _ => rfl) (.inr (.inr rfl)) rfl rfl fun _ same => same
  case h_2 => nomatch stepped

theorem aside_of_writerReceive (stepped : s.writerReceive = some next) : Aside s next := by
  unfold writerReceive at stepped
  split at stepped
  case h_1 atTop =>
    have empty : ∀ {items}, s.Delivered items → s.written ++ s.writeChannel = items := by
      rintro items ⟨between, order, place⟩
      rw [atTop] at place
      subst place
      simpa using order
    split at stepped
    case isTrue =>
      obtain rfl := Option.some.inj stepped
      refine .plain rfl rfl rfl rfl id (.inl rfl) rfl rfl fun items delivered => ?_
      exact ⟨[], by simpa using empty delivered, trivial⟩
    case isFalse =>
      split at stepped
      case h_1 => nomatch stepped
      case h_2 item rest channel =>
        obtain rfl := Option.some.inj stepped
        refine .plain rfl rfl rfl rfl id (.inl rfl) rfl rfl fun items delivered => ?_
        refine ⟨[item], ?_, rfl⟩
        rw [← empty delivered, channel]
        simp
  case h_2 => nomatch stepped

/-- The writer leaves. -/
theorem delivered_returned (stopped : Bool) {items : List WriteItem} (delivered : s.Delivered items) :
    Delivered { s with stopped := stopped, writer := .returned } items := by
  obtain ⟨between, order, _⟩ := delivered
  exact ⟨between, order, trivial⟩

/-- The item that is being written follows what was written. -/
theorem delivered_writing {item : WriteItem} (writing : s.writer = .writing item)
    {items : List WriteItem} (delivered : s.Delivered items) :
    s.written ++ [item] ++ s.writeChannel = items := by
  obtain ⟨between, order, place⟩ := delivered
  rw [writing] at place
  exact place ▸ order

theorem aside_of_writerWrite {sent : Bool} (stepped : s.writerWrite sent = some next) :
    Aside s next := by
  unfold writerWrite at stepped
  split at stepped
  case h_1 item writing =>
    cases sent with
    | true =>
        simp only [if_true] at stepped
        split at stepped
        case isTrue => nomatch stepped
        case isFalse =>
          split at stepped
          case isTrue =>
            obtain rfl := Option.some.inj stepped
            refine .plain rfl rfl rfl rfl (fun _ => rfl) (.inl rfl) rfl rfl fun items delivered => ?_
            exact ⟨[], by simpa [stopOnExecutor] using delivered_writing writing delivered, trivial⟩
          case isFalse =>
            obtain rfl := Option.some.inj stepped
            refine .plain rfl rfl rfl rfl id (.inl rfl) rfl rfl fun items delivered => ?_
            exact ⟨[], by simpa using delivered_writing writing delivered, rfl⟩
    | false =>
        cases item with
        | fileTransfer header =>
            obtain rfl := Option.some.inj stepped
            exact .plain rfl rfl rfl rfl (fun _ => rfl) (.inl rfl) rfl rfl fun _ =>
              delivered_returned true
        | responseWrite header payload =>
            obtain rfl := Option.some.inj stepped
            exact .plain rfl rfl rfl rfl id (.inl rfl) rfl rfl fun _ => delivered_returned _
        | errorWrite header payload closeAfterWrite =>
            obtain rfl := Option.some.inj stepped
            exact .plain rfl rfl rfl rfl id (.inl rfl) rfl rfl fun _ => delivered_returned _
  case h_2 => nomatch stepped

theorem aside_of_completeWriter (stepped : s.completeWriter = some next) : Aside s next := by
  unfold completeWriter at stepped
  split at stepped
  case h_1 =>
    obtain rfl := Option.some.inj stepped
    refine .plain rfl rfl rfl rfl (fun _ => rfl) (.inl rfl) rfl rfl fun items delivered => ?_
    obtain ⟨between, order, _⟩ := delivered
    exact ⟨between, order, trivial⟩
  case h_2 => nomatch stepped

theorem moved_of_step (stepped : s.step action = some next) : Moved s action next := by
  cases action with
  | nextFrame => exact moved_of_nextFrame stepped
  | answer call answer => exact moved_of_answerCall stepped
  | completeReader => exact .aside (aside_of_completeReader stepped)
  | writerReceive => exact .aside (aside_of_writerReceive stepped)
  | writerWrite sent => exact .aside (aside_of_writerWrite stepped)
  | completeWriter => exact .aside (aside_of_completeWriter stepped)
  | stop =>
      obtain rfl := Option.some.inj stepped
      exact .aside (.plain rfl rfl rfl rfl (fun _ => rfl) (.inl rfl) rfl rfl fun _ same => same)
  | stopAccepting =>
      obtain rfl := Option.some.inj stepped
      exact .aside (.plain rfl rfl rfl rfl id (.inl rfl) rfl rfl fun _ same => same)
  | otherStarts =>
      simp only [step] at stepped
      split at stepped
      case isTrue accepted =>
        obtain rfl := Option.some.inj stepped
        refine .aside ⟨rfl, rfl, rfl, rfl, id, .inl rfl, fun _ => ?_, fun _ same => same⟩
        simp only [ServerActivity.tryStartCommand_of_started accepted]
        omega
      case isFalse => nomatch stepped
  | otherFinishes =>
      simp only [step] at stepped
      split at stepped
      case isTrue others =>
        obtain rfl := Option.some.inj stepped
        refine .aside ⟨rfl, rfl, rfl, rfl, id, .inl rfl, fun enough => ?_, fun _ same => same⟩
        simp only [ServerActivity.activeCommands_finishCommand]
        omega
      case isFalse => nomatch stepped

/-! ## Frames under a contract -/

variable {View : Type} {contract : Contract Call Answer View}
  {post : Except Thrown Bool → View → Prop}

/-- What is left of the current frame meets the contract. -/
def Follows (contract : Contract Call Answer View) (post : Except Thrown Bool → View → Prop)
    (view : View) : Reader → Prop
  | .waiting call resume => (Coroutine.suspend call resume).Meets contract post view
  | _ => True

/-- A coroutine that meets the contract is followed. -/
theorem follows_ofTask {task : Task Bool} {view : View} (met : task.Meets contract post view) :
    Follows contract post view (.ofTask task) := by
  cases task with
  | done result => cases result <;> trivial
  | raise thrown => trivial
  | suspend call resume => exact met

end Session

/-- Five bytes come in. -/
def takesAdminName : Action := .answer (.readSome 5) (some ⟨adminName, by decide⟩)

/-- A local "admin" registers. -/
def registersAdmin : List Action :=
  [.nextFrame, takesHeader ⟨5, .userRegistry⟩, .answer (.allocateRequestData 5) true,
    takesAdminName, .answer .tryStartCommand true,
    .answer .credentials .initial, .answer .isArchiveMode true, .answer .isLocalAdminPeer true,
    .answer (.authorize ⟨adminName, true, true⟩) (),
    .answer (.send (.responseWrite ⟨2, .userRegistry⟩ (Word.ofAscii "OK"))) true,
    .answer .credentials ⟨adminName, true, true⟩,
    .answer (.logRequest ⟨adminName, adminName, .userRegistry⟩) (), .answer .finishCommand ()]

end SearchEngine.Server
