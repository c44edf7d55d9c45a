import SearchEngine.Server.SessionGate

/-!
# The authentication gate of a session

A grant is a `USER_REGISTRY` of "admin" from the local peer or a successful
`AUTHENTICATE_V1`. In every run each handler that reads or changes data comes
after a grant of an earlier frame, the user name in use is that of the latest
grant, and an admin session is an authenticated local session of "admin".
-/

namespace SearchEngine.Server

open SearchEngine.Index SearchEngine.Lib

/-- The credentials that the latest grant set. -/
def Trace.credentials : Trace → Credentials
  | [] => .initial
  | .frame :: earlier => Trace.credentials earlier
  | .called call _ :: earlier => call.granted (Trace.credentials earlier)

/-- The event is a grant in a frame that the earlier events tell about. -/
def IsGrant (peerLocal : Bool) (granted : Credentials) (earlier : Trace) : Prop :=
  ((FrameView.of earlier).Registers granted ∧ peerLocal = true) ∨
    ((FrameView.of earlier).Authenticates granted ∧
      (granted.userName = adminName → peerLocal = true))

/-- A grant is among the events, and it is the latest. -/
def Trace.HasGrant (peerLocal : Bool) (trace : Trace) : Prop :=
  ∃ earlier, .called (.authorize trace.credentials) () :: earlier <:+ trace ∧
    IsGrant peerLocal trace.credentials earlier

/-- A handler that reads or changes data; of the commands only `PING` does neither. -/
def Call.handlesData : Call → Bool
  | .execCommand command _ => command ≠ .ping
  | .resolveFile _ _ => true
  | .parseMetadata _ => true
  | .outputRoot _ => true
  | .planRaznTarget _ => true
  | .planTlgTarget _ _ => true
  | .prepare _ => true
  | .writeChunk _ => true
  | .publish => true
  | _ => false

/-- A streaming or legacy upload. -/
def Header.isUpload (header : Header) : Bool :=
  isStreamingUploadCommand header.command || header.isLegacyUpload

/-- The call runs a handler, or starts an upload. -/
def RunsHandler (call : Call) (earlier : Trace) : Prop :=
  call.handlesData = true ∨
    (call = .tryStartCommand ∧
      ∃ header, (FrameView.of earlier).header = some header ∧ header.isUpload = true)

/-- The user name that a call hands on. -/
def Call.userName : Call → Option (List Byte)
  | .planTlgTarget operatorName _ => some operatorName
  | .logRequest request => some request.userName
  | _ => none

/-- The authentication gate. -/
structure Session.AuthenticationGate (s : Session) : Prop where
  /-- An admin session is an authenticated local session of "admin". -/
  adminSession : s.credentials.adminSession = true →
    s.credentials.authenticated = true ∧ s.peerLocal = true ∧ s.credentials.userName = adminName
  /-- The members are those of the latest grant. -/
  latest : s.credentials = s.trace.credentials
  /-- A handler runs after a grant of an earlier frame. -/
  handlers : ∀ call answer earlier, .called call answer :: earlier <:+ s.trace →
    RunsHandler call earlier → (Trace.earlierFrames earlier).HasGrant s.peerLocal
  /-- A handler uses the user name of the latest grant. -/
  names : ∀ call answer earlier, .called call answer :: earlier <:+ s.trace →
    ∀ userName, call.userName = some userName → userName = (Trace.credentials earlier).userName

variable {s : Session}

/-! ## Grants and credentials -/

theorem credentials_of (trace : Trace) : (FrameView.of trace).credentials = trace.credentials := by
  induction trace with
  | nil => rfl
  | cons event earlier ih =>
      cases event with
      | frame => exact ih
      | called call answer =>
          rw [FrameView.of, FrameView.credentials_next, ih]
          rfl

theorem before_of (trace : Trace) :
    (FrameView.of trace).before = trace.earlierFrames.credentials := by
  induction trace with
  | nil => rfl
  | cons event earlier ih =>
      cases event with
      | frame => exact credentials_of earlier
      | called call answer =>
          have kept : ((FrameView.of earlier).next call answer).before =
              (FrameView.of earlier).before := by
            have read : ∀ bytes, ((FrameView.of earlier).read bytes).before =
                (FrameView.of earlier).before := by
              intro bytes
              unfold FrameView.read
              split <;> rfl
            cases call with
            | readExactly count =>
                cases answer with
                | none => rfl
                | some bytes => exact read bytes.val
            | readSome limit => cases answer <;> rfl
            | authenticate request => cases answer <;> rfl
            | _ => rfl
          exact kept.trans ih

/-- Credentials that are not the initial ones were set by a call. -/
theorem authorized_of_authenticated {trace : Trace}
    (authenticated : trace.credentials.authenticated = true) :
    ∃ earlier, .called (.authorize trace.credentials) () :: earlier <:+ trace := by
  induction trace with
  | nil => nomatch authenticated
  | cons event earlier ih =>
      have longer : ∀ {old : Trace}, old <:+ earlier → old <:+ event :: earlier :=
        fun part => part.trans (List.suffix_cons event earlier)
      cases event with
      | frame =>
          obtain ⟨old, part⟩ := ih authenticated
          exact ⟨old, longer part⟩
      | called call answer =>
          cases call with
          | authorize granted => exact ⟨earlier, List.suffix_rfl⟩
          | _ =>
              obtain ⟨old, part⟩ := ih authenticated
              exact ⟨old, longer part⟩

/-- What a permitted `authorize` grants. -/
theorem Session.Gated.isGrant (gated : s.Gated) {granted : Credentials} {answer : Unit}
    {earlier : Trace} (part : .called (.authorize granted) answer :: earlier <:+ s.trace) :
    IsGrant s.peerLocal granted earlier := by
  have older : earlier <:+ s.trace := (List.suffix_cons _ earlier).trans part
  obtain ⟨_, registers | authenticates⟩ := gated.permitted (.authorize granted) answer earlier part
  · exact .inl ⟨registers, gated.localPeer earlier older registers.localPeer⟩
  · exact .inr ⟨authenticates, fun admin =>
      gated.localPeer earlier older (authenticates.localPeer admin)⟩

theorem Session.Gated.hasGrant (gated : s.Gated) {trace : Trace} (part : trace <:+ s.trace)
    (authenticated : trace.credentials.authenticated = true) : trace.HasGrant s.peerLocal := by
  obtain ⟨earlier, set⟩ := authorized_of_authenticated authenticated
  exact ⟨earlier, set, gated.isGrant (set.trans part)⟩

/-- Every grant leaves credentials whose flags fit its user name. -/
theorem IsGrant.adminSession {peerLocal : Bool} {granted : Credentials} {earlier : Trace}
    (grant : IsGrant peerLocal granted earlier) (admin : granted.adminSession = true) :
    granted.authenticated = true ∧ peerLocal = true ∧ granted.userName = adminName := by
  rcases grant with ⟨registers, isLocal⟩ | ⟨authenticates, isLocal⟩
  · rw [registers.granted]
    exact ⟨rfl, isLocal, rfl⟩
  · have flags := authenticates.granted
    have name : granted.userName = adminName := by
      rw [flags] at admin
      simpa using admin
    refine ⟨?_, isLocal name, name⟩
    rw [flags]

/-- An admin session was granted. -/
theorem authenticated_of_adminSession (gated : s.Gated) {trace : Trace} (part : trace <:+ s.trace)
    (admin : trace.credentials.adminSession = true) :
    trace.credentials.authenticated = true := by
  induction trace with
  | nil => nomatch admin
  | cons event earlier ih =>
      have older : earlier <:+ s.trace := (List.suffix_cons _ earlier).trans part
      cases event with
      | frame => exact ih older admin
      | called call answer =>
          cases call with
          | authorize granted => exact ((gated.isGrant part).adminSession admin).1
          | _ => exact ih older admin

/-! ## The gate -/

/-- An upload that starts passed the gate. -/
theorem authenticated_of_upload {header : Header} {authenticated : Bool}
    (upload : header.isUpload = true) (starts : header.startsCommand authenticated = true) :
    authenticated = true := by
  have notBootstrap : isSessionBootstrapCommand header.command = false := by
    cases command : header.command <;>
      simp_all [Header.isUpload, Header.isLegacyUpload, isStreamingUploadCommand] <;> rfl
  have allowed : (evaluateSessionCommandGate header.command authenticated).allowExecute = true := by
    simp only [Header.isUpload, Bool.or_eq_true] at upload
    simp only [Header.startsCommand] at starts
    split at starts
    · simp_all
    · simp_all
  exact ((allowExecute_iff _ _).mp allowed).resolve_left (by simp [notBootstrap])

/-- A handler is permitted only in a session that was authenticated before the frame. -/
theorem authenticated_of_runsHandler {call : Call} {earlier : Trace}
    (permitted : (FrameView.of earlier).Permitted call) (runs : RunsHandler call earlier) :
    (FrameView.of earlier).before.authenticated = true := by
  rcases runs with handles | ⟨rfl, header, known, upload⟩
  · cases call with
    | execCommand command request =>
        exact permitted.2.resolve_left (by simpa [Call.handlesData] using handles)
    | resolveFile command request => exact permitted.2
    | parseMetadata bytes => exact permitted.2
    | outputRoot command => exact permitted.2
    | planRaznTarget metadata => exact permitted.2
    | planTlgTarget operatorName metadata => exact permitted.1.2
    | prepare fileSize => exact permitted.2
    | writeChunk chunk => exact permitted.2
    | publish => exact permitted.2
    | _ => nomatch handles
  · obtain ⟨found, same, starts⟩ := permitted
    obtain rfl : found = header := Option.some.inj (same.symm.trans known)
    exact authenticated_of_upload upload starts

/-- A user name that is handed on is the current one. -/
theorem userName_of_permitted {call : Call} {earlier : Trace}
    (permitted : (FrameView.of earlier).Permitted call) {userName : List Byte}
    (named : call.userName = some userName) : userName = (Trace.credentials earlier).userName := by
  rw [← credentials_of]
  cases call with
  | planTlgTarget operatorName metadata =>
      obtain rfl := Option.some.inj named
      exact permitted.2
  | logRequest request =>
      obtain rfl := Option.some.inj named
      exact permitted
  | _ => nomatch named

theorem Session.Gated.authenticationGate (gated : s.Gated) : s.AuthenticationGate := by
  have latest : s.credentials = s.trace.credentials := gated.credentials.trans (credentials_of s.trace)
  refine ⟨fun admin => ?_, latest, ?_, ?_⟩
  · rw [latest] at admin ⊢
    have authenticated := authenticated_of_adminSession gated List.suffix_rfl admin
    obtain ⟨earlier, _, grant⟩ := gated.hasGrant List.suffix_rfl authenticated
    exact grant.adminSession admin
  · intro call answer earlier part runs
    have permitted := gated.permitted call answer earlier part
    have authenticated := authenticated_of_runsHandler permitted runs
    rw [before_of] at authenticated
    refine gated.hasGrant ?_ authenticated
    exact (earlierFrames_suffix earlier).trans ((List.suffix_cons _ earlier).trans part)
  · intro call answer earlier part userName named
    exact userName_of_permitted (gated.permitted call answer earlier part) named

/-- The gate holds whatever the client sends, the handlers answer and the loops do. -/
theorem authenticationGate_of_run (input : List Byte) (peerLocal : Bool) (otherCommands : Nat)
    (stopping : Bool) (actions : List Action) (final : Session)
    (ran : Session.machine.run (Session.start input peerLocal otherCommands stopping) actions =
      some final) : final.AuthenticationGate :=
  (gated_of_run ran).authenticationGate

/-- An update is asked for in archive mode. -/
def asksForUpdate : List Action :=
  [.nextFrame, takesHeader ⟨0, .startUpdateBase⟩, .answer (.allocateRequestData 0) true,
    .answer .tryStartCommand true, .answer .credentials ⟨adminName, true, true⟩,
    .answer .isArchiveMode true, .answer (.execCommand .startUpdateBase []) (.ok [])]

theorem authenticationGate_of_run_adminUpdate :
    ∃ final, Session.machine.run
        (Session.start (Header.bytes ⟨5, .userRegistry⟩ ++ adminName ++
          Header.bytes ⟨0, .startUpdateBase⟩) true 0 false) (registersAdmin ++ asksForUpdate) =
        some final ∧ final.credentials.adminSession = true ∧ final.AuthenticationGate := by
  have ends : (Session.machine.run
      (Session.start (Header.bytes ⟨5, .userRegistry⟩ ++ adminName ++
        Header.bytes ⟨0, .startUpdateBase⟩) true 0 false) (registersAdmin ++ asksForUpdate)).map
      (fun final => final.credentials.adminSession) = some true := by decide +kernel
  obtain ⟨final, ran, admin⟩ := Option.map_eq_some_iff.mp ends
  exact ⟨final, ran, admin, authenticationGate_of_run _ _ _ _ _ final ran⟩

end SearchEngine.Server
