import SearchEngine.Auth.ClientStore
import SearchEngine.Lib.Separated

/-!
# AUTHENTICATE_V1

The command reads an identity and a signature, compares the identity with the row of its
client, and verifies the signature over the signing message. What it accepts is what
`upsertClient` admits; a message leaves no doubt about the identity as long as no line
break in a field can be taken for one between fields.
-/

namespace SearchEngine.Auth

open SearchEngine.Lib

/-! ## The command -/

/-- The error codes of the command. -/
inductive AuthErrorCode where
  | invalidJson
  | authClientIdMissing
  | authClientNameMissing
  | authDeviceTypeMissing
  | authDeviceIdMissing
  | authSignatureMissing
  | invalidRequest
  | authClientIdNotFound
  | authClientDisabled
  | authClientNameMismatch
  | authDeviceTypeMismatch
  | authDeviceIdMismatch
  | databaseQueryFailed
  | configurationError
  | authSignatureInvalid
deriving DecidableEq

/-- A failed command with its diagnostic. -/
structure AuthFailure where
  error : AuthErrorCode
  diagnostic : Text
deriving DecidableEq

/-- The members of the request that are read. -/
structure AuthRequest where
  clientId : Field Text
  clientName : Field Text
  deviceType : Field Text
  deviceId : Field Text
  signature : Field Text

/-- The payload: not JSON, with the message of the parser, another value, or an object. -/
inductive AuthPayload where
  | unparsed (what : Text)
  | notObject
  | object (request : AuthRequest)

/-- `IAuthSignatureVerifier`; `verifies` decides over a message and a signature. -/
structure SignatureVerifier where
  configurationError : Option Text
  verifies : Text → Text → Bool

def SignatureVerifier.verify (verifier : SignatureVerifier) (identity : TokenFields) (signature : Text) : Bool :=
  verifier.verifies (buildIdentitySigningMessage identity) signature

/-- `readRequiredString`, with the failure of a missing member. -/
def readRequiredString (error : AuthErrorCode) (name : String) : Field Text → Except AuthFailure Text
  | .present value =>
      if value.isEmpty then .error ⟨error, ("AUTHENTICATE_V1 " ++ name ++ " is missing or empty").toList⟩
      else .ok value
  | .absent | .mistyped => .error ⟨error, ("AUTHENTICATE_V1 " ++ name ++ " is missing or empty").toList⟩

def readSignature : Field Text → Except AuthFailure Text
  | .absent => .error ⟨.authSignatureMissing, "AUTHENTICATE_V1 signature is missing".toList⟩
  | .mistyped => .error ⟨.invalidRequest, "AUTHENTICATE_V1 signature must be a string".toList⟩
  | .present value =>
      if value.isEmpty then .error ⟨.authSignatureMissing, "AUTHENTICATE_V1 signature is empty".toList⟩ else .ok value

/-- The checks against the row of the client. -/
def checkClient (found : Option ClientRow) (identity : TokenFields) : Except AuthFailure Unit :=
  match found with
  | none => .error ⟨.authClientIdNotFound, "auth client_id not found: ".toList ++ identity.clientId⟩
  | some row =>
      if !row.enabled then .error ⟨.authClientDisabled, "auth client is disabled: ".toList ++ identity.clientId⟩
      else if row.clientName ≠ identity.clientName then
        .error ⟨.authClientNameMismatch, "auth client_name mismatch for client_id: ".toList ++ identity.clientId⟩
      else if row.deviceType ≠ identity.deviceType then
        .error ⟨.authDeviceTypeMismatch, "auth device_type mismatch for client_id: ".toList ++ identity.clientId⟩
      else if row.deviceId ≠ identity.deviceId then
        .error ⟨.authDeviceIdMismatch, "auth device_id mismatch for client_id: ".toList ++ identity.clientId⟩
      else .ok ()

/-- The checks of the verifier. -/
def checkVerifier (verifier : SignatureVerifier) (identity : TokenFields) (signature : Text) :
    Except AuthFailure Unit :=
  match verifier.configurationError with
  | some error => .error ⟨.configurationError, error⟩
  | none =>
      if verifier.verify identity signature then .ok ()
      else .error ⟨.authSignatureInvalid, "auth signature rejected for client_id: ".toList ++ identity.clientId⟩

/-- `AuthenticateCmd::executeResult`; `lookupError` is what the store throws, the result the
identity that is answered. -/
def executeResult (store : AuthClientStore) (lookupError : Option Text) (verifier : SignatureVerifier) :
    AuthPayload → Except AuthFailure TokenFields
  | .unparsed what => .error ⟨.invalidJson, "AUTHENTICATE_V1 JSON parse failed: ".toList ++ what⟩
  | .notObject => .error ⟨.invalidJson, "AUTHENTICATE_V1 payload must be a JSON object".toList⟩
  | .object request => do
      let clientId ← readRequiredString .authClientIdMissing "client_id" request.clientId
      let clientName ← readRequiredString .authClientNameMissing "client_name" request.clientName
      let deviceType ← readRequiredString .authDeviceTypeMissing "device_type" request.deviceType
      let deviceId ← readRequiredString .authDeviceIdMissing "device_id" request.deviceId
      let signature ← readSignature request.signature
      let identity : TokenFields := ⟨clientId, clientName, deviceType, deviceId⟩
      match lookupError with
      | some what => .error ⟨.databaseQueryFailed, "AUTHENTICATE_V1 lookup failed: ".toList ++ what⟩
      | none => checkClient (store.getClient clientId) identity
      checkVerifier verifier identity signature
      pure identity

/-! ## What is accepted -/

theorem outcome_bind_eq_ok {Value Result : Type} {first : Except AuthFailure Value}
    {next : Value → Except AuthFailure Result} {result : Result} :
    (first >>= next) = .ok result ↔ ∃ value, first = .ok value ∧ next value = .ok result := by
  cases first with
  | error failure => simp [bind, Except.bind]
  | ok value => simp [bind, Except.bind]

theorem readRequiredString_eq_ok {error : AuthErrorCode} {name : String} {field : Field Text} {value : Text} :
    readRequiredString error name field = .ok value ↔ field = .present value ∧ value ≠ [] := by
  cases field with
  | absent => simp [readRequiredString]
  | mistyped => simp [readRequiredString]
  | present text =>
      cases text with
      | nil =>
          simp only [readRequiredString, List.isEmpty_nil, if_true, reduceCtorEq, Field.present.injEq, false_iff,
            not_and, not_not]
          exact Eq.symm
      | cons c rest =>
          simp only [readRequiredString, List.isEmpty_cons, Bool.false_eq_true, if_false, Except.ok.injEq,
            Field.present.injEq]
          constructor
          · rintro rfl
            exact ⟨rfl, List.cons_ne_nil c rest⟩
          · exact And.left

theorem checkClient_eq_ok {found : Option ClientRow} {identity : TokenFields} (accepted : checkClient found identity = .ok ()) :
    ∃ row, found = some row ∧ row.enabled = true ∧ row.clientName = identity.clientName ∧
      row.deviceType = identity.deviceType ∧ row.deviceId = identity.deviceId := by
  unfold checkClient at accepted
  split at accepted
  · cases accepted
  · rename_i row
    split at accepted
    · cases accepted
    split at accepted
    · cases accepted
    split at accepted
    · cases accepted
    split at accepted
    · cases accepted
    rename_i enabled name kind device
    exact ⟨row, rfl, by simpa using enabled, not_not.mp name, not_not.mp kind, not_not.mp device⟩

/-- Some store, reached by its calls, and some verifier accept the identity. -/
def TokenFields.Accepted (identity : TokenFields) : Prop :=
  ∃ store : AuthClientStore, store.Reachable ∧ ∃ lookupError verifier payload,
    executeResult store lookupError verifier payload = .ok identity

/-- What the checks ask of an identity. -/
structure TokenFields.Admissible (identity : TokenFields) : Prop where
  clientId : identity.clientId ≠ []
  clientName : identity.clientName ≠ [] ∧ '\x00' ∉ identity.clientName
  deviceType : isSupportedDeviceType identity.deviceType = true
  deviceId : identity.deviceId ≠ [] ∧ '\x00' ∉ identity.deviceId

/-- What the command says of an identity that it accepts. -/
theorem row_of_accepted {store : AuthClientStore} {lookupError : Option Text} {verifier : SignatureVerifier}
    {payload : AuthPayload} {identity : TokenFields}
    (accepted : executeResult store lookupError verifier payload = .ok identity) :
    identity.clientId ≠ [] ∧ identity.clientName ≠ [] ∧ identity.deviceId ≠ [] ∧
      checkClient (store.getClient identity.clientId) identity = .ok () := by
  cases payload with
  | unparsed what => cases accepted
  | notObject => cases accepted
  | object request =>
      unfold executeResult at accepted
      obtain ⟨clientId, readId, accepted⟩ := outcome_bind_eq_ok.mp accepted
      obtain ⟨clientName, readName, accepted⟩ := outcome_bind_eq_ok.mp accepted
      obtain ⟨deviceType, readKind, accepted⟩ := outcome_bind_eq_ok.mp accepted
      obtain ⟨deviceId, readDevice, accepted⟩ := outcome_bind_eq_ok.mp accepted
      obtain ⟨signature, readSign, accepted⟩ := outcome_bind_eq_ok.mp accepted
      have idFilled := (readRequiredString_eq_ok.mp readId).2
      have nameFilled := (readRequiredString_eq_ok.mp readName).2
      have deviceFilled := (readRequiredString_eq_ok.mp readDevice).2
      cases lookupError with
      | some what => cases accepted
      | none =>
          obtain ⟨done, checked, accepted⟩ := outcome_bind_eq_ok.mp accepted
          obtain ⟨verified, _, accepted⟩ := outcome_bind_eq_ok.mp accepted
          obtain rfl := Except.ok.inj accepted
          exact ⟨idFilled, nameFilled, deviceFilled, checked⟩

/-- The call that admits an identity. -/
def admission (identity : TokenFields) : Upsert := ⟨identity, true, [], false, false⟩

/-- A request for an identity. -/
def requestFor (identity : TokenFields) (signature : Text) : AuthPayload :=
  .object ⟨.present identity.clientId, .present identity.clientName, .present identity.deviceType,
    .present identity.deviceId, .present signature⟩

/-- What is accepted is what is admitted, and nothing else. -/
theorem accepted_iff {identity : TokenFields} : identity.Accepted ↔ identity.Admissible := by
  constructor
  · rintro ⟨store, reachable, lookupError, verifier, payload, accepted⟩
    obtain ⟨clientId, clientName, deviceId, checked⟩ := row_of_accepted accepted
    obtain ⟨row, found, _, sameName, sameKind, sameDevice⟩ := checkClient_eq_ok checked
    obtain ⟨name, kind, device⟩ := reachable.allStored _ row found
    exact ⟨clientId, ⟨clientName, sameName ▸ name⟩, sameKind ▸ kind, deviceId, sameDevice ▸ device⟩
  · rintro ⟨clientId, ⟨clientName, plainName⟩, deviceType, deviceId, plainDevice⟩
    have kind : identity.deviceType ≠ [] := by
      intro empty
      rw [empty] at deviceType
      cases deviceType
    have admitted : AuthClientStore.upsertClient ∅ (admission identity) 0 =
        .ok (SortedMap.insert ∅ (boundText identity.clientId) ((admission identity).row 0)) := by
      simp [AuthClientStore.upsertClient, admission, clientId, clientName, kind, deviceId, deviceType]
    refine ⟨SortedMap.insert ∅ (boundText identity.clientId) ((admission identity).row 0), ⟨[.upsertClient
      (admission identity) 0], ?_⟩, none, ⟨none, fun _ _ => true⟩, requestFor identity ['s'], ?_⟩
    · simp only [Machine.run, AuthClientStore.machine, AuthClientStore.call, admitted]
      rfl
    · have present : AuthClientStore.getClient (SortedMap.insert ∅ (boundText identity.clientId)
          ((admission identity).row 0)) identity.clientId = some ((admission identity).row 0) := by
        simp [AuthClientStore.getClient]
      have checked : checkClient (some ((admission identity).row 0)) identity = .ok () := by
        simp [checkClient, Upsert.row, admission, boundText_eq_self plainName, boundText_eq_self plainDevice,
          AuthClientStore.boundText_deviceType deviceType]
      unfold executeResult requestFor
      refine outcome_bind_eq_ok.mpr ⟨_, readRequiredString_eq_ok.mpr ⟨rfl, clientId⟩, ?_⟩
      refine outcome_bind_eq_ok.mpr ⟨_, readRequiredString_eq_ok.mpr ⟨rfl, clientName⟩, ?_⟩
      refine outcome_bind_eq_ok.mpr ⟨_, readRequiredString_eq_ok.mpr ⟨rfl, kind⟩, ?_⟩
      refine outcome_bind_eq_ok.mpr ⟨_, readRequiredString_eq_ok.mpr ⟨rfl, deviceId⟩, ?_⟩
      refine outcome_bind_eq_ok.mpr ⟨['s'], rfl, ?_⟩
      refine outcome_bind_eq_ok.mpr ⟨(), ?_, rfl⟩
      rw [present]
      exact checked

/-! ## Signing messages -/

/-- No other accepted identity is signed by the same message. -/
def TokenFields.SignedAlone (identity : TokenFields) : Prop :=
  ∀ other : TokenFields, identity.Accepted → other.Accepted →
    buildIdentitySigningMessage other = buildIdentitySigningMessage identity → other = identity

/-- No line break inside a field can end it: the id breaks off only after nothing or before a
NUL, the name only at its end, and no line of the device id that another one follows names a
kind of device. -/
structure TokenFields.Unambiguous (identity : TokenFields) : Prop where
  clientId : ∀ left right, identity.clientId = left ++ '\n' :: right → left = [] ∨ '\x00' ∈ right
  clientName : ∀ left right, identity.clientName = left ++ '\n' :: right → right = []
  firstLine : ∀ kind rest, isSupportedDeviceType kind = true → identity.deviceId = kind ++ '\n' :: rest → rest = []
  laterLine : ∀ front kind rest, isSupportedDeviceType kind = true →
    identity.deviceId = front ++ '\n' :: (kind ++ '\n' :: rest) → rest = []

theorem plain_of_supported {kind : Text} (supported : isSupportedDeviceType kind = true) :
    '\n' ∉ kind ∧ '\x00' ∉ kind ∧ kind ≠ [] := by
  simp only [isSupportedDeviceType, Bool.or_eq_true, decide_eq_true_eq] at supported
  rcases supported with rfl | rfl <;> decide

/-- Equal messages are equal lines in front of the last line break. -/
theorem message_eq_iff {identity other : TokenFields} :
    buildIdentitySigningMessage other = buildIdentitySigningMessage identity ↔
      (other.clientId ++ '\n' :: other.clientName) ++ '\n' :: (other.deviceType ++ '\n' :: other.deviceId) =
        (identity.clientId ++ '\n' :: identity.clientName) ++
          '\n' :: (identity.deviceType ++ '\n' :: identity.deviceId) := by
  have lines (fields : TokenFields) : buildIdentitySigningMessage fields =
      ((fields.clientId ++ '\n' :: fields.clientName) ++
        '\n' :: (fields.deviceType ++ '\n' :: fields.deviceId)) ++ ['\n'] := by
    simp [buildIdentitySigningMessage]
  rw [lines, lines, List.append_left_inj]

/-- An unambiguous message is that of one identity. -/
theorem TokenFields.Unambiguous.eq_of_message {identity other : TokenFields} (unambiguous : identity.Unambiguous)
    (admissible : identity.Admissible) (otherAdmissible : other.Admissible)
    (same : buildIdentitySigningMessage other = buildIdentitySigningMessage identity) : other = identity := by
  have joined := (message_eq_iff.mp same).symm
  obtain ⟨kindLine, -, -⟩ := plain_of_supported admissible.deviceType
  obtain ⟨otherLine, otherNul, otherKind⟩ := plain_of_supported otherAdmissible.deviceType
  rcases cut_cases joined with ⟨front, rest⟩ | ⟨middle, -, rest⟩ | ⟨middle, longer, rest⟩
  · obtain ⟨kind, device⟩ := cut_unique kindLine otherLine rest
    rcases cut_cases front with ⟨id, name⟩ | ⟨more, -, later⟩ | ⟨more, earlier, later⟩
    · cases identity
      cases other
      simp_all
    · exact absurd (unambiguous.clientName _ _ later) otherAdmissible.clientName.1
    · rcases unambiguous.clientId _ _ earlier with nothing | nul
      · exact absurd nothing otherAdmissible.clientId
      · exact absurd (later ▸ List.mem_append_left _ nul) otherAdmissible.clientName.2
  · -- the kind of the other identity is a line of the device id
    rcases cut_first kindLine rest with ⟨-, device⟩ | ⟨more, -, device⟩
    · exact absurd (unambiguous.firstLine _ _ otherAdmissible.deviceType device) otherAdmissible.deviceId.1
    · exact absurd (unambiguous.laterLine _ _ _ otherAdmissible.deviceType device) otherAdmissible.deviceId.1
  · -- the kind of the other identity is a line of the id or the name
    have line : middle ≠ [] ∧ '\x00' ∉ middle := by
      rcases cut_first otherLine rest with ⟨rfl, -⟩ | ⟨more, rfl, device⟩
      · exact ⟨otherKind, otherNul⟩
      · refine ⟨by simp [otherKind], fun nul => ?_⟩
        rcases List.mem_append.mp nul with inKind | later
        · exact otherNul inKind
        · refine otherAdmissible.deviceId.2 (device ▸ List.mem_append_left _ ?_)
          exact (List.mem_cons.mp later).resolve_left (by decide)
    rw [List.append_assoc, List.cons_append] at longer
    rcases cut_cases longer with ⟨-, name⟩ | ⟨more, -, name⟩ | ⟨more, earlier, later⟩
    · exact absurd (unambiguous.clientName _ _ name) line.1
    · have nothing := unambiguous.clientName _ _ name
      simp at nothing
    · rcases unambiguous.clientId _ _ earlier with nothing | nul
      · exact absurd nothing otherAdmissible.clientId
      · have among : '\x00' ∈ other.clientName ++ '\n' :: middle := later ▸ List.mem_append_left _ nul
        rcases List.mem_append.mp among with inName | inLine
        · exact absurd inName otherAdmissible.clientName.2
        · exact absurd ((List.mem_cons.mp inLine).resolve_left (by decide)) line.2

/-- A line break that can be taken for one between fields gives another identity. -/
theorem TokenFields.SignedAlone.unambiguous {identity : TokenFields} (alone : identity.SignedAlone)
    (admissible : identity.Admissible) : identity.Unambiguous := by
  have only (other : TokenFields) (otherAdmissible : other.Admissible)
      (same : buildIdentitySigningMessage other = buildIdentitySigningMessage identity) : other = identity :=
    alone other (accepted_iff.mpr admissible) (accepted_iff.mpr otherAdmissible) same
  obtain ⟨idFilled, name, kind, device⟩ := admissible
  obtain ⟨-, kindNul, -⟩ := plain_of_supported kind
  constructor
  · intro left right cut
    by_contra another
    obtain ⟨filled, noNul⟩ := not_or.mp another
    have moved := only ⟨left, right ++ '\n' :: identity.clientName, identity.deviceType, identity.deviceId⟩
      ⟨filled, ⟨by simp, by simp [noNul, name.2]⟩, kind, device⟩
      (by simp [buildIdentitySigningMessage, cut])
    have length := congrArg (fun fields : TokenFields => fields.clientId.length) moved
    simp [cut] at length
  · intro left right cut
    by_contra filled
    have noNul : '\x00' ∉ right := fun nul => name.2 (cut ▸ List.mem_append_right _ (List.mem_cons_of_mem _ nul))
    have moved := only ⟨identity.clientId ++ '\n' :: left, right, identity.deviceType, identity.deviceId⟩
      ⟨by simp, ⟨filled, noNul⟩, kind, device⟩ (by simp [buildIdentitySigningMessage, cut])
    have length := congrArg (fun fields : TokenFields => fields.clientId.length) moved
    simp at length
  · intro line rest supported cut
    by_contra filled
    have noNul : '\x00' ∉ rest := fun nul => device.2 (cut ▸ List.mem_append_right _ (List.mem_cons_of_mem _ nul))
    have moved := only ⟨identity.clientId, identity.clientName ++ '\n' :: identity.deviceType, line, rest⟩
      ⟨idFilled, ⟨by simp, by simp [name.2, kindNul]⟩, supported, filled, noNul⟩
      (by simp [buildIdentitySigningMessage, cut])
    have length := congrArg (fun fields : TokenFields => fields.clientName.length) moved
    simp at length
  · intro front line rest supported cut
    by_contra filled
    have plain : '\x00' ∉ front ∧ '\x00' ∉ rest := by
      have whole := device.2
      rw [cut] at whole
      simp only [List.mem_append, List.mem_cons, not_or] at whole
      exact ⟨whole.1, whole.2.2.2.2⟩
    have moved := only ⟨identity.clientId, identity.clientName ++ '\n' :: (identity.deviceType ++ '\n' :: front),
      line, rest⟩ ⟨idFilled, ⟨by simp, by simp [name.2, kindNul, plain.1]⟩, supported, filled, plain.2⟩
      (by simp [buildIdentitySigningMessage, cut])
    have length := congrArg (fun fields : TokenFields => fields.clientName.length) moved
    simp at length

/-- A message is that of no other accepted identity exactly when it is unambiguous. -/
theorem signedAlone_iff (identity : TokenFields) :
    identity.SignedAlone ↔ (identity.Accepted → identity.Unambiguous) := by
  constructor
  · intro alone accepted
    exact alone.unambiguous (accepted_iff.mp accepted)
  · intro unambiguous other accepted otherAccepted same
    exact (unambiguous accepted).eq_of_message (accepted_iff.mp accepted) (accepted_iff.mp otherAccepted) same

/-- A line break in the id of one client and in the name of another. -/
theorem not_signedAlone_lineBreak :
    ¬ ∀ identity : TokenFields, identity.SignedAlone := by
  intro always
  have first : TokenFields.Accepted ⟨"pc\n1".toList, "desk".toList, kDeviceTypeUsb, "D".toList⟩ :=
    accepted_iff.mpr ⟨by decide, by decide, by decide, by decide⟩
  have second : TokenFields.Accepted ⟨"pc".toList, "1\ndesk".toList, kDeviceTypeUsb, "D".toList⟩ :=
    accepted_iff.mpr ⟨by decide, by decide, by decide, by decide⟩
  have same := always _ _ first second (by decide)
  exact absurd same (by decide)

end SearchEngine.Auth
