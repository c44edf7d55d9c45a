import SearchEngine.Auth.TokenDocument

/-!
# The state of an authority

The key pairs of the token issuer, the document that lists the tokens of an
authority, and the document prepared for a new key pair: if the first is valid, so
is the second, and every token in it verifies under the new public key.
-/

namespace SearchEngine.Auth

/-! ## Keys -/

/-- What the issuer uses of OpenSSL. A private key stands for its unencrypted PEM text. -/
structure Crypto where
  PublicKey : Type
  PrivateKey : Type
  /-- `PEM_read_bio_PUBKEY` -/
  readPublic : Text → Option PublicKey
  /-- `PEM_read_bio_PrivateKey` with a password -/
  readPrivate : Text → Text → Option PrivateKey
  isRsa2048 : PublicKey → Bool
  isPrivateRsa2048 : PrivateKey → Bool
  /-- The hexadecimal SHA-256 of the DER encoding -/
  digest : PublicKey → Text
  sign : PrivateKey → Text → Bytes
  verify : PublicKey → Text → Bytes → Bool
  /-- The two keys of one pair -/
  Paired : PublicKey → PrivateKey → Prop
  verify_sign : ∀ publicKey privateKey message, Paired publicKey privateKey →
    verify publicKey message (sign privateKey message) = true
  sign_ne_nil : ∀ privateKey message, sign privateKey message ≠ []
  readPrivate_nil : ∀ password, readPrivate [] password = none

/-- A key file is at most this long to be read back. -/
def fileLimit : Nat := 1048576

namespace Crypto

variable (crypto : Crypto)

/-- The texts that `GenerateKeyPair` writes for a new pair; the beginning of a text
is no other key. -/
structure KeyTexts (password : Text) where
  publicPem : Text
  privatePem : Text
  publicKey : crypto.PublicKey
  privateKey : crypto.PrivateKey
  paired : crypto.Paired publicKey privateKey
  publicRsa : crypto.isRsa2048 publicKey = true
  privateRsa : crypto.isPrivateRsa2048 privateKey = true
  reads_public : crypto.readPublic publicPem = some publicKey
  reads_private : crypto.readPrivate privatePem password = some privateKey
  torn_public : ∀ count key, crypto.readPublic (publicPem.take count) = some key → key = publicKey
  torn_private : ∀ count key, crypto.readPrivate (privatePem.take count) password = some key → key = privateKey
  public_bounds : 0 < publicPem.length ∧ publicPem.length ≤ fileLimit
  private_bounds : privatePem.length ≤ fileLimit

def signTokenPayload (privateKey : crypto.PrivateKey) (message : Text) : TokenSignature :=
  ⟨kSignatureAlg, kBase64, base64Encode (crypto.sign privateKey message)⟩

def verifyTokenSignature (message value pem : Text) : Bool :=
  value ≠ [] && pem ≠ [] && match crypto.readPublic pem with
    | none => false
    | some key => base64Decode value ≠ [] && crypto.verify key message (base64Decode value)

def fingerprint (pem : Text) : Except String Text :=
  match crypto.readPublic pem with
  | none => .error "Invalid public key"
  | some key => if crypto.isRsa2048 key then .ok (crypto.digest key) else .error "RSA-2048 public key required"

variable {crypto}

theorem signTokenPayload_usable (privateKey : crypto.PrivateKey) (message : Text) :
    (crypto.signTokenPayload privateKey message).Usable := by
  refine ⟨rfl, rfl, fun empty => ?_⟩
  exact crypto.sign_ne_nil privateKey message (base64Encode_eq_nil_iff.mp empty)

/-- What one key of a pair signed, the other verifies. -/
theorem verifyTokenSignature_signTokenPayload {pem : Text} {publicKey : crypto.PublicKey}
    {privateKey : crypto.PrivateKey} (read : crypto.readPublic pem = some publicKey) (filled : pem ≠ [])
    (paired : crypto.Paired publicKey privateKey) (message : Text) :
    crypto.verifyTokenSignature message (crypto.signTokenPayload privateKey message).value pem = true := by
  have value := (signTokenPayload_usable privateKey message).value
  have decoded : base64Decode (crypto.signTokenPayload privateKey message).value =
      crypto.sign privateKey message := base64Decode_base64Encode _
  simp only [verifyTokenSignature, value, filled, read, decoded, crypto.sign_ne_nil,
    crypto.verify_sign publicKey privateKey message paired, ne_eq, not_false_eq_true, decide_true, Bool.and_self]

end Crypto

/-! ## The state document -/

/-- The members of a state document that are read or set. -/
structure StateObject where
  tokens : Field (List (Option TokenDocument))
  computerUuid : Field Text
  role : Field Text
  /-- A service that is not a string is `none`. -/
  services : Field (List (Option Text))
  publicKeyFingerprint : Field Text
  reissuePrepared : Field Bool
deriving DecidableEq

/-- A JSON document; `none` for one that is no object. -/
abbrev StateDocument := Option StateObject

/-- The loop of `ValidateState`; `ids` are the clients so far. -/
def validateTokens (ids : List Text) : List (Option TokenDocument) → Except String Unit
  | [] => .ok ()
  | token :: rest => do
      let fields ← parseTokenFields token
      validateTokenFields fields
      require (!ids.contains fields.clientId) "Duplicate client ID in authority directory"
      validateTokens (fields.clientId :: ids) rest

/-- The checks of `ValidateState` on everything but the tokens. -/
def validateIdentity (state : StateObject) : Except String Unit := do
  let uuid ← state.computerUuid.get
  require (normalizeComputerUuid uuid = some uuid) "Invalid authority computer identity"
  let role ← state.role.get
  require (role = "server".toList ∨ role = "client".toList ∨ role = "client_server".toList) "Invalid authority role"
  match state.services with
  | .absent => .error "out_of_range"
  | .mistyped => .error "Invalid enrolled services"
  | .present services => require (services.all Option.isSome) "Invalid enrolled service name"

def validateState : StateDocument → Except String Unit
  | none => .error "Invalid authority client directory"
  | some state =>
      match state.tokens with
      | .absent | .mistyped => .error "Invalid authority client directory"
      | .present tokens => do
          require (tokens.length ≤ 256) "Invalid authority client directory"
          validateIdentity state
          validateTokens [] tokens

/-- The tokens are signed anew, one after the other. -/
def resignTokens (signTokenPayload : Text → TokenSignature) :
    List (Option TokenDocument) → Except String (List (Option TokenDocument))
  | [] => .ok []
  | token :: rest => do
      let signed ← resignToken signTokenPayload token
      let others ← resignTokens signTokenPayload rest
      pure (some signed :: others)

/-- The document for the new key pair. -/
def nextState (signTokenPayload : Text → TokenSignature) (state : StateDocument)
    (fingerprint : Except String Text) : Except String StateDocument :=
  match state with
  | some object =>
      match object.tokens with
      | .present tokens => do
          let signed ← resignTokens signTokenPayload tokens
          let fingerprint ← fingerprint
          pure (some { object with
            tokens := .present signed
            publicKeyFingerprint := .present fingerprint
            reissuePrepared := .present true })
      | .absent | .mistyped => .error "type_error"
  | none => .error "type_error"

/-- The value at `signature`, `value`. -/
def signatureValue (token : TokenDocument) : Except String Text := do
  let signature ← token.signature.get
  signature.value.get

/-- The last loop of checks in `RecoverAuthority`. -/
def verifyTokens (crypto : Crypto) (pem : Text) : List (Option TokenDocument) → Except String Unit
  | [] => .ok ()
  | none :: _ => .error "token payload must be a JSON object"
  | some token :: rest => do
      let fields ← parseTokenFields (some token)
      let value ← signatureValue token
      require (crypto.verifyTokenSignature (buildIdentitySigningMessage fields) value pem)
        "Invalid new token signature"
      verifyTokens crypto pem rest

/-- `next.at("public_key_fingerprint") == Fingerprint(pem)` and the loop after it. -/
def verifyState (crypto : Crypto) (pem : Text) : StateDocument → Except String Unit
  | none => .error "type_error"
  | some state => do
      require (state.publicKeyFingerprint ≠ .absent) "out_of_range"
      let fingerprint ← crypto.fingerprint pem
      require (state.publicKeyFingerprint = .present fingerprint) "New authority state/key mismatch"
      let tokens ← state.tokens.get
      verifyTokens crypto pem tokens

/-! ## The prepared document -/

variable {crypto : Crypto} {privateKey : crypto.PrivateKey} {publicKey : crypto.PublicKey} {pem : Text}

/-- Tokens that are valid together are signed anew, are valid together, and verify. -/
theorem resignTokens_of_valid {ids : List Text} {tokens : List (Option TokenDocument)}
    (read : crypto.readPublic pem = some publicKey) (filled : pem ≠ [])
    (paired : crypto.Paired publicKey privateKey) (valid : validateTokens ids tokens = .ok ()) :
    ∃ signed, resignTokens (crypto.signTokenPayload privateKey) tokens = .ok signed ∧
      signed.length = tokens.length ∧ validateTokens ids signed = .ok () ∧
      verifyTokens crypto pem signed = .ok () := by
  induction tokens generalizing ids with
  | nil => exact ⟨[], rfl, rfl, rfl, rfl⟩
  | cons token rest ih =>
      simp only [validateTokens, bind_eq_ok] at valid
      obtain ⟨fields, parsed, done, accepted, nothing, fresh, others⟩ := valid
      obtain ⟨signed, resigned, length, stillValid, verified⟩ := ih others
      have usable := Crypto.signTokenPayload_usable privateKey (buildIdentitySigningMessage fields)
      have again := parseTokenFields_signedToken (canonical_of_parseTokenFields parsed) accepted usable
      refine ⟨some (signedToken fields (crypto.signTokenPayload privateKey (buildIdentitySigningMessage fields))) ::
        signed, ?_, by rw [List.length_cons, length, List.length_cons], ?_, ?_⟩
      · simp only [resignTokens, resignToken_of_valid parsed accepted usable, resigned, bind, Except.bind, pure,
          Except.pure]
      · simp only [validateTokens, bind_eq_ok]
        exact ⟨fields, again, done, accepted, nothing, fresh, stillValid⟩
      · have signs := Crypto.verifyTokenSignature_signTokenPayload read filled paired
          (buildIdentitySigningMessage fields)
        simp only [verifyTokens, bind_eq_ok, require_eq_ok]
        exact ⟨fields, again, _, rfl, (), signs, verified⟩

/-- The document prepared for a new pair is valid and verifies. -/
theorem nextState_of_valid {state : StateDocument} (read : crypto.readPublic pem = some publicKey)
    (filled : pem ≠ []) (rsa : crypto.isRsa2048 publicKey = true)
    (paired : crypto.Paired publicKey privateKey) (valid : validateState state = .ok ()) :
    ∃ next, nextState (crypto.signTokenPayload privateKey) state (crypto.fingerprint pem) = .ok next ∧
      validateState next = .ok () ∧ verifyState crypto pem next = .ok () := by
  cases state with
  | none => cases valid
  | some object =>
      cases member : object.tokens with
      | absent => simp [validateState, member] at valid
      | mistyped => simp [validateState, member] at valid
      | present tokens =>
          simp only [validateState, member, bind_eq_ok, require_eq_ok] at valid
          obtain ⟨-, few, nothing, identity, each⟩ := valid
          obtain ⟨signed, resigned, length, stillValid, verified⟩ := resignTokens_of_valid read filled paired each
          have named : crypto.fingerprint pem = .ok (crypto.digest publicKey) := by
            simp only [Crypto.fingerprint, read, rsa, if_true]
          refine ⟨_, by simp only [nextState, member, resigned, named, bind, Except.bind, pure, Except.pure]; rfl, ?_, ?_⟩
          · simp only [validateState, bind_eq_ok, require_eq_ok, length]
            exact ⟨(), few, nothing, identity, stillValid⟩
          · simp only [verifyState, named, bind_eq_ok, require_eq_ok]
            exact ⟨(), by simp, _, rfl, (), by simp, signed, rfl, verified⟩

/-- A document is prepared only for a key whose fingerprint was taken. -/
theorem fingerprint_of_nextState {signTokenPayload : Text → TokenSignature} {state next : StateDocument}
    {fingerprint : Except String Text} (prepared : nextState signTokenPayload state fingerprint = .ok next) :
    ∃ text, fingerprint = .ok text := by
  unfold nextState at prepared
  split at prepared
  · split at prepared
    · simp only [bind_eq_ok] at prepared
      obtain ⟨signed, -, text, taken, -⟩ := prepared
      exact ⟨text, taken⟩
    all_goals cases prepared
  · cases prepared

theorem Crypto.readPublic_of_fingerprint {text : Text} (taken : crypto.fingerprint pem = .ok text) :
    ∃ key, crypto.readPublic pem = some key ∧ crypto.isRsa2048 key = true := by
  unfold Crypto.fingerprint at taken
  split at taken
  · cases taken
  · rename_i key read
    split at taken
    · rename_i rsa
      exact ⟨key, read, rsa⟩
    · cases taken

end SearchEngine.Auth
