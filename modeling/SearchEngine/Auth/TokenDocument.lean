import SearchEngine.Auth.DeviceIdentity

/-!
# Token documents

What a token says, what makes it acceptable, and how it is signed anew. Of a JSON
object the model keeps the members that are read: each is absent, of the wrong type,
or present. A token that is accepted and signed anew says what it said before.
-/

namespace SearchEngine.Auth

/-- A member of a JSON object. -/
inductive Field (Value : Type) where
  | absent
  | mistyped
  | present (value : Value)
deriving DecidableEq

namespace Field

variable {Value : Type}

/-- `document.value(name, missing)`. -/
def valueOr (missing : Value) : Field Value → Except String Value
  | absent => .ok missing
  | mistyped => .error "type_error"
  | present value => .ok value

/-- `document.at(name).get<Value>()`. -/
def get : Field Value → Except String Value
  | absent => .error "out_of_range"
  | mistyped => .error "type_error"
  | present value => .ok value

end Field

/-- `Require`. -/
def require (value : Bool) (error : String) : Except String Unit :=
  if value then .ok () else .error error

/-- The `signature` object of a token. -/
structure SignatureObject where
  alg : Field Text
  encoding : Field Text
  value : Field Text
deriving DecidableEq

/-- The members of a token that are read; `flashSerial` tells that there is a
`flash_serial`. -/
structure TokenDocument where
  format : Field Text
  formatVersion : Field Int
  flashSerial : Bool
  clientId : Field Text
  clientName : Field Text
  deviceType : Field Text
  deviceId : Field Text
  signature : Field SignatureObject
deriving DecidableEq

/-- The identity of a token. -/
structure TokenFields where
  clientId : Text
  clientName : Text
  deviceType : Text
  deviceId : Text
deriving DecidableEq

structure TokenSignature where
  alg : Text
  encoding : Text
  value : Text

def kTokenFormat : Text := "searchclient-auth-token".toList

def kTokenFormatVersion : Int := 1

def kSignatureAlg : Text := "RS256".toList

def kBase64 : Text := "base64".toList

def kDeviceTypeUsb : Text := "usb".toList

def kDeviceTypeComputer : Text := "computer".toList

/-! ## TokenLoader -/

/-- `normalizeDeviceId`. -/
def normalizeDeviceId (deviceType deviceId : Text) : Except String Text :=
  if deviceType = kDeviceTypeUsb then .ok (normalizeUsbDeviceId deviceId)
  else if deviceType = kDeviceTypeComputer then
    match normalizeComputerUuid deviceId with
    | some uuid => .ok uuid
    | none => .error "computer device_id must be a usable SMBIOS UUID"
  else .error "device_type must be usb or computer"

/-- The checks of `parseTokenFields` on the signature. -/
def checkSignature : Field SignatureObject → Except String Unit
  | .present signature => do
      let alg ← signature.alg.valueOr []
      require (alg = kSignatureAlg) "token signature.alg must be \"RS256\""
      require (signature.encoding ≠ .absent) "token signature.encoding is required"
      let encoding ← signature.encoding.valueOr []
      require (trimCopy encoding ≠ []) "token signature.encoding must be non-empty"
      require (trimCopy encoding = kBase64) "token signature.encoding must be \"base64\""
      let value ← signature.value.valueOr []
      require (value ≠ []) "token signature.value must be non-empty"
  | .absent | .mistyped => .error "token requires a signature object"

/-- The identity that `parseTokenFields` reads; the texts are trimmed. -/
def readIdentity (document : TokenDocument) : Except String TokenFields := do
  let clientId ← document.clientId.valueOr []
  let clientName ← document.clientName.valueOr []
  let deviceType ← document.deviceType.valueOr []
  let deviceId ← document.deviceId.valueOr []
  require (trimCopy clientId ≠ [] && trimCopy clientName ≠ [] && trimCopy deviceType ≠ [] &&
      trimCopy deviceId ≠ [])
    "token requires non-empty client_id, client_name, device_type, device_id"
  let deviceId ← normalizeDeviceId (trimCopy deviceType) deviceId
  pure ⟨trimCopy clientId, trimCopy clientName, trimCopy deviceType, deviceId⟩

def parseTokenFields : Option TokenDocument → Except String TokenFields
  | none => .error "token payload must be a JSON object"
  | some document => do
      let format ← document.format.valueOr []
      require (format = kTokenFormat) "token format must be searchclient-auth-token"
      let version ← document.formatVersion.valueOr 0
      require (version = 1) "token format_version must be 1"
      require (!document.flashSerial)
        "legacy flash_serial tokens are not supported; re-issue a device_type/device_id token"
      let fields ← readIdentity document
      checkSignature document.signature
      pure fields

/-! ## Building a token -/

/-- `IsSupportedDeviceType`. -/
def isSupportedDeviceType (deviceType : Text) : Bool :=
  deviceType = kDeviceTypeUsb || deviceType = kDeviceTypeComputer

/-- The normal form of the device in `ValidateTokenFields` and `BuildTokenDocument`. -/
def deviceOf (fields : TokenFields) : Except String Text :=
  if trimCopy fields.deviceType = kDeviceTypeUsb then do
    require (normalizeUsbDeviceId fields.deviceId ≠ []) "USB device_id must be non-empty"
    pure (normalizeUsbDeviceId fields.deviceId)
  else match normalizeComputerUuid fields.deviceId with
    | some uuid => .ok uuid
    | none => .error "computer device_id must be a usable SMBIOS UUID"

/-- `ValidateTokenFields` for fields without an issue date, issuer, notes or expiry. -/
def validateTokenFields (fields : TokenFields) : Except String Unit := do
  require (trimCopy fields.clientId ≠ []) "client_id must be non-empty"
  require (trimCopy fields.clientName ≠ []) "client_name must be non-empty"
  require (isSupportedDeviceType (trimCopy fields.deviceType)) "device_type must be usb or computer"
  let deviceId ← deviceOf fields
  require (isAsciiTokenField fields.clientId && isAsciiTokenField fields.clientName &&
      isAsciiTokenField fields.deviceType)
    "token fields must be printable ASCII only (no Cyrillic)"
  require (isAsciiTokenField deviceId) "token fields must be printable ASCII only (no Cyrillic)"

/-- `BuildTokenDocument`; the members that no reader of a re-issued token looks at are
left out. -/
def buildTokenDocument (fields : TokenFields) (signature : TokenSignature) :
    Except String TokenDocument := do
  validateTokenFields fields
  require (signature.alg = kSignatureAlg && signature.encoding = kBase64 && signature.value ≠ [])
    "token requires RS256 base64 signature value"
  let deviceId ← deviceOf fields
  pure
    { format := .present kTokenFormat
      formatVersion := .present kTokenFormatVersion
      flashSerial := false
      clientId := .present (trimCopy fields.clientId)
      clientName := .present (trimCopy fields.clientName)
      deviceType := .present (trimCopy fields.deviceType)
      deviceId := .present deviceId
      signature := .present ⟨.present signature.alg, .present signature.encoding, .present signature.value⟩ }

/-- `BuildIdentitySigningMessage`. -/
def buildIdentitySigningMessage (fields : TokenFields) : Text :=
  fields.clientId ++ '\n' :: (fields.clientName ++ '\n' :: (fields.deviceType ++
    '\n' :: (fields.deviceId ++ ['\n'])))

/-- `ResignToken`; `signTokenPayload` signs with the new private key. -/
def resignToken (signTokenPayload : Text → TokenSignature) (token : Option TokenDocument) :
    Except String TokenDocument := do
  let fields ← parseTokenFields token
  let full ← buildTokenDocument fields (signTokenPayload (buildIdentitySigningMessage fields))
  pure { full with format := .present kTokenFormat, formatVersion := .present 1, flashSerial := false }

/-! ## What an accepted token says -/

theorem bind_eq_ok {Value Result : Type} {first : Except String Value}
    {next : Value → Except String Result} {result : Result} :
    (first >>= next) = .ok result ↔ ∃ value, first = .ok value ∧ next value = .ok result := by
  cases first with
  | error what => simp [bind, Except.bind]
  | ok value => simp [bind, Except.bind]

theorem require_eq_ok {value : Bool} {error : String} {done : Unit} :
    require value error = .ok done ↔ value = true := by
  cases value <;> simp [require]

theorem pure_eq_ok {Value : Type} {value result : Value} :
    (pure value : Except String Value) = .ok result ↔ value = result := by
  simp [pure, Except.pure]

/-- The fields of an accepted token are in normal form. -/
structure TokenFields.Canonical (fields : TokenFields) : Prop where
  clientId : trimCopy fields.clientId = fields.clientId ∧ fields.clientId ≠ []
  clientName : trimCopy fields.clientName = fields.clientName ∧ fields.clientName ≠ []
  deviceType : trimCopy fields.deviceType = fields.deviceType ∧ fields.deviceType ≠ []
  deviceId : normalizeDeviceId fields.deviceType fields.deviceId = .ok fields.deviceId

theorem normalizeDeviceId_idem {deviceType deviceId normal : Text}
    (found : normalizeDeviceId deviceType deviceId = .ok normal) :
    normalizeDeviceId deviceType normal = .ok normal := by
  unfold normalizeDeviceId at found ⊢
  by_cases usb : deviceType = kDeviceTypeUsb
  · rw [if_pos usb] at found ⊢
    obtain rfl := Except.ok.inj found
    rw [normalizeUsbDeviceId_idem]
  · rw [if_neg usb] at found ⊢
    by_cases computer : deviceType = kDeviceTypeComputer
    · rw [if_pos computer] at found ⊢
      cases form : normalizeComputerUuid deviceId with
      | none => rw [form] at found; cases found
      | some uuid =>
          rw [form] at found
          obtain rfl := Except.ok.inj found
          rw [normalizeComputerUuid_idem form]
    · rw [if_neg computer] at found
      cases found

theorem canonical_of_readIdentity {document : TokenDocument} {fields : TokenFields}
    (read : readIdentity document = .ok fields) : fields.Canonical := by
  simp only [readIdentity, bind_eq_ok, require_eq_ok, pure_eq_ok, Bool.and_eq_true, decide_eq_true_eq] at read
  obtain ⟨clientId, -, clientName, -, deviceType, -, deviceId, -, -, ⟨⟨⟨id, name⟩, type⟩, -⟩, normal, found, rfl⟩ :=
    read
  exact ⟨⟨trimCopy_trimCopy _, id⟩, ⟨trimCopy_trimCopy _, name⟩, ⟨trimCopy_trimCopy _, type⟩,
    normalizeDeviceId_idem found⟩

theorem canonical_of_parseTokenFields {token : Option TokenDocument} {fields : TokenFields}
    (parsed : parseTokenFields token = .ok fields) : fields.Canonical := by
  cases token with
  | none => cases parsed
  | some document =>
      simp only [parseTokenFields, bind_eq_ok, pure_eq_ok] at parsed
      obtain ⟨-, -, -, -, -, -, -, -, -, -, read, identity, -, -, rfl⟩ := parsed
      exact canonical_of_readIdentity identity

/-- A device without a name has no normal form. -/
theorem trimCopy_deviceId_ne_nil {fields : TokenFields} {deviceId : Text}
    (device : deviceOf fields = .ok deviceId) : trimCopy fields.deviceId ≠ [] := by
  intro empty
  unfold deviceOf at device
  split at device
  · simp [normalizeUsbDeviceId, empty, require, bind, Except.bind] at device
  · have nothing : normalizeComputerUuid fields.deviceId = none := by
      simp [normalizeComputerUuid, empty, withoutBraces, isUsableHex]
    rw [nothing] at device
    cases device

theorem TokenFields.Canonical.deviceOf_eq {fields : TokenFields} (canonical : fields.Canonical)
    {deviceId : Text} (device : deviceOf fields = .ok deviceId) : deviceId = fields.deviceId := by
  have normal := canonical.deviceId
  unfold deviceOf at device
  rw [canonical.deviceType.1] at device
  unfold normalizeDeviceId at normal
  by_cases usb : fields.deviceType = kDeviceTypeUsb
  · rw [if_pos usb] at normal device
    simp only [bind_eq_ok, pure_eq_ok] at device
    obtain ⟨-, -, rfl⟩ := device
    exact Except.ok.inj normal
  · rw [if_neg usb] at normal device
    split at normal
    · cases form : normalizeComputerUuid fields.deviceId with
      | none => rw [form] at normal; cases normal
      | some uuid =>
          rw [form] at normal device
          exact (Except.ok.inj device).symm.trans (Except.ok.inj normal)
    · cases normal

/-! ## Signing anew -/

/-- The token with these fields in normal form and this signature. -/
def signedToken (fields : TokenFields) (signature : TokenSignature) : TokenDocument where
  format := .present kTokenFormat
  formatVersion := .present 1
  flashSerial := false
  clientId := .present fields.clientId
  clientName := .present fields.clientName
  deviceType := .present fields.deviceType
  deviceId := .present fields.deviceId
  signature := .present ⟨.present signature.alg, .present signature.encoding, .present signature.value⟩

/-- What `SignTokenPayload` returns. -/
structure TokenSignature.Usable (signature : TokenSignature) : Prop where
  alg : signature.alg = kSignatureAlg
  encoding : signature.encoding = kBase64
  value : signature.value ≠ []

theorem device_of_validateTokenFields {fields : TokenFields} (valid : validateTokenFields fields = .ok ()) :
    ∃ deviceId, deviceOf fields = .ok deviceId := by
  simp only [validateTokenFields, bind_eq_ok] at valid
  obtain ⟨-, -, -, -, -, -, deviceId, device, -⟩ := valid
  exact ⟨deviceId, device⟩

/-- A valid token is signed anew. -/
theorem resignToken_of_valid {token : Option TokenDocument} {fields : TokenFields}
    {signTokenPayload : Text → TokenSignature} (parsed : parseTokenFields token = .ok fields)
    (valid : validateTokenFields fields = .ok ())
    (usable : (signTokenPayload (buildIdentitySigningMessage fields)).Usable) :
    resignToken signTokenPayload token =
      .ok (signedToken fields (signTokenPayload (buildIdentitySigningMessage fields))) := by
  have canonical := canonical_of_parseTokenFields parsed
  obtain ⟨deviceId, device⟩ := device_of_validateTokenFields valid
  obtain rfl := canonical.deviceOf_eq device
  simp only [resignToken, parsed, buildTokenDocument, valid, device, usable.alg, usable.encoding, usable.value,
    canonical.clientId.1, canonical.clientName.1, canonical.deviceType.1, require, bind, Except.bind, pure,
    Except.pure, decide_true, ne_eq, not_false_eq_true, Bool.and_self, if_true, signedToken]

/-- A signed token says what its fields say. -/
theorem parseTokenFields_signedToken {fields : TokenFields} {signature : TokenSignature}
    (canonical : fields.Canonical) (valid : validateTokenFields fields = .ok ()) (usable : signature.Usable) :
    parseTokenFields (some (signedToken fields signature)) = .ok fields := by
  obtain ⟨deviceId, device⟩ := device_of_validateTokenFields valid
  have named := trimCopy_deviceId_ne_nil device
  have encoding : trimCopy kBase64 = kBase64 := by decide
  have solid : kBase64 ≠ [] := by decide
  simp only [parseTokenFields, readIdentity, checkSignature, signedToken, Field.valueOr, canonical.clientId,
    canonical.clientName, canonical.deviceType, canonical.deviceId, named, usable.alg, usable.encoding,
    usable.value, encoding, solid, require, bind, Except.bind, pure, Except.pure, decide_true, ne_eq,
    not_false_eq_true, reduceCtorEq, Bool.not_false, Bool.and_self, if_true]

end SearchEngine.Auth
