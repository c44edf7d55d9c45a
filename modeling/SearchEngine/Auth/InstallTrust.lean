import SearchEngine.Auth.AuthorityState
import SearchEngine.Auth.ClientStore
import Mathlib.Data.List.Infix

/-!
# Installing trust

`InstallTrust` registers the clients of a list of tokens inside a transaction, replaces the
public key of the issuer, and commits. Every call may fail or be the last one of the
process. What the table and the key are afterwards depends on the calls behind the
replacement of the key.
-/

namespace SearchEngine.Auth

open SearchEngine.Lib

/-! ## Checks -/

/-- `PublicKeyFingerprint`. -/
def publicKeyFingerprint (crypto : Crypto) (pem : Text) : Except String Text :=
  if pem.length ≤ 16384 ∧ ¬ "PRIVATE KEY".toList <:+: pem then
    match crypto.readPublic pem with
    | none => .error "Invalid public key"
    | some key => if crypto.isRsa2048 key then .ok (crypto.digest key) else .error "RSA-2048 public key is required"
  else .error "Only a public key may be transferred"

/-- `VerifyToken`. -/
def verifyToken (crypto : Crypto) (pem : Text) (token : Option TokenDocument) : Except String Bool := do
  let fields ← parseTokenFields token
  let value ← (token.elim (.error "out_of_range") signatureValue)
  pure (crypto.verifyTokenSignature (buildIdentitySigningMessage fields) value pem)

/-- The checks before anything is opened. -/
def checkTrust (crypto : Crypto) (pem : Text) (tokens : List (Option TokenDocument)) : Except String Unit := do
  let _ ← publicKeyFingerprint crypto pem
  tokens.forM fun token => do
    let trusted ← verifyToken crypto pem token
    require trusted "Untrusted token"

/-! ## Calls -/

/-- The calls of `WriteBytes`; the last one is the replacement of the file. -/
inductive WriteCall where
  | createDirectories
  | createTemporary
  | writeTemporary
  | replace
deriving DecidableEq

/-- The calls of `InstallTrust` behind the checks. -/
inductive InstallCall where
  | openStore
  | keyExists
  | beginTransaction
  | upsertClient (position : Nat)
  | writeKey (call : WriteCall)
  | commitTransaction
  | restoreKey (call : WriteCall)
  | removeKey
deriving DecidableEq

/-- What becomes of a call: the process may end in front of it. -/
inductive Fate where
  | succeeds
  | fails
  | crashes
deriving DecidableEq

/-- What a run meets with: the fate of every call, how much of the old key is read when that
reading breaks off, and the time. -/
structure InstallFaults where
  fate : InstallCall → Fate
  readKey : Option Nat
  now : Nat → Int

/-- How a part of the run ended early. -/
inductive Halt where
  | threw (error : String)
  | crashed
deriving DecidableEq

/-- The error of a failing call. -/
def InstallCall.error : InstallCall → String
  | .writeKey .createTemporary | .restoreKey .createTemporary => "Cannot create temporary access file"
  | .writeKey .writeTemporary | .restoreKey .writeTemporary => "Cannot write or replace access file"
  | .writeKey .replace | .restoreKey .replace => "Cannot write or replace access file"
  | .writeKey .createDirectories | .restoreKey .createDirectories | .keyExists | .removeKey => "filesystem_error"
  | .openStore | .beginTransaction | .upsertClient _ | .commitTransaction => "SQLite error"

/-- Make the calls in turn, up to the first that does not succeed. -/
def makeCalls (fate : InstallCall → Fate) : List InstallCall → Option Halt
  | [] => none
  | call :: rest =>
      match fate call with
      | .succeeds => makeCalls fate rest
      | .fails => some (.threw call.error)
      | .crashes => some .crashed

/-- The calls of a `WriteBytes`. -/
def writeCalls (call : WriteCall → InstallCall) : List InstallCall :=
  [call .createDirectories, call .createTemporary, call .writeTemporary, call .replace]

/-! ## InstallTrust -/

/-- `auth_clients.sqlite` and `issuer-public.pem`. -/
structure TrustFiles where
  clients : AuthClientStore
  key : Option Text

/-- The identity of a token and what `signature.dump()` makes of its signature. -/
def readToken (dump : SignatureObject → Text) (token : Option TokenDocument) : Except String (TokenFields × Text) := do
  let fields ← parseTokenFields token
  let signature ← (token.elim (.error "out_of_range") fun document => document.signature.get)
  pure (fields, dump signature)

/-- The arguments of `upsertClient` for a token. -/
def trustUpsert (token : TokenFields × Text) : Upsert := ⟨token.1, true, token.2, true, true⟩

/-- The loop inside the transaction. -/
def registerTokens (faults : InstallFaults) (dump : SignatureObject → Text) :
    Nat → List (Option TokenDocument) → AuthClientStore → Except Halt AuthClientStore
  | _, [], clients => .ok clients
  | position, token :: rest, clients =>
      match readToken dump token with
      | .error what => .error (.threw what)
      | .ok fields =>
          match makeCalls faults.fate [.upsertClient position] with
          | some halt => .error halt
          | none =>
              match clients.upsertClient (trustUpsert fields) (faults.now position) with
              | .error what => .error (.threw what)
              | .ok registered => registerTokens faults dump (position + 1) rest registered

/-- What is read of the old key. -/
def InstallFaults.readBack (faults : InstallFaults) (text : Text) : Text :=
  match faults.readKey with
  | none => text
  | some count => text.take count

/-- The handler of an error behind the replacement of the key. -/
def undoKey (faults : InstallFaults) (files : TrustFiles) (pem : Text) (thrown : String) : TrustFiles × Halt :=
  match files.key with
  | some text =>
      match makeCalls faults.fate (writeCalls .restoreKey) with
      | none => (⟨files.clients, some (faults.readBack text)⟩, .threw thrown)
      | some halt => (⟨files.clients, some pem⟩, halt)
  | none =>
      match makeCalls faults.fate [.removeKey] with
      | none => (⟨files.clients, none⟩, .threw thrown)
      | some halt => (⟨files.clients, some pem⟩, halt)

/-- `InstallTrust`: the files afterwards, and how it ended. The end of the process, like an
error, rolls the transaction back. -/
def installTrust (crypto : Crypto) (dump : SignatureObject → Text) (faults : InstallFaults) (files : TrustFiles)
    (pem : Text) (tokens : List (Option TokenDocument)) : TrustFiles × Option Halt :=
  match checkTrust crypto pem tokens with
  | .error what => (files, some (.threw what))
  | .ok _ =>
      match makeCalls faults.fate [.openStore, .keyExists, .beginTransaction] with
      | some halt => (files, some halt)
      | none =>
          match registerTokens faults dump 0 tokens files.clients with
          | .error halt => (files, some halt)
          | .ok registered =>
              match makeCalls faults.fate (writeCalls .writeKey) with
              | some halt => (files, some halt)
              | none =>
                  match faults.fate .commitTransaction with
                  | .succeeds => (⟨registered, some pem⟩, none)
                  | .crashes => (⟨files.clients, some pem⟩, some .crashed)
                  | .fails =>
                      ((undoKey faults files pem InstallCall.commitTransaction.error).1,
                        some (undoKey faults files pem InstallCall.commitTransaction.error).2)

/-! ## What is asked of it -/

/-- The row is that of the identity. -/
def ClientRow.Names (row : ClientRow) (fields : TokenFields) : Prop :=
  row.clientName = boundText fields.clientName ∧ row.deviceType = boundText fields.deviceType ∧
    row.deviceId = boundText fields.deviceId

/-- The new table is the old one with the tokens in it: clients of before keep their identity
and their status, new ones are enabled, and a client has the signature of its last token. -/
structure Registered (old new : AuthClientStore) (tokens : List (TokenFields × Text)) : Prop where
  present : ∀ token ∈ tokens, ∃ row, new.find? (boundText token.1.clientId) = some row ∧ row.Names token.1 ∧
    (old.find? (boundText token.1.clientId) = none → row.enabled = true)
  kept : ∀ clientId row, old.find? clientId = some row → ∃ later, new.find? clientId = some later ∧
    later.sameIdentity row = true ∧ later.enabled = row.enabled
  others : ∀ clientId, (∀ token ∈ tokens, boundText token.1.clientId ≠ clientId) →
    new.find? clientId = old.find? clientId
  latest : ∀ front token rest, tokens = front ++ token :: rest →
    (∀ other ∈ rest, boundText other.1.clientId ≠ boundText token.1.clientId) →
    ∃ row, new.find? (boundText token.1.clientId) = some row ∧ row.signatureMeta = boundText token.2

/-- The tokens are in the table of the second files, over the table of the first. -/
def TrustFiles.Holds (files after : TrustFiles) (dump : SignatureObject → Text) (tokens : List (Option TokenDocument)) :
    Prop :=
  ∃ read, tokens.mapM (readToken dump) = .ok read ∧ Registered files.clients after.clients read

/-- Both files are what they were, or both are as requested. -/
def TrustFiles.Atomic (files after : TrustFiles) (dump : SignatureObject → Text) (pem : Text)
    (tokens : List (Option TokenDocument)) : Prop :=
  after = files ∨ (after.key = some pem ∧ files.Holds after dump tokens)

/-- The run gets as far as the new key. -/
structure Publishes (crypto : Crypto) (dump : SignatureObject → Text) (faults : InstallFaults) (files : TrustFiles)
    (pem : Text) (tokens : List (Option TokenDocument)) : Prop where
  checked : ∃ done, checkTrust crypto pem tokens = .ok done
  opened : makeCalls faults.fate [.openStore, .keyExists, .beginTransaction] = none
  registered : ∃ clients, registerTokens faults dump 0 tokens files.clients = .ok clients
  replaced : makeCalls faults.fate (writeCalls .writeKey) = none

/-- The commit succeeds, or fails and the old key is put back, or nothing had to change. -/
def Survives (faults : InstallFaults) (files : TrustFiles) (pem : Text) (already : Prop) : Prop :=
  match faults.fate .commitTransaction with
  | .succeeds => True
  | .crashes => files.key = some pem ∨ already
  | .fails =>
      match files.key with
      | some text =>
          if makeCalls faults.fate (writeCalls .restoreKey) = none then
            faults.readBack text = text ∨ (faults.readBack text = pem ∧ already)
          else text = pem ∨ already
      | none => makeCalls faults.fate [.removeKey] = none ∨ already

/-! ## Registration -/

theorem sameIdentity_iff {row other : ClientRow} : row.sameIdentity other = true ↔
    row.clientName = other.clientName ∧ row.deviceType = other.deviceType ∧ row.deviceId = other.deviceId := by
  simp [ClientRow.sameIdentity, and_assoc]

/-- No tokens change nothing. -/
theorem registered_nil (clients : AuthClientStore) : Registered clients clients [] where
  present := by simp
  kept := fun clientId row found => ⟨row, found, sameIdentity_iff.mpr ⟨rfl, rfl, rfl⟩, rfl⟩
  others := fun _ _ => rfl
  latest := by simp

/-- One call of `upsertClient` registers one token. -/
theorem registered_upsert {clients next : AuthClientStore} {token : TokenFields × Text} {stamp : Int}
    (done : clients.upsertClient (trustUpsert token) stamp = .ok next) : Registered clients next [token] := by
  obtain ⟨row, names, signature, rfl, kept, fresh⟩ : ∃ row : ClientRow, row.Names token.1 ∧
      row.signatureMeta = boundText token.2 ∧ next = clients.insert (boundText token.1.clientId) row ∧
      (∀ old, clients.find? (boundText token.1.clientId) = some old →
        row.sameIdentity old = true ∧ row.enabled = old.enabled) ∧
      (clients.find? (boundText token.1.clientId) = none → row.enabled = true) := by
    obtain ⟨-, ⟨absent, rfl⟩ | ⟨old, found, agrees, rfl⟩⟩ := AuthClientStore.upsertClient_eq_ok done
    · refine ⟨_, ⟨rfl, rfl, rfl⟩, rfl, rfl, fun old found => ?_, fun _ => rfl⟩
      rw [show boundText (trustUpsert token).fields.clientId = boundText token.1.clientId from rfl] at absent
      rw [absent] at found
      cases found
    · refine ⟨_, ⟨rfl, rfl, rfl⟩, rfl, rfl, fun other also => ?_, fun absent => ?_⟩
      · obtain rfl := Option.some.inj (also.symm.trans found)
        obtain ⟨name, kind, device⟩ := sameIdentity_iff.mp (agrees rfl)
        exact ⟨sameIdentity_iff.mpr ⟨name.symm, kind.symm, device.symm⟩, rfl⟩
      · rw [show boundText token.1.clientId = boundText (trustUpsert token).fields.clientId from rfl, found] at absent
        cases absent
  constructor
  · intro other member
    obtain rfl := List.mem_singleton.mp member
    exact ⟨row, by simp, names, fresh⟩
  · intro clientId old found
    rw [SortedMap.find?_insert]
    split
    · rename_i same
      subst same
      exact ⟨row, rfl, kept old found⟩
    · exact ⟨old, found, sameIdentity_iff.mpr ⟨rfl, rfl, rfl⟩, rfl⟩
  · intro clientId different
    rw [SortedMap.find?_insert, if_neg (different token (List.mem_singleton_self token))]
  · intro front other rest split _
    obtain rfl : other = token := by
      have member : other ∈ [token] := split ▸ List.mem_append_right _ (List.mem_cons_self ..)
      exact List.mem_singleton.mp member
    exact ⟨row, by simp, signature⟩

/-- The registrations of a token and of those behind it. -/
theorem Registered.cons {old middle new : AuthClientStore} {token : TokenFields × Text}
    {rest : List (TokenFields × Text)} (first : Registered old middle [token]) (later : Registered middle new rest) :
    Registered old new (token :: rest) := by
  obtain ⟨row, found, names, fresh⟩ := first.present token (List.mem_singleton_self token)
  constructor
  · intro other member
    rcases List.mem_cons.mp member with rfl | behind
    · obtain ⟨last, foundLast, same, enabled⟩ := later.kept _ row found
      obtain ⟨name, kind, device⟩ := sameIdentity_iff.mp same
      exact ⟨last, foundLast, ⟨name.trans names.1, kind.trans names.2.1, device.trans names.2.2⟩,
        fun absent => enabled.trans (fresh absent)⟩
    · obtain ⟨last, foundLast, lastNames, lastFresh⟩ := later.present other behind
      refine ⟨last, foundLast, lastNames, fun absent => ?_⟩
      by_cases same : boundText token.1.clientId = boundText other.1.clientId
      · rw [same] at found
        obtain ⟨again, foundAgain, _, enabled⟩ := later.kept _ row found
        obtain rfl := Option.some.inj (foundAgain.symm.trans foundLast)
        exact enabled.trans (fresh (same ▸ absent))
      · apply lastFresh
        rw [first.others _ (by simpa using same), absent]
  · intro clientId before foundBefore
    obtain ⟨between, foundBetween, same, enabled⟩ := first.kept clientId before foundBefore
    obtain ⟨last, foundLast, sameLast, enabledLast⟩ := later.kept clientId between foundBetween
    obtain ⟨name, kind, device⟩ := sameIdentity_iff.mp same
    obtain ⟨nameLast, kindLast, deviceLast⟩ := sameIdentity_iff.mp sameLast
    exact ⟨last, foundLast, sameIdentity_iff.mpr ⟨nameLast.trans name, kindLast.trans kind, deviceLast.trans device⟩,
      enabledLast.trans enabled⟩
  · intro clientId different
    rw [later.others clientId fun other behind => different other (List.mem_cons_of_mem _ behind)]
    apply first.others
    intro other member
    obtain rfl := List.mem_singleton.mp member
    exact different other (List.mem_cons_self ..)
  · intro front other behind split different
    cases front with
    | nil =>
        obtain ⟨rfl, rfl⟩ := List.cons.inj split
        rw [later.others _ different]
        obtain ⟨stored, foundStored, signature⟩ := first.latest [] token [] rfl (by simp)
        exact ⟨stored, foundStored, signature⟩
    | cons head more => exact later.latest more other behind (List.tail_eq_of_cons_eq split) different

/-- The loop registers all tokens, or the call throws. -/
theorem registered_of_registerTokens {faults : InstallFaults} {dump : SignatureObject → Text} {position : Nat}
    {tokens : List (Option TokenDocument)} {clients registered : AuthClientStore}
    (done : registerTokens faults dump position tokens clients = .ok registered) :
    ∃ read, tokens.mapM (readToken dump) = .ok read ∧ Registered clients registered read := by
  induction tokens generalizing position clients with
  | nil =>
      obtain rfl := Except.ok.inj done
      exact ⟨[], rfl, registered_nil clients⟩
  | cons token rest ih =>
      unfold registerTokens at done
      split at done
      · cases done
      · rename_i fields parsed
        split at done
        · cases done
        · split at done
          · cases done
          · rename_i next upserted
            obtain ⟨read, parsedRest, later⟩ := ih done
            refine ⟨fields :: read, ?_, (registered_upsert upserted).cons later⟩
            rw [List.mapM_cons, parsed, bind_eq_ok]
            exact ⟨fields, rfl, bind_eq_ok.mpr ⟨read, parsedRest, rfl⟩⟩

/-! ## Both or neither -/

section Install

variable {crypto : Crypto} {dump : SignatureObject → Text} {faults : InstallFaults} {files : TrustFiles} {pem : Text}
  {tokens : List (Option TokenDocument)}

/-- A run that does not get as far as the new key changes nothing. -/
theorem installTrust_of_not_publishes (early : ¬ Publishes crypto dump faults files pem tokens) :
    (installTrust crypto dump faults files pem tokens).1 = files := by
  unfold installTrust
  split
  · rfl
  · rename_i done checked
    split
    · rfl
    · rename_i opened
      split
      · rfl
      · rename_i clients registered
        split
        · rfl
        · rename_i replaced
          exact absurd ⟨⟨done, checked⟩, opened, ⟨clients, registered⟩, replaced⟩ early

/-- How a run with the new key in place ends. -/
theorem installTrust_of_publishes (publishes : Publishes crypto dump faults files pem tokens) :
    ∃ registered, registerTokens faults dump 0 tokens files.clients = .ok registered ∧
      (installTrust crypto dump faults files pem tokens).1 =
        match faults.fate .commitTransaction with
        | .succeeds => ⟨registered, some pem⟩
        | .crashes => ⟨files.clients, some pem⟩
        | .fails => (undoKey faults files pem InstallCall.commitTransaction.error).1 := by
  obtain ⟨⟨done, checked⟩, opened, ⟨registered, inserted⟩, replaced⟩ := publishes
  refine ⟨registered, inserted, ?_⟩
  simp only [installTrust, checked, opened, inserted, replaced]
  cases faults.fate .commitTransaction <;> rfl

/-- The new key beside the old table. -/
theorem atomic_newKey_iff {text : Text} :
    files.Atomic ⟨files.clients, some text⟩ dump pem tokens ↔
      files.key = some text ∨ (text = pem ∧ files.Holds files dump tokens) := by
  obtain ⟨clients, key⟩ := files
  unfold TrustFiles.Atomic TrustFiles.Holds
  simp only [TrustFiles.mk.injEq, true_and, Option.some.injEq]
  exact or_congr_left eq_comm

/-- The handler leaves both files as they were exactly when it gets the old key back. -/
theorem atomic_undoKey_iff (thrown : String) :
    files.Atomic (undoKey faults files pem thrown).1 dump pem tokens ↔
      match files.key with
      | some text =>
          if makeCalls faults.fate (writeCalls .restoreKey) = none then
            faults.readBack text = text ∨ (faults.readBack text = pem ∧ files.Holds files dump tokens)
          else text = pem ∨ files.Holds files dump tokens
      | none => makeCalls faults.fate [.removeKey] = none ∨ files.Holds files dump tokens := by
  unfold undoKey
  cases stored : files.key with
  | some text =>
      cases restored : makeCalls faults.fate (writeCalls .restoreKey) with
      | none =>
          dsimp only
          rw [atomic_newKey_iff, stored, if_pos rfl, Option.some.injEq]
          exact or_congr_left eq_comm
      | some halt =>
          dsimp only
          rw [atomic_newKey_iff, stored, if_neg (by simp), Option.some.injEq]
          simp
  | none =>
      cases removed : makeCalls faults.fate [.removeKey] with
      | none =>
          have same : (⟨files.clients, none⟩ : TrustFiles) = files := by rw [← stored]
          simp only [same, true_or, iff_true]
          exact .inl rfl
      | some halt =>
          dsimp only
          rw [atomic_newKey_iff, stored]
          simp

/-- The table and the key change together exactly when a run that replaces the key commits, or
puts the old key back, or had nothing to change. -/
theorem installTrust_atomic_iff (crypto : Crypto) (dump : SignatureObject → Text) (faults : InstallFaults)
    (files : TrustFiles) (pem : Text) (tokens : List (Option TokenDocument)) :
    files.Atomic (installTrust crypto dump faults files pem tokens).1 dump pem tokens ↔
      (Publishes crypto dump faults files pem tokens → Survives faults files pem (files.Holds files dump tokens)) := by
  by_cases publishes : Publishes crypto dump faults files pem tokens
  · obtain ⟨registered, inserted, outcome⟩ := installTrust_of_publishes publishes
    rw [outcome, forall_prop_of_true publishes, Survives]
    cases faults.fate .commitTransaction with
    | succeeds =>
        simp only [iff_true]
        exact .inr ⟨rfl, registered_of_registerTokens inserted⟩
    | crashes =>
        dsimp only
        rw [atomic_newKey_iff]
        simp
    | fails => exact atomic_undoKey_iff _
  · rw [installTrust_of_not_publishes publishes]
    simp only [publishes, false_imp_iff, iff_true]
    exact .inl rfl

end Install

/-! ## A process that ends in front of the commit -/

/-- Every key is accepted, and every signature. -/
def trustingCrypto : Crypto where
  PublicKey := Unit
  PrivateKey := Unit
  readPublic _ := some ()
  readPrivate text _ := if text = [] then none else some ()
  isRsa2048 _ := true
  isPrivateRsa2048 _ := true
  digest _ := []
  sign _ _ := [0]
  verify _ _ _ := true
  Paired _ _ := True
  verify_sign _ _ _ _ := rfl
  sign_ne_nil _ _ := List.cons_ne_nil _ _
  readPrivate_nil _ := rfl

/-- The token of one client. -/
def oneToken : TokenDocument where
  format := .present kTokenFormat
  formatVersion := .present 1
  flashSerial := false
  clientId := .present "c".toList
  clientName := .present "n".toList
  deviceType := .present kDeviceTypeUsb
  deviceId := .present "D".toList
  signature := .present ⟨.present kSignatureAlg, .present kBase64, .present "AAAA".toList⟩

/-- Everything succeeds up to the commit. -/
def crashAtCommit : InstallFaults where
  fate call := if call = .commitTransaction then .crashes else .succeeds
  readKey := none
  now _ := 0

/-- The new key is left beside a table without its client. -/
theorem not_installTrust_atomic_crashAtCommit :
    ¬ ∀ (crypto : Crypto) (dump : SignatureObject → Text) (faults : InstallFaults) (files : TrustFiles) (pem : Text)
      (tokens : List (Option TokenDocument)),
        files.Atomic (installTrust crypto dump faults files pem tokens).1 dump pem tokens := by
  intro always
  have atomic := always trustingCrypto (fun _ => []) crashAtCommit ⟨∅, some "old".toList⟩ "new".toList [some oneToken]
  have left : (installTrust trustingCrypto (fun _ => []) crashAtCommit ⟨∅, some "old".toList⟩ "new".toList
      [some oneToken]).1 = ⟨∅, some "new".toList⟩ := by
    have clients : (installTrust trustingCrypto (fun _ => []) crashAtCommit ⟨∅, some "old".toList⟩ "new".toList
      [some oneToken]).1.clients = ∅ := by decide +kernel
    have key : (installTrust trustingCrypto (fun _ => []) crashAtCommit ⟨∅, some "old".toList⟩ "new".toList
      [some oneToken]).1.key = some "new".toList := by decide +kernel
    generalize (installTrust trustingCrypto (fun _ => []) crashAtCommit ⟨∅, some "old".toList⟩ "new".toList
      [some oneToken]).1 = after at clients key
    cases after
    simp_all
  rw [left] at atomic
  rcases atomic with same | ⟨-, read, parsed, registered⟩
  · have keys := congrArg TrustFiles.key same
    exact absurd keys (by decide)
  · have tokens : [some oneToken].mapM (readToken fun _ => []) =
        .ok [(⟨"c".toList, "n".toList, kDeviceTypeUsb, "D".toList⟩, [])] := by decide +kernel
    obtain rfl := Except.ok.inj (tokens.symm.trans parsed)
    obtain ⟨row, found, -⟩ := registered.present _ (List.mem_singleton_self _)
    cases found

end SearchEngine.Auth
