import SearchEngine.Auth.TokenDocument
import SearchEngine.Lib.Machine
import SearchEngine.Lib.SortedMap
import Mathlib.Data.Char
import Mathlib.Data.List.Lex

/-!
# The table of clients

`AuthClientStore` keeps one row for every client id. Texts are bound up to their
first NUL, so what the table holds has none.
-/

namespace SearchEngine.Auth

open SearchEngine.Lib

/-- What `sqlite3_bind_text(…, c_str(), -1, …)` stores of a text. -/
def boundText (text : Text) : Text := text.takeWhile (· ≠ '\x00')

theorem noNul_boundText (text : Text) : '\x00' ∉ boundText text := by
  intro member
  have kept := List.mem_takeWhile_imp member
  simp at kept

theorem boundText_eq_self {text : Text} (noNul : '\x00' ∉ text) : boundText text = text := by
  apply List.takeWhile_eq_self_iff.mpr
  intro c member
  have different : c ≠ '\x00' := fun same => noNul (same ▸ member)
  simpa using different

/-- A row of `clients`; its `client_id` is the key. -/
structure ClientRow where
  clientName : Text
  deviceType : Text
  deviceId : Text
  enabled : Bool
  signatureMeta : Text
  createdAt : Int
  updatedAt : Int
deriving DecidableEq

/-- The rows name the same device of the same client. -/
def ClientRow.sameIdentity (row other : ClientRow) : Bool :=
  row.clientName = other.clientName && row.deviceType = other.deviceType && row.deviceId = other.deviceId

/-- What the table holds of a client can be bound again unchanged. -/
structure ClientRow.Stored (row : ClientRow) : Prop where
  clientName : '\x00' ∉ row.clientName
  deviceType : isSupportedDeviceType row.deviceType = true
  deviceId : '\x00' ∉ row.deviceId

/-- `AuthClientStore`: the table `clients`. -/
abbrev AuthClientStore := SortedMap Text ClientRow

/-- The arguments of `upsertClient`. -/
structure Upsert where
  fields : TokenFields
  enabled : Bool
  signatureMeta : Text
  rejectIdentityConflict : Bool
  preserveEnabled : Bool

/-- The row that `upsertClient` inserts. -/
def Upsert.row (upsert : Upsert) (stamp : Int) : ClientRow where
  clientName := boundText upsert.fields.clientName
  deviceType := boundText upsert.fields.deviceType
  deviceId := boundText upsert.fields.deviceId
  enabled := upsert.enabled
  signatureMeta := boundText upsert.signatureMeta
  createdAt := stamp
  updatedAt := stamp

/-- `ON CONFLICT(client_id) DO UPDATE`. -/
def Upsert.update (upsert : Upsert) (stamp : Int) (old : ClientRow) : ClientRow :=
  { upsert.row stamp with
    enabled := if upsert.preserveEnabled then old.enabled else upsert.enabled
    createdAt := old.createdAt }

namespace AuthClientStore

def upsertClient (store : AuthClientStore) (upsert : Upsert) (stamp : Int) : Except String AuthClientStore :=
  if upsert.fields.clientId.isEmpty || upsert.fields.clientName.isEmpty || upsert.fields.deviceType.isEmpty ||
      upsert.fields.deviceId.isEmpty then
    .error "client_id, client_name, device_type and device_id must be non-empty"
  else if !isSupportedDeviceType upsert.fields.deviceType then .error "device_type must be usb or computer"
  else
    match store.find? (boundText upsert.fields.clientId) with
    | none => .ok (store.insert (boundText upsert.fields.clientId) (upsert.row stamp))
    | some old =>
        if upsert.rejectIdentityConflict && !old.sameIdentity (upsert.row stamp) then
          .error "client_id conflicts with another identity; registration was not changed"
        else .ok (store.insert (boundText upsert.fields.clientId) (upsert.update stamp old))

/-- What is thrown for a client without a row. -/
def clientNotFound (clientId : Text) : String := "client_id not found: " ++ String.ofList clientId

def setEnabled (store : AuthClientStore) (clientId : Text) (enabled : Bool) (stamp : Int) :
    Except String AuthClientStore :=
  if (store.find? (boundText clientId)).isSome then
    .ok (store.modify (boundText clientId) fun row => { row with enabled := enabled, updatedAt := stamp })
  else .error (clientNotFound clientId)

def removeClient (store : AuthClientStore) (clientId : Text) : Except String AuthClientStore :=
  if (store.find? (boundText clientId)).isSome then .ok (store.erase (boundText clientId))
  else .error (clientNotFound clientId)

def getClient (store : AuthClientStore) (clientId : Text) : Option ClientRow := store.find? (boundText clientId)

/-! ## Runs -/

/-- A call of the store. -/
inductive StoreCall where
  | upsertClient (upsert : Upsert) (stamp : Int)
  | setEnabled (clientId : Text) (enabled : Bool) (stamp : Int)
  | removeClient (clientId : Text)

/-- What a call returns. -/
def call (store : AuthClientStore) : StoreCall → Except String AuthClientStore
  | .upsertClient upsert stamp => store.upsertClient upsert stamp
  | .setEnabled clientId enabled stamp => store.setEnabled clientId enabled stamp
  | .removeClient clientId => store.removeClient clientId

/-- The calls on a store; one that throws is not taken. -/
def machine : Machine AuthClientStore StoreCall := ⟨fun store call => (store.call call).toOption⟩

/-- The store after some calls on an empty table. -/
def Reachable (store : AuthClientStore) : Prop := ∃ calls, machine.run (∅ : AuthClientStore) calls = some store

variable {store next : AuthClientStore} {upsert : Upsert} {stamp : Int}

/-- What a call of `upsertClient` that returns has done. -/
theorem upsertClient_eq_ok (done : store.upsertClient upsert stamp = .ok next) :
    isSupportedDeviceType upsert.fields.deviceType = true ∧
      ((store.find? (boundText upsert.fields.clientId) = none ∧
          next = store.insert (boundText upsert.fields.clientId) (upsert.row stamp)) ∨
        ∃ old, store.find? (boundText upsert.fields.clientId) = some old ∧
          (upsert.rejectIdentityConflict = true → old.sameIdentity (upsert.row stamp) = true) ∧
          next = store.insert (boundText upsert.fields.clientId) (upsert.update stamp old)) := by
  unfold upsertClient at done
  split at done
  · cases done
  split at done
  · cases done
  rename_i supported
  refine ⟨by simpa using supported, ?_⟩
  split at done
  · rename_i absent
    exact .inl ⟨absent, (Except.ok.inj done).symm⟩
  · rename_i old present
    split at done
    · cases done
    · rename_i agrees
      refine .inr ⟨old, present, fun rejects => ?_, (Except.ok.inj done).symm⟩
      simpa [rejects] using agrees

theorem boundText_deviceType {deviceType : Text} (supported : isSupportedDeviceType deviceType = true) :
    boundText deviceType = deviceType := by
  simp only [isSupportedDeviceType, Bool.or_eq_true, decide_eq_true_eq] at supported
  rcases supported with rfl | rfl <;> decide

theorem stored_row (supported : isSupportedDeviceType upsert.fields.deviceType = true) (stamp : Int) :
    (upsert.row stamp).Stored where
  clientName := noNul_boundText _
  deviceType := by
    unfold Upsert.row
    rw [boundText_deviceType supported]
    exact supported
  deviceId := noNul_boundText _

/-- The rows of a store. -/
def AllStored (store : AuthClientStore) : Prop := ∀ clientId row, store.find? clientId = some row → row.Stored

theorem AllStored.insert {clientId : Text} {row : ClientRow} (stored : store.AllStored) (new : row.Stored) :
    AllStored (store.insert clientId row) := by
  intro other found present
  rw [SortedMap.find?_insert] at present
  split at present
  · obtain rfl := Option.some.inj present
    exact new
  · exact stored other found present

/-- A call leaves rows that can be bound again. -/
theorem AllStored.call {call : StoreCall} (stored : store.AllStored) (done : store.call call = .ok next) :
    next.AllStored := by
  cases call with
  | upsertClient upsert stamp =>
      obtain ⟨supported, ⟨_, rfl⟩ | ⟨old, _, _, rfl⟩⟩ := upsertClient_eq_ok done
      · exact stored.insert (stored_row supported stamp)
      · obtain ⟨name, kind, device⟩ := stored_row supported stamp
        exact stored.insert ⟨name, kind, device⟩
  | setEnabled clientId enabled stamp =>
      simp only [AuthClientStore.call, setEnabled] at done
      split at done
      · obtain rfl := Except.ok.inj done
        intro other row present
        rw [SortedMap.find?_modify] at present
        split at present
        · obtain ⟨old, found, rfl⟩ := Option.map_eq_some_iff.mp present
          obtain ⟨name, kind, device⟩ := stored other old found
          exact ⟨name, kind, device⟩
        · exact stored other row present
      · cases done
  | removeClient clientId =>
      simp only [AuthClientStore.call, removeClient] at done
      split at done
      · obtain rfl := Except.ok.inj done
        intro other row present
        rw [SortedMap.find?_erase] at present
        split at present
        · cases present
        · exact stored other row present
      · cases done

/-- Every row of a reachable store can be bound again. -/
theorem Reachable.allStored (reachable : store.Reachable) : store.AllStored := by
  obtain ⟨calls, done⟩ := reachable
  refine @Machine.invariant_reachable _ _ machine AllStored ?_ _ _ _ ?_ done
  · intro store call next stored stepped
    obtain ⟨result, returned, rfl⟩ : ∃ result, store.call call = .ok result ∧ result = next := by
      cases outcome : store.call call with
      | error what => simp [machine, outcome, Except.toOption] at stepped
      | ok result => exact ⟨result, rfl, by simpa [machine, outcome, Except.toOption] using stepped⟩
    exact stored.call returned
  · intro clientId row present
    cases present

end AuthClientStore

end SearchEngine.Auth
