import Mathlib.Data.String.Basic
import SearchEngine.Lib.Sharing
import SearchEngine.Lib.SortedMap

/-!
# One connection for every session

`SQLiteConnectionManager` hands the same `mySQLite` object to everyone who asks
for a path. The object keeps the rows of the last statement in one `list`:
`execSql` and `queryRows` fill it, `empty`, `getFront`, `getBack` and the
iterators read it in calls of their own. What SQLite itself does with a statement
is a parameter.
-/

namespace SearchEngine.Sqlite

open Lib

/-- The key of a connection: the manager keeps read-only ones apart. -/
structure Connection where
  readOnly : Bool
  path : String
deriving DecidableEq

/-- `mySQLite::Row`. -/
abbrev Row := SortedMap String String

/-- `SQLiteOpenError`. -/
structure SQLiteOpenError where
  path : String
  sqliteRc : Int
  sqliteMessage : String
deriving DecidableEq

/-- `makeOpenErrorMessage`. -/
def SQLiteOpenError.what (error : SQLiteOpenError) : String :=
  "Failed to open database: " ++ error.path ++ ": " ++ error.sqliteMessage ++
    " (" ++ toString error.sqliteRc ++ ")"

/-- `SQLiteQueryError`. -/
structure SQLiteQueryError where
  path : String
  sqliteRc : Int
  sqliteMessage : String
deriving DecidableEq

/-- `makeQueryErrorMessage`. -/
def SQLiteQueryError.what (error : SQLiteQueryError) : String :=
  "SQL execution failed: " ++ error.sqliteMessage ++
    " (path=" ++ error.path ++ ", rc=" ++ toString error.sqliteRc ++ ")"

/-- Whether the first text occurs in the second. -/
def occursIn (part text : List Char) : Bool := text.tails.any fun tail => part.isPrefixOf tail

/-- `messageLooksLikeSchemaFailure`. -/
def messageLooksLikeSchemaFailure (message : String) : Bool :=
  occursIn "no such table".toList message.toList || occursIn "no such column".toList message.toList

/-- `isSchemaFailure`: `SQLITE_CORRUPT`, `SQLITE_NOTADB`, `SQLITE_SCHEMA`, `SQLITE_FORMAT`. -/
def SQLiteQueryError.isSchemaFailure (error : SQLiteQueryError) : Bool :=
  error.sqliteRc = 11 || error.sqliteRc = 26 || error.sqliteRc = 17 || error.sqliteRc = 24 ||
    messageLooksLikeSchemaFailure error.sqliteMessage

/-- What `sqlite3_exec` does: the storage after it, the columns of each row it reported,
and the error it ended with. -/
structure Executed (Storage : Type) where
  storage : Storage
  reported : List (List (String × Option String))
  error : Option (Int × String)

/-- SQLite. -/
structure Engine (Storage : Type) where
  openError : Storage → Connection → Option (Int × String)
  exec : Storage → Connection → String → Executed Storage

/-- `callback`: the row of one report; a `NULL` becomes the empty text. -/
def callback (columns : List (String × Option String)) : Row :=
  columns.foldl (fun row column => row.insert column.1 (column.2.getD "")) ∅

/-- The files and the connections that were opened before. -/
structure Database (Storage : Type) where
  storage : Storage
  connected : Connection → Bool

/-- The calls on the manager and on a connection. -/
inductive Call where
  | getConnection (connection : Connection)
  | execSql (connection : Connection) (sql : String)
  | queryRows (connection : Connection) (sql : String)
  | empty (connection : Connection)
  | getFront (connection : Connection)
  | getBack (connection : Connection)
  | iterate (connection : Connection)

/-- What comes back; the front and the back of an empty list are `none`. -/
abbrev Answer : Call → Type
  | .getConnection _ => Except SQLiteOpenError Unit
  | .execSql _ _ => Except SQLiteQueryError Unit
  | .queryRows _ _ => Except SQLiteQueryError (List Row)
  | .empty _ => Bool
  | .getFront _ | .getBack _ => Option Row
  | .iterate _ => List Row

namespace Call

/-- The connection a call is made on. -/
def connection : Call → Connection
  | .getConnection connection | .execSql connection _ | .queryRows connection _ | .empty connection
  | .getFront connection | .getBack connection | .iterate connection => connection

/-- What a call does with `list`. -/
def use : Call → SlotUse
  | .getConnection _ => .passes
  | .execSql _ _ | .queryRows _ _ => .sets
  | .empty _ | .getFront _ | .getBack _ | .iterate _ => .reads

end Call

section Service

variable {Storage : Type} (sqlite : Engine Storage)

/-- The answer of a call made on a connection with the given `list`. -/
def respond (list : List Row) (database : Database Storage) : (call : Call) → Answer call
  | .getConnection connection =>
      if database.connected connection then .ok ()
      else match sqlite.openError database.storage connection with
        | none => .ok ()
        | some (rc, message) => .error ⟨connection.path, rc, message⟩
  | .execSql connection sql =>
      match (sqlite.exec database.storage connection sql).error with
      | none => .ok ()
      | some (rc, message) => .error ⟨connection.path, rc, message⟩
  | .queryRows connection sql =>
      let executed := sqlite.exec database.storage connection sql
      match executed.error with
      | none => .ok (executed.reported.map callback)
      | some (rc, message) => .error ⟨connection.path, rc, message⟩
  | .empty _ => list.isEmpty
  | .getFront _ => list.head?
  | .getBack _ => list.getLast?
  | .iterate _ => list

/-- The `list` after a call: a statement clears it and `callback` fills it again, also
when the statement fails after some rows. -/
def store (list : List Row) (database : Database Storage) : Call → List Row
  | .execSql connection sql | .queryRows connection sql =>
      (sqlite.exec database.storage connection sql).reported.map callback
  | .getConnection _ | .empty _ | .getFront _ | .getBack _ | .iterate _ => list

/-- The files and the opened connections after a call. -/
def change (database : Database Storage) : Call → Database Storage
  | .getConnection connection =>
      if (sqlite.openError database.storage connection).isNone then
        { database with connected := fun other => other = connection || database.connected other }
      else database
  | .execSql connection sql | .queryRows connection sql =>
      { database with storage := (sqlite.exec database.storage connection sql).storage }
  | .empty _ | .getFront _ | .getBack _ | .iterate _ => database

/-- The shared connections as a service with one `list` per connection. -/
def service : Service Call Answer Connection (List Row) (Database Storage) where
  slot := Call.connection
  use := Call.use
  respond := respond sqlite
  store := store sqlite
  change := change sqlite
  respond_eq := by
    intro call noRead list other database
    cases call <;> first | rfl | exact absurd rfl noRead
  store_eq := by
    intro call sets list other database
    cases call <;> first | rfl | simp [Call.use] at sets
  store_keeps := by
    intro call noSet list database
    cases call <;> first | rfl | exact absurd rfl noSet

end Service

end SearchEngine.Sqlite
