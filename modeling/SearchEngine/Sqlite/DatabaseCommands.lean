import SearchEngine.Server.Protocol
import SearchEngine.Sqlite.SharedConnection

/-!
# The commands that read the shared connections

`Telega::findBase`, `TelegaWay`, `RecordProcessor` under `UpdateOpisBaseCommand`,
and the lookups of the file resolvers, as programs over the calls of the manager
and of `mySQLite`. The resolvers take the rows from `queryRows`; everyone else
runs the statement and reads `list` afterwards.
-/

namespace SearchEngine.Sqlite

open Lib

/-- What leaves a command as an exception or as a failed result. -/
inductive Thrown where
  | openError (error : SQLiteOpenError)
  | queryError (error : SQLiteQueryError)
  /-- `map::at` without the key. -/
  | outOfRange (field : String)
  /-- A failed result with its diagnostic. -/
  | failed (error : Server.ErrorCode) (diagnostic : String)
  /-- Behaviour the language leaves undefined: the front or the back of an empty
  list, or the bases of a type that has none. -/
  | undefined
deriving DecidableEq

/-- A program over the calls. -/
abbrev Program := Coroutine Call Answer Thrown

namespace Connection

/-! The calls on a connection, each one atomic. -/

def tryConnect (connection : Connection) : Program (Except SQLiteOpenError Unit) :=
  Coroutine.suspend (.getConnection connection) .done

def tryExecSql (connection : Connection) (sql : String) : Program (Except SQLiteQueryError Unit) :=
  Coroutine.suspend (.execSql connection sql) .done

def tryQueryRows (connection : Connection) (sql : String) :
    Program (Except SQLiteQueryError (List Row)) := Coroutine.suspend (.queryRows connection sql) .done

def empty (connection : Connection) : Program Bool := Coroutine.suspend (.empty connection) .done

def getFront (connection : Connection) : Program (Option Row) := Coroutine.suspend (.getFront connection) .done

def getBack (connection : Connection) : Program (Option Row) := Coroutine.suspend (.getBack connection) .done

def iterate (connection : Connection) : Program (List Row) := Coroutine.suspend (.iterate connection) .done

end Connection

def getConnection (connection : Connection) : Program Unit := do
  match ← connection.tryConnect with
  | .ok () => pure ()
  | .error error => Coroutine.raise (.openError error)

def execSql (connection : Connection) (sql : String) : Program Unit := do
  match ← connection.tryExecSql sql with
  | .ok () => pure ()
  | .error error => Coroutine.raise (.queryError error)

/-- `getFront` or `getBack`: a row, unless the list is empty. -/
def rowOrUndefined : Option Row → Program Row
  | some row => pure row
  | none => Coroutine.raise .undefined

/-- `row.at(field)`. -/
def rowAt (row : Row) (field : String) : Program String :=
  match row.find? field with
  | some value => pure value
  | none => Coroutine.raise (.outOfRange field)

/-- `Telega::TYPE`. -/
inductive TelegaType where
  | vhod
  | ishod
  | nottg
deriving DecidableEq

/-- What the commands are configured with, and what they find outside the databases. -/
structure Settings where
  b_prm : List String
  b_prd : List String
  base_way_dir : String
  base_f12_dir : String
  work_year : String
  srcDbVh : String
  srcDbIsh : String
  dstDb : String
  dstTableVh : String
  dstTableIsh : String
  currentYear : String
  currentDate : String
  currentTime : String
  /-- `!exists(basePath) && !existsError`. -/
  f12Missing : Bool
  /-- `getKrSoderj` of a file; empty where it fails. -/
  getKrSoderj : String → String
  /-- `PodrIgnore::itsIgnore`; `none` when `ignore.txt` cannot be loaded. -/
  itsIgnore : String → Option Bool
  /-- What an `int` holds that was never set. -/
  indeterminate : Int

/-! ## Telega::findBase -/

/-- A word character of the regular expression. -/
def isWordChar (c : Char) : Bool := c.isAlphanum || c == '_'

def isSpaceChar (c : Char) : Bool := c ∈ [' ', '\t', '\n', '\x0b', '\x0c', '\r']

/-- `limit\s+(\d+)` at the start of the text, in any case of letters. -/
def matchLimit (text : List Char) : Option (List Char) :=
  let after := text.drop 5
  let number := after.dropWhile isSpaceChar
  if (text.take 5).map Char.toLower = "limit".toList ∧ after.head?.any isSpaceChar ∧
      number.head?.any Char.isDigit then
    some (number.takeWhile Char.isDigit)
  else none

/-- The first match of `\blimit\s+(\d+)`. -/
def searchLimit : Option Char → List Char → Option (List Char)
  | _, [] => none
  | before, c :: rest =>
      if before.any isWordChar then searchLimit (some c) rest
      else (matchLimit (c :: rest)).orElse fun _ => searchLimit (some c) rest

/-- The value of decimal digits. -/
def digitsValue (digits : List Char) : Nat :=
  digits.foldl (fun value digit => 10 * value + (digit.toNat - '0'.toNat)) 0

/-- `extractLimit`: `stoi` of the digits, nothing where it overflows. -/
def extractLimit (condition : String) : Option Nat :=
  (searchLimit none condition.toList).bind fun digits =>
    if digitsValue digits ≤ 2147483647 then some (digitsValue digits) else none

/-- The loop over the rows of one base; `true` when `findBase` returns from it. -/
def collectRows (limitOpt : Option Nat) (single : Bool) :
    List Row → List Row → Nat → List Row × Nat × Bool
  | [], result, collected => (result, collected, false)
  | row :: rows, result, collected =>
      if limitOpt.any (· ≤ collected + 1) || single then (result ++ [row], collected + 1, true)
      else collectRows limitOpt single rows (result ++ [row]) (collected + 1)

/-- The text of the query. -/
def findBaseSql (from_to_key isp_podp_key kr_key blank_key condition : String) : String :=
  "select `index`, ddata, " ++ from_to_key ++ ", TelNo, PodpNo, DataPodp, " ++ isp_podp_key ++ ", " ++
    kr_key ++ ", PrilName, KolPril, DirectTo, FileName, " ++ blank_key ++
    ", Edit, GdeSHT from ARCHIVE " ++ condition

/-- The loop over the bases. -/
def findInBases (sql_qry : String) (limitOpt : Option Nat) (single : Bool) :
    List String → List Row → Nat → Program (List Row)
  | [], result, _ => pure result
  | base_name :: bases, result, collected => do
      let db : Connection := ⟨true, base_name⟩
      getConnection db
      execSql db sql_qry
      if ← db.empty then findInBases sql_qry limitOpt single bases result collected
      else
        let rows ← db.iterate
        let (result, collected, finished) := collectRows limitOpt single rows result collected
        if finished then pure result else findInBases sql_qry limitOpt single bases result collected

/-- `Telega::findBase`. -/
def findBase (settings : Settings) (_condition : String) (_type : TelegaType) (single : Bool) :
    Program (List Row) :=
  let condition := "where " ++ _condition
  let limitOpt := extractLimit condition
  match _type with
  | .vhod =>
      findInBases (findBaseSql "FFrom" "Familia" "PrilName1" "Copyes2" condition) limitOpt single
        settings.b_prm [] 0
  | .ishod =>
      findInBases (findBaseSql "FFrom1" "Copyes" "FFrom5" "Blank" condition) limitOpt single
        settings.b_prd [] 0
  | .nottg => Coroutine.raise .undefined

/-! ## TelegaWay -/

/-- `escapeSqlLiteral`. -/
def escapeSqlLiteral (value : String) : String :=
  String.ofList (value.toList.flatMap fun c => if c = '\'' then ['\'', '\''] else [c])

/-- The row of the live queue. -/
def liveRow (settings : Settings) (num type_str gdeSht : String) : Row :=
  callback
    [("number", some num), ("ddate", some settings.currentDate), ("ttime", some settings.currentTime),
      ("kuda", some ("L-k:" ++ gdeSht)), ("type", some type_str), ("ind", some "0"), ("str", some "-"),
      ("pos", some "-")]

/-- The rest of the constructor: the live queue of the current year. -/
def telegaLive (settings : Settings) (num type_str sql_num : String) (result_way : List Row) :
    Program (List Row) := do
  let db_f12 : Connection := ⟨true, settings.base_f12_dir⟩
  getConnection db_f12
  execSql db_f12 ("select * from tab " ++ "where type = " ++ type_str ++ " and print = '0'" ++
    " and (trim(number) = " ++ sql_num ++
    " or trim(number) = trim(coalesce(Sr, '') || ' ' || " ++ sql_num ++ "))" ++
    " order by ind desc limit 1")
  if ← db_f12.empty then pure result_way
  else
    let row ← rowOrUndefined (← db_f12.getFront)
    let gdeSht ← rowAt row "GdeSht"
    pure (result_way ++ [liveRow settings num type_str gdeSht])

/-- The constructor of `TelegaWay`; its result is `result_way`. -/
def telegaWay (settings : Settings) (num : String) (_type : TelegaType) : Program (List Row) := do
  let type_str := if _type = .vhod then "1" else "2"
  let sql_num := "'" ++ escapeSqlLiteral num ++ "'"
  let db_way : Connection := ⟨true, settings.base_way_dir⟩
  getConnection db_way
  execSql db_way ("select * from way " ++ "where type = " ++ type_str ++ " and number = " ++ sql_num)
  let result_way ← (do
    if ← db_way.empty then pure []
    else db_way.iterate)
  if settings.work_year ≠ settings.currentYear ∨ settings.f12Missing then pure result_way
  else telegaLive settings num type_str sql_num result_way

/-! ## RecordProcessor -/

/-- The members of a `RecordProcessor`. -/
structure RecordProcessor where
  type : TelegaType
  num : Int
  ish_val : Int
  empty : Bool
  ddata : String
  podp : String
  dpod : String
  lists : String
  podrazd : String
  kr_from_base : String
  gdesht : String
  kr_from_text : String
deriving DecidableEq

def getSrcDB (settings : Settings) (type : TelegaType) : String :=
  if type = .vhod then settings.srcDbVh else settings.srcDbIsh

def getDstTable (settings : Settings) (type : TelegaType) : String :=
  if type = .vhod then settings.dstTableVh else settings.dstTableIsh

def getFieldKr (type : TelegaType) : String := if type = .ishod then "FFrom5" else "PrilName1"

/-- The number at the start of a text, and its sign; none without a digit. -/
def leadingInt (text : List Char) : Option Int :=
  let (negative, digits) := match text with
    | '-' :: rest => (true, rest.takeWhile Char.isDigit)
    | _ => (false, text.takeWhile Char.isDigit)
  if digits.isEmpty then none
  else some (if negative then -(digitsValue digits : Int) else digitsValue digits)

/-- `to_int`: `from_chars`, nothing out of the range of an `int`. -/
def to_int (text : String) : Option Int :=
  (leadingInt text.toList).bind fun value =>
    if -2147483648 ≤ value ∧ value ≤ 2147483647 then some value else none

/-- `std::atoi`: blanks and a sign may stand before the digits. -/
def atoi (text : String) : Int :=
  match text.toList.dropWhile isSpaceChar with
  | '+' :: rest => (digitsValue (rest.takeWhile Char.isDigit) : Int)
  | rest => (leadingInt rest).getD 0

/-- `ish_val_`, from the text of `GdeSHT`. -/
def ishValue (gdesht : String) : Int :=
  if occursIn "Исх".toList gdesht.toList then
    let ish2 := (((gdesht.replace " " "").replace "Исх." "").replace "№" "").replace ";" ""
    (to_int ish2).getD 0
  else 0

/-- An object whose constructor returned early. -/
def emptyRecord (settings : Settings) (type : TelegaType) (num : Int) : RecordProcessor :=
  { type, num, ish_val := settings.indeterminate, empty := true, ddata := "", podp := "", dpod := "",
    lists := "", podrazd := "", kr_from_base := "", gdesht := "", kr_from_text := "" }

/-- The members taken from the row. -/
def recordOfRow (settings : Settings) (type : TelegaType) (num : Int) (need_update_kr : Bool)
    (row : Row) : Program RecordProcessor := do
  let ddata ← rowAt row "DData"
  let podp ← rowAt row "PodpNo"
  let dpod ← rowAt row "DataPodp"
  let podrazd ← rowAt row "Podrazd"
  let lists ← rowAt row "Lists"
  let gdesht ← rowAt row "GdeSHT"
  let kr_from_base ← rowAt row (getFieldKr type)
  let filePath := match row.find? "DirectTo", row.find? "FileName" with
    | some directory, some name => directory ++ "\\" ++ name
    | _, _ => ""
  pure
    { type, num, ish_val := ishValue gdesht, empty := false, ddata, podp, dpod, lists,
      podrazd := podrazd.replace ";" "", kr_from_base, gdesht,
      kr_from_text := if need_update_kr then settings.getKrSoderj filePath else kr_from_base }

/-- The constructor of `RecordProcessor`. -/
def createRecordProcessor (settings : Settings) (type : TelegaType) (num : Int)
    (need_update_kr : Bool) : Program RecordProcessor :=
  if getSrcDB settings type = "" then pure (emptyRecord settings type num)
  else do
    let conn : Connection := ⟨false, getSrcDB settings type⟩
    getConnection conn
    execSql conn ("SELECT * FROM ARCHIVE WHERE `Index` = " ++ toString num)
    if ← conn.empty then pure (emptyRecord settings type num)
    else
      let row ← rowOrUndefined (← conn.getBack)
      recordOfRow settings type num need_update_kr row

/-- `prepare_kr`. -/
def prepare_kr (src : String) : String :=
  let kr := ((src.replace "''" "\"").replace "'" "\"").replace "\"\"" "\""
  (String.ofList (kr.toList.take 100)).replace "'" "''"

/-- `updateKrShtInShtJurnal`: a failed statement is only logged. -/
def updateKrShtInShtJurnal (settings : Settings) (record : RecordProcessor) : Program Unit :=
  let kr_sql := prepare_kr record.kr_from_text
  if kr_sql = "" then pure ()
  else do
    let srcConn : Connection := ⟨false, getSrcDB settings record.type⟩
    getConnection srcConn
    let _ ← srcConn.tryExecSql ("UPDATE ARCHIVE SET " ++ getFieldKr record.type ++
      " = '" ++ kr_sql ++ "' WHERE `Index` = " ++ toString record.num ++ ";")

/-- `getListsFieldValue`. -/
def getListsFieldValue (settings : Settings) (type : TelegaType) (num : Int) : Program String := do
  let srcConn : Connection := ⟨false, getSrcDB settings type⟩
  getConnection srcConn
  execSql srcConn ("SELECT Lists FROM ARCHIVE WHERE `Index` = " ++ toString num)
  if ← srcConn.empty then pure "0"
  else
    let row ← rowOrUndefined (← srcConn.getBack)
    rowAt row "Lists"

/-- `setAndCheckLists`. -/
def setAndCheckLists (settings : Settings) (record : RecordProcessor) :
    Program (RecordProcessor × Bool) :=
  if 0 < atoi record.lists then pure ({ record with lists := toString (atoi record.lists) }, true)
  else do
    let lists ← getListsFieldValue settings record.type record.num
    if 0 < atoi lists then pure ({ record with lists := toString (atoi lists) }, true)
    else pure ({ record with lists := "" }, false)

/-- `get_record`. -/
def get_record (record : RecordProcessor) : String :=
  "('" ++ toString record.num ++ "','" ++ record.ddata ++ "','" ++ toString record.ish_val ++ "','" ++
    record.podp ++ "','" ++ record.dpod ++ "','" ++ record.lists ++ "','" ++ record.kr_from_text ++ "')"

/-- `run`: whatever it throws is only logged. -/
def runRecord (settings : Settings) (record : RecordProcessor) : Program Unit := do
  let dstConn : Connection := ⟨false, settings.dstDb⟩
  match ← dstConn.tryConnect with
  | .error _ => pure ()
  | .ok () =>
      let _ ← dstConn.tryExecSql ("INSERT INTO " ++
        getDstTable settings record.type ++ " (num,ddata,ish,podpno,datapodp,lists,kr) VALUES " ++
        get_record record ++ " ON CONFLICT(num) DO UPDATE SET ddata    = excluded.ddata ," ++
        "ish      = excluded.ish   ,podpno   = excluded.podpno,datapodp = excluded.datapodp," ++
        "lists    = excluded.lists ,kr       = excluded.kr;")

/-- The delayed action of `UpdateOpisBaseCommand`. -/
def delayedAction (settings : Settings) (record : RecordProcessor) : Program Unit := do
  if record.kr_from_base ≠ record.kr_from_text then updateKrShtInShtJurnal settings record
  match settings.itsIgnore record.podrazd with
  | none | some true => pure ()
  | some false =>
      let (record, valid) ← setAndCheckLists settings record
      if valid then runRecord settings record

/-- `UpdateOpisBaseCommand::execute` for one file: the record, and later the delayed
action, whose exceptions are only logged. -/
def updateOpisBase (settings : Settings) (type : TelegaType) (num : Int) : Program RecordProcessor := do
  let record ← createRecordProcessor settings type num (type = .vhod)
  let _ ← (delayedAction settings record).attempt
  pure record

/-! ## The file resolvers -/

/-- A `catch` that turns an exception into a failed result. -/
def failedOpen (error : SQLiteOpenError) : Thrown := .failed .databaseOpenFailed error.what

def failedQuery (error : SQLiteQueryError) : Thrown :=
  .failed (if error.isSchemaFailure then .databaseSchemaFailed else .databaseQueryFailed) error.what

/-- `getReadOnlyConnection` and `queryRows` of one base, errors as failed results. -/
def queryBase (baseName sql : String) : Program (List Row) := do
  let database : Connection := ⟨true, baseName⟩
  match ← database.tryConnect with
  | .error error => Coroutine.raise (failedOpen error)
  | .ok () =>
      match ← database.tryQueryRows sql with
      | .error error => Coroutine.raise (failedQuery error)
      | .ok rows => pure rows

/-- `findRowField`. -/
def findRowField (row : Row) (names : List String) : Option String := names.findSome? row.find?

/-- The loop of `lookupPdtvRow` over the bases. -/
def lookupPdtvIn (sql : String) : List String → Program (String × String)
  | [] => Coroutine.raise (.failed .fileNotFound "PDTV archive row was not found")
  | baseName :: bases => do
      match ← queryBase baseName sql with
      | [] => lookupPdtvIn sql bases
      | row :: _ =>
          match findRowField row ["PDTV", "pdtv"], findRowField row ["AllPDTV1", "allpdtv1"] with
          | some pdtv, some allPdtv1 => pure (pdtv, allPdtv1)
          | _, _ =>
              let message := "archive row has no PDTV or AllPDTV1 column"
              Coroutine.raise (.failed .databaseSchemaFailed message)

/-- `lookupPdtvRow`. -/
def lookupPdtvRow (settings : Settings) (telegramId : Nat) : Program (String × String) :=
  lookupPdtvIn ("select pdtv, allpdtv1 from archive where `index` = " ++ toString telegramId)
    settings.b_prd

/-- `TelegramArchiveRecord`. -/
structure TelegramArchiveRecord where
  names : String
  directory : String
  fileName : String
deriving DecidableEq

/-- The loop of `lookupTelegramArchive` over the bases. -/
def lookupArchiveIn (sql : String) : List String → Program (Option TelegramArchiveRecord)
  | [] => pure none
  | baseName :: bases => do
      match ← queryBase baseName sql with
      | [] => lookupArchiveIn sql bases
      | row :: _ =>
          match row.find? "PrilName", row.find? "DirectTo", row.find? "FileName" with
          | some names, some directory, some fileName => pure (some ⟨names, directory, fileName⟩)
          | _, _, _ =>
              let message := "archive row has no PrilName, DirectTo, or FileName column"
              Coroutine.raise (.failed .databaseSchemaFailed message)

/-- `lookupTelegramArchive`. -/
def lookupTelegramArchive (settings : Settings) (telegramId : Nat) (type : TelegaType) :
    Program (Option TelegramArchiveRecord) :=
  lookupArchiveIn
    ("SELECT PrilName, DirectTo, FileName FROM archive WHERE `index` = " ++ toString telegramId)
    (if type = .vhod then settings.b_prm else settings.b_prd)

/-- The loop of `GetIshTelegaPdtvCommand` over the bases. -/
def collectPdtv (sql_qry : String) : List String → List Row → Program (List Row)
  | [], result => pure result
  | base_name :: bases, result => do
      let rows ← queryBase base_name sql_qry
      collectPdtv sql_qry bases (result ++ rows)

/-- The rows of `GetIshTelegaPdtvCommand`. -/
def getIshTelegaPdtv (settings : Settings) (telegramId : Nat) : Program (List Row) :=
  collectPdtv ("select `index`, pdtv, allpdtv1 from archive where `index` = " ++ toString telegramId)
    settings.b_prd []

/-! ## Requests -/

/-- The executions that use the connections. -/
inductive Request where
  | findBase (condition : String) (type : TelegaType) (single : Bool)
  | telegaWay (num : String) (type : TelegaType)
  | updateOpisBase (type : TelegaType) (num : Int)
  | lookupPdtvRow (telegramId : Nat)
  | lookupTelegramArchive (telegramId : Nat) (type : TelegaType)
  | getIshTelegaPdtv (telegramId : Nat)

/-- What an execution returns. -/
inductive Reply where
  | rows (rows : List Row)
  | record (record : RecordProcessor)
  | pdtv (pdtv allPdtv1 : String)
  | archive (record : Option TelegramArchiveRecord)
deriving DecidableEq

/-- The program of a request. -/
def Request.program (settings : Settings) : Request → Program Reply
  | .findBase condition type single => do return .rows (← Sqlite.findBase settings condition type single)
  | .telegaWay num type => do return .rows (← Sqlite.telegaWay settings num type)
  | .updateOpisBase type num => do return .record (← Sqlite.updateOpisBase settings type num)
  | .lookupPdtvRow telegramId => do
      let (pdtv, allPdtv1) ← Sqlite.lookupPdtvRow settings telegramId
      return .pdtv pdtv allPdtv1
  | .lookupTelegramArchive telegramId type => do
      return .archive (← Sqlite.lookupTelegramArchive settings telegramId type)
  | .getIshTelegaPdtv telegramId => do return .rows (← Sqlite.getIshTelegaPdtv settings telegramId)

end SearchEngine.Sqlite
