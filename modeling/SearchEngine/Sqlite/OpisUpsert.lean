import Mathlib.Data.List.TakeWhile
import SearchEngine.Lib.QuotedText
import SearchEngine.Sqlite.DatabaseCommands

/-!
# The row of a telegram in the OPIS base

`RecordProcessor::run` puts the texts of the record between quotes as they are, and says
nothing when SQLite refuses the statement.
-/

namespace SearchEngine.Sqlite

open Lib

/-! ## The statement -/

def upsertHead (table : String) : String :=
  "INSERT INTO " ++ table ++ " (num,ddata,ish,podpno,datapodp,lists,kr) VALUES "

def upsertTail : String :=
  " ON CONFLICT(num) DO UPDATE SET ddata    = excluded.ddata ," ++
    "ish      = excluded.ish   ,podpno   = excluded.podpno,datapodp = excluded.datapodp," ++
    "lists    = excluded.lists ,kr       = excluded.kr;"

def upsertSql (settings : Settings) (record : RecordProcessor) : String :=
  upsertHead (getDstTable settings record.type) ++ get_record record ++ upsertTail

/-- The values of a record that do not come from a text. -/
def RecordProcessor.texts (record : RecordProcessor) : List String :=
  [record.ddata, record.podp, record.dpod, record.lists, record.kr_from_text]

def RecordProcessor.values (record : RecordProcessor) : List String :=
  [toString record.num, record.ddata, toString record.ish_val, record.podp, record.dpod, record.lists,
    record.kr_from_text]

/-- The literals of an upsert as SQLite reads them, up to the first NUL of the text. -/
def readUpsert (table sql : String) : Option (List String) :=
  let text := sql.toList.takeWhile (· ≠ '\x00')
  let head := (upsertHead table ++ "(").toList
  if head.isPrefixOf text then
    match readValues '\'' ',' 7 (text.drop head.length) with
    | some (values, rest) =>
        if rest = (")" ++ upsertTail).toList then some (values.map String.ofList) else none
    | none => none
  else none

/-! ## The run -/

section Run

variable {Storage : Type} (sqlite : Engine Storage) (settings : Settings) (record : RecordProcessor)

def dstConnection : Connection := ⟨false, settings.dstDb⟩

/-- What `run` leaves behind and what it logs. -/
structure RunOutcome (Storage : Type) where
  database : Database Storage
  log : List String

/-- `run`. -/
def run (database : Database Storage) : RunOutcome Storage :=
  let dstConn := dstConnection settings
  match respond sqlite [] database (.getConnection dstConn) with
  | .error error => ⟨database, ["[run] FATAL error for #" ++ toString record.num ++ " : " ++ error.what]⟩
  | .ok () =>
      let opened := change sqlite database (.getConnection dstConn)
      let execSql : Call := .execSql dstConn (upsertSql settings record)
      match respond sqlite [] opened execSql with
      | .ok () => ⟨change sqlite opened execSql, []⟩
      -- the output of this branch is commented out
      | .error _ => ⟨change sqlite opened execSql, []⟩

/-- What a program that nobody interrupts leaves behind. -/
def leaves {Result : Type} : Program Result → (Connection → List Row) → Database Storage → Database Storage
  | .done _, _, database => database
  | .raise _, _, database => database
  | .suspend call resume, lists, database =>
      leaves (resume (respond sqlite (lists call.connection) database call))
        (Function.update lists call.connection (store sqlite (lists call.connection) database call))
        (change sqlite database call)

/-- A connection that cannot be opened changes nothing. -/
theorem change_of_error {database : Database Storage} {connection : Connection} {error : SQLiteOpenError}
    (failed : respond sqlite [] database (.getConnection connection) = .error error) :
    change sqlite database (.getConnection connection) = database := by
  unfold respond at failed
  dsimp only at failed
  split at failed
  case isTrue => cases failed
  case isFalse =>
    cases opens : sqlite.openError database.storage connection with
    | none =>
        rw [opens] at failed
        cases failed
    | some error =>
        unfold change
        dsimp only
        rw [opens]
        rfl

/-- The program of `run` leaves what `run` does. -/
theorem leaves_runRecord (lists : Connection → List Row) (database : Database Storage) :
    leaves sqlite (runRecord settings record) lists database = (run sqlite settings record database).database := by
  have sql : "INSERT INTO " ++ getDstTable settings record.type ++
      " (num,ddata,ish,podpno,datapodp,lists,kr) VALUES " ++ get_record record ++
      " ON CONFLICT(num) DO UPDATE SET ddata    = excluded.ddata ," ++
      "ish      = excluded.ish   ,podpno   = excluded.podpno,datapodp = excluded.datapodp," ++
      "lists    = excluded.lists ,kr       = excluded.kr;" = upsertSql settings record := by
    unfold upsertSql upsertHead upsertTail
    simp only [String.append_assoc]
  unfold runRecord run
  simp only [sql]
  have answer : respond sqlite (lists (dstConnection settings)) database (.getConnection (dstConnection settings)) =
      respond sqlite [] database (.getConnection (dstConnection settings)) := rfl
  change leaves sqlite (Coroutine.suspend (.getConnection (dstConnection settings)) _) lists database = _
  rw [leaves]
  change leaves sqlite (Coroutine.bind (.done (respond sqlite (lists (dstConnection settings)) database
    (.getConnection (dstConnection settings)))) _) _ _ = _
  rw [answer]
  cases opened : respond sqlite [] database (.getConnection (dstConnection settings)) with
  | error error => exact change_of_error sqlite opened
  | ok done =>
      dsimp only
      cases respond sqlite [] (change sqlite database (.getConnection (dstConnection settings)))
        (.execSql (dstConnection settings) (upsertSql settings record)) <;> rfl

end Run

/-! ## What the run promises -/

section Promise

variable {Storage : Type} (sqlite : Engine Storage)
  (rows : Storage → Connection → String → String → Option (List String))

/-- SQLite reads literals to their closing quote, and stores the values of an upsert that it
executes under their first one. -/
structure KeepsUpserts : Prop where
  upsert : ∀ storage connection table sql num values, table = "PRM" ∨ table = "PRD" →
    readUpsert table sql = some (num :: values) → (sqlite.exec storage connection sql).error = none →
    ∀ other key, rows (sqlite.exec storage connection sql).storage connection other key =
        if other = table ∧ key = num then some (num :: values) else rows storage connection other key

variable (settings : Settings) (record : RecordProcessor) (database : Database Storage)

/-- The destination opens. -/
def Opens : Prop :=
  respond sqlite [] database (.getConnection (dstConnection settings)) = .ok ()

/-- The values are read back from the statement and stored, other rows stay, and no failure
goes unnoticed. -/
structure StoresExactly : Prop where
  reads : Opens sqlite settings database →
    readUpsert (getDstTable settings record.type) (upsertSql settings record) = some record.values
  stored : (run sqlite settings record database).log = [] →
    rows (run sqlite settings record database).database.storage (dstConnection settings)
      (getDstTable settings record.type) (toString record.num) = some record.values
  others : ∀ table key, ¬ (table = getDstTable settings record.type ∧ key = toString record.num) →
    rows (run sqlite settings record database).database.storage (dstConnection settings) table key =
      rows database.storage (dstConnection settings) table key
  noticed : Opens sqlite settings database →
    (sqlite.exec database.storage (dstConnection settings) (upsertSql settings record)).error ≠ none →
      (run sqlite settings record database).log ≠ []

end Promise

/-! ## Reading the statement back -/

theorem toList_get_record (record : RecordProcessor) :
    (get_record record).toList = '(' :: (writeValues '\'' ',' (record.values.map String.toList) ++ [')']) := by
  have first : "('".toList = ['(', '\''] := rfl
  have between : "','".toList = ['\'', ',', '\''] := rfl
  have last : "')".toList = ['\'', ')'] := rfl
  unfold get_record RecordProcessor.values
  generalize toString record.num = num
  generalize toString record.ish_val = ish
  iterate 14 rw [String.toList_append]
  rw [first, between, last]
  simp only [List.map_cons, List.map_nil, writeValues, List.append_assoc, List.cons_append, List.nil_append]

theorem toList_upsertSql (settings : Settings) (record : RecordProcessor) :
    (upsertSql settings record).toList = (upsertHead (getDstTable settings record.type) ++ "(").toList ++
      (writeValues '\'' ',' (record.values.map String.toList) ++ ')' :: upsertTail.toList) := by
  have opens : "(".toList = ['('] := rfl
  unfold upsertSql
  generalize upsertHead (getDstTable settings record.type) = head
  generalize upsertTail = tail
  rw [String.toList_append, String.toList_append, String.toList_append, toList_get_record, opens, List.append_assoc,
    List.append_assoc, List.cons_append, List.append_assoc, List.singleton_append]
  rfl

/-- The digits of a number are neither quotes nor NUL. -/
theorem plain_toString (number : Int) : '\'' ∉ (toString number).toList ∧ '\x00' ∉ (toString number).toList := by
  have digits (value : Nat) : '\'' ∉ (Nat.repr value).toList ∧ '\x00' ∉ (Nat.repr value).toList := by
    rw [Nat.toList_repr]
    constructor
    · intro member
      exact absurd (Nat.isDigit_of_mem_toDigits (by decide) (by decide) member) (by decide)
    · intro member
      exact absurd (Nat.isDigit_of_mem_toDigits (by decide) (by decide) member) (by decide)
  cases number with
  | ofNat value => exact digits value
  | negSucc value =>
      have text : (toString (Int.negSucc value)).toList = '-' :: (Nat.repr (value + 1)).toList :=
        String.toList_append
      rw [text, List.mem_cons, List.mem_cons, not_or, not_or]
      exact ⟨⟨by decide, (digits _).1⟩, by decide, (digits _).2⟩

/-- The texts of the record keep out of the way of the statement. -/
def RecordProcessor.Plain (record : RecordProcessor) : Prop :=
  ∀ text ∈ record.texts, '\'' ∉ text.toList ∧ '\x00' ∉ text.toList

theorem plain_values {record : RecordProcessor} :
    record.Plain ↔ ∀ value ∈ record.values.map String.toList, '\'' ∉ value ∧ '\x00' ∉ value := by
  have num := plain_toString record.num
  have ish := plain_toString record.ish_val
  simp only [RecordProcessor.Plain, RecordProcessor.texts, RecordProcessor.values, List.map_cons, List.map_nil,
    List.forall_mem_cons, num, ish, not_false_eq_true, true_and, List.not_mem_nil, false_implies, implies_true,
    and_true]

theorem mem_writeValues {values : List (List Char)} {c : Char} (member : c ∈ writeValues '\'' ',' values) :
    c = '\'' ∨ c = ',' ∨ ∃ value ∈ values, c ∈ value := by
  induction values with
  | nil => cases member
  | cons value values ih =>
      cases values with
      | nil =>
          rw [writeValues, List.mem_cons, List.mem_append, List.mem_singleton] at member
          obtain quote | inside | quote := member
          · exact .inl quote
          · exact .inr (.inr ⟨value, List.mem_cons_self, inside⟩)
          · exact .inl quote
      | cons second values =>
          rw [writeValues, List.mem_cons, List.mem_append, List.mem_cons, List.mem_cons] at member
          obtain quote | inside | quote | comma | later := member
          · exact .inl quote
          · exact .inr (.inr ⟨value, List.mem_cons_self, inside⟩)
          · exact .inl quote
          · exact .inr (.inl comma)
          · obtain quote | comma | ⟨other, among, inside⟩ := ih later
            · exact .inl quote
            · exact .inr (.inl comma)
            · exact .inr (.inr ⟨other, List.mem_cons_of_mem _ among, inside⟩)

theorem noNul_ofList {text : List Char} (plain : text.all (· != '\x00') = true) :
    '\x00' ∉ (String.ofList text).toList := by
  rw [String.toList_ofList]
  intro nul
  simpa using List.all_eq_true.mp plain _ nul

theorem noNul_tail : '\x00' ∉ upsertTail.toList := by
  unfold upsertTail
  rw [String.toList_append, String.toList_append, List.mem_append, List.mem_append, not_or, not_or]
  exact ⟨⟨noNul_ofList (by decide +kernel), noNul_ofList (by decide +kernel)⟩, noNul_ofList (by decide +kernel)⟩

theorem noNul_head {table : String} (named : '\x00' ∉ table.toList) : '\x00' ∉ (upsertHead table ++ "(").toList := by
  unfold upsertHead
  rw [String.toList_append, String.toList_append, String.toList_append, List.mem_append, List.mem_append,
    List.mem_append, not_or, not_or, not_or]
  exact ⟨⟨⟨noNul_ofList (by decide +kernel), named⟩, noNul_ofList (by decide +kernel)⟩,
    noNul_ofList (by decide +kernel)⟩

/-- A statement without NUL is read to its end. -/
theorem takeWhile_upsertSql {settings : Settings} {record : RecordProcessor}
    (named : '\x00' ∉ (getDstTable settings record.type).toList)
    (noNul : ∀ value ∈ record.values.map String.toList, '\x00' ∉ value) :
    (upsertSql settings record).toList.takeWhile (· ≠ '\x00') = (upsertSql settings record).toList := by
  rw [List.takeWhile_eq_self_iff, toList_upsertSql]
  intro c member
  rw [decide_eq_true_eq]
  rintro rfl
  obtain inHead | behind := List.mem_append.mp member
  · exact noNul_head named inHead
  · obtain inValues | inTail := List.mem_append.mp behind
    · obtain quote | separator | ⟨value, among, inside⟩ := mem_writeValues inValues
      · exact absurd quote (by decide)
      · exact absurd separator (by decide)
      · exact noNul value among inside
    · obtain closing | later := List.mem_cons.mp inTail
      · exact absurd closing (by decide)
      · exact noNul_tail later

theorem closing_toList : (")" ++ upsertTail).toList = ')' :: upsertTail.toList := by
  rw [String.toList_append]
  rfl

/-- What is read of a statement without NUL: the literals of its row. -/
theorem readUpsert_upsertSql {settings : Settings} {record : RecordProcessor}
    (named : '\x00' ∉ (getDstTable settings record.type).toList)
    (noNul : ∀ value ∈ record.values.map String.toList, '\x00' ∉ value) :
    readUpsert (getDstTable settings record.type) (upsertSql settings record) =
      match readValues '\'' ',' 7 (writeValues '\'' ',' (record.values.map String.toList) ++ ')' :: upsertTail.toList) with
      | some (values, rest) => if rest = ')' :: upsertTail.toList then some (values.map String.ofList) else none
      | none => none := by
  unfold readUpsert
  dsimp only
  rw [takeWhile_upsertSql named noNul, closing_toList, toList_upsertSql,
    if_pos (List.isPrefixOf_iff_prefix.mpr ⟨_, rfl⟩), List.drop_left]

/-- The values that are read have no NUL. -/
theorem noNul_of_readUpsert {table sql : String} {values : List String} (read : readUpsert table sql = some values) :
    ∀ value ∈ values.map String.toList, '\x00' ∉ value := by
  intro value member nul
  obtain ⟨-, read⟩ := Option.ite_none_right_eq_some.mp read
  split at read
  case h_2 => cases read
  case h_1 literals rest found =>
    obtain ⟨-, same⟩ := Option.ite_none_right_eq_some.mp read
    obtain rfl := Option.some.inj same
    obtain ⟨text, among, rfl⟩ := List.mem_map.mp member
    obtain ⟨literal, here, rfl⟩ := List.mem_map.mp among
    rw [String.toList_ofList] at nul
    have inText := mem_of_readValues found literal here _ nul
    have kept := List.mem_takeWhile_imp (List.mem_of_mem_drop inText)
    exact absurd kept (by decide)

/-- The statement is read back as written exactly if the texts are plain. -/
theorem readUpsert_iff {settings : Settings} {record : RecordProcessor}
    (named : '\x00' ∉ (getDstTable settings record.type).toList) :
    readUpsert (getDstTable settings record.type) (upsertSql settings record) = some record.values ↔
      record.Plain := by
  have count : (record.values.map String.toList).length = 7 := rfl
  have comma : ',' ≠ '\'' := by decide
  have bracket : ')' ≠ '\'' := by decide
  have filled : record.values.map String.toList ≠ [] := List.cons_ne_nil _ _
  have quotes := @readValues_iff _ _ '\'' ')' upsertTail.toList ',' _ comma bracket filled
  rw [count] at quotes
  rw [plain_values]
  constructor
  · intro read
    have noNul := noNul_of_readUpsert read
    rw [readUpsert_upsertSql named noNul] at read
    split at read
    case h_2 => cases read
    case h_1 values rest found =>
      obtain ⟨ends, same⟩ := Option.ite_none_right_eq_some.mp read
      have literals : values = record.values.map String.toList := by
        rw [← Option.some.inj same, List.map_map]
        symm
        apply (List.map_congr_left _).trans (List.map_id _)
        intro literal _
        exact String.toList_ofList
      rw [ends, literals] at found
      intro value member
      exact ⟨quotes.mp found value member, noNul value member⟩
  · intro plain
    rw [readUpsert_upsertSql named fun value member => (plain value member).2,
      quotes.mpr fun value member => (plain value member).1]
    dsimp only
    rw [if_pos rfl, List.map_map]
    apply congrArg some
    apply (List.map_congr_left _).trans (List.map_id _)
    intro text _
    exact String.ofList_toList

/-! ## When the promise is kept -/

section Kept

variable {Storage : Type} {sqlite : Engine Storage}
  {rows : Storage → Connection → String → String → Option (List String)} {settings : Settings}
  {record : RecordProcessor} {database : Database Storage}

/-- Opening a connection leaves the storage. -/
theorem storage_change_getConnection (connection : Connection) :
    (change sqlite database (.getConnection connection)).storage = database.storage := by
  unfold change
  dsimp only
  split <;> rfl

/-- A destination that does not open is reported, and nothing changes. -/
theorem run_of_not_opens (closed : ¬ Opens sqlite settings database) :
    (run sqlite settings record database).log ≠ [] ∧ (run sqlite settings record database).database = database := by
  unfold Opens at closed
  unfold run
  dsimp only
  cases answer : respond sqlite [] database (.getConnection (dstConnection settings)) with
  | ok done => exact absurd answer closed
  | error error => exact ⟨List.cons_ne_nil _ _, rfl⟩

/-- Otherwise the statement is run, and nothing is reported. -/
theorem run_of_opens (opens : Opens sqlite settings database) :
    (run sqlite settings record database).log = [] ∧
      (run sqlite settings record database).database.storage =
        (sqlite.exec database.storage (dstConnection settings) (upsertSql settings record)).storage := by
  have storage : (change sqlite (change sqlite database (.getConnection (dstConnection settings)))
      (.execSql (dstConnection settings) (upsertSql settings record))).storage =
      (sqlite.exec database.storage (dstConnection settings) (upsertSql settings record)).storage := by
    rw [← @storage_change_getConnection _ sqlite database (dstConnection settings)]
    rfl
  unfold Opens at opens
  unfold run
  dsimp only
  rw [opens]
  dsimp only
  split
  · exact ⟨rfl, storage⟩
  · exact ⟨rfl, storage⟩

/-- The run keeps its promise exactly if the destination does not open, or the texts are
plain and SQLite executes the statement. -/
theorem storesExactly_iff (keeps : KeepsUpserts sqlite rows)
    (tables : settings.dstTableVh = "PRM" ∧ settings.dstTableIsh = "PRD") :
    StoresExactly sqlite rows settings record database ↔
      (Opens sqlite settings database → record.Plain ∧
        (sqlite.exec database.storage (dstConnection settings) (upsertSql settings record)).error = none) := by
  have table : getDstTable settings record.type = "PRM" ∨ getDstTable settings record.type = "PRD" := by
    unfold getDstTable
    rw [tables.1, tables.2]
    split
    · exact .inl rfl
    · exact .inr rfl
  have named : '\x00' ∉ (getDstTable settings record.type).toList := by
    obtain vhod | ishod := table
    · rw [vhod]
      decide
    · rw [ishod]
      decide
  constructor
  · intro stores opens
    refine ⟨(readUpsert_iff named).mp (stores.reads opens), ?_⟩
    by_contra failed
    exact stores.noticed opens failed (run_of_opens opens).1
  · intro condition
    by_cases opens : Opens sqlite settings database
    · obtain ⟨plain, executed⟩ := condition opens
      obtain ⟨-, storage⟩ := @run_of_opens _ sqlite settings record database opens
      have read := (readUpsert_iff named).mpr plain
      have after := keeps.upsert database.storage (dstConnection settings) _ _ _ _ table read executed
      constructor
      · exact fun _ => read
      · intro _
        rw [storage, after, if_pos ⟨rfl, rfl⟩]
        rfl
      · intro table key other
        rw [storage, after, if_neg other]
      · exact fun _ failed => absurd executed failed
    · obtain ⟨reported, unchanged⟩ := @run_of_not_opens _ sqlite settings record database opens
      constructor
      · exact fun open_ => absurd open_ opens
      · exact fun silent => absurd silent reported
      · intro table key _
        rw [unchanged]
      · exact fun open_ => absurd open_ opens

end Kept

/-! ## Two records -/

/-- An SQLite that executes nothing but upserts, on two tables. -/
def upsertsOnly : Engine (List ((String × String) × List String)) where
  openError _ _ := none
  exec storage _ sql :=
    match readUpsert "PRM" sql, readUpsert "PRD" sql with
    | some (num :: values), _ => ⟨(("PRM", num), num :: values) :: storage, [], none⟩
    | _, some (num :: values) => ⟨(("PRD", num), num :: values) :: storage, [], none⟩
    | _, _ => ⟨storage, [], some (1, "near \"Brien\": syntax error")⟩

/-- The rows of its tables. -/
def rowsOf (storage : List ((String × String) × List String)) (_ : Connection) (table key : String) :
    Option (List String) := storage.lookup (table, key)

/-- No statement begins as an upsert to two tables with names of one length. -/
theorem readUpsert_other {table other sql : String} (lengths : table.toList.length = other.toList.length)
    (apart : table.toList ≠ other.toList)
    (begins : (upsertHead other ++ "(").toList <+: sql.toList.takeWhile (· ≠ '\x00')) :
    readUpsert table sql = none := by
  unfold readUpsert
  dsimp only
  apply if_neg
  intro first
  rw [List.isPrefixOf_iff_prefix] at first
  have heads (table : String) : (upsertHead table ++ "(").toList = "INSERT INTO ".toList ++
      (table.toList ++ (" (num,ddata,ish,podpno,datapodp,lists,kr) VALUES ".toList ++ "(".toList)) := by
    unfold upsertHead
    simp only [String.toList_append, List.append_assoc]
  rw [heads] at first begins
  have whole := List.prefix_of_prefix_length_le first begins (by simp only [List.length_append, lengths, le_refl])
  have same := whole.eq_of_length (by simp only [List.length_append, lengths])
  exact apart (List.append_inj (List.append_cancel_left same) lengths).1

theorem readUpsert_PRM_PRD {sql : String} {values : List String} (read : readUpsert "PRD" sql = some values) :
    readUpsert "PRM" sql = none := by
  obtain ⟨head, -⟩ := Option.ite_none_right_eq_some.mp read
  exact readUpsert_other (by decide) (by decide) (List.isPrefixOf_iff_prefix.mp head)

theorem lookup_cons_pair (storage : List ((String × String) × List String)) (table num other key : String)
    (values : List String) :
    (((table, num), values) :: storage).lookup (other, key) =
      if other = table ∧ key = num then some values else storage.lookup (other, key) := by
  rw [List.lookup_cons]
  by_cases same : other = table ∧ key = num
  · rw [if_pos same, same.1, same.2]
    simp
  · have different : ((other, key) == (table, num)) = false := by
      rw [beq_eq_false_iff_ne]
      rintro ⟨⟩
      exact same ⟨rfl, rfl⟩
    rw [if_neg same, different]

theorem keeps_upsertsOnly : KeepsUpserts upsertsOnly rowsOf := by
  constructor
  intro storage connection table sql num values named read _ other key
  obtain rfl | rfl := named
  · have executed : upsertsOnly.exec storage connection sql =
        ⟨(("PRM", num), num :: values) :: storage, [], none⟩ := by
      simp only [upsertsOnly, read]
    rw [executed]
    exact lookup_cons_pair storage "PRM" num other key _
  · have executed : upsertsOnly.exec storage connection sql =
        ⟨(("PRD", num), num :: values) :: storage, [], none⟩ := by
      simp only [upsertsOnly, read, readUpsert_PRM_PRD read]
    rw [executed]
    exact lookup_cons_pair storage "PRD" num other key _

theorem exec_of_unread {sql : String} (vhod : readUpsert "PRM" sql = none) (ishod : readUpsert "PRD" sql = none)
    (storage : List ((String × String) × List String)) (connection : Connection) :
    upsertsOnly.exec storage connection sql = ⟨storage, [], some (1, "near \"Brien\": syntax error")⟩ := by
  simp only [upsertsOnly, vhod, ishod]

def opisSettings : Settings where
  b_prm := []
  b_prd := []
  base_way_dir := ""
  base_f12_dir := ""
  work_year := "2024"
  srcDbVh := "VH.DB"
  srcDbIsh := "ISH.DB"
  dstDb := "2024.DB"
  dstTableVh := "PRM"
  dstTableIsh := "PRD"
  currentYear := "2024"
  currentDate := ""
  currentTime := ""
  f12Missing := false
  getKrSoderj _ := ""
  itsIgnore _ := none
  indeterminate := 0

/-- A record with a text that the archive gave. -/
def signedRecord (podp : String) : RecordProcessor :=
  { type := .vhod, num := 1, ish_val := 0, empty := false, ddata := "01.02.24", podp, dpod := "", lists := "3",
    podrazd := "", kr_from_base := "", gdesht := "", kr_from_text := "Kr" }

def emptyBase : Database (List ((String × String) × List String)) := ⟨[], fun _ => true⟩

theorem storesExactly_iff_plain :
    StoresExactly upsertsOnly rowsOf opisSettings (signedRecord "12/3") emptyBase ↔
      (Opens upsertsOnly opisSettings emptyBase → (signedRecord "12/3").Plain ∧
        (upsertsOnly.exec emptyBase.storage (dstConnection opisSettings)
          (upsertSql opisSettings (signedRecord "12/3"))).error = none) :=
  storesExactly_iff keeps_upsertsOnly ⟨rfl, rfl⟩

theorem texts_OBrien : (signedRecord "O'Brien").values.map String.toList =
    [['1'], ['0', '1', '.', '0', '2', '.', '2', '4'], ['0'], ['O', '\'', 'B', 'r', 'i', 'e', 'n'], [], ['3'],
      ['K', 'r']] := by decide +kernel

/-- The literal of the text ends after its first letter. -/
theorem exec_OBrien : upsertsOnly.exec [] (dstConnection opisSettings)
    (upsertSql opisSettings (signedRecord "O'Brien")) =
      ⟨[], [], some (1, "near \"Brien\": syntax error")⟩ := by
  have named : '\x00' ∉ (getDstTable opisSettings (signedRecord "O'Brien").type).toList := by decide
  have noNul : ∀ value ∈ (signedRecord "O'Brien").values.map String.toList, '\x00' ∉ value := by
    rw [texts_OBrien]
    decide
  have table : getDstTable opisSettings (signedRecord "O'Brien").type = "PRM" := rfl
  have vhod : readUpsert "PRM" (upsertSql opisSettings (signedRecord "O'Brien")) = none := by
    have read := readUpsert_upsertSql named noNul
    rw [texts_OBrien, table] at read
    generalize upsertTail.toList = tail at read
    exact read.trans rfl
  have ishod : readUpsert "PRD" (upsertSql opisSettings (signedRecord "O'Brien")) = none := by
    apply @readUpsert_other "PRD" "PRM" _ (by decide) (by decide)
    rw [takeWhile_upsertSql named noNul, toList_upsertSql, table]
    exact List.prefix_append _ _
  exact exec_of_unread vhod ishod [] (dstConnection opisSettings)

/-- An apostrophe ends the literal: nothing is stored, and nothing is logged. -/
theorem apostrophe_not_stored :
    Opens upsertsOnly opisSettings emptyBase ∧
      (run upsertsOnly opisSettings (signedRecord "O'Brien") emptyBase).log = [] ∧
      (run upsertsOnly opisSettings (signedRecord "O'Brien") emptyBase).database.storage = [] ∧
      ¬ StoresExactly upsertsOnly rowsOf opisSettings (signedRecord "O'Brien") emptyBase := by
  have opens : Opens upsertsOnly opisSettings emptyBase := rfl
  obtain ⟨silent, storage⟩ := @run_of_opens _ upsertsOnly opisSettings (signedRecord "O'Brien") emptyBase opens
  have nothing : (run upsertsOnly opisSettings (signedRecord "O'Brien") emptyBase).database.storage = [] :=
    storage.trans (by rw [show emptyBase.storage = [] from rfl, exec_OBrien])
  refine ⟨opens, silent, nothing, fun stores => ?_⟩
  have stored := stores.stored silent
  rw [nothing, rowsOf, List.lookup_nil] at stored
  cases stored

end SearchEngine.Sqlite
