import SearchEngine.Sqlite.DatabaseCommands

/-!
# Whose rows an execution reads

Executions take turns on the shared connections, one call at a time. An execution
is isolated when every answer is the one a connection of its own would have
given, and when it returns what it returns alone on the database contents that
its calls found. `findBase`, `TelegaWay` and `RecordProcessor` release the
connection between the statement and the reading of its rows, so they are isolated
only while nobody else runs a statement there; the resolvers always are.
-/

namespace SearchEngine.Sqlite

open Lib

variable {Storage Execution : Type} [DecidableEq Execution]

/-- The executions of some requests, on connections that may hold rows of earlier ones. -/
def executions (settings : Settings) (requests : Execution → Request)
    (list : Connection → List Row) (database : Database Storage) :
    Sharing Execution Call Answer Thrown Reply Connection (List Row) (Database Storage) :=
  ⟨list, database, fun execution => (requests execution).program settings⟩

/-- The execution reads the rows of its own statements, and returns what it returns alone. -/
def RowsIsolated (sqlite : Engine Storage) (settings : Settings) (requests : Execution → Request)
    (list : Connection → List Row) (database : Database Storage) (schedule : List Execution)
    (execution : Execution) : Prop :=
  Sharing.Isolated (service sqlite) execution (fun _ => [])
    (executions settings requests list database) schedule

/-- Whenever the execution reads a connection's `list`, the last statement on that
connection was its own. -/
def StatementStillOwn (sqlite : Engine Storage) (settings : Settings)
    (requests : Execution → Request) (list : Connection → List Row) (database : Database Storage)
    (schedule : List Execution) (execution : Execution) : Prop :=
  (Sharing.machine (service sqlite)).Conforms (Sharing.Undisturbed (service sqlite) execution)
    (executions settings requests list database, Sharing.begun fun _ => []) schedule

instance (sqlite : Engine Storage) (settings : Settings) (requests : Execution → Request)
    (list : Connection → List Row) (database : Database Storage) (schedule : List Execution)
    (execution : Execution) :
    Decidable (StatementStillOwn sqlite settings requests list database schedule execution) :=
  inferInstanceAs (Decidable (Machine.Conforms _ _ _ _))

/-- In every interleaving, an execution that reads only the rows of the last statement on
the connection, its own, is isolated from the others. -/
theorem rowsIsolated_of_statementStillOwn (sqlite : Engine Storage) (settings : Settings)
    (requests : Execution → Request) (list : Connection → List Row) (database : Database Storage)
    (schedule : List Execution) (execution : Execution)
    (own : StatementStillOwn sqlite settings requests list database schedule execution) :
    RowsIsolated sqlite settings requests list database schedule execution :=
  Sharing.isolated_of_undisturbed own

/-! ## The resolvers -/

/-- A program that takes its rows from `queryRows` alone. -/
def QueriesOnly (sqlite : Engine Storage) {Result : Type} (program : Program Result) : Prop :=
  program.Meets (Sharing.neverReads (service sqlite)) (fun _ _ => True) ()

section QueriesOnly

variable {sqlite : Engine Storage}

theorem QueriesOnly.bind {Result Next : Type} {program : Program Result}
    {next : Result → Program Next} (first : QueriesOnly sqlite program)
    (second : ∀ result, QueriesOnly sqlite (next result)) : QueriesOnly sqlite (program >>= next) :=
  Coroutine.Meets.bind first (fun result _ _ => second result) fun _ _ _ => trivial

theorem queryBase_queriesOnly (baseName sql : String) :
    QueriesOnly sqlite (queryBase baseName sql) := by
  have passes : (Call.getConnection ⟨true, baseName⟩).use ≠ .reads := by simp [Call.use]
  have sets : (Call.queryRows ⟨true, baseName⟩ sql).use ≠ .reads := by simp [Call.use]
  refine ⟨passes, fun connected _ => ?_⟩
  cases connected with
  | error error => trivial
  | ok =>
      refine ⟨sets, fun rows _ => ?_⟩
      cases rows with
      | error error => trivial
      | ok rows => trivial

theorem lookupPdtvIn_queriesOnly (sql : String) (bases : List String) :
    QueriesOnly sqlite (lookupPdtvIn sql bases) := by
  induction bases with
  | nil => trivial
  | cons baseName bases ih =>
      refine (queryBase_queriesOnly baseName sql).bind fun rows => ?_
      cases rows with
      | nil => exact ih
      | cons row rest =>
          cases pdtv : findRowField row ["PDTV", "pdtv"] <;>
            cases allPdtv1 : findRowField row ["AllPDTV1", "allpdtv1"] <;>
            simp only [pdtv, allPdtv1] <;> trivial

theorem lookupArchiveIn_queriesOnly (sql : String) (bases : List String) :
    QueriesOnly sqlite (lookupArchiveIn sql bases) := by
  induction bases with
  | nil => trivial
  | cons baseName bases ih =>
      refine (queryBase_queriesOnly baseName sql).bind fun rows => ?_
      cases rows with
      | nil => exact ih
      | cons row rest =>
          cases names : row.find? "PrilName" <;> cases directory : row.find? "DirectTo" <;>
            cases fileName : row.find? "FileName" <;>
            simp only [names, directory, fileName] <;> trivial

theorem collectPdtv_queriesOnly (sql_qry : String) (bases : List String) (result : List Row) :
    QueriesOnly sqlite (collectPdtv sql_qry bases result) := by
  induction bases generalizing result with
  | nil => trivial
  | cons base_name bases ih =>
      exact (queryBase_queriesOnly base_name sql_qry).bind fun rows => ih (result ++ rows)

/-- The requests that are answered by a file resolver. -/
def Request.ofResolver : Request → Bool
  | .lookupPdtvRow _ | .lookupTelegramArchive _ _ | .getIshTelegaPdtv _ => true
  | .findBase _ _ _ | .telegaWay _ _ | .updateOpisBase _ _ => false

theorem ofResolver_queriesOnly (settings : Settings) {request : Request}
    (resolver : request.ofResolver = true) : QueriesOnly sqlite (request.program settings) := by
  cases request with
  | findBase condition type single => simp [Request.ofResolver] at resolver
  | telegaWay num type => simp [Request.ofResolver] at resolver
  | updateOpisBase type num => simp [Request.ofResolver] at resolver
  | lookupPdtvRow telegramId => exact (lookupPdtvIn_queriesOnly _ _).bind fun _ => trivial
  | lookupTelegramArchive telegramId type =>
      exact (lookupArchiveIn_queriesOnly _ _).bind fun _ => trivial
  | getIshTelegaPdtv telegramId => exact (collectPdtv_queriesOnly _ _ _).bind fun _ => trivial

/-- A resolver is isolated in every interleaving, whatever the others do. -/
theorem ofResolver_rowsIsolated (sqlite : Engine Storage) (settings : Settings)
    (requests : Execution → Request) (list : Connection → List Row) (database : Database Storage)
    (schedule : List Execution) (execution : Execution)
    (resolver : (requests execution).ofResolver = true) :
    RowsIsolated sqlite settings requests list database schedule execution := by
  have never : QueriesOnly sqlite ((requests execution).program settings) :=
    ofResolver_queriesOnly settings resolver
  exact Sharing.isolated_of_undisturbed (Sharing.undisturbed_of_neverReads
    (s := (executions settings requests list database, Sharing.begun fun _ => [])) never schedule)

end QueriesOnly

/-! ## Two lookups at once -/

/-- A database whose only row is the text of the query. -/
def echo : Engine Unit where
  openError _ _ := none
  exec storage _ sql := ⟨storage, [[("FileName", some sql)]], none⟩

/-- One base for the telegrams of each direction. -/
def oneBase : Settings where
  b_prm := ["prm.db3"]
  b_prd := ["prd.db3"]
  base_way_dir := "way.db"
  base_f12_dir := "base.db"
  work_year := "2025"
  srcDbVh := "vh.db3"
  srcDbIsh := "ish.db3"
  dstDb := "opis.db"
  dstTableVh := "vh"
  dstTableIsh := "ish"
  currentYear := "2026"
  currentDate := "01.01.2026"
  currentTime := "00:00:00"
  f12Missing := false
  getKrSoderj _ := ""
  itsIgnore _ := some false
  indeterminate := 0

/-- Two lookups in the incoming telegrams. -/
def twoLookups : Bool → Request
  | false => .findBase "`index` = 1" .vhod false
  | true => .findBase "`index` = 2" .vhod false

/-- The state after a schedule, and what is known of the run. -/
def twoLookupsAfter (schedule : List Bool) :=
  (Sharing.machine (service echo)).run
    (executions oneBase twoLookups (fun _ => []) ⟨(), fun _ => true⟩, Sharing.begun fun _ => []) schedule

/-- The row of a lookup in the incoming telegrams. -/
def echoed (condition : String) : Except Thrown Reply :=
  .ok (.rows [callback [("FileName",
    some (findBaseSql "FFrom" "Familia" "PrilName1" "Copyes2" ("where " ++ condition)))]])

/-- The second lookup runs its statement before the first has read its rows: the first
returns the telegram of the second. -/
theorem not_rowsIsolated_twoLookups :
    ¬ RowsIsolated echo oneBase twoLookups (fun _ => []) ⟨(), fun _ => true⟩
      [false, false, true, true, false, false] false := by
  rintro ⟨-, ends⟩
  have seen : (twoLookupsAfter [false, false, true, true, false, false]).map (fun final =>
      ((final.1.program false).outcome,
        alone (service echo) ((twoLookups false).program oneBase) (fun _ => []) (final.2.found false))) =
      some (some (echoed "`index` = 2"), some (echoed "`index` = 1")) := by decide +kernel
  obtain ⟨final, done, replies⟩ := Option.map_eq_some_iff.mp seen
  obtain ⟨returned, own⟩ := Prod.mk.inj replies
  have same := ends final done _ returned
  have impossible : some (echoed "`index` = 1") = some (echoed "`index` = 2") := own.symm.trans same
  exact absurd impossible (by decide +kernel)

/-- One lookup after the other. -/
theorem rowsIsolated_oneByOne :
    RowsIsolated echo oneBase twoLookups (fun _ => []) ⟨(), fun _ => true⟩
      [false, true, false, false, false, true, true, true] false :=
  rowsIsolated_of_statementStillOwn echo oneBase twoLookups _ _ _ _ (by decide +kernel)

end SearchEngine.Sqlite
