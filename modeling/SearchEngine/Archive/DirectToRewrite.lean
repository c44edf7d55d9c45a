import Mathlib.Data.Char
import Mathlib.Data.List.Lex
import SearchEngine.Archive.PathRebase
import SearchEngine.Lib.SortedMap
import SearchEngine.Lib.Statements

/-!
# Rewriting the directories of a database

`rewriteDirectTo` reads the `DirectTo` of every row, rebases it by the mappings and
updates the table inside one transaction, one statement for each directory. The
statements run one after the other, so a row whose new directory is the old one of other
rows would be moved twice.
-/

namespace SearchEngine.Archive

open SearchEngine.Files SearchEngine.Lib

variable (windows : WindowsSystem)

/-! ## The table -/

/-- A row of the table `archive`; `none` is NULL. -/
structure ArchiveRow where
  directTo : Option Path
  fileName : Option Path
  deriving DecidableEq

/-- The `DirectTo` of a row, unless it is NULL or blank. -/
def ArchiveRow.directory? (row : ArchiveRow) : Option Path :=
  row.directTo.filter fun directory => directory.any (· ≠ ' ')

/-- The table `archive` of a database. -/
structure ArchiveTable where
  hasRequiredColumns : Bool
  rows : List ArchiveRow
  deriving DecidableEq

/-- What SQLite may refuse. -/
inductive RewriteStep where
  | openDatabase
  | begin
  | prepareScan
  | read (row : Nat)
  | prepareUpdate
  | update (index : Nat)
  | commit
  deriving DecidableEq

/-- The file name beside a `DirectTo` has neither a root nor a drive. -/
def staysRelative (fileName : Path) : Bool :=
  fileName.isEmpty || (!isAbsolutePath fileName && (rootPath fileName).isEmpty)

/-- The new value of a `DirectTo` ends in a separator. -/
def closeDirectory (target : Path) : Path :=
  if !target.isEmpty && decide (target.getLast? ≠ some '\\') then target ++ ['\\'] else target

def rebasedDirectory (mappings : List PathMapping) (directory : Path) : Except String Path :=
  (rebasePath windows directory mappings).map closeDirectory

/-- The scan of `rewriteDirectTo` from the row with this number on; the step after the last row
may fail as well. -/
def scanRows (fails : RewriteStep → Bool) (mappings : List PathMapping) (rewrites : SortedMap Path Path) :
    Nat → List ArchiveRow → Except String (SortedMap Path Path)
  | number, [] => if fails (.read number) then .error "cannot read AutoPad archive row" else .ok rewrites
  | number, row :: rest =>
      if fails (.read number) then .error "cannot read AutoPad archive row"
      else
        match row.directory? with
        | none => scanRows fails mappings rewrites (number + 1) rest
        | some directory =>
            if !staysRelative (row.fileName.getD []) then
              .error ("AutoPad FileName must stay relative: " ++ String.ofList (row.fileName.getD []))
            else
              match rebasedDirectory windows mappings directory with
              | .error message => .error message
              | .ok target =>
                  if (rewrites.find? directory).any (fun known => decide (known ≠ target)) then
                    .error ("one AutoPad DirectTo maps to multiple archive paths: " ++ String.ofList directory)
                  else scanRows fails mappings (rewrites.emplace directory target) (number + 1) rest

/-- `UPDATE archive SET DirectTo=? WHERE DirectTo=?` on one row. -/
def ArchiveRow.redirected (row : ArchiveRow) (rewrite : Path × Path) : ArchiveRow :=
  if row.directTo = some rewrite.1 then { row with directTo := some rewrite.2 } else row

/-- The update of one directory. -/
def updateStatement (rewrite : Path × Path) (rows : List ArchiveRow) : Option (List ArchiveRow) :=
  some (rows.map (·.redirected rewrite))

/-- `rewriteDirectTo`; whatever fails inside the transaction rolls it back. -/
def rewriteDirectTo (fails : RewriteStep → Bool) (mappings : List PathMapping) (table : ArchiveTable) :
    ArchiveTable × Except String Unit :=
  if fails .openDatabase then (table, .error "cannot open SQLite database")
  else if !table.hasRequiredColumns then (table, .error "AutoPad schema changed in staged database")
  else if fails .begin then (table, .error "SQLite command failed")
  else if fails .prepareScan then (table, .error "cannot prepare AutoPad path scan")
  else
    match scanRows windows fails mappings ∅ 0 table.rows with
    | .error message => (table, .error message)
    | .ok rewrites =>
        if fails .prepareUpdate then (table, .error "cannot prepare AutoPad path update")
        else
          match runStatements (fun index => fails (.update index)) 0 (rewrites.entries.map updateStatement)
              table.rows with
          | none => (table, .error "cannot update AutoPad DirectTo")
          | some rows =>
              if fails .commit then (table, .error "SQLite command failed")
              else ({ table with rows := rows }, .ok ())

/-! ## The scan -/

variable {windows} {fails : RewriteStep → Bool} {mappings : List PathMapping}
  {rewrites final : SortedMap Path Path} {rows : List ArchiveRow} {number : Nat}

/-- The collected rewrites are those of `rebasedDirectory`. -/
def Rebases (windows : WindowsSystem) (mappings : List PathMapping) (rewrites : SortedMap Path Path) : Prop :=
  ∀ directory target, rewrites.find? directory = some target →
    rebasedDirectory windows mappings directory = .ok target

/-- The scan accepts the row. -/
def Movable (windows : WindowsSystem) (mappings : List PathMapping) (row : ArchiveRow) : Prop :=
  ∀ directory, row.directory? = some directory → staysRelative (row.fileName.getD []) = true ∧
    ∃ target, rebasedDirectory windows mappings directory = .ok target

theorem movesTo_of_rebasedDirectory {directory target : Path}
    (moved : rebasedDirectory windows mappings directory = .ok target) :
    ∃ path, MovesTo windows mappings directory path ∧ closeDirectory path = target := by
  cases rebased : rebasePath windows directory mappings with
  | error message =>
      rw [rebasedDirectory, rebased] at moved
      cases moved
  | ok path =>
      rw [rebasedDirectory, rebased] at moved
      exact ⟨path, movesTo_of_rebasePath rebased, Except.ok.inj moved⟩

theorem Rebases.emplace (known : Rebases windows mappings rewrites) {directory target : Path}
    (moved : rebasedDirectory windows mappings directory = .ok target) :
    Rebases windows mappings (rewrites.emplace directory target) := by
  intro other stored found
  rw [SortedMap.find?_emplace, Option.or_eq_some_iff] at found
  rcases found with old | ⟨-, new⟩
  · exact known other stored old
  · split at new
    · rename_i same
      rw [← same, ← Option.some.inj new]
      exact moved
    · cases new

/-- A directory is never found with another target. -/
theorem Rebases.agrees (known : Rebases windows mappings rewrites) {directory target : Path}
    (moved : rebasedDirectory windows mappings directory = .ok target) :
    (rewrites.find? directory).any (fun stored => decide (stored ≠ target)) = false := by
  cases found : rewrites.find? directory with
  | none => rfl
  | some stored =>
      have same := known directory stored found
      rw [moved] at same
      simp [Except.ok.inj same]

/-- A scan that ends has collected the directories of all rows, which it accepts. -/
theorem scanRows_spec (known : Rebases windows mappings rewrites)
    (done : scanRows windows fails mappings rewrites number rows = .ok final) :
    Rebases windows mappings final ∧
      (∀ directory, (final.find? directory).isSome ↔
        (rewrites.find? directory).isSome ∨ ∃ row ∈ rows, row.directory? = some directory) ∧
      ∀ row ∈ rows, Movable windows mappings row := by
  induction rows generalizing rewrites number with
  | nil =>
      rw [scanRows] at done
      split at done
      · cases done
      obtain rfl := Except.ok.inj done
      exact ⟨known, by simp, by simp⟩
  | cons row rest ih =>
      rw [scanRows] at done
      split at done
      · cases done
      cases named : row.directory? with
      | none =>
          rw [named] at done
          obtain ⟨rebases, keys, movable⟩ := ih known done
          refine ⟨rebases, fun directory => ?_, List.forall_mem_cons.mpr ⟨?_, movable⟩⟩
          · simp [keys, named]
          · intro directory isNamed
            rw [named] at isNamed
            cases isNamed
      | some directory =>
          rw [named] at done
          dsimp only at done
          split at done
          · cases done
          rename_i relative
          cases moved : rebasedDirectory windows mappings directory with
          | error message =>
              rw [moved] at done
              cases done
          | ok target =>
              rw [moved] at done
              dsimp only at done
              rw [if_neg (by rw [known.agrees moved]; exact Bool.false_ne_true)] at done
              obtain ⟨rebases, keys, movable⟩ := ih (known.emplace moved) done
              refine ⟨rebases, fun other => ?_, List.forall_mem_cons.mpr ⟨?_, movable⟩⟩
              · rw [keys, SortedMap.find?_emplace, Option.isSome_or, Bool.or_eq_true]
                by_cases same : directory = other <;> simp [named, same]
              · intro other isNamed
                obtain rfl : directory = other := Option.some.inj (named.symm.trans isNamed)
                exact ⟨by simpa using relative, target, moved⟩

/-- Without failures of SQLite a scan of acceptable rows ends. -/
theorem exists_scanRows (never : ∀ step, fails step = false) (known : Rebases windows mappings rewrites)
    (movable : ∀ row ∈ rows, Movable windows mappings row) :
    ∃ final, scanRows windows fails mappings rewrites number rows = .ok final := by
  induction rows generalizing rewrites number with
  | nil => exact ⟨rewrites, by rw [scanRows, never, if_neg Bool.false_ne_true]⟩
  | cons row rest ih =>
      obtain ⟨accepted, others⟩ := List.forall_mem_cons.mp movable
      rw [scanRows, never, if_neg Bool.false_ne_true]
      cases named : row.directory? with
      | none => exact ih known others
      | some directory =>
          obtain ⟨relative, target, moved⟩ := accepted directory named
          dsimp only
          rw [relative, moved, Bool.not_true, if_neg Bool.false_ne_true]
          dsimp only
          rw [known.agrees moved, if_neg Bool.false_ne_true]
          exact ih (known.emplace moved) others

/-! ## The updates -/

/-- The statements of the loop run on each row by itself. -/
theorem foldlM_updateStatement (entries : List (Path × Path)) (rows : List ArchiveRow) :
    (entries.map updateStatement).foldlM (fun current statement => statement current) rows =
      some (rows.map fun row => entries.foldl ArchiveRow.redirected row) := by
  induction entries generalizing rows with
  | nil => simp
  | cons entry rest ih =>
      rw [List.map_cons, List.foldlM_cons, updateStatement, Option.bind_eq_bind, Option.bind_some, ih,
        List.map_map]
      rfl

theorem foldl_redirected_of_absent {entries : List (Path × Path)} {row : ArchiveRow}
    (absent : ∀ entry ∈ entries, row.directTo ≠ some entry.1) :
    entries.foldl ArchiveRow.redirected row = row := by
  induction entries with
  | nil => rfl
  | cons entry rest ih =>
      obtain ⟨first, others⟩ := List.forall_mem_cons.mp absent
      rw [List.foldl_cons, ArchiveRow.redirected, if_neg first]
      exact ih others

/-- A row moves once when its new directory is not itself rewritten. -/
theorem foldl_redirected_of_mem {entries : List (Path × Path)} (distinct : (entries.map Prod.fst).Nodup)
    {directory target : Path} (member : (directory, target) ∈ entries)
    (settled : target ∉ entries.map Prod.fst) {row : ArchiveRow} (stored : row.directTo = some directory) :
    entries.foldl ArchiveRow.redirected row = { row with directTo := some target } := by
  induction entries with
  | nil => cases member
  | cons entry rest ih =>
      rw [List.map_cons] at distinct settled
      obtain ⟨fresh, restDistinct⟩ := List.nodup_cons.mp distinct
      have laterSettled : target ∉ rest.map Prod.fst := fun later => settled (List.mem_cons_of_mem _ later)
      rw [List.foldl_cons, ArchiveRow.redirected]
      rcases List.mem_cons.mp member with rfl | later
      · rw [if_pos stored]
        apply foldl_redirected_of_absent
        intro other isOther same
        obtain rfl : target = other.1 := Option.some.inj same
        exact laterSettled (List.mem_map_of_mem isOther)
      · have different : row.directTo ≠ some entry.1 := by
          rw [stored]
          intro same
          obtain rfl : directory = entry.1 := Option.some.inj same
          exact fresh (List.mem_map.mpr ⟨_, later, rfl⟩)
        rw [if_neg different]
        exact ih restDistinct later laterSettled

/-! ## The rewrite -/

variable {table after : ArchiveTable} {outcome : Except String Unit}

/-- The row after the move: its directory rebased, everything else as it was. -/
def RowMoved (windows : WindowsSystem) (mappings : List PathMapping) (row moved : ArchiveRow) : Prop :=
  moved.fileName = row.fileName ∧
    match row.directory? with
    | none => moved.directTo = row.directTo
    | some directory => ∃ target, MovesTo windows mappings directory target ∧
        moved.directTo = some (closeDirectory target)

/-- No new directory is the old one of a row. -/
def TargetsApart (windows : WindowsSystem) (mappings : List PathMapping) (rows : List ArchiveRow) : Prop :=
  ∀ row ∈ rows, ∀ directory, row.directory? = some directory →
    ∀ target, rebasedDirectory windows mappings directory = .ok target →
      ∀ other ∈ rows, other.directory? ≠ some target

theorem ArchiveRow.directTo_of_directory? {row : ArchiveRow} {directory : Path}
    (named : row.directory? = some directory) : row.directTo = some directory :=
  (Option.filter_eq_some_iff.mp named).1

theorem rebases_empty : Rebases windows mappings ∅ := by
  intro directory target found
  rw [SortedMap.find?_empty] at found
  cases found

/-- What the updates of a complete scan make of the rows. -/
theorem rowMoved_of_scan (done : scanRows windows fails mappings ∅ 0 rows = .ok final)
    (apart : TargetsApart windows mappings rows) :
    ∀ row ∈ rows, RowMoved windows mappings row (final.entries.foldl ArchiveRow.redirected row) := by
  obtain ⟨rebases, keys, -⟩ := scanRows_spec rebases_empty done
  have listed : ∀ directory, directory ∈ final.keys ↔ ∃ row ∈ rows, row.directory? = some directory := by
    intro directory
    rw [SortedMap.mem_keys_iff, ← Option.isSome_iff_exists, keys]
    simp
  intro row member
  cases named : row.directory? with
  | none =>
      have unmoved : final.entries.foldl ArchiveRow.redirected row = row := by
        apply foldl_redirected_of_absent
        intro entry isEntry same
        obtain ⟨other, -, otherNamed⟩ := (listed entry.1).mp (List.mem_map_of_mem isEntry)
        -- the key is a directory that is not blank, so the row would name it
        have filled := (Option.filter_eq_some_iff.mp otherNamed).2
        rw [ArchiveRow.directory?, same, Option.filter_some, if_pos filled] at named
        cases named
      rw [unmoved]
      exact ⟨rfl, by rw [named]⟩
  | some directory =>
      obtain ⟨target, stored⟩ := SortedMap.mem_keys_iff.mp ((listed directory).mpr ⟨row, member, named⟩)
      have moved := rebases directory target stored
      have settled : target ∉ final.keys := by
        intro again
        obtain ⟨other, isOther, otherNamed⟩ := (listed target).mp again
        exact apart row member directory named target moved other isOther otherNamed
      rw [foldl_redirected_of_mem final.keys_nodup (SortedMap.mem_entries_iff.mpr stored) settled
        (ArchiveRow.directTo_of_directory? named)]
      obtain ⟨path, rebased, rfl⟩ := movesTo_of_rebasedDirectory moved
      exact ⟨rfl, by rw [named]; exact ⟨path, rebased, rfl⟩⟩

/-- How `rewriteDirectTo` ends. -/
theorem rewriteDirectTo_cases (done : rewriteDirectTo windows fails mappings table = (after, outcome)) :
    (after = table ∧ ∃ message, outcome = .error message) ∨
      outcome = .ok () ∧ table.hasRequiredColumns = true ∧
        ∃ rewrites, scanRows windows fails mappings ∅ 0 table.rows = .ok rewrites ∧
          after = { table with rows := table.rows.map fun row =>
            rewrites.entries.foldl ArchiveRow.redirected row } := by
  have failed : ∀ message, (table, Except.error message) = (after, outcome) →
      after = table ∧ ∃ message, outcome = .error message := by
    intro message same
    obtain ⟨rfl, rfl⟩ := Prod.mk.inj same
    exact ⟨rfl, message, rfl⟩
  unfold rewriteDirectTo at done
  split at done
  · exact .inl (failed _ done)
  split at done
  · exact .inl (failed _ done)
  rename_i columns
  split at done
  · exact .inl (failed _ done)
  split at done
  · exact .inl (failed _ done)
  split at done
  · exact .inl (failed _ done)
  rename_i rewrites scan
  split at done
  · exact .inl (failed _ done)
  split at done
  · exact .inl (failed _ done)
  rename_i rows ran
  split at done
  · exact .inl (failed _ done)
  obtain ⟨rfl, rfl⟩ := Prod.mk.inj done
  have stated := runStatements_eq_some ran
  rw [foldlM_updateStatement] at stated
  obtain rfl := Option.some.inj stated
  exact .inr ⟨rfl, by simpa using columns, rewrites, scan, rfl⟩

/-- A rewrite that throws leaves the table as it was, one that returns moves every row once unless
a new directory is the old one of a row; and without failures of SQLite it returns exactly when the
table has its columns, every directory can be rebased and every file name beside one is relative. -/
theorem rewriteDirectTo_exact (done : rewriteDirectTo windows fails mappings table = (after, outcome)) :
    (outcome = .ok () → TargetsApart windows mappings table.rows →
        after.hasRequiredColumns = table.hasRequiredColumns ∧
          List.Forall₂ (RowMoved windows mappings) table.rows after.rows) ∧
      (outcome ≠ .ok () → after = table) ∧
      ((∀ step, fails step = false) → (outcome = .ok () ↔
        table.hasRequiredColumns = true ∧ ∀ row ∈ table.rows, Movable windows mappings row)) := by
  have cases := rewriteDirectTo_cases done
  refine ⟨?_, ?_, ?_⟩
  · intro returned apart
    rcases cases with ⟨-, message, failed⟩ | ⟨-, -, rewrites, scan, rfl⟩
    · rw [returned] at failed
      cases failed
    · refine ⟨rfl, ?_⟩
      rw [List.forall₂_map_right_iff, List.forall₂_same]
      exact rowMoved_of_scan scan apart
  · intro failed
    rcases cases with ⟨same, -⟩ | ⟨returned, -⟩
    · exact same
    · exact absurd returned failed
  · intro never
    constructor
    · intro returned
      rcases cases with ⟨-, message, failed⟩ | ⟨-, columns, rewrites, scan, -⟩
      · rw [returned] at failed
        cases failed
      · exact ⟨columns, (scanRows_spec rebases_empty scan).2.2⟩
    · rintro ⟨columns, movable⟩
      have scans : ∃ rewrites, scanRows windows fails mappings ∅ 0 table.rows = .ok rewrites :=
        exists_scanRows never rebases_empty movable
      obtain ⟨rewrites, scan⟩ := scans
      have ran := runStatements_of_not_fails (fun _ => rfl) 0 (rewrites.entries.map updateStatement)
        table.rows
      rw [foldlM_updateStatement] at ran
      simp only [rewriteDirectTo, never, columns, scan, ran, Bool.false_eq_true, Bool.not_true,
        if_false] at done
      exact (Prod.mk.inj done).2.symm

/-! ## Two rows -/

/-- A system that leaves paths as they are. -/
def literalWindows : WindowsSystem := ⟨some, some⟩

def archiveTable : ArchiveTable where
  hasRequiredColumns := true
  rows := [⟨some "C:\\Docs\\In".toList, some "a.txt".toList⟩, ⟨none, some "b.txt".toList⟩]

def archiveMappings : List PathMapping := [⟨"C:\\Docs".toList, "D:\\2020\\files\\Docs".toList⟩]

def movedTable : ArchiveTable where
  hasRequiredColumns := true
  rows := [⟨some "D:\\2020\\files\\Docs\\In\\".toList, some "a.txt".toList⟩, ⟨none, some "b.txt".toList⟩]

theorem rebasedDirectory_archiveTable :
    rebasedDirectory literalWindows archiveMappings "C:\\Docs\\In".toList =
      .ok "D:\\2020\\files\\Docs\\In\\".toList := by decide +kernel

theorem targetsApart_archiveTable : TargetsApart literalWindows archiveMappings archiveTable.rows := by
  have named : ∀ row ∈ archiveTable.rows,
      row.directory? = none ∨ row.directory? = some "C:\\Docs\\In".toList := by decide +kernel
  have only : ∀ row ∈ archiveTable.rows, ∀ directory, row.directory? = some directory →
      directory = "C:\\Docs\\In".toList := by
    intro row member directory same
    rcases named row member with unnamed | isNamed
    · rw [unnamed] at same
      cases same
    · exact Option.some.inj (same.symm.trans isNamed)
  intro row member directory isNamed target moved other isOther again
  rw [only row member directory isNamed, rebasedDirectory_archiveTable] at moved
  have old := only other isOther target again
  rw [← Except.ok.inj moved] at old
  exact absurd old (by decide)

theorem rewriteDirectTo_exact_archiveTable :
    List.Forall₂ (RowMoved literalWindows archiveMappings) archiveTable.rows movedTable.rows := by
  have done : rewriteDirectTo literalWindows (fun _ => false) archiveMappings archiveTable =
      (movedTable, .ok ()) := by decide +kernel
  exact ((rewriteDirectTo_exact done).1 rfl targetsApart_archiveTable).2

end SearchEngine.Archive
