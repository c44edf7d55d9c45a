import Mathlib.Data.List.Sort
import SearchEngine.Backup.SnapshotNames
import SearchEngine.Lib.Machine

/-!
# Taking snapshots

`createSnapshot` of the versioned strategy: list the snapshots of the target,
compare the source with the last of them, choose a free name from the local
time, copy, publish by a rename and rotate the oldest names away. What the
source and the file system answer during a run is input of the run.
-/

namespace SearchEngine.Backup

/-- An entry of the snapshots directory. `number` counts the snapshots that were
ever published there; no code reads it. -/
structure Entry (Content : Type) where
  name : Name
  isDirectory : Bool
  content : Content
  number : Nat

variable {Content : Type}

/-- `listSnapshots`: the directories with snapshot names in string order. -/
def listSnapshots (entries : List (Entry Content)) : List (Entry Content) :=
  (entries.filter fun entry => entry.isDirectory && isSnapshotName entry.name).insertionSort
    fun left right => left.name ≤ right.name

def taken (entries : List (Entry Content)) (name : Name) : Bool :=
  entries.any fun entry => entry.name == name

/-- The loop of `chooseVersionPath`: the first suffix whose name is free. -/
def chooseSuffix (entries : List (Entry Content)) (time : Name) : (tries suffix : Nat) → Option Nat
  | 0, _ => none
  | tries + 1, suffix =>
      if taken entries (versionName time suffix) then chooseSuffix entries time tries (suffix + 1)
      else some suffix

/-- The suffix chosen is free, and every smaller one is taken. -/
theorem chooseSuffix_spec {entries : List (Entry Content)} {time : Name} {tries first suffix : Nat}
    (chosen : chooseSuffix entries time tries first = some suffix) :
    first ≤ suffix ∧ suffix < first + tries ∧ taken entries (versionName time suffix) = false ∧
      ∀ earlier, first ≤ earlier → earlier < suffix → taken entries (versionName time earlier) = true := by
  induction tries generalizing first with
  | zero => cases chosen
  | succ tries ih =>
      rw [chooseSuffix] at chosen
      split at chosen
      case isTrue used =>
        obtain ⟨lower, upper, free, below⟩ := ih chosen
        refine ⟨by omega, by omega, free, fun earlier from_first less => ?_⟩
        rcases Nat.eq_or_lt_of_le from_first with rfl | later
        · exact used
        · exact below earlier later less
      case isFalse unused =>
        obtain rfl := Option.some.inj chosen
        exact ⟨le_rfl, by omega, Bool.not_eq_true _ ▸ unused, fun earlier lower less => by omega⟩

/-- `chooseVersionPath`; `none` when every suffix is taken. -/
def chooseVersionPath (entries : List (Entry Content)) (time : TimeString) : Option Name :=
  (chooseSuffix entries time.1 (maxSuffix + 1) 0).map (versionName time.1)

/-- The snapshots that `rotateSnapshots` removes. -/
def rotatedAway (entries : List (Entry Content)) (maxVersions : Nat) : List (Entry Content) :=
  (listSnapshots entries).take ((listSnapshots entries).length - maxVersions)

/-- `rotateSnapshots`; a removal that fails is logged and leaves the directory. -/
def rotateSnapshots (entries : List (Entry Content)) (maxVersions : Nat) (relisted : Bool)
    (removes : Name → Bool) : List (Entry Content) :=
  if !relisted then entries
  else
    entries.filter fun entry =>
      !((rotatedAway entries maxVersions).any fun old => old.name == entry.name && removes old.name)

inductive CompareResult where
  | equal
  | different
  | error
deriving DecidableEq

/-- What a run meets: its time, and how each step on source and disk turns out. -/
structure Run (Content : Type) where
  time : TimeString
  /-- source, configuration and snapshots directory are usable -/
  validated : Bool
  /-- `listSnapshots` reads the directory without error -/
  listed : Bool
  /-- the comparison with the latest snapshot; `different` where the mode makes none -/
  compare : Content → CompareResult
  /-- `fs::exists` answers while a name is chosen -/
  inspected : Bool
  /-- the staged copy with its manifest, verified; `none` when a step failed -/
  copied : Option Content
  /-- the rename that publishes the staging directory succeeds -/
  renamed : Bool
  /-- `rotateSnapshots` lists the directory without error -/
  relisted : Bool
  /-- `remove_all` of a rotated directory succeeds -/
  removes : Name → Bool

inductive BackupTargetStatus where
  | failed
  | unchanged (latest : Name)
  | snapshotCreated (path : Name)
deriving DecidableEq

/-- The directory of one target. -/
structure Snapshots (Content : Type) where
  entries : List (Entry Content)
  /-- how many snapshots were published -/
  created : Nat
  /-- the result of the last run -/
  last : BackupTargetStatus

namespace Snapshots

def start : Snapshots Content := ⟨[], 0, .failed⟩

/-- The comparison finds the source equal to the latest snapshot. -/
def unchangedFrom (s : Snapshots Content) (run : Run Content) : Option (Entry Content) :=
  (listSnapshots s.entries).getLast?.filter fun latest => run.compare latest.content = .equal

/-- `createSnapshot`. -/
def createSnapshot (maxVersions : Nat) (run : Run Content) (s : Snapshots Content) :
    Snapshots Content :=
  if maxVersions = 0 || !run.validated || !run.listed then { s with last := .failed }
  else
    match s.unchangedFrom run with
    | some latest => { s with last := .unchanged latest.name }
    | none =>
        match chooseVersionPath s.entries run.time with
        | none => { s with last := .failed }
        | some path =>
            if !run.inspected then { s with last := .failed }
            else
              match run.copied with
              | none => { s with last := .failed }
              | some content =>
                  if !run.renamed then { s with last := .failed }
                  else
                    { entries := rotateSnapshots (s.entries ++ [⟨path, true, content, s.created⟩])
                        maxVersions run.relisted run.removes
                      created := s.created + 1
                      last := .snapshotCreated path }

/-- The run gets as far as publishing a snapshot. -/
def publishes (maxVersions : Nat) (run : Run Content) (s : Snapshots Content) : Bool :=
  !(maxVersions = 0 || !run.validated || !run.listed) && (s.unchangedFrom run).isNone &&
    (chooseVersionPath s.entries run.time).isSome && run.inspected && run.copied.isSome && run.renamed

/-- A run that publishes adds its snapshot under the chosen name and rotates. -/
theorem createSnapshot_of_publishes {maxVersions : Nat} {run : Run Content} {s : Snapshots Content}
    (published : s.publishes maxVersions run = true) :
    0 < maxVersions ∧ ∃ path content, chooseVersionPath s.entries run.time = some path ∧
      s.createSnapshot maxVersions run =
        { entries := rotateSnapshots (s.entries ++ [⟨path, true, content, s.created⟩])
            maxVersions run.relisted run.removes
          created := s.created + 1
          last := .snapshotCreated path } := by
  simp only [publishes, Bool.and_eq_true, Option.isNone_iff_eq_none, Option.isSome_iff_exists] at published
  obtain ⟨⟨⟨⟨⟨usable, changed⟩, path, chosen⟩, inspected⟩, content, copied⟩, renamed⟩ := published
  rw [Bool.not_eq_true', ← Bool.not_eq_true] at usable
  refine ⟨?_, path, content, chosen, ?_⟩
  · refine Nat.pos_of_ne_zero fun zero => usable ?_
    simp [zero]
  · simp [createSnapshot, usable, changed, chosen, inspected, copied, renamed]

/-- A run that does not publish leaves the directory as it is. -/
theorem createSnapshot_of_not_publishes {maxVersions : Nat} {run : Run Content} {s : Snapshots Content}
    (silent : s.publishes maxVersions run = false) :
    ∃ last, s.createSnapshot maxVersions run = { s with last := last } ∧
      ∀ path, last ≠ .snapshotCreated path := by
  unfold createSnapshot
  split
  · exact ⟨.failed, rfl, fun _ wrong => nomatch wrong⟩
  · rename_i usable
    split
    · rename_i latest _
      exact ⟨.unchanged latest.name, rfl, fun _ wrong => nomatch wrong⟩
    · rename_i changed
      split
      · exact ⟨.failed, rfl, fun _ wrong => nomatch wrong⟩
      · rename_i path chosen
        split
        · exact ⟨.failed, rfl, fun _ wrong => nomatch wrong⟩
        · rename_i inspected
          split
          · exact ⟨.failed, rfl, fun _ wrong => nomatch wrong⟩
          · rename_i content copied
            split
            · exact ⟨.failed, rfl, fun _ wrong => nomatch wrong⟩
            · rename_i renamed
              simp [publishes, changed, chosen, copied] at silent inspected renamed usable
              simp_all

end Snapshots

/-- Runs of the backup of one target, at whatever times the clock shows. -/
def backups (maxVersions : Nat) : Lib.Machine (Snapshots Content) (Run Content) where
  step s run := some (s.createSnapshot maxVersions run)

end SearchEngine.Backup
