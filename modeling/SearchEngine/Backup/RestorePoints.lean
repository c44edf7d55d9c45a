import Mathlib.Data.List.Sort
import SearchEngine.Backup.SnapshotNames
import SearchEngine.Lib.Machine

/-!
# Restore points of a mirror

The end of `updateMirrorHistory`: for each tier in turn `createRestorePoint`
decides by the last point directory whether the tier is due and writes a new
point, then `rotateRestorePoints` removes the first directories of each tier.
What the file system answers, and where the run stops, is input of each step.
-/

namespace SearchEngine.Backup

variable {Content : Type}

/-- `BackupHistoryTier`. -/
structure HistoryTier where
  name : Name
  periodSec : Nat
  maxPoints : Nat

/-- The manifest of a point: the current manifest with three fields added. -/
structure PointManifest (Content : Type) where
  current : Content
  pointTier : Name
  pointCreatedAt : Name
  pointCreatedUnixSeconds : Int

/-- A directory of a tier; without a manifest it is what a stopped run left.
`number` counts the points published in the tier; no code reads it. -/
structure PointDirectory (Content : Type) where
  name : Name
  manifest : Option (PointManifest Content)
  number : Nat

namespace PointDirectory

def timestamp (point : PointDirectory Content) : Option Int :=
  point.manifest.map PointManifest.pointCreatedUnixSeconds

def isReadable (point : PointDirectory Content) : Bool := point.manifest.isSome

/-- Both are readable and the first is not the younger one by its timestamp. -/
def NotAfter (point other : PointDirectory Content) : Prop :=
  ∃ first ∈ point.timestamp, ∃ second ∈ other.timestamp, first ≤ second

instance (point other : PointDirectory Content) : Decidable (point.NotAfter other) :=
  inferInstanceAs (Decidable (∃ _ ∈ _, ∃ _ ∈ _, _))

end PointDirectory

/-! ## Names -/

/-- The name of a time with a suffix that is not padded; suffix zero is the time alone. -/
def pointName (time : Name) : Nat → Name
  | 0 => time
  | suffix + 1 => time ++ '_' :: Nat.toDigits 10 (suffix + 1)

def pointTaken (points : List (PointDirectory Content)) (name : Name) : Bool :=
  points.any fun point => point.name == name

/-- The loop that looks for a free name. It ends after at most as many taken
names as there are directories, see `choosePointName_free`. -/
def choosePointName (points : List (PointDirectory Content)) (time : Name) : Name :=
  (((List.range (points.length + 1)).map (pointName time)).find? fun name =>
    !pointTaken points name).getD time

/-! ## One tier -/

/-- `listPointDirectories`: the directories that the iteration yields, by name. -/
def listPointDirectories (points : List (PointDirectory Content)) (sees : Name → Bool) :
    List (PointDirectory Content) :=
  (points.filter fun point => sees point.name).insertionSort fun left right => left.name ≤ right.name

/-- `readPointTimestamp`. -/
def readPointTimestamp (opens : Bool) (point : PointDirectory Content) : Option Int :=
  if opens then point.timestamp else none

/-- The test of `tierIsDue` against the timestamp it has read, if any. -/
def HistoryTier.dueSince (tier : HistoryTier) (timestamp : Int) : Option Int → Bool
  | none => true
  | some last => decide (timestamp < last) || decide ((tier.periodSec : Int) ≤ timestamp - last)

/-- How the publication of a due point ends. -/
inductive Creation where
  | written
  /-- a step failed or the run stopped; the directory may be left without a manifest -/
  | interrupted (left : Bool)
deriving DecidableEq

/-- What `createRestorePoint` meets in a tier. -/
structure CreationAnswers where
  sees : Name → Bool
  opens : Bool
  creation : Creation

/-- How `remove_all` of a point directory ends. -/
inductive Removal where
  | removed
  /-- it fails, with the manifest gone or still there -/
  | refused (emptied : Bool)
  /-- the run stops in it, with the manifest gone or still there -/
  | stopped (emptied : Bool)
deriving DecidableEq

/-- What the rotation meets in a tier. -/
structure RotationAnswers where
  sees : Name → Bool
  removals : Name → Removal

/-- The mirror run that reached its restore points. -/
structure MirrorRun (Content : Type) where
  time : Name
  timestamp : Int
  current : Content

/-- What `createRestorePoint` decided: the time it was asked at, the timestamp of
the readable point created last, and whether it created a point. -/
structure Decision where
  timestamp : Int
  latest : Option Int
  created : Bool
deriving DecidableEq

/-- A tier with its directories in the order they were made, the points ever
published in it, and the decision of the current run. -/
structure TierHistory (Content : Type) where
  tier : HistoryTier
  points : List (PointDirectory Content)
  created : List (PointDirectory Content)
  decision : Option Decision

namespace TierHistory

def start (tier : HistoryTier) : TierHistory Content := ⟨tier, [], [], none⟩

def readable (h : TierHistory Content) : List (PointDirectory Content) :=
  h.points.filter PointDirectory.isReadable

/-- The timestamp of the readable point that was created last. -/
def latest (h : TierHistory Content) : Option Int :=
  h.readable.getLast?.bind PointDirectory.timestamp

/-- The timestamp that `tierIsDue` finds in the last directory. -/
def lastTimestamp (h : TierHistory Content) (answers : CreationAnswers) : Option Int :=
  (listPointDirectories h.points answers.sees).getLast?.bind (readPointTimestamp answers.opens)

def tierIsDue (h : TierHistory Content) (timestamp : Int) (answers : CreationAnswers) : Bool :=
  h.tier.dueSince timestamp (h.lastTimestamp answers)

/-- `createRestorePoint`, and whether it returns true. -/
def createRestorePoint (h : TierHistory Content) (run : MirrorRun Content)
    (answers : CreationAnswers) : TierHistory Content × Bool :=
  if !h.tierIsDue run.timestamp answers then
    ({ h with decision := some ⟨run.timestamp, h.latest, false⟩ }, true)
  else
    let name := choosePointName h.points run.time
    match answers.creation with
    | .interrupted left =>
        ({ h with points := if left then h.points ++ [⟨name, none, h.created.length⟩] else h.points },
          false)
    | .written =>
        let manifest := ⟨run.current, h.tier.name, run.time, run.timestamp⟩
        let point := ⟨name, some manifest, h.created.length⟩
        ({ h with
            points := h.points ++ [point]
            created := h.created ++ [point]
            decision := some ⟨run.timestamp, h.latest, true⟩ }, true)

end TierHistory

/-- The directory stays, its manifest does not. -/
def emptyPoint (name : Name) (points : List (PointDirectory Content)) :
    List (PointDirectory Content) :=
  points.map fun point => if point.name == name then { point with manifest := none } else point

/-- The loop of `rotateRestorePoints` over the directories to remove, and whether
the run goes on after it. A removal that fails ends the loop. -/
def removeFronts (removals : Name → Removal) :
    (fronts points : List (PointDirectory Content)) → List (PointDirectory Content) × Bool
  | [], points => (points, true)
  | front :: fronts, points =>
      match removals front.name with
      | .removed => removeFronts removals fronts (points.filter fun point => point.name != front.name)
      | .refused emptied => (if emptied then emptyPoint front.name points else points, true)
      | .stopped emptied => (if emptied then emptyPoint front.name points else points, false)

namespace TierHistory

/-- The directories that the rotation has to remove. -/
def surplus (h : TierHistory Content) (sees : Name → Bool) : List (PointDirectory Content) :=
  let listed := listPointDirectories h.points sees
  listed.take (listed.length - h.tier.maxPoints)

/-- The directories that the rotation leaves. -/
def remaining (h : TierHistory Content) (sees : Name → Bool) : List (PointDirectory Content) :=
  let listed := listPointDirectories h.points sees
  listed.drop (listed.length - h.tier.maxPoints)

/-- `rotateRestorePoints` for one tier, and whether the run goes on after it. -/
def rotateRestorePoints (h : TierHistory Content) (answers : RotationAnswers) :
    TierHistory Content × Bool :=
  let rotated := removeFronts answers.removals (h.surplus answers.sees) h.points
  ({ h with points := rotated.1 }, rotated.2)

end TierHistory

/-! ## Runs -/

/-- Where a mirror run stands in its loops over the tiers. -/
inductive MirrorPhase (Content : Type) where
  | idle
  | creating (run : MirrorRun Content) (tier : Nat)
  | rotating (tier : Nat)

/-- The tiers of a target. `completed` tells that the last run ended by itself
with its restore points created and rotated. -/
structure MirrorPoints (Content : Type) where
  tiers : List (TierHistory Content)
  phase : MirrorPhase Content
  completed : Bool

/-- One step of a run. `create` and `rotate` past the last tier end their loops. -/
inductive PointStep (Content : Type) where
  | begin (run : MirrorRun Content)
  | create (answers : CreationAnswers)
  | rotate (answers : RotationAnswers)
  | stop

namespace MirrorPoints

def start (tiers : List HistoryTier) : MirrorPoints Content := ⟨tiers.map .start, .idle, false⟩

def step (s : MirrorPoints Content) : PointStep Content → Option (MirrorPoints Content)
  | .begin run =>
      match s.phase with
      | .idle =>
          some
            { tiers := s.tiers.map fun h => { h with decision := none }
              phase := .creating run 0
              completed := false }
      | _ => none
  | .create answers =>
      match s.phase with
      | .creating run tier =>
          match s.tiers[tier]? with
          | none => some { s with phase := .rotating 0 }
          | some h =>
              let (next, returned) := h.createRestorePoint run answers
              some
                { s with
                  tiers := s.tiers.set tier next
                  phase := if returned then .creating run (tier + 1) else .idle }
      | _ => none
  | .rotate answers =>
      match s.phase with
      | .rotating tier =>
          match s.tiers[tier]? with
          | none => some { s with phase := .idle, completed := true }
          | some h =>
              let (next, goesOn) := h.rotateRestorePoints answers
              some
                { s with
                  tiers := s.tiers.set tier next
                  phase := if goesOn then .rotating (tier + 1) else .idle }
      | _ => none
  | .stop => some { s with phase := .idle }

end MirrorPoints

/-- Mirror runs of one target, each of which may stop at any step. -/
def mirrorRuns : Lib.Machine (MirrorPoints Content) (PointStep Content) where
  step := MirrorPoints.step

/-! ## Free names -/

theorem pointName_injective (time : Name) : Function.Injective (pointName time) := by
  intro left right same
  cases left with
  | zero =>
      cases right with
      | zero => rfl
      | succ right =>
          have lengths := congrArg List.length same
          simp [pointName] at lengths
  | succ left =>
      cases right with
      | zero =>
          have lengths := congrArg List.length same
          simp [pointName] at lengths
      | succ right =>
          have digits := (List.cons.inj (List.append_cancel_left same)).2
          have values := congrArg (Nat.ofDigitChars 10 · 0) digits
          simpa only [Nat.ofDigitChars_ten_toDigits] using values

theorem pointTaken_iff {points : List (PointDirectory Content)} {name : Name} :
    pointTaken points name = true ↔ name ∈ points.map PointDirectory.name := by
  simp only [pointTaken, List.any_eq_true, beq_iff_eq, List.mem_map]

/-- The names tried differ, so one of them is free. -/
theorem choosePointName_free (points : List (PointDirectory Content)) (time : Name) :
    choosePointName points time ∉ points.map PointDirectory.name := by
  have tried : ∃ name, (((List.range (points.length + 1)).map (pointName time)).find? fun name =>
      !pointTaken points name) = some name := by
    rw [← Option.isSome_iff_exists, Option.isSome_iff_ne_none]
    intro none_free
    rw [List.find?_eq_none] at none_free
    have subset : (List.range (points.length + 1)).map (pointName time) ⊆
        points.map PointDirectory.name := by
      intro name member
      have occupied := none_free name member
      rw [Bool.not_eq_true', Bool.not_eq_false] at occupied
      exact pointTaken_iff.mp occupied
    have distinct : ((List.range (points.length + 1)).map (pointName time)).Nodup :=
      List.nodup_range.map (pointName_injective time)
    have bounded := (distinct.subperm subset).length_le
    simp only [List.length_map, List.length_range] at bounded
    omega
  obtain ⟨name, found⟩ := tried
  have free := List.find?_some found
  rw [choosePointName, found, Option.getD_some]
  intro member
  rw [pointTaken_iff.mpr member] at free
  cases free

end SearchEngine.Backup
