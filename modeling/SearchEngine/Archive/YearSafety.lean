import SearchEngine.Archive.CleanupCondition

/-!
# A year is moved, and only then deleted

The manifest that `executeYearMove` publishes is one that a cleanup may trust, whatever has
happened to the trees in between.
-/

namespace SearchEngine.Archive

open SearchEngine.Lib

universe u

variable {Content : Type u} {sys : YearSystem Content} {plan : YearMovePlan} {tree after : FileTree Name Content}
  {manifest current : Manifest Content}

/-- What exists before the year is published lies outside its directory. -/
theorem Accepted.outside (accepted : Accepted sys tree plan) {place : Place} (present : (tree.node place).isSome) :
    ¬ plan.finalDirectory <+: place := by
  rintro ⟨rest, rfl⟩
  rw [FileTree.node_append_eq_none accepted.fresh] at present
  cases present

theorem Accepted.source_present (accepted : Accepted sys tree plan) {mapping : YearMapping}
    (member : mapping ∈ plan.mappings) : (tree.node mapping.source).isSome := by
  have directory := accepted.directories mapping member
  unfold YearSystem.status at directory
  cases stored : tree.node mapping.source with
  | none => simp [stored] at directory
  | some node => rfl

/-- The manifest of a later tree names the same files, whatever its phase. -/
structure Manifest.SameItems (manifest current : Manifest Content) : Prop where
  mappings : current.mappings = manifest.mappings
  files : current.files = manifest.files
  databases : current.databases = manifest.databases

theorem PublishedYear.apart (published : PublishedYear sys plan tree after manifest) (accepted : Accepted sys tree plan)
    (same : manifest.SameItems current) : current.Apart plan.finalDirectory := by
  constructor
  · intro file member
    rw [same.files] at member
    obtain ⟨mapping, planned, relative, below, sourceEq, targetEq, content, -⟩ := published.listed file member
    exact accepted.outside (node_of_contentAt content)
  · intro file member
    rw [same.files] at member
    obtain ⟨mapping, planned, relative, below, sourceEq, targetEq, -⟩ := published.listed file member
    rw [targetEq, List.append_assoc]
    exact List.prefix_append _ _
  · intro source member
    rw [same.mappings, published.roots] at member
    obtain ⟨mapping, planned, rfl⟩ := List.mem_map.mp member
    exact accepted.outside (accepted.source_present planned)
  · intro database member
    rw [same.databases] at member
    obtain ⟨planned, inPlan, sourceEq, -⟩ := published.archived database member
    rw [sourceEq]
    exact accepted.outside (accepted.sources planned inPlan)

/-- Moving a year changes nothing that was there and publishes every planned file or nothing. A
cleanup of the published year, at any later time and stopped anywhere, deletes a file of the plan
only where the archive holds its content and nothing while such a file is not verified. It deletes
verified copies and empty directories only, and nothing if a database fails its check, exactly
from the cleanable trees. -/
theorem yearMove_deletes_verified [DecidableEq Content] (sys : YearSystem Content) (fails : YearStep → Bool)
    (plan : YearMovePlan) (tree : FileTree Name Content) (accepted : Accepted sys tree plan) :
    tree.Kept (executeYearMove sys fails plan tree).1 ∧
    (((executeYearMove sys fails plan tree).1.node plan.finalDirectory).isSome →
      ∃ manifest, (executeYearMove sys fails plan tree).2 = .ok manifest ∧
        PublishedYear sys plan tree (executeYearMove sys fails plan tree).1 manifest) ∧
    ∀ manifest, (executeYearMove sys fails plan tree).2 = .ok manifest →
      ∀ (now : FileTree Name Content) (current : Manifest Content) (deleteMonthlyDatabases : Bool),
        readManifest sys now plan.finalDirectory = .ok current → manifest.SameItems current →
          (∀ cleanupFails, CleanedUp sys plan.finalDirectory current deleteMonthlyDatabases now
            (cleanupYearMoveFiles sys cleanupFails plan.finalDirectory deleteMonthlyDatabases now)) ∧
          ((∀ cleanupFails, DeletesVerified sys cleanupFails current deleteMonthlyDatabases now
              (cleanupYearMoveFiles sys cleanupFails plan.finalDirectory deleteMonthlyDatabases now)) ↔
            current.Cleanable sys deleteMonthlyDatabases now) := by
  rcases executeYearMove_spec fails accepted with ⟨message, failed, unpublished⟩ | ⟨manifest, done, published⟩
  · refine ⟨unpublished.kept, fun present => ?_, fun manifest done => ?_⟩
    · rw [unpublished.absent] at present
      cases present
    · rw [failed] at done
      cases done
  · refine ⟨published.kept, fun _ => ⟨manifest, done, published⟩, fun other same => ?_⟩
    obtain rfl := Except.ok.inj (done.symm.trans same)
    intro now current deleteMonthlyDatabases read items
    have apart := published.apart accepted items
    exact ⟨fun _ => cleanupYearMoveFiles_spec apart read, deletesVerified_iff_cleanable apart read⟩

/-! ## A small year -/

/-- A source directory `S` with one file, a monthly database `M`, and an archive `A`. -/
def smallPlaces : List (Place × Node Nat) :=
  [([], .directory), ([['D']], .directory), ([['D'], ['S']], .directory), ([['D'], ['S'], ['f']], .file 1),
    ([['D'], ['M']], .file 7), ([['D'], ['A']], .directory)]

def smallPlan : YearMovePlan where
  year := 2026
  archiveRoot := [['D'], ['A']]
  databases := [⟨.prm, 1, [['D'], ['M']], ["autopad".toList, ['M']]⟩]
  mappings := [⟨[['D'], ['S']], ["files".toList, ['S']]⟩]

def smallManifest : Manifest Nat where
  phase := .published
  mappings := [[['D'], ['S']]]
  files := [⟨[['D'], ['S'], ['f']], smallPlan.finalDirectory ++ ["files".toList, ['S'], ['f']], 1⟩]
  databases := [⟨.prm, 1, [['D'], ['M']], smallPlan.finalDirectory ++ ["autopad".toList, ['M']], 8, ⟨"7", true⟩⟩]

/-- A system whose contents are numbers; `0` is the manifest above. -/
def smallYear : YearSystem Nat where
  walk := FileTree.below
  nodup _ root := FileTree.nodup_below root
  complete _ _ _ := FileTree.mem_below
  linked _ := none
  isTlgRoot _ := false
  backup tree place := match tree.node place with
    | some (.file content) => some content
    | _ => none
  rewrite content := some (content + 1)
  inspect tree place := match tree.node place with
    | some (.file content) => some ⟨toString content, true⟩
    | _ => none
  inspects tree place := by
    intro inspected directory
    rw [directory] at inspected
    cases inspected
  hashList _ := 9
  dump _ := 0
  parse _ := some smallManifest

def smallTree : FileTree Name Nat := FileTree.ofPlaces smallPlaces

theorem accepted_small : Accepted smallYear smallTree smallPlan where
  root := by decide +kernel
  fresh := by decide +kernel
  directories := by decide +kernel
  apart := by decide +kernel
  targets mapping member := ⟨['S'], by rw [List.mem_singleton.mp member]⟩
  databases database member := ⟨[['M']], by rw [List.mem_singleton.mp member], List.cons_ne_nil _ _⟩
  sources := by decide +kernel
  distinct := by decide +kernel

/-- The small year once it is published. -/
def smallPublished : FileTree Name Nat := (executeYearMove smallYear (fun _ => false) smallPlan smallTree).1

theorem cleanable_small : smallManifest.Cleanable smallYear false smallPublished := by
  refine .files (fun wrong => (nomatch wrong)) fun _ root replaced => ?_
  obtain ⟨node, stored, other⟩ := replaced.stored
  obtain rfl : root = [['D'], ['S']] := List.mem_singleton.mp replaced.listed
  have directory : smallPublished.node [['D'], ['S']] = some .directory := by decide +kernel
  exact other (Option.some.inj (stored.symm.trans directory))

/-- The small year is published with the copy of its file, and a cleanup deletes the file and its
directory. -/
theorem yearMove_deletes_verified_small :
    PublishedYear smallYear smallPlan smallTree smallPublished smallManifest ∧
      (cleanupYearMoveFiles smallYear (fun _ => false) smallPlan.finalDirectory false smallPublished).2.1.map
        Removal.place = [[['D'], ['S'], ['f']], [['D'], ['S']]] ∧
      DeletesVerified smallYear (fun _ => false) smallManifest false smallPublished
        (cleanupYearMoveFiles smallYear (fun _ => false) smallPlan.finalDirectory false smallPublished) := by
  have done : (executeYearMove smallYear (fun _ => false) smallPlan smallTree).2.toOption = some smallManifest := by
    decide +kernel
  obtain ⟨kept, published, cleanups⟩ :=
    yearMove_deletes_verified smallYear (fun _ => false) smallPlan smallTree accepted_small
  obtain ⟨manifest, moved, year⟩ := published (by decide +kernel)
  obtain rfl : manifest = smallManifest := by
    rw [moved] at done
    exact Option.some.inj done
  refine ⟨year, by decide +kernel, ?_⟩
  exact (cleanups smallManifest moved smallPublished smallManifest false (by rfl) ⟨rfl, rfl, rfl⟩).2.mpr cleanable_small _

/-- The published small year, its archived database lost. -/
def smallDamaged : FileTree Name Nat :=
  (smallPublished.remove (smallPlan.finalDirectory ++ ["autopad".toList, ['M']])).getD .empty

/-- The published small year, its source directory replaced by a file that the archive does not hold. -/
def smallReplaced : FileTree Name Nat :=
  (((smallPublished.remove [['D'], ['S'], ['f']]).bind (·.remove [['D'], ['S']])).bind
    (·.create [['D'], ['S']] (.file 5))).getD .empty

/-- A planned database fails its verification, and yet the cleanup has deleted a file; and a file
that has taken the place of a mapping root is deleted without a copy. -/
theorem cleanup_deletes_before_database_check :
    (readManifest smallYear smallDamaged smallPlan.finalDirectory = .ok smallManifest ∧
      (cleanupYearMoveFiles smallYear (fun _ => false) smallPlan.finalDirectory true smallDamaged).1.node
        [['D'], ['S'], ['f']] = none ∧
      ¬ DeletesVerified smallYear (fun _ => false) smallManifest true smallDamaged
        (cleanupYearMoveFiles smallYear (fun _ => false) smallPlan.finalDirectory true smallDamaged)) ∧
    readManifest smallYear smallReplaced smallPlan.finalDirectory = .ok smallManifest ∧
      smallReplaced.node [['D'], ['S']] = some (.file 5) ∧
      (cleanupYearMoveFiles smallYear (fun _ => false) smallPlan.finalDirectory false smallReplaced).1.node
        [['D'], ['S']] = none ∧
      ¬ DeletesVerified smallYear (fun _ => false) smallManifest false smallReplaced
        (cleanupYearMoveFiles smallYear (fun _ => false) smallPlan.finalDirectory false smallReplaced) := by
  refine ⟨⟨by rfl, by decide +kernel, fun holds => ?_⟩, by rfl, by decide +kernel, by decide +kernel, fun holds => ?_⟩
  · have lost : smallYear.contentAt smallDamaged (smallPlan.finalDirectory ++ ["autopad".toList, ['M']]) = none := by
      decide +kernel
    have failing : ∃ database ∈ smallManifest.databases, database.Fails smallYear (fun _ => false) smallDamaged := by
      refine ⟨_, List.mem_cons_self, by decide +kernel, .inr (.inr fun confirmed => ?_)⟩
      have archived := confirmed.archived
      rw [lost] at archived
      cases archived
    have removed : (cleanupYearMoveFiles smallYear (fun _ => false) smallPlan.finalDirectory true
        smallDamaged).2.1.isEmpty = false := by decide +kernel
    rw [(holds.nothing (.inr ⟨rfl, failing⟩)).2] at removed
    cases removed
  · have removed : ((cleanupYearMoveFiles smallYear (fun _ => false) smallPlan.finalDirectory false
        smallReplaced).2.1.map fun removal => (removal.place, removal.tree.node [['D'], ['S']])) =
        [([['D'], ['S']], some (.file 5))] := by decide +kernel
    obtain ⟨removal, rest, log, fields, -⟩ := List.map_eq_cons_iff.mp removed
    obtain ⟨place, stored⟩ := Prod.mk.inj fields
    cases holds.verified removal (log ▸ List.mem_cons_self) with
    | file file listed source =>
        obtain rfl := List.mem_singleton.mp listed
        rw [place] at source
        exact absurd source (by decide)
    | root listed other directory =>
        rw [place, stored] at directory
        cases directory
    | database database listed source chosen => cases chosen

end SearchEngine.Archive
