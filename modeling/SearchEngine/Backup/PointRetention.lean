import SearchEngine.Backup.RestorePoints

/-!
# Which restore points are kept

Creation and rotation order the points by directory name, the purpose of a tier
is stated by timestamps. Both agree in every run that finds a young point under the
greatest name exactly while the point created last is young, and rotates oldest
timestamps away.
-/

namespace SearchEngine.Backup

variable {Content : Type}

/-! ## The property and its condition -/

/-- The readable points left are the `maxPoints` ones with the greatest
timestamps among those created. -/
structure TierHistory.Kept (h : TierHistory Content) : Prop where
  created : h.readable.Sublist h.created
  counted : h.readable.length = min h.tier.maxPoints h.created.length
  greatest : ∀ old ∈ h.created, old ∉ h.readable → ∀ point ∈ h.readable, old.NotAfter point

/-- A point was created exactly if the tier was due since the readable point
created last. -/
def TierHistory.Decides (h : TierHistory Content) : Prop :=
  ∀ decision ∈ h.decision, decision.created = h.tier.dueSince decision.timestamp decision.latest

/-- Every decision is right, and after a completed run every tier has decided and
keeps its latest points. -/
def MirrorPoints.KeepsLatest (s : MirrorPoints Content) : Prop :=
  (∀ h ∈ s.tiers, h.Decides) ∧
    (s.completed = true → ∀ h ∈ s.tiers, h.decision.isSome = true ∧ h.Kept)

/-- The timestamp lies within the period that ends now. -/
def HistoryTier.Young (tier : HistoryTier) (now timestamp : Int) : Prop :=
  timestamp ≤ now ∧ now - timestamp < tier.periodSec

instance (tier : HistoryTier) (now timestamp : Int) : Decidable (tier.Young now timestamp) :=
  inferInstanceAs (Decidable (_ ∧ _))

/-- The readable point created last is young. -/
def TierHistory.LatestIsYoung (h : TierHistory Content) (now : Int) : Prop :=
  ∃ timestamp ∈ h.latest, h.tier.Young now timestamp

/-- No directory that is listed has a greater name. -/
def TierHistory.IsLastName (h : TierHistory Content) (sees : Name → Bool) (name : Name) : Prop :=
  sees name = true ∧ ∀ other ∈ h.points, sees other.name = true → other.name ≤ name

/-- The directory with the greatest name is a point that can be read and is young. -/
def TierHistory.LastNameIsYoung (h : TierHistory Content) (now : Int) (answers : CreationAnswers) : Prop :=
  answers.opens = true ∧ ∃ point ∈ h.points, h.IsLastName answers.sees point.name ∧
    ∃ timestamp ∈ point.timestamp, h.tier.Young now timestamp

/-- Under the greatest name stands a young point exactly if the point created last is
young; no matter if no point gets written. -/
structure TierHistory.NamesLatest (h : TierHistory Content) (run : MirrorRun Content)
    (answers : CreationAnswers) : Prop where
  young : h.LastNameIsYoung run.timestamp answers → h.LatestIsYoung run.timestamp
  found : h.LatestIsYoung run.timestamp → answers.creation = .written →
    h.LastNameIsYoung run.timestamp answers

instance (h : TierHistory Content) (now : Int) : Decidable (h.LatestIsYoung now) :=
  inferInstanceAs (Decidable (∃ _ ∈ _, _))

instance (h : TierHistory Content) (sees : Name → Bool) (name : Name) : Decidable (h.IsLastName sees name) :=
  inferInstanceAs (Decidable (_ ∧ _))

instance (h : TierHistory Content) (now : Int) (answers : CreationAnswers) :
    Decidable (h.LastNameIsYoung now answers) :=
  inferInstanceAs (Decidable (_ ∧ ∃ _ ∈ _, _))

instance (h : TierHistory Content) (run : MirrorRun Content) (answers : CreationAnswers) :
    Decidable (h.NamesLatest run answers) :=
  decidable_of_iff ((h.LastNameIsYoung run.timestamp answers → h.LatestIsYoung run.timestamp) ∧
      (h.LatestIsYoung run.timestamp → answers.creation = .written →
        h.LastNameIsYoung run.timestamp answers))
    ⟨fun both => ⟨both.1, both.2⟩, fun names => ⟨names.young, names.found⟩⟩

def Removal.isRefused : Removal → Bool
  | .refused _ => true
  | .removed | .stopped _ => false

/-- As many directories as the tier may keep have greater names. -/
def TierHistory.Outranked (h : TierHistory Content) (name : Name) : Prop :=
  h.tier.maxPoints ≤ h.points.countP fun point => decide (name < point.name)

/-- If there are too many directories: all of them are listed, and of those that are outranked,
up to the first that is not removed, no removal is refused and a readable point goes only while
every directory that is not outranked is readable with no smaller timestamp. -/
def TierHistory.RotatesOldest (h : TierHistory Content) (answers : RotationAnswers) : Prop :=
  h.tier.maxPoints < h.points.length →
    (∀ point ∈ h.points, answers.sees point.name = true) ∧
      ∀ old ∈ h.points, h.Outranked old.name →
        (∀ earlier ∈ h.points, earlier.name < old.name → answers.removals earlier.name = .removed) →
          (answers.removals old.name).isRefused = false ∧
            (old.isReadable = true → ∀ point ∈ h.points, ¬ h.Outranked point.name → old.NotAfter point)

instance (h : TierHistory Content) (name : Name) : Decidable (h.Outranked name) :=
  inferInstanceAs (Decidable (_ ≤ _))

instance (h : TierHistory Content) (answers : RotationAnswers) : Decidable (h.RotatesOldest answers) :=
  inferInstanceAs (Decidable (_ → _ ∧ _))

/-- A creation meets a tier in which the greatest name speaks for the point created last. -/
def MirrorPoints.CreatesByName (s : MirrorPoints Content) : PointStep Content → Prop
  | .create answers =>
      match s.phase with
      | .creating run tier => ∀ h ∈ s.tiers[tier]?, h.NamesLatest run answers
      | _ => True
  | .begin _ | .rotate _ | .stop => True

/-- A rotation meets a tier in which the smallest names stand for the oldest points. -/
def MirrorPoints.RotatesOldest (s : MirrorPoints Content) : PointStep Content → Prop
  | .rotate answers =>
      match s.phase with
      | .rotating tier => ∀ h ∈ s.tiers[tier]?, h.RotatesOldest answers
      | _ => True
  | .begin _ | .create _ | .stop => True

/-- The step meets a tier in which names and timestamps agree. -/
def MirrorPoints.Agrees (s : MirrorPoints Content) (action : PointStep Content) : Prop :=
  s.CreatesByName action ∧ s.RotatesOldest action

/-! ## Reading points -/

theorem PointDirectory.NotAfter.trans {first second third : PointDirectory Content}
    (left : first.NotAfter second) (right : second.NotAfter third) : first.NotAfter third := by
  obtain ⟨low, low_at, middle, middle_at, le⟩ := left
  obtain ⟨middle', middle_at', high, high_at, le'⟩ := right
  obtain rfl := Option.mem_unique middle_at middle_at'
  exact ⟨low, low_at, high, high_at, le.trans le'⟩

theorem PointDirectory.notAfter_self {point : PointDirectory Content}
    (readable : point.isReadable = true) : point.NotAfter point := by
  obtain ⟨manifest, eq⟩ := Option.isSome_iff_exists.mp readable
  have here : manifest.pointCreatedUnixSeconds ∈ point.timestamp := by simp [timestamp, eq]
  exact ⟨_, here, _, here, le_rfl⟩

theorem PointDirectory.NotAfter.isReadable {point other : PointDirectory Content}
    (notAfter : point.NotAfter other) : other.isReadable = true := by
  obtain ⟨_, _, second, second_at, _⟩ := notAfter
  obtain ⟨manifest, eq, _⟩ := Option.map_eq_some_iff.mp second_at
  rw [PointDirectory.isReadable, eq]
  rfl

theorem TierHistory.mem_readable {h : TierHistory Content} {point : PointDirectory Content} :
    point ∈ h.readable ↔ point ∈ h.points ∧ point.isReadable = true :=
  List.mem_filter

/-! ## Listing -/

theorem listPointDirectories_perm {points : List (PointDirectory Content)} {sees : Name → Bool}
    (all : ∀ point ∈ points, sees point.name = true) :
    (listPointDirectories points sees).Perm points := by
  rw [listPointDirectories, List.filter_eq_self.mpr all]
  exact List.perm_insertionSort _ _

theorem length_listPointDirectories_le (points : List (PointDirectory Content)) (sees : Name → Bool) :
    (listPointDirectories points sees).length ≤ points.length := by
  rw [listPointDirectories, List.length_insertionSort]
  exact List.length_filter_le _ _

theorem TierHistory.surplus_append_remaining (h : TierHistory Content) (sees : Name → Bool) :
    h.surplus sees ++ h.remaining sees = listPointDirectories h.points sees :=
  List.take_append_drop _ _

/-! ## What a rotation removes -/

/-- The directories whose removal is tried: up to the first that is not removed. -/
def attempted (removals : Name → Removal) :
    List (PointDirectory Content) → List (PointDirectory Content)
  | [] => []
  | front :: fronts => front :: if removals front.name = .removed then attempted removals fronts else []

theorem attempted_subset {removals : Name → Removal} {fronts : List (PointDirectory Content)} :
    ∀ point ∈ attempted removals fronts, point ∈ fronts := by
  induction fronts with
  | nil => exact fun point member => member
  | cons front fronts ih =>
      intro point member
      rw [attempted] at member
      rcases List.mem_cons.mp member with rfl | later
      · exact List.mem_cons_self
      · split at later
        · exact List.mem_cons_of_mem _ (ih point later)
        · cases later

/-- In the order of the names everything before a directory that is tried has been removed. -/
theorem removed_of_attempted {removals : Name → Removal} {fronts : List (PointDirectory Content)}
    (sorted : fronts.Pairwise fun left right => left.name < right.name) :
    ∀ old ∈ attempted removals fronts, ∀ earlier ∈ fronts, earlier.name < old.name →
      removals earlier.name = .removed := by
  induction fronts with
  | nil => exact fun _ member => absurd member List.not_mem_nil
  | cons front fronts ih =>
      obtain ⟨first, later⟩ := List.pairwise_cons.mp sorted
      intro old tried earlier listed smaller
      rw [attempted] at tried
      rcases List.mem_cons.mp tried with rfl | tried
      · rcases List.mem_cons.mp listed with rfl | after
        · exact absurd smaller (lt_irrefl _)
        · exact absurd smaller (lt_asymm (first earlier after))
      · split at tried
        · rename_i removed
          rcases List.mem_cons.mp listed with rfl | after
          · exact removed
          · exact ih later old tried earlier after smaller
        · cases tried

theorem filter_isReadable_emptyPoint (name : Name) (points : List (PointDirectory Content)) :
    (emptyPoint name points).filter PointDirectory.isReadable =
      (points.filter PointDirectory.isReadable).filter fun point => point.name != name := by
  induction points with
  | nil => rfl
  | cons point points ih =>
      rw [emptyPoint, List.map_cons, ← emptyPoint]
      by_cases same : point.name = name
      · rw [if_pos (beq_iff_eq.mpr same), List.filter_cons_of_neg Bool.false_ne_true, ih]
        by_cases readable : point.isReadable = true
        · rw [List.filter_cons_of_pos readable, List.filter_cons_of_neg (by simp [same])]
        · rw [List.filter_cons_of_neg readable]
      · rw [if_neg (by simp [same])]
        by_cases readable : point.isReadable = true
        · rw [List.filter_cons_of_pos readable, List.filter_cons_of_pos readable,
            List.filter_cons_of_pos (by simp [same]), ih]
        · rw [List.filter_cons_of_neg readable, List.filter_cons_of_neg readable, ih]

theorem map_name_emptyPoint (name : Name) (points : List (PointDirectory Content)) :
    (emptyPoint name points).map PointDirectory.name = points.map PointDirectory.name := by
  rw [emptyPoint, List.map_map]
  refine List.map_congr_left fun point _ => ?_
  rw [Function.comp_apply]
  split <;> rfl

/-- The names that are left are some of the names that were there. -/
theorem names_removeFronts (removals : Name → Removal) (fronts points : List (PointDirectory Content)) :
    ((removeFronts removals fronts points).1.map PointDirectory.name).Sublist
      (points.map PointDirectory.name) := by
  induction fronts generalizing points with
  | nil => exact List.Sublist.refl _
  | cons front fronts ih =>
      rw [removeFronts]
      split
      · exact (ih _).trans (List.Sublist.map _ List.filter_sublist)
      · dsimp only
        split
        · rw [map_name_emptyPoint]
        · exact List.Sublist.refl _
      · dsimp only
        split
        · rw [map_name_emptyPoint]
        · exact List.Sublist.refl _

/-- A rotation makes some of the directories it tries unreadable, and nothing else. -/
theorem readable_removeFronts (removals : Name → Removal)
    (fronts points : List (PointDirectory Content)) :
    ∃ gone : Name → Bool,
      (∀ name, gone name = true → ∃ old ∈ attempted removals fronts, old.name = name) ∧
      (removeFronts removals fronts points).1.filter PointDirectory.isReadable =
        (points.filter PointDirectory.isReadable).filter fun point => !gone point.name := by
  induction fronts generalizing points with
  | nil =>
      refine ⟨fun _ => false, fun _ wrong => (nomatch wrong), ?_⟩
      exact (List.filter_eq_self.mpr fun _ _ => rfl).symm
  | cons front fronts ih =>
      have here : ∃ old ∈ attempted removals (front :: fronts), old.name = front.name :=
        ⟨front, List.mem_cons_self, rfl⟩
      have ended : ∀ emptied : Bool, ∃ gone : Name → Bool,
          (∀ name, gone name = true → ∃ old ∈ attempted removals (front :: fronts), old.name = name) ∧
          (if emptied then emptyPoint front.name points else points).filter PointDirectory.isReadable =
            (points.filter PointDirectory.isReadable).filter fun point => !gone point.name := by
        intro emptied
        cases emptied with
        | false =>
            refine ⟨fun _ => false, fun _ wrong => (nomatch wrong), ?_⟩
            exact (List.filter_eq_self.mpr fun _ _ => rfl).symm
        | true =>
            refine ⟨fun name => name == front.name, fun name same => ?_, ?_⟩
            · rw [beq_iff_eq.mp same]
              exact here
            · exact filter_isReadable_emptyPoint front.name points
      rw [removeFronts]
      cases ends : removals front.name with
      | refused emptied => exact ended emptied
      | stopped emptied => exact ended emptied
      | removed =>
          obtain ⟨gone, tried, eq⟩ := ih (points.filter fun point => point.name != front.name)
          refine ⟨fun name => name == front.name || gone name, fun name either => ?_, ?_⟩
          · rcases Bool.or_eq_true_iff.mp either with same | later
            · rw [beq_iff_eq.mp same]
              exact here
            · obtain ⟨old, member, named⟩ := tried name later
              rw [attempted, if_pos ends]
              exact ⟨old, List.mem_cons_of_mem _ member, named⟩
          · dsimp only
            rw [eq, List.filter_filter, List.filter_filter, List.filter_filter]
            refine List.filter_congr fun point _ => ?_
            rw [Bool.not_or, bne]
            cases gone point.name <;> cases point.isReadable <;> simp

/-- A rotation that goes on without a refusal has removed everything it had to. -/
theorem removeFronts_of_goesOn {removals : Name → Removal} {fronts points : List (PointDirectory Content)}
    (goesOn : (removeFronts removals fronts points).2 = true)
    (accepted : ∀ old ∈ attempted removals fronts, (removals old.name).isRefused = false) :
    ∀ point ∈ (removeFronts removals fronts points).1, point ∈ points ∧ point ∉ fronts := by
  induction fronts generalizing points with
  | nil => exact fun point member => ⟨member, List.not_mem_nil⟩
  | cons front fronts ih =>
      rw [removeFronts] at goesOn ⊢
      cases ends : removals front.name with
      | refused emptied =>
          have wrong := accepted front List.mem_cons_self
          rw [ends] at wrong
          cases wrong
      | stopped emptied =>
          rw [ends] at goesOn
          cases goesOn
      | removed =>
          rw [ends] at goesOn
          intro point member
          have later : ∀ old ∈ attempted removals fronts, (removals old.name).isRefused = false := by
            intro old tried
            refine accepted old ?_
            rw [attempted, if_pos ends]
            exact List.mem_cons_of_mem _ tried
          obtain ⟨kept, other⟩ := ih goesOn later point member
          obtain ⟨there, different⟩ := List.mem_filter.mp kept
          refine ⟨there, fun either => ?_⟩
          rcases List.mem_cons.mp either with rfl | again
          · simp at different
          · exact other again

/-! ## The invariant of a tier -/

/-- Every created point that is gone is replaced by `maxPoints` readable points
that are not older. -/
structure TierHistory.Orderly (h : TierHistory Content) : Prop where
  names : (h.points.map PointDirectory.name).Nodup
  created : h.readable.Sublist h.created
  numbers : h.created.map PointDirectory.number = List.range h.created.length
  replaced : ∀ old ∈ h.created, old ∉ h.readable →
    h.tier.maxPoints ≤ h.readable.countP fun point => decide (old.NotAfter point)

namespace TierHistory

variable {h : TierHistory Content}

theorem orderly_start (tier : HistoryTier) : (start tier : TierHistory Content).Orderly :=
  ⟨List.nodup_nil, List.Sublist.refl _, rfl, fun _ wrong => nomatch wrong⟩

theorem Orderly.nodup_created (orderly : h.Orderly) : h.created.Nodup := by
  refine List.Nodup.of_map PointDirectory.number ?_
  rw [orderly.numbers]
  exact List.nodup_range

theorem Orderly.eq_of_name_eq (orderly : h.Orderly) {point other : PointDirectory Content}
    (here : point ∈ h.points) (there : other ∈ h.points) (same : point.name = other.name) :
    point = other :=
  List.inj_on_of_nodup_map orderly.names here there same

/-- A tier with no more directories than it may keep keeps its latest points. -/
theorem Orderly.kept (orderly : h.Orderly) (few : h.points.length ≤ h.tier.maxPoints) : h.Kept := by
  have present : h.readable.length ≤ h.tier.maxPoints :=
    (List.length_filter_le _ _).trans few
  have all_above : ∀ old ∈ h.created, old ∉ h.readable →
      h.readable.length = h.tier.maxPoints ∧ ∀ point ∈ h.readable, old.NotAfter point := by
    intro old published gone
    have enough := orderly.replaced old published gone
    have counted := List.countP_le_length (p := fun point => decide (old.NotAfter point)) (l := h.readable)
    have every := List.countP_eq_length.mp (le_antisymm counted (present.trans enough))
    exact ⟨le_antisymm present (enough.trans counted), fun point member => of_decide_eq_true (every point member)⟩
  refine ⟨orderly.created, ?_, fun old published gone => (all_above old published gone).2⟩
  have fewer := orderly.created.length_le
  by_cases lost : ∃ old ∈ h.created, old ∉ h.readable
  · obtain ⟨old, published, gone⟩ := lost
    have full := (all_above old published gone).1
    omega
  · have subset : h.created ⊆ h.readable := by
      intro old published
      by_contra gone
      exact lost ⟨old, published, gone⟩
    have more := (orderly.nodup_created.subperm subset).length_le
    omega

/-! ## Rotation -/

theorem surplus_eq_nil (few : h.points.length ≤ h.tier.maxPoints) (sees : Name → Bool) :
    h.surplus sees = [] := by
  have listed := length_listPointDirectories_le h.points sees
  have none_over : (listPointDirectories h.points sees).length - h.tier.maxPoints = 0 := by omega
  rw [surplus, none_over, List.take_zero]

/-- Where every directory is listed, the rotation splits the tier. -/
theorem perm_surplus_remaining {sees : Name → Bool} (all : ∀ point ∈ h.points, sees point.name = true) :
    (h.surplus sees ++ h.remaining sees).Perm h.points := by
  rw [surplus_append_remaining]
  exact listPointDirectories_perm all

theorem length_remaining {sees : Name → Bool} (many : h.tier.maxPoints < h.points.length)
    (all : ∀ point ∈ h.points, sees point.name = true) :
    (h.remaining sees).length = h.tier.maxPoints := by
  have listed := (listPointDirectories_perm all).length_eq
  rw [remaining, List.length_drop]
  omega

/-- Where every directory is listed, the names ascend from the surplus to what remains. -/
theorem sorted_listing (names : (h.points.map PointDirectory.name).Nodup) {sees : Name → Bool}
    (all : ∀ point ∈ h.points, sees point.name = true) :
    (h.surplus sees ++ h.remaining sees).Pairwise fun left right => left.name < right.name := by
  rw [surplus_append_remaining]
  have sorted : (listPointDirectories h.points sees).Pairwise fun left right => left.name ≤ right.name :=
    List.pairwise_insertionSort _ _
  have distinct : (listPointDirectories h.points sees).Pairwise fun left right => left.name ≠ right.name :=
    List.pairwise_map.mp (((listPointDirectories_perm all).map _).nodup_iff.mpr names)
  exact (sorted.and distinct).imp fun both => lt_of_le_of_ne both.1 both.2

/-- The surplus is what is outranked. -/
theorem outranked_of_surplus (names : (h.points.map PointDirectory.name).Nodup) {sees : Name → Bool}
    (many : h.tier.maxPoints < h.points.length) (all : ∀ point ∈ h.points, sees point.name = true)
    {old : PointDirectory Content} (member : old ∈ h.surplus sees) : h.Outranked old.name := by
  obtain ⟨-, -, smaller⟩ := List.pairwise_append.mp (sorted_listing names all)
  have above : (h.remaining sees).countP (fun point => decide (old.name < point.name)) =
      (h.remaining sees).length :=
    List.countP_eq_length.mpr fun point last => decide_eq_true (smaller old member point last)
  rw [Outranked, ← (perm_surplus_remaining all).countP_eq, List.countP_append, above, length_remaining many all]
  omega

theorem not_outranked_of_remaining (names : (h.points.map PointDirectory.name).Nodup) {sees : Name → Bool}
    (many : h.tier.maxPoints < h.points.length) (all : ∀ point ∈ h.points, sees point.name = true)
    {point : PointDirectory Content} (member : point ∈ h.remaining sees) : ¬ h.Outranked point.name := by
  obtain ⟨-, -, smaller⟩ := List.pairwise_append.mp (sorted_listing names all)
  have below : (h.surplus sees).countP (fun old => decide (point.name < old.name)) = 0 :=
    List.countP_eq_zero.mpr fun old listed above =>
      lt_asymm (smaller old listed point member) (of_decide_eq_true above)
  have fewer : (h.remaining sees).countP (fun other => decide (point.name < other.name)) <
      (h.remaining sees).length := by
    refine lt_of_le_of_ne (List.countP_le_length) fun every => ?_
    exact lt_irrefl _ (of_decide_eq_true (List.countP_eq_length.mp every point member))
  rw [Outranked, ← (perm_surplus_remaining all).countP_eq, List.countP_append, below]
  rw [length_remaining many all] at fewer
  omega

/-- What the condition of a rotation says about the directories it tries to remove. -/
theorem RotatesOldest.attempted {answers : RotationAnswers} (names : (h.points.map PointDirectory.name).Nodup)
    (oldest : h.RotatesOldest answers) (many : h.tier.maxPoints < h.points.length) :
    (∀ point ∈ h.points, answers.sees point.name = true) ∧
      ∀ old ∈ Backup.attempted answers.removals (h.surplus answers.sees),
        (answers.removals old.name).isRefused = false ∧
          (old.isReadable = true → ∀ point ∈ h.remaining answers.sees, old.NotAfter point) := by
  obtain ⟨all, removable⟩ := oldest many
  have split := perm_surplus_remaining all
  obtain ⟨sorted, -, smaller⟩ := List.pairwise_append.mp (sorted_listing names all)
  refine ⟨all, fun old tried => ?_⟩
  have among := attempted_subset old tried
  obtain ⟨accepted, younger⟩ := removable old (split.mem_iff.mp (List.mem_append_left _ among))
    (outranked_of_surplus names many all among) fun earlier here less => by
      rcases List.mem_append.mp (split.mem_iff.mpr here) with front | last
      · exact removed_of_attempted sorted old tried earlier front less
      · exact absurd less (lt_asymm (smaller old among earlier last))
  exact ⟨accepted, fun readable point last => younger readable point
    (split.mem_iff.mp (List.mem_append_right _ last)) (not_outranked_of_remaining names many all last)⟩

theorem Orderly.rotate (orderly : h.Orderly) {answers : RotationAnswers}
    (oldest : h.RotatesOldest answers) : (h.rotateRestorePoints answers).1.Orderly := by
  obtain ⟨gone, tried, readable_eq⟩ :=
    readable_removeFronts answers.removals (h.surplus answers.sees) h.points
  let next := (h.rotateRestorePoints answers).1
  have left : next.readable = h.readable.filter fun point => !gone point.name := readable_eq
  have subset : next.readable.Sublist h.readable := left ▸ List.filter_sublist
  refine ⟨orderly.names.sublist (names_removeFronts _ _ _), subset.trans orderly.created,
    orderly.numbers, ?_⟩
  intro old published lost
  show h.tier.maxPoints ≤ next.readable.countP fun point => decide (old.NotAfter point)
  by_cases replaces : ∃ point ∈ h.readable, gone point.name = true ∧ old.NotAfter point
  · obtain ⟨point, member, taken_away, notAfter⟩ := replaces
    obtain ⟨here, readable⟩ := mem_readable.mp member
    obtain ⟨victim, attempt, named⟩ := tried point.name taken_away
    have among := attempted_subset victim attempt
    have many : h.tier.maxPoints < h.points.length := by
      by_contra few
      rw [surplus_eq_nil (Nat.not_lt.mp few)] at among
      cases among
    obtain ⟨all, removable⟩ := oldest.attempted orderly.names many
    have split := perm_surplus_remaining all
    have victim_here : victim ∈ h.points := split.mem_iff.mp (List.mem_append_left _ among)
    obtain rfl := orderly.eq_of_name_eq victim_here here named
    have younger := (removable victim attempt).2 readable
    have distinct : (h.surplus answers.sees ++ h.remaining answers.sees).Nodup :=
      split.nodup_iff.mpr (List.Nodup.of_map _ orderly.names)
    have stays : h.remaining answers.sees ⊆ next.readable := by
      intro point last
      have point_here := split.mem_iff.mp (List.mem_append_right _ last)
      have untouched : gone point.name = false := by
        by_contra touched
        obtain ⟨other, other_tried, same⟩ := tried point.name (Bool.not_eq_false _ ▸ touched)
        have other_among := attempted_subset other other_tried
        have other_here := split.mem_iff.mp (List.mem_append_left _ other_among)
        obtain rfl := orderly.eq_of_name_eq other_here point_here same
        exact (List.nodup_append.mp distinct).2.2 other other_among other last rfl
      rw [left]
      exact List.mem_filter.mpr ⟨mem_readable.mpr ⟨point_here, (younger point last).isReadable⟩,
        by rw [untouched]; rfl⟩
    have counted : (h.remaining answers.sees).countP (fun point => decide (old.NotAfter point)) =
        (h.remaining answers.sees).length :=
      List.countP_eq_length.mpr fun point last => decide_eq_true (notAfter.trans (younger point last))
    calc h.tier.maxPoints
        = (h.remaining answers.sees).length := (length_remaining many all).symm
      _ = (h.remaining answers.sees).countP fun point => decide (old.NotAfter point) := counted.symm
      _ ≤ next.readable.countP fun point => decide (old.NotAfter point) :=
          ((List.nodup_append.mp distinct).2.1.subperm stays).countP_le _
  · have already : old ∉ h.readable := by
      intro there
      refine lost (left ▸ List.mem_filter.mpr ⟨there, ?_⟩)
      cases touched : gone old.name with
      | false => rfl
      | true =>
          have self := PointDirectory.notAfter_self (mem_readable.mp there).2
          exact absurd ⟨old, there, touched, self⟩ replaces
    have same : next.readable.countP (fun point => decide (old.NotAfter point)) =
        h.readable.countP fun point => decide (old.NotAfter point) := by
      rw [left, List.countP_filter]
      refine List.countP_congr fun point member => ?_
      rw [Bool.and_eq_true]
      refine ⟨And.left, fun above => ⟨above, ?_⟩⟩
      cases touched : gone point.name with
      | false => rfl
      | true => exact absurd ⟨point, member, touched, of_decide_eq_true above⟩ replaces
    rw [same]
    exact orderly.replaced old published already

/-- A rotation that goes on leaves no more directories than the tier may keep. -/
theorem Orderly.length_rotate_le (orderly : h.Orderly) {answers : RotationAnswers}
    (oldest : h.RotatesOldest answers)
    (goesOn : (h.rotateRestorePoints answers).2 = true) :
    (h.rotateRestorePoints answers).1.points.length ≤ h.tier.maxPoints := by
  have fewer := names_removeFronts answers.removals (h.surplus answers.sees) h.points
  by_cases few : h.points.length ≤ h.tier.maxPoints
  · have shorter := fewer.length_le
    rw [List.length_map, List.length_map] at shorter
    exact shorter.trans few
  · have many := Nat.not_le.mp few
    obtain ⟨all, removable⟩ := oldest.attempted orderly.names many
    have left := removeFronts_of_goesOn goesOn fun old tried => (removable old tried).1
    have stays : (h.rotateRestorePoints answers).1.points ⊆ h.remaining answers.sees := by
      intro point member
      obtain ⟨here, not_surplus⟩ := left point member
      have either := (perm_surplus_remaining all).mem_iff.mpr here
      exact (List.mem_append.mp either).resolve_left not_surplus
    have distinct : (h.rotateRestorePoints answers).1.points.Nodup :=
      List.Nodup.of_map _ (orderly.names.sublist fewer)
    rw [← length_remaining many all]
    exact (distinct.subperm stays).length_le

/-! ## Creation -/

theorem filter_append_of_readable (h : TierHistory Content) {point : PointDirectory Content}
    (readable : point.isReadable = true) :
    (h.points ++ [point]).filter PointDirectory.isReadable = h.readable ++ [point] := by
  rw [List.filter_append, List.filter_cons_of_pos readable]
  rfl

theorem filter_append_of_unreadable (h : TierHistory Content) {point : PointDirectory Content}
    (unreadable : ¬ point.isReadable = true) :
    (h.points ++ [point]).filter PointDirectory.isReadable = h.readable := by
  rw [List.filter_append, List.filter_cons_of_neg unreadable]
  exact List.append_nil _

theorem nodup_names_append (names : (h.points.map PointDirectory.name).Nodup) (time : Name)
    (manifest : Option (PointManifest Content)) (number : Nat) :
    ((h.points ++ [(⟨choosePointName h.points time, manifest, number⟩ : PointDirectory Content)]).map
      PointDirectory.name).Nodup := by
  rw [List.map_append, List.nodup_append]
  refine ⟨names, List.nodup_singleton _, ?_⟩
  rintro name there other last rfl
  obtain rfl := List.mem_singleton.mp last
  exact choosePointName_free h.points time there

/-- A new directory takes a free name. -/
theorem names_create (names : (h.points.map PointDirectory.name).Nodup) (run : MirrorRun Content)
    (answers : CreationAnswers) : ((h.createRestorePoint run answers).1.points.map PointDirectory.name).Nodup := by
  rw [createRestorePoint]
  split
  · exact names
  · cases answers.creation with
    | interrupted left =>
        cases left with
        | false => exact names
        | true => exact nodup_names_append names _ _ _
    | written => exact nodup_names_append names _ _ _

theorem Orderly.create (orderly : h.Orderly) (run : MirrorRun Content) (answers : CreationAnswers) :
    (h.createRestorePoint run answers).1.Orderly := by
  rw [createRestorePoint]
  split
  · exact ⟨orderly.names, orderly.created, orderly.numbers, orderly.replaced⟩
  · cases answers.creation with
    | interrupted left =>
        cases left with
        | false => exact ⟨orderly.names, orderly.created, orderly.numbers, orderly.replaced⟩
        | true =>
            let directory : PointDirectory Content :=
              ⟨choosePointName h.points run.time, none, h.created.length⟩
            have same : (h.points ++ [directory]).filter PointDirectory.isReadable = h.readable :=
              filter_append_of_unreadable h Bool.false_ne_true
            refine ⟨nodup_names_append orderly.names _ _ _, ?_, orderly.numbers, ?_⟩
            · show ((h.points ++ [directory]).filter PointDirectory.isReadable).Sublist h.created
              rw [same]
              exact orderly.created
            · intro old published lost
              have before := orderly.replaced old published
              rw [← same] at before
              exact before lost
    | written =>
        let point : PointDirectory Content :=
          ⟨choosePointName h.points run.time, some ⟨run.current, h.tier.name, run.time, run.timestamp⟩,
            h.created.length⟩
        have more : (h.points ++ [point]).filter PointDirectory.isReadable = h.readable ++ [point] :=
          filter_append_of_readable h rfl
        refine ⟨nodup_names_append orderly.names _ _ _, ?_, ?_, ?_⟩
        · show ((h.points ++ [point]).filter PointDirectory.isReadable).Sublist (h.created ++ [point])
          rw [more]
          exact orderly.created.append_right _
        · show (h.created ++ [point]).map PointDirectory.number = List.range (h.created ++ [point]).length
          rw [List.map_append, orderly.numbers, List.length_append, List.length_singleton,
            List.range_succ]
          rfl
        · intro old published lost
          show h.tier.maxPoints ≤ ((h.points ++ [point]).filter PointDirectory.isReadable).countP
            fun point => decide (old.NotAfter point)
          have gone : old ∉ (h.points ++ [point]).filter PointDirectory.isReadable := lost
          rw [more] at gone ⊢
          have earlier : old ∈ h.created := by
            rcases List.mem_append.mp published with earlier | new
            · exact earlier
            · exact absurd (List.mem_append_right _ new) gone
          have before := orderly.replaced old earlier fun there => gone (List.mem_append_left _ there)
          rw [List.countP_append]
          omega

/-- The last directory listed is the one with the greatest name. -/
theorem getLast?_listPointDirectories (names : (h.points.map PointDirectory.name).Nodup) {sees : Name → Bool}
    {point : PointDirectory Content} :
    (listPointDirectories h.points sees).getLast? = some point ↔
      point ∈ h.points ∧ h.IsLastName sees point.name := by
  have listed {other : PointDirectory Content} :
      other ∈ listPointDirectories h.points sees ↔ other ∈ h.points ∧ sees other.name = true := by
    rw [listPointDirectories, List.mem_insertionSort, List.mem_filter]
  have greatest {last : PointDirectory Content} (ends : (listPointDirectories h.points sees).getLast? = some last) :
      last ∈ h.points ∧ h.IsLastName sees last.name := by
    obtain ⟨front, split⟩ := List.getLast?_eq_some_iff.mp ends
    have sorted : (listPointDirectories h.points sees).Pairwise fun left right => left.name ≤ right.name :=
      List.pairwise_insertionSort _ _
    rw [split, List.pairwise_append] at sorted
    have here := listed.mp (split ▸ List.mem_append_right _ List.mem_cons_self)
    refine ⟨here.1, here.2, fun other there seen => ?_⟩
    have member := listed.mpr ⟨there, seen⟩
    rw [split] at member
    rcases List.mem_append.mp member with before | same
    · exact sorted.2.2 other before last List.mem_cons_self
    · obtain rfl := List.mem_singleton.mp same
      exact le_rfl
  refine ⟨greatest, fun ⟨here, seen, above⟩ => ?_⟩
  cases ends : (listPointDirectories h.points sees).getLast? with
  | none =>
      have member := listed.mpr ⟨here, seen⟩
      rw [List.getLast?_eq_none_iff.mp ends] at member
      cases member
  | some last =>
      obtain ⟨there, lastSeen, lastAbove⟩ := greatest ends
      have same := le_antisymm (above last there lastSeen) (lastAbove point here seen)
      rw [List.inj_on_of_nodup_map names there here same]

/-- What `tierIsDue` reads is young exactly if a young point stands under the greatest name. -/
theorem lastTimestamp_young_iff (names : (h.points.map PointDirectory.name).Nodup) {now : Int}
    {answers : CreationAnswers} :
    (∃ timestamp ∈ h.lastTimestamp answers, h.tier.Young now timestamp) ↔ h.LastNameIsYoung now answers := by
  constructor
  · rintro ⟨timestamp, read, young⟩
    obtain ⟨point, ends, found⟩ := Option.bind_eq_some_iff.mp read
    obtain ⟨here, last⟩ := (getLast?_listPointDirectories names).mp ends
    rw [readPointTimestamp] at found
    split at found
    · rename_i opens
      exact ⟨opens, point, here, last, timestamp, found, young⟩
    · cases found
  · rintro ⟨opens, point, here, last, timestamp, found, young⟩
    refine ⟨timestamp, Option.bind_eq_some_iff.mpr ⟨point, ?_, ?_⟩, young⟩
    · exact (getLast?_listPointDirectories names).mpr ⟨here, last⟩
    · rw [readPointTimestamp, if_pos opens]
      exact found

/-- A tier is due unless the timestamp is young. -/
theorem dueSince_iff (tier : HistoryTier) (now : Int) (read : Option Int) :
    tier.dueSince now read = true ↔ ¬ ∃ timestamp ∈ read, tier.Young now timestamp := by
  cases read with
  | none => simp [HistoryTier.dueSince]
  | some last =>
      simp only [HistoryTier.dueSince, HistoryTier.Young, Bool.or_eq_true, decide_eq_true_eq, Option.mem_def,
        Option.some.injEq, exists_eq_left']
      omega

theorem dueSince_latest_iff (now : Int) : h.tier.dueSince now h.latest = true ↔ ¬ h.LatestIsYoung now :=
  dueSince_iff h.tier now h.latest

theorem tierIsDue_iff (names : (h.points.map PointDirectory.name).Nodup) (now : Int) (answers : CreationAnswers) :
    h.tierIsDue now answers = true ↔ ¬ h.LastNameIsYoung now answers :=
  (dueSince_iff h.tier now _).trans (not_congr (lastTimestamp_young_iff names))

theorem decides_iff {decision : Decision} (made : h.decision = some decision) :
    h.Decides ↔ decision.created = h.tier.dueSince decision.timestamp decision.latest := by
  simp [Decides, made]

/-- The decision of a creation is right exactly if the greatest name speaks for the point
created last. -/
theorem decides_create_iff (names : (h.points.map PointDirectory.name).Nodup) {run : MirrorRun Content}
    {answers : CreationAnswers} (decides : h.Decides) :
    (h.createRestorePoint run answers).1.Decides ↔ h.NamesLatest run answers := by
  rw [createRestorePoint]
  split
  case isTrue not_due =>
    have young : h.LastNameIsYoung run.timestamp answers := by
      by_contra other
      rw [(tierIsDue_iff names _ _).mpr other] at not_due
      cases not_due
    have right : Decides { h with decision := some ⟨run.timestamp, h.latest, false⟩ } ↔
        h.LatestIsYoung run.timestamp := by
      rw [decides_iff rfl, ← not_iff_not, ← dueSince_latest_iff]
      simp
    rw [right]
    exact ⟨fun latest => ⟨fun _ => latest, fun _ _ => young⟩, fun names => names.young young⟩
  case isFalse due =>
    have old : ¬ h.LastNameIsYoung run.timestamp answers :=
      (tierIsDue_iff names _ _).mp (by simpa using due)
    cases ends : answers.creation with
    | interrupted left =>
        refine ⟨fun _ => ⟨fun young => absurd young old, fun _ written => ?_⟩, fun _ => decides⟩
        rw [ends] at written
        cases written
    | written =>
        have right : Decides { h with
              points := h.points ++ [⟨choosePointName h.points run.time,
                some ⟨run.current, h.tier.name, run.time, run.timestamp⟩, h.created.length⟩]
              created := h.created ++ [⟨choosePointName h.points run.time,
                some ⟨run.current, h.tier.name, run.time, run.timestamp⟩, h.created.length⟩]
              decision := some ⟨run.timestamp, h.latest, true⟩ } ↔ ¬ h.LatestIsYoung run.timestamp := by
          rw [decides_iff rfl, ← dueSince_latest_iff]
          exact eq_comm
        refine right.trans ⟨fun latest => ⟨fun young => absurd young old, fun young => absurd young latest⟩, ?_⟩
        exact fun names latest => old (names.found latest ends)

/-- `createRestorePoint` returns true only with a decision. -/
theorem isSome_decision_create {run : MirrorRun Content} {answers : CreationAnswers}
    (returned : (h.createRestorePoint run answers).2 = true) :
    (h.createRestorePoint run answers).1.decision.isSome = true := by
  rw [createRestorePoint] at returned ⊢
  split
  · rfl
  · rename_i due
    rw [if_neg due] at returned
    cases ends : answers.creation with
    | interrupted left =>
        rw [ends] at returned
        cases returned
    | written => rfl

end TierHistory

/-! ## Runs -/

instance (s : MirrorPoints Content) (action : PointStep Content) : Decidable (s.CreatesByName action) :=
  match action with
  | .begin _ | .rotate _ | .stop => inferInstanceAs (Decidable True)
  | .create answers =>
      match phase : s.phase with
      | .creating run tier =>
          decidable_of_iff (∀ h ∈ s.tiers[tier]?, h.NamesLatest run answers)
            (by rw [MirrorPoints.CreatesByName, phase])
      | .idle | .rotating _ => isTrue (by rw [MirrorPoints.CreatesByName, phase]; trivial)

instance (s : MirrorPoints Content) (action : PointStep Content) : Decidable (s.RotatesOldest action) :=
  match action with
  | .begin _ | .create _ | .stop => inferInstanceAs (Decidable True)
  | .rotate answers =>
      match phase : s.phase with
      | .rotating tier =>
          decidable_of_iff (∀ h ∈ s.tiers[tier]?, h.RotatesOldest answers)
            (by rw [MirrorPoints.RotatesOldest, phase])
      | .idle | .creating _ _ => isTrue (by rw [MirrorPoints.RotatesOldest, phase]; trivial)

instance (s : MirrorPoints Content) (action : PointStep Content) : Decidable (s.Agrees action) :=
  inferInstanceAs (Decidable (_ ∧ _))

/-- What the tiers have behind them at a point of a run. -/
def MirrorPhase.Behind (tiers : List (TierHistory Content)) (completed : Bool) :
    MirrorPhase Content → Prop
  | .idle => completed = true → ∀ h ∈ tiers, h.decision.isSome = true ∧ h.Kept
  | .creating _ tier => completed = false ∧
      ∀ position h, position < tier → tiers[position]? = some h → h.decision.isSome = true
  | .rotating tier => completed = false ∧ (∀ h ∈ tiers, h.decision.isSome = true) ∧
      ∀ position h, position < tier → tiers[position]? = some h → h.Kept

/-- The invariant of the runs. -/
structure MirrorPoints.Orderly (s : MirrorPoints Content) : Prop where
  tiers : ∀ h ∈ s.tiers, h.Orderly ∧ h.Decides
  behind : s.phase.Behind s.tiers s.completed

namespace MirrorPoints

variable {s next : MirrorPoints Content}

theorem Orderly.keepsLatest (orderly : s.Orderly) : s.KeepsLatest := by
  refine ⟨fun h member => (orderly.tiers h member).2, fun completed => ?_⟩
  have behind := orderly.behind
  cases phase : s.phase with
  | idle =>
      rw [phase] at behind
      exact behind completed
  | creating run tier =>
      rw [phase, MirrorPhase.Behind, completed] at behind
      cases behind.1
  | rotating tier =>
      rw [phase, MirrorPhase.Behind, completed] at behind
      cases behind.1

theorem orderly_start (tiers : List HistoryTier) : (start tiers : MirrorPoints Content).Orderly := by
  refine ⟨fun h member => ?_, fun wrong => nomatch wrong⟩
  obtain ⟨tier, _, rfl⟩ := List.mem_map.mp member
  exact ⟨TierHistory.orderly_start tier, fun _ wrong => nomatch wrong⟩

/-- A stop keeps what holds in the middle of a run. -/
theorem behind_idle {tiers : List (TierHistory Content)} {completed : Bool} {phase : MirrorPhase Content}
    (behind : phase.Behind tiers completed) : MirrorPhase.Behind tiers completed .idle := by
  cases phase with
  | idle => exact behind
  | creating run tier => exact fun wrong => absurd (behind.1.symm.trans wrong) Bool.false_ne_true
  | rotating tier => exact fun wrong => absurd (behind.1.symm.trans wrong) Bool.false_ne_true

theorem Orderly.begin (orderly : s.Orderly) {run : MirrorRun Content}
    (stepped : s.step (.begin run) = some next) : next.Orderly := by
  rw [step] at stepped
  split at stepped
  · obtain rfl := Option.some.inj stepped
    refine ⟨fun h member => ?_, rfl, fun _ _ wrong => absurd wrong (Nat.not_lt_zero _)⟩
    obtain ⟨before, there, rfl⟩ := List.mem_map.mp member
    have kept := (orderly.tiers before there).1
    exact ⟨⟨kept.names, kept.created, kept.numbers, kept.replaced⟩, fun _ wrong => nomatch wrong⟩
  · cases stepped

theorem Orderly.create (orderly : s.Orderly) {answers : CreationAnswers}
    (agrees : s.Agrees (.create answers)) (stepped : s.step (.create answers) = some next) :
    next.Orderly := by
  rw [step] at stepped
  have names := agrees.1
  rw [CreatesByName] at names
  have behind := orderly.behind
  split at stepped
  · rename_i run tier phase
    rw [phase] at names behind
    obtain ⟨running, decided⟩ := behind
    split at stepped
    · rename_i past
      obtain rfl := Option.some.inj stepped
      refine ⟨orderly.tiers, running, fun h member => ?_, fun _ _ wrong => absurd wrong (Nat.not_lt_zero _)⟩
      obtain ⟨position, bound, at_position⟩ := List.mem_iff_getElem.mp member
      have end_of_list := List.getElem?_eq_none_iff.mp past
      exact decided position h (bound.trans_le end_of_list) (List.getElem?_eq_some_iff.mpr ⟨bound, at_position⟩)
    · rename_i h there
      have here := orderly.tiers h (List.mem_of_getElem? there)
      have after := here.1.create run answers
      have decides := (TierHistory.decides_create_iff here.1.names here.2).mpr (names h there)
      have chosen : (h.createRestorePoint run answers).2 = true →
          (h.createRestorePoint run answers).1.decision.isSome = true :=
        TierHistory.isSome_decision_create
      generalize h.createRestorePoint run answers = created at *
      obtain ⟨result, returned⟩ := created
      obtain rfl := Option.some.inj stepped
      refine ⟨fun other member => ?_, ?_⟩
      · rcases List.mem_or_eq_of_mem_set member with older | rfl
        · exact orderly.tiers other older
        · exact ⟨after, decides⟩
      · cases returned with
        | false => exact fun wrong => absurd (running.symm.trans wrong) Bool.false_ne_true
        | true =>
            refine ⟨running, fun position other before at_position => ?_⟩
            rw [List.getElem?_set] at at_position
            split at at_position
            · split at at_position
              · obtain rfl := Option.some.inj at_position
                exact chosen rfl
              · cases at_position
            · exact decided position other (by omega) at_position
  · cases stepped

theorem Orderly.rotate (orderly : s.Orderly) {answers : RotationAnswers}
    (agrees : s.Agrees (.rotate answers)) (stepped : s.step (.rotate answers) = some next) :
    next.Orderly := by
  rw [step] at stepped
  have oldest := agrees.2
  rw [RotatesOldest] at oldest
  have behind := orderly.behind
  split at stepped
  · rename_i tier phase
    rw [phase] at oldest behind
    obtain ⟨running, decided, kept⟩ := behind
    split at stepped
    · rename_i past
      obtain rfl := Option.some.inj stepped
      refine ⟨orderly.tiers, fun _ h member => ⟨decided h member, ?_⟩⟩
      obtain ⟨position, bound, at_position⟩ := List.mem_iff_getElem.mp member
      have end_of_list := List.getElem?_eq_none_iff.mp past
      exact kept position h (bound.trans_le end_of_list) (List.getElem?_eq_some_iff.mpr ⟨bound, at_position⟩)
    · rename_i h there
      have member_h := List.mem_of_getElem? there
      have here := orderly.tiers h member_h
      have decision_eq : (h.rotateRestorePoints answers).1.decision = h.decision := rfl
      have decides : (h.rotateRestorePoints answers).1.Decides := here.2
      have after := here.1.rotate (oldest h there)
      have few := here.1.length_rotate_le (oldest h there)
      have tier_eq : (h.rotateRestorePoints answers).1.tier = h.tier := rfl
      generalize h.rotateRestorePoints answers = rotated at *
      obtain ⟨result, goesOn⟩ := rotated
      obtain rfl := Option.some.inj stepped
      refine ⟨fun other member => ?_, ?_⟩
      · rcases List.mem_or_eq_of_mem_set member with older | rfl
        · exact orderly.tiers other older
        · exact ⟨after, decides⟩
      · cases goesOn with
        | false => exact fun wrong => absurd (running.symm.trans wrong) Bool.false_ne_true
        | true =>
            refine ⟨running, fun other member => ?_, fun position other before at_position => ?_⟩
            · rcases List.mem_or_eq_of_mem_set member with older | rfl
              · exact decided other older
              · exact decision_eq ▸ decided h member_h
            · rw [List.getElem?_set] at at_position
              split at at_position
              · split at at_position
                · obtain rfl := Option.some.inj at_position
                  exact after.kept (tier_eq ▸ few rfl)
                · cases at_position
              · exact kept position other (by omega) at_position
  · cases stepped

theorem Orderly.step (orderly : s.Orderly) {action : PointStep Content} (agrees : s.Agrees action)
    (stepped : s.step action = some next) : next.Orderly := by
  cases action with
  | begin run => exact orderly.begin stepped
  | create answers => exact orderly.create agrees stepped
  | rotate answers => exact orderly.rotate agrees stepped
  | stop =>
      obtain rfl := Option.some.inj stepped
      exact ⟨orderly.tiers, behind_idle orderly.behind⟩

end MirrorPoints

/-! ## Exactly the right decisions -/

/-- What holds of the decisions while names and points created last go together. -/
def MirrorPoints.Decided (s : MirrorPoints Content) : Prop :=
  ∀ h ∈ s.tiers, (h.points.map PointDirectory.name).Nodup ∧ h.Decides

namespace MirrorPoints

variable {s next : MirrorPoints Content}

theorem decided_start (tiers : List HistoryTier) : (start tiers : MirrorPoints Content).Decided := by
  intro h member
  obtain ⟨tier, -, rfl⟩ := List.mem_map.mp member
  exact ⟨List.nodup_nil, fun _ wrong => nomatch wrong⟩

theorem Decided.set (decided : s.Decided) {tier : Nat} {result : TierHistory Content}
    (names : (result.points.map PointDirectory.name).Nodup) (decides : result.Decides) :
    ∀ h ∈ s.tiers.set tier result, (h.points.map PointDirectory.name).Nodup ∧ h.Decides := by
  intro other member
  rcases List.mem_or_eq_of_mem_set member with older | rfl
  · exact decided other older
  · exact ⟨names, decides⟩

theorem Decided.step (decided : s.Decided) {action : PointStep Content} (byName : s.CreatesByName action)
    (stepped : s.step action = some next) : next.Decided := by
  cases action with
  | begin run =>
      rw [MirrorPoints.step] at stepped
      split at stepped
      · obtain rfl := Option.some.inj stepped
        intro h member
        obtain ⟨before, there, rfl⟩ := List.mem_map.mp member
        exact ⟨(decided before there).1, fun _ wrong => nomatch wrong⟩
      · cases stepped
  | create answers =>
      rw [MirrorPoints.step] at stepped
      rw [CreatesByName] at byName
      split at stepped
      · rename_i run tier phase
        rw [phase] at byName
        split at stepped
        · obtain rfl := Option.some.inj stepped
          exact decided
        · rename_i h there
          obtain ⟨names, decides⟩ := decided h (List.mem_of_getElem? there)
          obtain rfl := Option.some.inj stepped
          exact decided.set (TierHistory.names_create names run answers)
            ((TierHistory.decides_create_iff names decides).mpr (byName h there))
      · cases stepped
  | rotate answers =>
      rw [MirrorPoints.step] at stepped
      split at stepped
      · rename_i tier phase
        split at stepped
        · obtain rfl := Option.some.inj stepped
          exact decided
        · rename_i h there
          obtain ⟨names, decides⟩ := decided h (List.mem_of_getElem? there)
          obtain rfl := Option.some.inj stepped
          exact decided.set (names.sublist (names_removeFronts _ _ _)) decides
      · cases stepped
  | stop =>
      obtain rfl := Option.some.inj stepped
      exact decided

/-- A creation against the names makes a wrong decision. -/
theorem Decided.breaks (decided : s.Decided) {action : PointStep Content} (against : ¬ s.CreatesByName action) :
    ∃ next, s.step action = some next ∧ ¬ ∀ h ∈ next.tiers, h.Decides := by
  cases action with
  | begin run => exact absurd trivial against
  | rotate answers => exact absurd trivial against
  | stop => exact absurd trivial against
  | create answers =>
      rw [CreatesByName] at against
      split at against
      · rename_i run tier phase
        push Not at against
        obtain ⟨h, there, wrong⟩ := against
        obtain ⟨names, decides⟩ := decided h (List.mem_of_getElem? there)
        have stepped : s.step (.create answers) = some { s with
            tiers := s.tiers.set tier (h.createRestorePoint run answers).1
            phase := if (h.createRestorePoint run answers).2 then .creating run (tier + 1) else .idle } := by
          simp only [MirrorPoints.step, phase, Option.mem_def.mp there]
        refine ⟨_, stepped, fun right => wrong ?_⟩
        obtain ⟨bound, -⟩ := List.getElem?_eq_some_iff.mp there
        exact (TierHistory.decides_create_iff names decides).mp (right _ (List.mem_set bound _))
      · exact absurd trivial against

end MirrorPoints

/-- In every sequence of mirror runs whose steps all find names and timestamps in agreement,
decisions are right and completed runs keep the latest points; and all decisions are right
exactly if every creation finds that the greatest name speaks for the point created last. -/
theorem keepsLatest_of_agrees (tiers : List HistoryTier) (steps : List (PointStep Content)) :
    (mirrorRuns.Conforms MirrorPoints.Agrees (.start tiers) steps →
      mirrorRuns.Throughout MirrorPoints.KeepsLatest (.start tiers) steps) ∧
    (mirrorRuns.Throughout (fun s => ∀ h ∈ s.tiers, h.Decides) (.start tiers) steps ↔
      mirrorRuns.Conforms MirrorPoints.CreatesByName (.start tiers) steps) := by
  constructor
  · exact Lib.Machine.throughout_of_conforms (fun _ orderly => orderly.keepsLatest)
      (fun _ _ _ orderly agrees stepped => orderly.step agrees stepped) (MirrorPoints.orderly_start tiers)
  · exact Lib.Machine.throughout_iff_conforms (fun _ decided h member => (decided h member).2)
      (fun _ _ _ decided byName stepped => decided.step byName stepped)
      (fun _ _ decided against => decided.breaks against) (MirrorPoints.decided_start tiers)

/-! ## A run that stopped while it created a point -/

/-- Two points a minute apart are kept. -/
def everyMinute : HistoryTier := ⟨"every_1min".toList, 60, 2⟩

/-- The run of a minute in which every answer of the file system is good; it
ends, or it stops with the directory of its point made. -/
def minuteRun (time : Name) (timestamp : Int) (completes : Bool) : List (PointStep Unit) :=
  let creation := if completes then .written else .interrupted true
  let created := [.begin ⟨time, timestamp, ()⟩, .create ⟨fun _ => true, true, creation⟩]
  let rotated : List (PointStep Unit) :=
    [.create ⟨fun _ => true, true, .written⟩, .rotate ⟨fun _ => true, fun _ => .removed⟩,
      .rotate ⟨fun _ => true, fun _ => .removed⟩]
  if completes then created ++ rotated else created

theorem keepsLatest_of_agrees_threeMinutes :
    mirrorRuns.Throughout MirrorPoints.KeepsLatest (.start [everyMinute])
      (minuteRun "20260101_120000".toList 0 true ++ minuteRun "20260101_120100".toList 60 true ++
        minuteRun "20260101_120200".toList 120 true) :=
  (keepsLatest_of_agrees [everyMinute] _).1 (by decide +kernel)

/-- The directory that a stopped run left without a manifest counts as a point:
the next run rotates a readable point away and keeps only its own. -/
theorem not_keepsLatest_interrupted :
    ¬ ∀ (tiers : List HistoryTier) (steps : List (PointStep Unit)) (final : MirrorPoints Unit),
      mirrorRuns.run (.start tiers) steps = some final → final.KeepsLatest := by
  intro claim
  have outcome : (mirrorRuns.run (.start [everyMinute])
      (minuteRun "20260101_120000".toList 0 true ++ minuteRun "20260101_120100".toList 60 false ++
        minuteRun "20260101_120200".toList 120 true)).map (fun final =>
      (final.completed, final.tiers.map fun h =>
        (h.readable.length, h.tier.maxPoints, h.created.length))) = some (true, [(1, 2, 2)]) := by
    decide +kernel
  obtain ⟨final, done, seen⟩ := Option.map_eq_some_iff.mp outcome
  obtain ⟨completed, shape⟩ := Prod.mk.inj seen
  obtain ⟨h, rest, tiers_eq, counts, _⟩ := List.map_eq_cons_iff.mp shape
  have member : h ∈ final.tiers := tiers_eq ▸ List.mem_cons_self
  have counted := (claim _ _ final done).2 completed h member |>.2.counted
  simp only [Prod.mk.injEq] at counts
  omega

end SearchEngine.Backup
