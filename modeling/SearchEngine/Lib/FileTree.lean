import Mathlib.Data.List.Induction
import Mathlib.Data.List.Lex
import SearchEngine.Lib.SortedMap

/-!
# Trees of files

A tree maps the names that lead to a place, from its root on, to what is there. Whatever
exists below the root lies in a directory; the operations refuse what would break that.
-/

namespace SearchEngine.Lib

universe u v

/-- What a place holds; `other` is neither a directory nor a regular file. -/
inductive Node (Content : Type v) where
  | directory
  | file (content : Content)
  | other
deriving DecidableEq

def Node.isDirectory {Content : Type v} : Node Content → Bool
  | directory => true
  | file _ | other => false

def Node.isOther {Content : Type v} : Node Content → Bool
  | other => true
  | directory | file _ => false

theorem Node.isDirectory_iff {Content : Type v} {node : Node Content} : node.isDirectory = true ↔ node = directory := by
  cases node <;> simp [isDirectory]

theorem Node.isOther_iff {Content : Type v} {node : Node Content} : node.isOther = true ↔ node = other := by
  cases node <;> simp [isOther]

/-- The places of a tree. Each lies in a directory. -/
structure FileTree (Name : Type u) (Content : Type v) [LinearOrder Name] where
  nodes : SortedMap (List Name) (Node Content)
  closed : ∀ path name, (nodes.find? (path ++ [name])).isSome → nodes.find? path = some .directory

namespace FileTree

variable {Name : Type u} {Content : Type v} [LinearOrder Name]

/-- What is at a place. -/
def node (tree : FileTree Name Content) (path : List Name) : Option (Node Content) := tree.nodes.find? path

@[ext] theorem ext_node {left right : FileTree Name Content} (same : ∀ path, left.node path = right.node path) :
    left = right := by
  obtain ⟨leftNodes, leftClosed⟩ := left
  obtain ⟨rightNodes, rightClosed⟩ := right
  have nodes : leftNodes = rightNodes := SortedMap.ext_find? same
  subst nodes
  rfl

variable {tree next : FileTree Name Content} {path other : List Name}

theorem node_parent {name : Name} (present : (tree.node (path ++ [name])).isSome) :
    tree.node path = some .directory := tree.closed path name present

/-- What lies above a place is a directory. -/
theorem node_above {rest : List Name} (present : (tree.node (path ++ rest)).isSome) (below : rest ≠ []) :
    tree.node path = some .directory := by
  induction rest using List.reverseRecOn with
  | nil => exact absurd rfl below
  | append_singleton front name ih =>
      rw [← List.append_assoc] at present
      have parent := node_parent present
      cases front with
      | nil => rwa [List.append_nil] at parent
      | cons head tail => exact ih (by rw [parent]; rfl) (List.cons_ne_nil _ _)

/-- Where nothing is, nothing lies below. -/
theorem node_append_eq_none (free : tree.node path = none) (rest : List Name) : tree.node (path ++ rest) = none := by
  cases rest with
  | nil => rwa [List.append_nil]
  | cons name rest =>
      by_contra present
      have above := node_above (Option.isSome_iff_ne_none.mpr present) (List.cons_ne_nil name rest)
      rw [free] at above
      cases above

/-! ## Changes -/

/-- There is a directory for an entry at the place. -/
def hasParent (tree : FileTree Name Content) (path : List Name) : Bool :=
  path.isEmpty || (tree.node path.dropLast).any Node.isDirectory

theorem hasParent_concat {name : Name} :
    tree.hasParent (path ++ [name]) = true ↔ tree.node path = some .directory := by
  have filled : (path ++ [name]).isEmpty = false := by simp
  rw [hasParent, List.dropLast_concat, filled, Bool.false_or, Option.any_eq_true]
  simp only [Node.isDirectory_iff]
  constructor
  · rintro ⟨node, found, rfl⟩
    exact found
  · exact fun found => ⟨_, found, rfl⟩

/-- Put a node where nothing is. -/
def create (tree : FileTree Name Content) (path : List Name) (new : Node Content) :
    Option (FileTree Name Content) :=
  if free : tree.node path = none ∧ tree.hasParent path = true then
    some {
      nodes := tree.nodes.insert path new
      closed := by
        intro parent name present
        rw [SortedMap.find?_insert] at present ⊢
        have old : (tree.node (parent ++ [name])).isSome → tree.node parent = some .directory := node_parent
        by_cases here : path = parent ++ [name]
        · subst here
          rw [if_neg (by simp)]
          exact hasParent_concat.mp free.2
        · rw [if_neg here] at present
          have above := old present
          split
          · rename_i same
            rw [← same, free.1] at above
            cases above
          · exact above }
  else none

/-- Nothing lies directly in the place. -/
def isEmpty (tree : FileTree Name Content) (path : List Name) : Bool :=
  tree.nodes.keys.all fun key => key = [] || key.dropLast ≠ path

theorem isEmpty_iff : tree.isEmpty path = true ↔ ∀ name, tree.node (path ++ [name]) = none := by
  unfold isEmpty
  simp only [List.all_eq_true, Bool.or_eq_true, decide_eq_true_eq]
  constructor
  · intro all name
    by_contra present
    obtain ⟨found, stored⟩ := Option.ne_none_iff_exists'.mp present
    have key := all _ (SortedMap.mem_keys_iff.mpr ⟨found, stored⟩)
    simp at key
  · intro none key member
    obtain ⟨found, stored⟩ := SortedMap.mem_keys_iff.mp member
    rcases List.eq_nil_or_concat key with nothing | ⟨front, name, rfl⟩
    · exact .inl nothing
    · rw [List.concat_eq_append] at stored
      refine .inr fun same => ?_
      rw [List.concat_eq_append, List.dropLast_concat] at same
      subst same
      have absent : tree.nodes.find? (front ++ [name]) = Option.none := none name
      rw [absent] at stored
      cases stored

/-- Remove a file or an empty directory. -/
def remove (tree : FileTree Name Content) (path : List Name) : Option (FileTree Name Content) :=
  if leaf : tree.isEmpty path = true ∧ (tree.node path).isSome then
    some {
      nodes := tree.nodes.erase path
      closed := by
        intro parent name present
        rw [SortedMap.find?_erase] at present ⊢
        split at present
        · cases present
        · have above := tree.closed parent name present
          rw [if_neg, above]
          rintro rfl
          have absent : tree.nodes.find? (path ++ [name]) = none := isEmpty_iff.mp leaf.1 name
          rw [absent] at present
          cases present }
  else none

theorem create_eq_some {new : Node Content} (done : tree.create path new = some next) :
    tree.node path = none ∧ tree.hasParent path = true ∧
      next.node path = some new ∧ ∀ place, path ≠ place → next.node place = tree.node place := by
  unfold create at done
  split at done
  · rename_i free
    obtain rfl := Option.some.inj done
    refine ⟨free.1, free.2, ?_, fun place changed => ?_⟩
    · change (tree.nodes.insert path new).find? path = _
      rw [SortedMap.find?_insert, if_pos rfl]
    · change (tree.nodes.insert path new).find? place = _
      rw [SortedMap.find?_insert, if_neg changed]
      rfl
  · cases done

theorem create_of_free {new : Node Content} (free : tree.node path = none) (parent : tree.hasParent path = true) :
    ∃ next, tree.create path new = some next := by
  unfold create
  rw [dif_pos ⟨free, parent⟩]
  exact ⟨_, rfl⟩

theorem remove_eq_some (done : tree.remove path = some next) :
    tree.isEmpty path = true ∧ (tree.node path).isSome ∧
      next.node path = none ∧ ∀ place, path ≠ place → next.node place = tree.node place := by
  unfold remove at done
  split at done
  · rename_i leaf
    obtain rfl := Option.some.inj done
    refine ⟨leaf.1, leaf.2, ?_, fun place changed => ?_⟩
    · change (tree.nodes.erase path).find? path = _
      rw [SortedMap.find?_erase, if_pos rfl]
    · change (tree.nodes.erase path).find? place = _
      rw [SortedMap.find?_erase, if_neg changed]
      rfl
  · cases done

theorem remove_of_leaf (empty : tree.isEmpty path = true) (present : (tree.node path).isSome) :
    ∃ next, tree.remove path = some next := by
  unfold remove
  rw [dif_pos ⟨empty, present⟩]
  exact ⟨_, rfl⟩

/-- Nothing lies below a file. -/
theorem isEmpty_of_file {content : Content} (file : tree.node path = some (.file content)) :
    tree.isEmpty path = true := by
  rw [isEmpty_iff]
  intro name
  by_contra present
  have parent := node_parent (Option.isSome_iff_ne_none.mpr present)
  rw [file] at parent
  cases parent

/-- An empty root is the whole tree. -/
theorem node_eq_none_of_root (gone : tree.node [] = none) (path : List Name) : tree.node path = none :=
  node_append_eq_none gone path

/-! ## Directories on the way to a place -/

/-- One directory of `createDirectories`. -/
def ensureDirectory (fails : List Name → Bool) (tree : FileTree Name Content) (path : List Name) :
    Option (FileTree Name Content) :=
  match tree.node path with
  | some .directory => some tree
  | some (.file _) | some .other => none
  | none => if fails path then none else tree.create path .directory

/-- Create the directories that lead from an existing one to a place: the tree afterwards,
and whether all of them are there. -/
def createDirectories (fails : List Name → Bool) (tree : FileTree Name Content) (front : List Name) :
    List Name → FileTree Name Content × Bool
  | [] => (tree, true)
  | name :: rest =>
      match tree.ensureDirectory fails (front ++ [name]) with
      | none => (tree, false)
      | some next => next.createDirectories fails (front ++ [name]) rest

/-- Nothing of one tree is lost or changed in the other. -/
def Kept (tree next : FileTree Name Content) : Prop := ∀ path node, tree.node path = some node → next.node path = some node

theorem Kept.refl (tree : FileTree Name Content) : tree.Kept tree := fun _ _ found => found

theorem Kept.trans {middle : FileTree Name Content} (first : tree.Kept middle) (second : middle.Kept next) :
    tree.Kept next := fun path node found => second path node (first path node found)

theorem kept_of_free (free : tree.node path = none)
    (elsewhere : ∀ place, path ≠ place → next.node place = tree.node place) : tree.Kept next := by
  intro place node found
  by_cases same : path = place
  · subst same
    rw [free] at found
    cases found
  · exact (elsewhere place same).trans found

theorem ensureDirectory_eq_some {fails : List Name → Bool} (done : tree.ensureDirectory fails path = some next) :
    tree.Kept next ∧ next.node path = some .directory ∧
      ∀ place, path ≠ place → next.node place = tree.node place := by
  unfold ensureDirectory at done
  split at done
  · rename_i there
    cases done
    exact ⟨Kept.refl tree, there, fun _ _ => rfl⟩
  · cases done
  · cases done
  · split at done
    · cases done
    obtain ⟨free, -, here, elsewhere⟩ := create_eq_some done
    exact ⟨kept_of_free free elsewhere, here, elsewhere⟩

/-- Only directories on the way are new. -/
theorem createDirectories_spec (fails : List Name → Bool) (rest : List Name) :
    ∀ (tree : FileTree Name Content) (front : List Name),
      tree.Kept (tree.createDirectories fails front rest).1 ∧
        (∀ place, ¬ place <+: front ++ rest → (tree.createDirectories fails front rest).1.node place = tree.node place) ∧
        ((tree.createDirectories fails front rest).2 = true → tree.node front = some .directory →
          (tree.createDirectories fails front rest).1.node (front ++ rest) = some .directory) := by
  induction rest with
  | nil =>
      intro tree front
      rw [List.append_nil]
      exact ⟨Kept.refl tree, fun _ _ => rfl, fun _ there => there⟩
  | cons name rest ih =>
      intro tree front
      unfold createDirectories
      split
      · exact ⟨Kept.refl tree, fun _ _ => rfl, fun done => absurd done (by simp)⟩
      rename_i next made
      obtain ⟨first, there, elsewhere⟩ := ensureDirectory_eq_some made
      obtain ⟨second, outside, result⟩ := ih next (front ++ [name])
      have split : front ++ name :: rest = (front ++ [name]) ++ rest := by simp
      rw [split]
      refine ⟨first.trans second, fun place apart => ?_, fun done _ => ?_⟩
      · rw [outside place apart]
        apply elsewhere
        rintro rfl
        exact apart (List.prefix_append _ _)
      · exact result done there

/-! ## Files and subtrees -/

/-- Replace the content of a file. -/
def overwrite (tree : FileTree Name Content) (path : List Name) (content : Content) : Option (FileTree Name Content) :=
  if file : (tree.node path).any (fun node => !node.isDirectory) = true then
    some {
      nodes := tree.nodes.insert path (.file content)
      closed := by
        intro parent name present
        rw [SortedMap.find?_insert] at present ⊢
        have above : tree.nodes.find? parent = some .directory := by
          by_cases here : path = parent ++ [name]
          · obtain ⟨node, found, -⟩ := (Option.any_eq_true _ _).mp file
            rw [here] at found
            exact tree.closed parent name (by rw [show tree.nodes.find? _ = _ from found]; rfl)
          · rw [if_neg here] at present
            exact tree.closed parent name present
        rw [if_neg, above]
        rintro rfl
        obtain ⟨node, found, other⟩ := (Option.any_eq_true _ _).mp file
        rw [show tree.node path = _ from above] at found
        cases found
        simp [Node.isDirectory] at other }
  else none

theorem overwrite_eq_some {content : Content} (done : tree.overwrite path content = some next) :
    (∃ node, tree.node path = some node ∧ node ≠ .directory) ∧ next.node path = some (.file content) ∧
      ∀ place, path ≠ place → next.node place = tree.node place := by
  unfold overwrite at done
  split at done
  · rename_i file
    obtain rfl := Option.some.inj done
    obtain ⟨node, found, other⟩ := (Option.any_eq_true _ _).mp file
    refine ⟨⟨node, found, ?_⟩, ?_, fun place changed => ?_⟩
    · rintro rfl
      simp [Node.isDirectory] at other
    · change (tree.nodes.insert path _).find? path = _
      rw [SortedMap.find?_insert, if_pos rfl]
    · change (tree.nodes.insert path _).find? place = _
      rw [SortedMap.find?_insert, if_neg changed]
      rfl
  · cases done

/-- Write a file, new or over the old one. -/
def writeFile (tree : FileTree Name Content) (path : List Name) (content : Content) : Option (FileTree Name Content) :=
  if (tree.node path).isSome then tree.overwrite path content else tree.create path (.file content)

theorem writeFile_eq_some {content : Content} (done : tree.writeFile path content = some next) :
    tree.node path ≠ some .directory ∧ next.node path = some (.file content) ∧
      ∀ place, path ≠ place → next.node place = tree.node place := by
  unfold writeFile at done
  split at done
  · obtain ⟨⟨node, found, other⟩, here, elsewhere⟩ := overwrite_eq_some done
    refine ⟨fun directory => other ?_, here, elsewhere⟩
    exact Option.some.inj (found.symm.trans directory)
  · obtain ⟨free, -, here, elsewhere⟩ := create_eq_some done
    exact ⟨by rw [free]; simp, here, elsewhere⟩

/-- Where a place is once a subtree has been moved. -/
def relocate (source target path : List Name) : List Name :=
  if source.isPrefixOf path then target ++ path.drop source.length else path

theorem relocate_append (source target rest : List Name) : relocate source target (source ++ rest) = target ++ rest := by
  rw [relocate, if_pos (by simp), List.drop_left]

theorem relocate_of_not {source : List Name} (target : List Name) (outside : ¬ source <+: path) :
    relocate source target path = path := by
  rw [relocate, if_neg (by simpa using outside)]

/-- Nothing meets what is moved where nothing was. -/
theorem relocate_injective {source target left right : List Name} (free : tree.node target = none)
    (leftThere : (tree.node left).isSome) (rightThere : (tree.node right).isSome)
    (same : relocate source target left = relocate source target right) : left = right := by
  have apart : ∀ {rest place : List Name}, (tree.node place).isSome → target ++ rest ≠ place := by
    rintro rest place there rfl
    rw [node_append_eq_none free] at there
    cases there
  by_cases leftBelow : source <+: left
  · obtain ⟨leftRest, rfl⟩ := leftBelow
    rw [relocate_append] at same
    by_cases rightBelow : source <+: right
    · obtain ⟨rightRest, rfl⟩ := rightBelow
      rw [relocate_append, List.append_cancel_left_eq] at same
      rw [same]
    · rw [relocate_of_not target rightBelow] at same
      exact absurd same (apart rightThere)
  · rw [relocate_of_not target leftBelow] at same
    by_cases rightBelow : source <+: right
    · obtain ⟨rightRest, rfl⟩ := rightBelow
      rw [relocate_append] at same
      exact absurd same.symm (apart leftThere)
    · rwa [relocate_of_not target rightBelow] at same

/-- The moved entries. -/
def relocated (tree : FileTree Name Content) (source target : List Name) : SortedMap (List Name) (Node Content) :=
  SortedMap.ofList (tree.nodes.entries.map fun entry => (relocate source target entry.1, entry.2))

theorem find?_relocated {source target : List Name} (free : tree.node target = none) {node : Node Content} :
    (tree.relocated source target).find? path = some node ↔
      ∃ old, tree.node old = some node ∧ relocate source target old = path := by
  unfold relocated
  rw [SortedMap.find?_ofList_eq_some_iff]
  · rw [List.mem_map]
    constructor
    · rintro ⟨⟨old, stored⟩, member, same⟩
      cases same
      exact ⟨old, SortedMap.mem_entries_iff.mp member, rfl⟩
    · rintro ⟨old, found, rfl⟩
      exact ⟨(old, node), SortedMap.mem_entries_iff.mpr found, rfl⟩
  · rw [List.map_map]
    refine List.Nodup.map_on ?_ (List.Nodup.of_map Prod.fst tree.nodes.keys_nodup)
    intro left leftMember right rightMember same
    have leftFound : tree.node left.1 = some left.2 := SortedMap.mem_entries_iff.mp leftMember
    have rightFound : tree.node right.1 = some right.2 := SortedMap.mem_entries_iff.mp rightMember
    have key := relocate_injective free (by rw [leftFound]; rfl) (by rw [rightFound]; rfl) same
    rw [key, rightFound] at leftFound
    exact Prod.ext key (Option.some.inj leftFound).symm

/-- Move a file or a subtree to a place where nothing is, below a directory outside it. -/
def rename (tree : FileTree Name Content) (source target : List Name) : Option (FileTree Name Content) :=
  if movable : (tree.node source).isSome ∧ tree.node target = none ∧ tree.hasParent target = true ∧ ¬ source <+: target then
    some {
      nodes := tree.relocated source target
      closed := by
        obtain ⟨-, free, parentThere, outside⟩ := movable
        intro parent name present
        obtain ⟨node, found⟩ := Option.isSome_iff_exists.mp present
        obtain ⟨old, stored, moved⟩ := (find?_relocated free).mp found
        rw [find?_relocated free]
        by_cases below : source <+: old
        · obtain ⟨rest, rfl⟩ := below
          rw [relocate_append] at moved
          rcases List.eq_nil_or_concat rest with rfl | ⟨front, last, rfl⟩
          · rw [List.append_nil] at moved
            subst moved
            refine ⟨parent, hasParent_concat.mp parentThere, relocate_of_not _ fun inside => ?_⟩
            exact outside (inside.trans (List.prefix_append _ _))
          · rw [List.concat_eq_append, ← List.append_assoc] at moved stored
            obtain ⟨same, -⟩ := List.append_inj' moved rfl
            exact ⟨source ++ front, node_parent (by rw [stored]; rfl), by rw [relocate_append, same]⟩
        · rw [relocate_of_not target below] at moved
          subst moved
          refine ⟨parent, node_parent (by rw [stored]; rfl), relocate_of_not _ fun inside => ?_⟩
          exact below (inside.trans (List.prefix_append _ _)) }
  else none

theorem rename_eq_some {source target : List Name} (done : tree.rename source target = some next) :
    tree.node target = none ∧ (∀ rest, next.node (target ++ rest) = tree.node (source ++ rest)) ∧
      ∀ place, ¬ source <+: place → ¬ target <+: place → next.node place = tree.node place := by
  unfold rename at done
  split at done
  · rename_i movable
    obtain rfl := Option.some.inj done
    obtain ⟨-, free, -, outside⟩ := movable
    refine ⟨free, fun rest => Option.ext fun node => ?_, fun place apart other => Option.ext fun node => ?_⟩
    · change (tree.relocated source target).find? _ = some node ↔ _
      rw [find?_relocated free]
      constructor
      · rintro ⟨old, found, moved⟩
        by_cases below : source <+: old
        · obtain ⟨tail, rfl⟩ := below
          rw [relocate_append, List.append_cancel_left_eq] at moved
          rwa [← moved]
        · rw [relocate_of_not target below] at moved
          rw [moved, node_append_eq_none free] at found
          cases found
      · exact fun found => ⟨source ++ rest, found, relocate_append _ _ _⟩
    · change (tree.relocated source target).find? _ = some node ↔ _
      rw [find?_relocated free]
      constructor
      · rintro ⟨old, found, moved⟩
        by_cases below : source <+: old
        · obtain ⟨tail, rfl⟩ := below
          rw [relocate_append] at moved
          exact absurd ⟨tail, moved⟩ other
        · rw [relocate_of_not target below] at moved
          rwa [← moved]
      · exact fun found => ⟨place, found, relocate_of_not target apart⟩
  · cases done

/-! ## Trees from their places -/

/-- Nothing, not even a root. -/
def empty : FileTree Name Content := ⟨∅, fun _ _ present => absurd present (by simp)⟩

/-- The places of a list, each after the directory that holds it. -/
def ofPlaces (places : List (List Name × Node Content)) : FileTree Name Content :=
  places.foldl (fun tree place => (tree.create place.1 place.2).getD tree) empty

/-- What lies below a place, in the order of the map. -/
def below (tree : FileTree Name Content) (root : List Name) : List (List Name) :=
  (tree.nodes.keys.filter fun key => root.isPrefixOf key && key.length ≠ root.length).map (·.drop root.length)

theorem mem_below {root rest : List Name} : rest ∈ tree.below root ↔ rest ≠ [] ∧ (tree.node (root ++ rest)).isSome := by
  unfold below
  simp only [List.mem_map, List.mem_filter, Bool.and_eq_true, List.isPrefixOf_iff_prefix, decide_eq_true_eq]
  constructor
  · rintro ⟨key, ⟨member, ⟨tail, rfl⟩, longer⟩, rfl⟩
    obtain ⟨node, stored⟩ := SortedMap.mem_keys_iff.mp member
    rw [List.drop_left]
    refine ⟨?_, by rw [show tree.node _ = _ from stored]; rfl⟩
    rintro rfl
    simp at longer
  · rintro ⟨filled, present⟩
    obtain ⟨node, stored⟩ := Option.isSome_iff_exists.mp present
    refine ⟨root ++ rest, ⟨SortedMap.mem_keys_iff.mpr ⟨node, stored⟩, List.prefix_append _ _, ?_⟩, List.drop_left⟩
    have positive := List.length_pos_of_ne_nil filled
    rw [List.length_append]
    omega

theorem nodup_below (root : List Name) : (tree.below root).Nodup := by
  unfold below
  refine (tree.nodes.keys_nodup.filter _).map_on fun left leftMember right rightMember same => ?_
  simp only [List.mem_filter, Bool.and_eq_true, List.isPrefixOf_iff_prefix] at leftMember rightMember
  obtain ⟨-, ⟨leftTail, rfl⟩, -⟩ := leftMember
  obtain ⟨-, ⟨rightTail, rfl⟩, -⟩ := rightMember
  rw [List.drop_left, List.drop_left] at same
  rw [same]

end FileTree

end SearchEngine.Lib
