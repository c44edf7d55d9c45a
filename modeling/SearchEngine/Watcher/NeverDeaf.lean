import SearchEngine.Watcher.MultiDirWatcher

/-!
# Watchers that go deaf

A watched directory stays watched through removals, renames and new appearances as
long as the parent's notifications are complete, every existing directory can be
opened, and a read ends without events only when its directory is gone. The
invariant reads off the notifications still to come whether the watcher that is
held now will be replaced.
-/

namespace SearchEngine.Watcher

open Lib

variable {Name : Type} [DecidableEq Name] {folders : Folders Name}

namespace MultiDirWatcher

/-- The notifications about a name that are still to be handled. -/
def upcoming (s : MultiDirWatcher folders) (kid : Name) : List (Notice Name) :=
  (s.batch ++ s.kept).filter fun notice => notice.name = kid

/-- No watcher is deaf: a watcher of an existing directory has one read pending on it or a
notification about it is still to come; lost events were followed by a walk; and with no
notification to come, an existing configured directory is watched. -/
structure NeverDeaf (s : MultiDirWatcher folders) : Prop where
  reads : ∀ kid ∈ folders.kids, ∀ w, s.inner kid = some w → ∀ inc, s.dirs.directory kid = some inc →
    w.Reads inc ∨ s.upcoming kid ≠ []
  rescanned : ∀ kid ∈ folders.kids, s.owed kid = false
  watched : ∀ kid ∈ folders.kids, ∀ inc, s.dirs.directory kid = some inc → s.upcoming kid = [] →
    ∃ w, s.inner kid = some w ∧ w.Reads inc

/-- Nothing is missed: configured directories come and go, under their configured spelling,
only while the parent is being read; the parent loses no notification about them; an
existing one can be opened; and a read of one ends without events only after the directory
it was opened on is gone. -/
def Heard (s : MultiDirWatcher folders) : WatchAction Name → Prop
  | .appears name => ∀ kid ∈ folders.kids, folders.fold kid = folders.fold name →
      s.parent = .armed ∧ kid = name
  | .disappears name => ∀ kid ∈ folders.kids, folders.fold kid = folders.fold name → s.parent = .armed
  | .readLost => False
  | .readFails => ∀ notice ∈ s.kept, notice.name ∉ folders.kids
  | .handle opens => ∀ notice ∈ s.batch.head?, notice.name ∈ folders.kids →
      (s.dirs.directory notice.name).isSome → opens = true
  | .complete _ .events => True
  | .complete _ .lost => False
  | .complete name .failed => ∀ w ∈ s.inner name, w.hDir ≠ s.dirs.directory name
  | .openParent _ | .beginRead | .readReturns _ => True

instance (s : MultiDirWatcher folders) (action : WatchAction Name) : Decidable (s.Heard action) :=
  match action with
  | .appears _ => inferInstanceAs (Decidable (∀ kid ∈ folders.kids, _))
  | .disappears _ => inferInstanceAs (Decidable (∀ kid ∈ folders.kids, _))
  | .readFails => inferInstanceAs (Decidable (∀ notice ∈ s.kept, _))
  | .handle _ => inferInstanceAs (Decidable (∀ notice ∈ s.batch.head?, _))
  | .complete name .failed => inferInstanceAs (Decidable (∀ w ∈ s.inner name, _))
  | .readLost | .complete _ .lost => isFalse id
  | .complete _ .events | .openParent _ | .beginRead | .readReturns _ => isTrue trivial

/-- Notifications about one name alternate, from whether it is held to whether it exists. -/
def Alternates : Bool → List (Notice Name) → Bool → Prop
  | held, [], there => held = there
  | held, .came _ :: rest, there => held = false ∧ Alternates true rest there
  | held, .gone _ :: rest, there => held = true ∧ Alternates false rest there

omit [DecidableEq Name] in
/-- A change of the directory adds its notification. -/
theorem Alternates.came {held : Bool} {notices : List (Notice Name)} (name : Name)
    (alternates : Alternates held notices false) : Alternates held (notices ++ [.came name]) true := by
  induction notices generalizing held with
  | nil => exact ⟨alternates, rfl⟩
  | cons notice rest ih =>
      cases notice with
      | came other => exact ⟨alternates.1, ih alternates.2⟩
      | gone other => exact ⟨alternates.1, ih alternates.2⟩

omit [DecidableEq Name] in
theorem Alternates.gone {held : Bool} {notices : List (Notice Name)} (name : Name)
    (alternates : Alternates held notices true) : Alternates held (notices ++ [.gone name]) false := by
  induction notices generalizing held with
  | nil => exact ⟨alternates, rfl⟩
  | cons notice rest ih =>
      cases notice with
      | came other => exact ⟨alternates.1, ih alternates.2⟩
      | gone other => exact ⟨alternates.1, ih alternates.2⟩

/-- What holds of a configured name between steps. -/
structure Follows (s : MultiDirWatcher folders) (kid : Name) : Prop where
  alternates : Alternates (s.inner kid).isSome (s.upcoming kid) (s.dirs.entry (folders.fold kid)).isSome
  settled : s.upcoming kid = [] → ∀ found, s.dirs.entry (folders.fold kid) = some found →
    ∃ w, s.inner kid = some w ∧ w.Reads found.2
  spelled : ∀ found, s.dirs.entry (folders.fold kid) = some found → found.1 = kid
  rescanned : s.owed kid = false

theorem neverDeaf_of_follows {s : MultiDirWatcher folders}
    (follows : ∀ kid ∈ folders.kids, s.Follows kid) : s.NeverDeaf := by
  have watched : ∀ kid ∈ folders.kids, ∀ inc, s.dirs.directory kid = some inc → s.upcoming kid = [] →
      ∃ w, s.inner kid = some w ∧ w.Reads inc := by
    intro kid member inc there quiet
    obtain ⟨found, here, rfl⟩ := Option.map_eq_some_iff.mp there
    exact (follows kid member).settled quiet found here
  refine ⟨fun kid member w held inc there => ?_, fun kid member => (follows kid member).rescanned, watched⟩
  by_cases quiet : s.upcoming kid = []
  · obtain ⟨other, same, reads⟩ := watched kid member inc there quiet
    rw [held] at same
    obtain rfl := Option.some.inj same
    exact .inl reads
  · exact .inr quiet

/-- A state that looks the same to a name. -/
theorem Follows.congr {s after : MultiDirWatcher folders} {kid : Name} (follows : s.Follows kid)
    (inner : after.inner kid = s.inner kid) (upcoming : after.upcoming kid = s.upcoming kid)
    (entry : after.dirs.entry (folders.fold kid) = s.dirs.entry (folders.fold kid))
    (owed : after.owed kid = s.owed kid) : after.Follows kid := by
  refine ⟨?_, ?_, ?_, ?_⟩
  · rw [inner, upcoming, entry]
    exact follows.alternates
  · rw [inner, upcoming, entry]
    exact follows.settled
  · rw [entry]
    exact follows.spelled
  · rw [owed]
    exact follows.rescanned

/-- A notification adds to what is to come about its own name. -/
theorem upcoming_notify (s : MultiDirWatcher folders) (notice : Notice Name) (kid : Name)
    (armed : notice.name = kid → s.parent = .armed) :
    (s.notify notice).upcoming kid =
      if notice.name = kid then s.upcoming kid ++ [notice] else s.upcoming kid := by
  unfold notify
  split
  · simp only [upcoming, List.filter_append, ← List.append_assoc]
    by_cases same : notice.name = kid <;> simp [same]
  · rename_i unarmed
    rw [if_neg fun same => unarmed (armed same)]

omit [DecidableEq Name] in
/-- A notification changes nothing else. -/
theorem notify_eq (s : MultiDirWatcher folders) (notice : Notice Name) :
    (s.notify notice).inner = s.inner ∧ (s.notify notice).dirs = s.dirs ∧
      (s.notify notice).owed = s.owed := by
  unfold notify
  split <;> exact ⟨rfl, rfl, rfl⟩

theorem Follows.appears {s after : MultiDirWatcher folders} {kid name : Name} (follows : s.Follows kid)
    (member : kid ∈ folders.kids) (heard : s.Heard (.appears name))
    (taken : s.step (.appears name) = some after) : after.Follows kid := by
  simp only [step] at taken
  split at taken
  · cases taken
  · rename_i vacant
    obtain rfl := Option.some.inj taken
    obtain ⟨inner, dirs, owed⟩ := notify_eq
      { s with dirs := s.dirs.add name s.nextDir, nextDir := s.nextDir + 1 } (.came name)
    have upcoming := upcoming_notify
      { s with dirs := s.dirs.add name s.nextDir, nextDir := s.nextDir + 1 } (.came name) kid
      fun same => (heard kid member (congrArg folders.fold same.symm)).1
    by_cases same : folders.fold kid = folders.fold name
    · obtain ⟨-, rfl⟩ := heard kid member same
      replace upcoming := upcoming.trans (if_pos rfl)
      have entry : (s.dirs.add kid s.nextDir).entry (folders.fold kid) = some (kid, s.nextDir) :=
        Function.update_self _ _ _
      have before := follows.alternates
      rw [vacant] at before
      refine ⟨?_, fun quiet => ?_, fun found here => ?_, ?_⟩
      · rw [inner, dirs, upcoming, entry]
        exact before.came kid
      · rw [upcoming] at quiet
        exact absurd quiet (by simp)
      · rw [dirs, entry] at here
        obtain rfl := Option.some.inj here
        rfl
      · rw [owed]
        exact follows.rescanned
    · have different : (Notice.came name).name ≠ kid := by
        rintro rfl
        exact same rfl
      rw [if_neg different] at upcoming
      refine follows.congr (by rw [inner]) upcoming ?_ (by rw [owed])
      rw [dirs]
      exact Function.update_of_ne same _ _

theorem Follows.disappears {s after : MultiDirWatcher folders} {kid name : Name}
    (follows : s.Follows kid) (member : kid ∈ folders.kids) (heard : s.Heard (.disappears name))
    (taken : s.step (.disappears name) = some after) : after.Follows kid := by
  simp only [step] at taken
  split at taken
  · cases taken
  · rename_i found here
    obtain rfl := Option.some.inj taken
    obtain ⟨inner, dirs, owed⟩ := notify_eq { s with dirs := s.dirs.remove name } (.gone found.1)
    have named : folders.fold found.1 = folders.fold name := s.dirs.named _ found here
    have upcoming := upcoming_notify { s with dirs := s.dirs.remove name } (.gone found.1) kid
      fun same => heard kid member ((congrArg folders.fold same.symm).trans named)
    by_cases same : folders.fold kid = folders.fold name
    · have spelled : found.1 = kid := follows.spelled found (by rw [same]; exact here)
      replace upcoming := upcoming.trans (if_pos spelled)
      have entry : (s.dirs.remove name).entry (folders.fold kid) = none := by
        rw [same]
        exact Function.update_self _ _ _
      have before := follows.alternates
      rw [same, here] at before
      refine ⟨?_, fun quiet => ?_, fun other there => ?_, ?_⟩
      · rw [inner, dirs, upcoming, entry]
        exact before.gone found.1
      · rw [upcoming] at quiet
        exact absurd quiet (by simp)
      · rw [dirs, entry] at there
        cases there
      · rw [owed]
        exact follows.rescanned
    · have different : (Notice.gone found.1).name ≠ kid := by
        intro equal
        have equalFold : folders.fold found.1 = folders.fold kid := congrArg folders.fold equal
        exact same (equalFold.symm.trans named)
      rw [if_neg different] at upcoming
      refine follows.congr (by rw [inner]) upcoming ?_ (by rw [owed])
      rw [dirs]
      exact Function.update_of_ne same _ _

/-- A read of the parent takes the oldest notifications. -/
theorem Follows.readReturns {s after : MultiDirWatcher folders} {kid : Name} {count : Nat}
    (follows : s.Follows kid) (taken : s.step (.readReturns count) = some after) :
    after.Follows kid := by
  simp only [step] at taken
  split at taken
  · rename_i ready
    obtain rfl := Option.some.inj taken
    refine follows.congr rfl ?_ rfl rfl
    simp only [upcoming, ready.2.1, List.take_append_drop, List.nil_append]
  · cases taken

/-- A read that fails loses the notifications that were kept. -/
theorem Follows.readFails {s after : MultiDirWatcher folders} {kid : Name} (follows : s.Follows kid)
    (member : kid ∈ folders.kids) (heard : s.Heard .readFails)
    (taken : s.step .readFails = some after) : after.Follows kid := by
  simp only [step] at taken
  split at taken
  · rename_i ready
    obtain rfl := Option.some.inj taken
    have quiet : s.upcoming kid = [] := by
      simp only [upcoming, ready.2, List.nil_append, List.filter_eq_nil_iff, decide_eq_true_eq]
      rintro notice kept rfl
      exact heard notice kept member
    refine follows.congr rfl ?_ rfl rfl
    rw [quiet]
    simp only [upcoming, ready.2, List.append_nil, List.filter_nil]
  · cases taken

/-- Going through a record leaves the others and the directories. -/
theorem handleNotice_eq (s : MultiDirWatcher folders) (opens : Bool) (notice : Notice Name) :
    (s.handleNotice opens notice).dirs = s.dirs ∧
      ∀ kid, (s.handleNotice opens notice).upcoming kid = s.upcoming kid := by
  cases notice with
  | came name =>
      simp only [handleNotice]
      split <;> exact ⟨rfl, fun _ => rfl⟩
  | gone name =>
      simp only [handleNotice]
      split <;> exact ⟨rfl, fun _ => rfl⟩

/-- A record about another name does not touch the watcher of a name. -/
theorem handleNotice_other (s : MultiDirWatcher folders) (opens : Bool) {notice : Notice Name}
    {kid : Name} (other : notice.name ≠ kid) :
    (s.handleNotice opens notice).inner kid = s.inner kid ∧
      (s.handleNotice opens notice).owed kid = s.owed kid := by
  cases notice with
  | came name =>
      have apart : kid ≠ name := fun same => other same.symm
      simp only [handleNotice]
      split
      · refine ⟨Function.update_of_ne apart _ _, ?_⟩
        dsimp only
        split
        · exact Function.update_of_ne apart _ _
        · rfl
      · exact ⟨rfl, rfl⟩
  | gone name =>
      have apart : kid ≠ name := fun same => other same.symm
      simp only [handleNotice]
      split
      · exact ⟨Function.update_of_ne apart _ _, rfl⟩
      · exact ⟨rfl, rfl⟩

/-- The directory of an appearance that is handled last gets a reading watcher. -/
theorem Follows.handleCame {s : MultiDirWatcher folders} {kid : Name} {opens : Bool}
    {later : List (Notice Name)} (member : kid ∈ folders.kids)
    (opened : (s.dirs.directory kid).isSome → opens = true) (owed : s.owed kid = false)
    (spelled : ∀ found, s.dirs.entry (folders.fold kid) = some found → found.1 = kid)
    (upcoming : s.upcoming kid = later)
    (alternates : Alternates (s.inner kid).isSome (.came kid :: later)
      (s.dirs.entry (folders.fold kid)).isSome) :
    (s.handleNotice opens (.came kid)).Follows kid := by
  obtain ⟨none, rest⟩ := alternates
  have free : kid ∈ folders.kids ∧ (s.inner kid).isNone := ⟨member, by simpa using none⟩
  obtain ⟨dirs, same⟩ := handleNotice_eq s opens (.came kid)
  have inner : (s.handleNotice opens (.came kid)).inner kid =
      some ((FileWatcher.create (s.dirs.directory kid) true).start (s.dirs.directory kid) opens).1 := by
    simp only [handleNotice, if_pos free]
    exact Function.update_self _ _ _
  refine ⟨?_, fun quiet found here => ⟨_, inner, ?_⟩, ?_, ?_⟩
  · rw [inner, same, dirs, upcoming]
    exact rest
  · rw [dirs] at here
    have there : s.dirs.directory kid = some found.2 := by simp [Directories.directory, here]
    rw [there, opened (by simp [there])]
    exact FileWatcher.reads_start found.2 true
  · rw [dirs]
    exact spelled
  · simp only [handleNotice, if_pos free]
    split
    · exact Function.update_self _ _ _
    · exact owed

/-- After a removal no watcher is held. -/
theorem Follows.handleGone {s : MultiDirWatcher folders} {kid : Name} {opens : Bool}
    {later : List (Notice Name)} (member : kid ∈ folders.kids) (owed : s.owed kid = false)
    (spelled : ∀ found, s.dirs.entry (folders.fold kid) = some found → found.1 = kid)
    (upcoming : s.upcoming kid = later)
    (alternates : Alternates (s.inner kid).isSome (.gone kid :: later)
      (s.dirs.entry (folders.fold kid)).isSome) :
    (s.handleNotice opens (.gone kid)).Follows kid := by
  obtain ⟨-, rest⟩ := alternates
  obtain ⟨dirs, same⟩ := handleNotice_eq s opens (.gone kid)
  have inner : (s.handleNotice opens (.gone kid)).inner kid = none := by
    simp only [handleNotice, if_pos member]
    exact Function.update_self _ _ _
  refine ⟨?_, fun quiet found here => ?_, ?_, ?_⟩
  · rw [inner, same, dirs, upcoming]
    exact rest
  · rw [same, upcoming] at quiet
    rw [dirs] at here
    rw [quiet, here] at rest
    cases rest
  · rw [dirs]
    exact spelled
  · simp only [handleNotice, if_pos member]
    exact owed

theorem Follows.handle {s after : MultiDirWatcher folders} {kid : Name} {opens : Bool}
    (follows : s.Follows kid) (member : kid ∈ folders.kids) (heard : s.Heard (.handle opens))
    (taken : s.step (.handle opens) = some after) : after.Follows kid := by
  simp only [step] at taken
  split at taken
  · cases taken
  · rename_i notice rest first
    obtain rfl := Option.some.inj taken
    have alternates := follows.alternates
    have upcoming : s.upcoming kid =
        [notice].filter (fun notice => notice.name = kid) ++ { s with batch := rest }.upcoming kid := by
      simp only [MultiDirWatcher.upcoming, first, ← List.filter_append]
      rfl
    by_cases about : notice.name = kid
    · have opened : (s.dirs.directory kid).isSome → opens = true := by
        subst about
        exact heard notice (by simp [first]) member
      rw [upcoming, List.filter_cons_of_pos (by simpa using about), List.filter_nil] at alternates
      cases notice with
      | came name =>
          obtain rfl : name = kid := about
          exact handleCame member opened follows.rescanned follows.spelled rfl alternates
      | gone name =>
          obtain rfl : name = kid := about
          exact handleGone member follows.rescanned follows.spelled rfl alternates
    · obtain ⟨dirs, same⟩ := handleNotice_eq { s with batch := rest } opens notice
      obtain ⟨inner, owed⟩ := handleNotice_other { s with batch := rest } opens about
      rw [List.filter_cons_of_neg (by simpa using about), List.filter_nil, List.nil_append] at upcoming
      exact follows.congr inner ((same kid).trans upcoming.symm) (by rw [dirs]) owed

/-- A completion that keeps a reading watcher reading. -/
theorem Follows.complete {s after : MultiDirWatcher folders} {kid name : Name} {completion : Completion}
    (follows : s.Follows kid) (heard : s.Heard (.complete name completion))
    (taken : s.step (.complete name completion) = some after) : after.Follows kid := by
  have notLost : completion ≠ .lost := by
    rintro rfl
    exact heard
  simp only [step, if_neg notLost] at taken
  split at taken
  · cases taken
  · rename_i w held
    split at taken
    · cases taken
    · obtain rfl := Option.some.inj taken
      by_cases same : kid = name
      · subst same
        refine ⟨?_, fun quiet found here => ?_, follows.spelled, follows.rescanned⟩
        · have before := follows.alternates
          rw [held] at before
          dsimp only
          rw [Function.update_self]
          exact before
        · obtain ⟨other, equal, reads⟩ := follows.settled quiet found here
          rw [held] at equal
          obtain rfl := Option.some.inj equal
          refine ⟨_, Function.update_self _ _ _, ?_⟩
          cases completion with
          | events => exact reads.complete_events
          | lost => exact absurd rfl notLost
          | failed =>
              have there : s.dirs.directory kid = some found.2 :=
                Option.map_eq_some_iff.mpr ⟨found, here, rfl⟩
              exact absurd (reads.2.1.trans there.symm) (heard w held)
      · exact follows.congr (Function.update_of_ne same _ _) rfl rfl rfl

theorem Follows.step {s after : MultiDirWatcher folders} {kid : Name} {action : WatchAction Name}
    (follows : s.Follows kid) (member : kid ∈ folders.kids) (heard : s.Heard action)
    (taken : s.step action = some after) : after.Follows kid := by
  cases action with
  | appears name => exact follows.appears member heard taken
  | disappears name => exact follows.disappears member heard taken
  | openParent opens =>
      simp only [MultiDirWatcher.step] at taken
      split at taken
      · obtain rfl := Option.some.inj taken
        exact follows.congr rfl rfl rfl rfl
      · cases taken
  | beginRead =>
      simp only [MultiDirWatcher.step] at taken
      split at taken
      · obtain rfl := Option.some.inj taken
        exact follows.congr rfl rfl rfl rfl
      · cases taken
  | readReturns count => exact follows.readReturns taken
  | readLost => exact heard.elim
  | readFails => exact follows.readFails member heard taken
  | handle opens => exact follows.handle member heard taken
  | complete name completion => exact follows.complete heard taken

/-- The directories a watcher is created for at the start carry their configured spelling and
can be opened. -/
def Openable (dirs : Directories folders) (opens : Name → Bool) : Prop :=
  ∀ kid ∈ folders.kids, ∀ found ∈ dirs.entry (folders.fold kid), found.1 = kid ∧ opens kid = true

theorem follows_start {dirs : Directories folders} {opens : Name → Bool} (openable : Openable dirs opens)
    (nextDir : Nat) {kid : Name} (member : kid ∈ folders.kids) :
    (start dirs nextDir opens).Follows kid := by
  cases entry : dirs.entry (folders.fold kid) with
  | none =>
      have away : dirs.directory kid = none := by simp [Directories.directory, entry]
      have inner : (start dirs nextDir opens).inner kid = none := by
        simp [start, away, FileWatcher.start, FileWatcher.openDir, FileWatcher.create]
      refine ⟨?_, fun _ found here => ?_, fun found here => ?_, rfl⟩
      · rw [inner]
        exact congrArg Option.isSome entry.symm
      · exact absurd (entry.symm.trans here) (by simp)
      · exact absurd (entry.symm.trans here) (by simp)
  | some found =>
      obtain ⟨spelled, opened⟩ := openable kid member found entry
      have there : dirs.directory kid = some found.2 := by simp [Directories.directory, entry]
      have inner : (start dirs nextDir opens).inner kid =
          some ((FileWatcher.create (some found.2) false).start (some found.2) true).1 := by
        simp [start, there, opened, member, FileWatcher.start, FileWatcher.openDir, FileWatcher.create]
      refine ⟨?_, fun _ other here => ⟨_, inner, ?_⟩, fun other here => ?_, rfl⟩
      · rw [inner]
        exact congrArg Option.isSome entry.symm
      · obtain rfl : found = other := Option.some.inj (entry.symm.trans here)
        exact FileWatcher.reads_start found.2 false
      · obtain rfl : found = other := Option.some.inj (entry.symm.trans here)
        exact spelled

/-- As long as nothing is missed, no watcher goes deaf. -/
theorem neverDeaf_of_heard {dirs : Directories folders} {opens : Name → Bool}
    (openable : Openable dirs opens) (nextDir : Nat) {actions : List (WatchAction Name)}
    (conforms : (machine folders).Conforms Heard (start dirs nextDir opens) actions) :
    (machine folders).Throughout NeverDeaf (start dirs nextDir opens) actions := by
  have initial : ∀ kid ∈ folders.kids, (start dirs nextDir opens).Follows kid :=
    fun kid member => follows_start openable nextDir member
  refine Machine.throughout_of_conforms (fun s => neverDeaf_of_follows (s := s)) ?_ initial conforms
  intro s action after follows heard taken kid member
  exact (follows kid member).step member heard taken

/-! ## Runs -/

/-- One configured directory. -/
def reports : Folders Nat := ⟨[7], id⟩

/-- It exists. -/
def present : Directories reports where
  entry key := if key = 7 then some (7, 0) else none
  named := by
    intro key found here
    split at here
    · rename_i same
      obtain rfl := Option.some.inj here
      exact same.symm
    · cases here

/-- The directory is removed while the parent is read, comes back, and is opened again. -/
def removedAndBack : List (WatchAction Nat) :=
  [.openParent true, .beginRead, .disappears 7, .complete 7 .failed, .readReturns 1, .handle true,
    .appears 7, .readReturns 1, .handle true, .complete 7 .events]

/-- A directory that goes away and comes back is watched again. -/
theorem neverDeaf_removedAndBack :
    ((machine reports).run (start present 1 fun _ => true) removedAndBack).isSome ∧
      (machine reports).Throughout NeverDeaf (start present 1 fun _ => true) removedAndBack := by
  refine ⟨by decide +kernel, neverDeaf_of_heard (fun kid member found here => ?_) 1 (by decide +kernel)⟩
  obtain rfl : kid = 7 := by simpa [reports] using member
  obtain rfl : (7, 0) = found := Option.some.inj here
  exact ⟨rfl, rfl⟩

/-- The zero-byte completion ends the reading of an existing directory, without a walk. -/
theorem not_neverDeaf_lost :
    ¬ (machine reports).Throughout NeverDeaf (start present 1 fun _ => true) [.complete 7 .lost] := by
  intro throughout
  have taken : ((machine reports).step (start present 1 fun _ => true) (.complete 7 .lost)).map
      (fun s => s.owed 7) = some true := by decide +kernel
  obtain ⟨after, stepped, lost⟩ := Option.map_eq_some_iff.mp taken
  have neverDeaf : after.NeverDeaf := (throughout.2 after stepped).here
  rw [neverDeaf.rescanned 7 (by decide)] at lost
  cases lost

end MultiDirWatcher

end SearchEngine.Watcher
