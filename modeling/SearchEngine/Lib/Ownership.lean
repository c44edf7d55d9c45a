import SearchEngine.Lib.Invocations

/-!
# Agents that own parts of a heap

Any number of agents work on one heap. Each keeps a local state and calls one
method after another; a method is a coroutine, and the calls of different agents
interleave in any order. `Trades` says what a call may do: it changes cells that
its agent owns and takes cells that nobody has. A method that only makes such calls
(`Keeps`) works as if it were alone, and what it gives away at its end is never
touched again: `owned_of_run` reads the whole run as a log of such gifts.
-/

namespace SearchEngine.Lib

/-- A heap, or a part of one. -/
abbrev Heap (Place Cell : Type) := Place → Option Cell

namespace Heap

variable {Place Cell : Type}

/-- The cells of the part are there. -/
def Within (part whole : Heap Place Cell) : Prop := ∀ place cell, part place = some cell → whole place = some cell

/-- No place has a cell in both parts. -/
def Apart (left right : Heap Place Cell) : Prop := ∀ place, left place = none ∨ right place = none

theorem Apart.symm {left right : Heap Place Cell} (apart : left.Apart right) : right.Apart left :=
  fun place => (apart place).symm

theorem Within.trans {part middle whole : Heap Place Cell} (inner : part.Within middle) (outer : middle.Within whole) :
    part.Within whole := fun place cell found => outer place cell (inner place cell found)

/-- Both parts together; where both have a cell it is the left one. -/
def join (left right : Heap Place Cell) : Heap Place Cell := fun place => (left place).or (right place)

def single [DecidableEq Place] (place : Place) (cell : Cell) : Heap Place Cell :=
  fun other => if other = place then some cell else none

/-- The whole changes as the part does: a cell that is gained was free, and what
belongs to others stays. -/
structure Trades (part part' whole whole' : Heap Place Cell) : Prop where
  gained : ∀ place, part place = none → part' place ≠ none → whole place = none
  held : part'.Within whole'
  lost : ∀ place, part place ≠ none → part' place = none → whole' place = none
  others : ∀ place, part place = none → part' place = none → whole' place = whole place

/-- Nothing changes. -/
theorem Trades.same {part whole : Heap Place Cell} (within : part.Within whole) : Trades part part whole whole where
  gained _ free taken := absurd free taken
  held := within
  lost _ taken free := absurd free taken
  others _ _ _ := rfl

/-- One trade after another. -/
theorem Trades.trans {part middle part' whole between whole' : Heap Place Cell}
    (first : Trades part middle whole between) (second : Trades middle part' between whole') :
    Trades part part' whole whole' where
  gained place free taken := by
    cases here : middle place with
    | none => exact (first.others place free here).symm.trans (second.gained place here taken)
    | some cell => exact first.gained place free (by rw [here]; exact Option.some_ne_none cell)
  held := second.held
  lost place taken free := by
    cases here : middle place with
    | none => exact (second.others place here free).trans (first.lost place taken here)
    | some cell => exact second.lost place (by rw [here]; exact Option.some_ne_none cell) free
  others place before after := by
    cases here : middle place with
    | none => exact (second.others place here after).trans (first.others place before here)
    | some cell =>
        have taken : middle place ≠ none := by rw [here]; exact Option.some_ne_none cell
        rw [first.gained place before taken, second.lost place taken after]

/-- A cell that the part owns, or that nobody has, is set. -/
theorem Trades.update [DecidableEq Place] {part whole : Heap Place Cell} {place : Place} (within : part.Within whole)
    (mine : part place ≠ none ∨ whole place = none) (cell : Option Cell) :
    Trades part (Function.update part place cell) whole (Function.update whole place cell) where
  gained other free taken := by
    by_cases same : other = place
    · subst same
      exact mine.resolve_left (fun owned => owned free)
    · rw [Function.update_of_ne same] at taken
      exact absurd free taken
  held other value found := by
    by_cases same : other = place
    · subst same
      rw [Function.update_self] at found ⊢
      exact found
    · rw [Function.update_of_ne same] at found ⊢
      exact within other value found
  lost other taken free := by
    by_cases same : other = place
    · subst same
      rw [Function.update_self] at free ⊢
      exact free
    · rw [Function.update_of_ne same] at free
      exact absurd free taken
  others other free after := by
    by_cases same : other = place
    · subst same
      rw [Function.update_self] at after ⊢
      exact after.trans (mine.resolve_left fun owned => owned free).symm
    · rw [Function.update_of_ne same]

/-- A part that is apart from the one that changes stays as it was. -/
theorem Trades.keeps {part part' whole whole' other : Heap Place Cell} (trades : Trades part part' whole whole')
    (apart : part.Apart other) (within : other.Within whole) : part'.Apart other ∧ other.Within whole' := by
  have free : ∀ place cell, other place = some cell → part place = none := by
    intro place cell found
    rcases apart place with none' | none'
    · exact none'
    · rw [none'] at found
      cases found
  have still : ∀ place cell, other place = some cell → part' place = none := by
    intro place cell found
    by_contra taken
    have absent := trades.gained place (free place cell found) taken
    rw [within place cell found] at absent
    cases absent
  constructor
  · intro place
    cases found : other place with
    | none => exact .inr rfl
    | some cell => exact .inl (still place cell found)
  · intro place cell found
    rw [trades.others place (free place cell found) (still place cell found)]
    exact within place cell found

/-- What is in the whole afterwards is in the part or was there and belonged to others. -/
theorem Trades.found {part part' whole whole' : Heap Place Cell} (trades : Trades part part' whole whole')
    {place : Place} {cell : Cell} (present : whole' place = some cell) :
    part' place = some cell ∨ part place = none ∧ whole place = some cell := by
  cases after : part' place with
  | some held => exact .inl ((trades.held place held after).symm.trans present)
  | none =>
      right
      cases before : part place with
      | some lost =>
          have absent := trades.lost place (by rw [before]; exact Option.some_ne_none _) after
          rw [absent] at present
          cases present
      | none => exact ⟨rfl, (trades.others place before after).symm.trans present⟩

end Heap

/-! ## Methods -/

/-- The state of a run: the world with the heap in it, the local state of each agent, what
each one runs, and the methods that ended, the latest first. -/
structure Agents (Agent Method Call : Type) (Answer : Call → Type) (Result Local World : Type) where
  world : World
  localState : Agent → Local
  running : Agent → Option (Method × Coroutine Call Answer Empty (Result × Local))
  history : List (Agent × Method × Result)

/-- A step of a run. -/
inductive Turn (Agent Method Choice : Type) where
  | start (agent : Agent) (method : Method)
  | proceed (agent : Agent) (choice : Choice)

namespace Agents

variable {Agent Method Call : Type} {Answer : Call → Type} {Result Local World Choice Place Cell : Type}

section Machine

variable [DecidableEq Agent]

def initial (world : World) (localState : Local) : Agents Agent Method Call Answer Result Local World :=
  ⟨world, fun _ => localState, fun _ => none, []⟩

/-- One step: an idle agent starts a method, a running one makes its next call or ends its
method. -/
def step (handler : Handler Call Answer World Choice)
    (program : Method → Local → Coroutine Call Answer Empty (Result × Local))
    (s : Agents Agent Method Call Answer Result Local World) :
    Turn Agent Method Choice → Option (Agents Agent Method Call Answer Result Local World)
  | .start agent method =>
      match s.running agent with
      | none => some { s with
          running := Function.update s.running agent (some (method, program method (s.localState agent))) }
      | some _ => none
  | .proceed agent choice =>
      match s.running agent with
      | none => none
      | some (method, .done (result, after)) => some { s with
          localState := Function.update s.localState agent after
          running := Function.update s.running agent none
          history := (agent, method, result) :: s.history }
      | some (_, .raise thrown) => thrown.elim
      | some (method, .suspend call resume) =>
          let answer := handler.respond s.world call choice
          some { s with
            world := handler.next s.world call answer
            running := Function.update s.running agent (some (method, resume answer)) }

def machine (handler : Handler Call Answer World Choice)
    (program : Method → Local → Coroutine Call Answer Empty (Result × Local)) :
    Machine (Agents Agent Method Call Answer Result Local World) (Turn Agent Method Choice) where
  step := step handler program

/-- What the agent's calls may be answered with. -/
def Permits (permitted : Call → Choice → Prop) (s : Agents Agent Method Call Answer Result Local World) :
    Turn Agent Method Choice → Prop
  | .start _ _ => True
  | .proceed agent choice =>
      match s.running agent with
      | some (_, .suspend call _) => permitted call choice
      | _ => True

instance (permitted : Call → Choice → Prop) [∀ call choice, Decidable (permitted call choice)]
    (s : Agents Agent Method Call Answer Result Local World) (turn : Turn Agent Method Choice) :
    Decidable (Permits permitted s turn) :=
  match turn with
  | .start _ _ => isTrue trivial
  | .proceed agent choice =>
      match running : s.running agent with
      | some (_, .suspend call _) => decidable_of_iff (permitted call choice) (by simp [Permits, running])
      | some (_, .done _) => isTrue (by simp [Permits, running])
      | some (_, .raise thrown) => thrown.elim
      | none => isTrue (by simp [Permits, running])

/-- The methods that an agent ended, the latest first. -/
def past (history : List (Agent × Method × Result)) (agent : Agent) : List (Method × Result) :=
  history.filterMap fun event => if event.1 = agent then some event.2 else none

end Machine

section Rules

variable (handler : Handler Call Answer World Choice) (heap : World → Heap Place Cell)
  (permitted : Call → Choice → Prop)

/-- Alone with its part of the heap, the coroutine makes only calls that trade that part, and
ends with a part that satisfies the postcondition. -/
def Keeps {Ended : Type} (post : Ended → Heap Place Cell → Prop) :
    Coroutine Call Answer Empty Ended → Heap Place Cell → Prop
  | .done ended, part => post ended part
  | .raise _, _ => True
  | .suspend call resume, part => ∀ world choice, part.Within (heap world) → permitted call choice →
      ∃ part', Heap.Trades part part' (heap world) (heap (handler.next world call (handler.respond world call choice))) ∧
        Keeps post (resume (handler.respond world call choice)) part'

variable {handler heap permitted} {Ended Next : Type}

theorem Keeps.mono {strong weak : Ended → Heap Place Cell → Prop}
    {program : Coroutine Call Answer Empty Ended} {part : Heap Place Cell}
    (keeps : Keeps handler heap permitted strong program part)
    (weaker : ∀ ended part, strong ended part → weak ended part) :
    Keeps handler heap permitted weak program part := by
  induction program generalizing part with
  | done ended => exact weaker ended part keeps
  | raise thrown => exact thrown.elim
  | suspend call resume ih =>
      intro world choice within allowed
      obtain ⟨part', trades, rest⟩ := keeps world choice within allowed
      exact ⟨part', trades, ih _ rest⟩

/-- Sequential composition. -/
theorem Keeps.bind {middle : Ended → Heap Place Cell → Prop} {post : Next → Heap Place Cell → Prop}
    {program : Coroutine Call Answer Empty Ended} {next : Ended → Coroutine Call Answer Empty Next}
    {part : Heap Place Cell} (first : Keeps handler heap permitted middle program part)
    (second : ∀ ended part, middle ended part → Keeps handler heap permitted post (next ended) part) :
    Keeps handler heap permitted post (program >>= next) part := by
  induction program generalizing part with
  | done ended => exact second ended part first
  | raise thrown => exact thrown.elim
  | suspend call resume ih =>
      intro world choice within allowed
      obtain ⟨part', trades, rest⟩ := first world choice within allowed
      exact ⟨part', trades, ih _ rest⟩

/-- A call, in terms of what may be answered. -/
theorem Keeps.call {made : Call} {next : Answer made → Coroutine Call Answer Empty Next}
    {post : Next → Heap Place Cell → Prop} {part : Heap Place Cell}
    (answered : ∀ world choice, part.Within (heap world) → permitted made choice →
      ∃ part', Heap.Trades part part' (heap world)
          (heap (handler.next world made (handler.respond world made choice))) ∧
        Keeps handler heap permitted post (next (handler.respond world made choice)) part') :
    Keeps handler heap permitted post (Coroutine.call made >>= next) part := answered

/-- A call that leaves the heap alone. -/
theorem Keeps.ask {made : Call} {next : Answer made → Coroutine Call Answer Empty Next}
    {post : Next → Heap Place Cell → Prop} {part : Heap Place Cell}
    (harmless : ∀ world answer, heap (handler.next world made answer) = heap world)
    (answered : ∀ world choice, permitted made choice →
      Keeps handler heap permitted post (next (handler.respond world made choice)) part) :
    Keeps handler heap permitted post (Coroutine.call made >>= next) part := by
  intro world choice within allowed
  exact ⟨part, (harmless world _).symm ▸ Heap.Trades.same within, answered world choice allowed⟩

end Rules

section Runs

variable [DecidableEq Agent]

/-- The run as a log: each method that ended gave a part to the public, where nothing was
before. -/
inductive Log (gives : List (Method × Result) → Method → Result → Heap Place Cell → Prop)
    (start : Heap Place Cell) : List (Agent × Method × Result) → Heap Place Cell → Prop
  | begin : Log gives start [] start
  | ended {history : List (Agent × Method × Result)} {published given : Heap Place Cell} {agent : Agent}
      {method : Method} {result : Result} (before : Log gives start history published)
      (gift : gives (past history agent) method result given) (apart : published.Apart given) :
      Log gives start ((agent, method, result) :: history) (published.join given)

/-- What a method owes at its end: a part that its agent keeps, and one that it gives away. -/
def Handover (idle : List (Method × Result) → Local → Heap Place Cell → Prop)
    (gives : List (Method × Result) → Method → Result → Heap Place Cell → Prop)
    (history : List (Method × Result)) (method : Method) (ended : Result × Local) (part : Heap Place Cell) : Prop :=
  ∃ kept given, part = kept.join given ∧ kept.Apart given ∧
    idle ((method, ended.1) :: history) ended.2 kept ∧ gives history method ended.1 given

/-- The heap is divided among the public and the agents, and each agent has the part that its
local state or its method needs. -/
structure Owned (handler : Handler Call Answer World Choice) (heap : World → Heap Place Cell)
    (permitted : Call → Choice → Prop) (idle : List (Method × Result) → Local → Heap Place Cell → Prop)
    (gives : List (Method × Result) → Method → Result → Heap Place Cell → Prop) (start : Heap Place Cell)
    (s : Agents Agent Method Call Answer Result Local World) (published : Heap Place Cell)
    (parts : Agent → Heap Place Cell) : Prop where
  log : Log gives start s.history published
  visible : published.Within (heap s.world)
  within : ∀ agent, (parts agent).Within (heap s.world)
  apart : ∀ agent, published.Apart (parts agent)
  disjoint : ∀ agent other, agent ≠ other → (parts agent).Apart (parts other)
  covered : ∀ place cell, heap s.world place = some cell →
    published place = some cell ∨ ∃ agent, parts agent place = some cell
  resting : ∀ agent, s.running agent = none → idle (past s.history agent) (s.localState agent) (parts agent)
  busy : ∀ agent method rest, s.running agent = some (method, rest) →
    Keeps handler heap permitted (Handover idle gives (past s.history agent) method) rest (parts agent)

variable {handler : Handler Call Answer World Choice} {heap : World → Heap Place Cell}
  {permitted : Call → Choice → Prop} {idle : List (Method × Result) → Local → Heap Place Cell → Prop}
  {gives : List (Method × Result) → Method → Result → Heap Place Cell → Prop} {start : Heap Place Cell}
  {program : Method → Local → Coroutine Call Answer Empty (Result × Local)}
  {s : Agents Agent Method Call Answer Result Local World} {published : Heap Place Cell}
  {parts : Agent → Heap Place Cell}

/-- Nothing that was public is lost. -/
theorem Log.within {history : List (Agent × Method × Result)} (log : Log gives start history published) :
    start.Within published := by
  induction log with
  | begin => exact fun _ _ found => found
  | ended before gift apart ih =>
      intro place cell found
      simp [Heap.join, ih place cell found]

theorem past_cons_self (history : List (Agent × Method × Result)) (agent : Agent) (method : Method) (result : Result) :
    past ((agent, method, result) :: history) agent = (method, result) :: past history agent := by
  simp [past]

theorem past_cons_of_ne (history : List (Agent × Method × Result)) {agent other : Agent} (differ : agent ≠ other)
    (method : Method) (result : Result) : past ((agent, method, result) :: history) other = past history other := by
  simp [past, differ]

/-- A start moves no cell. -/
theorem Owned.started (owned : Owned handler heap permitted idle gives start s published parts)
    (methods : ∀ history local' part method, idle history local' part →
      Keeps handler heap permitted (Handover idle gives history method) (program method local') part)
    {agent : Agent} {method : Method} (free : s.running agent = none) :
    Owned handler heap permitted idle gives start
      { s with running := Function.update s.running agent (some (method, program method (s.localState agent))) }
      published parts where
  log := owned.log
  visible := owned.visible
  within := owned.within
  apart := owned.apart
  disjoint := owned.disjoint
  covered := owned.covered
  resting other none' := by
    by_cases same : other = agent
    · subst same
      simp at none'
    · exact owned.resting other (by simpa [Function.update_of_ne same] using none')
  busy other method' rest running := by
    by_cases same : other = agent
    · subst same
      simp only [Function.update_self, Option.some.injEq, Prod.mk.injEq] at running
      obtain ⟨rfl, rfl⟩ := running
      exact methods _ _ _ _ (owned.resting other free)
    · exact owned.busy other method' rest (by simpa [Function.update_of_ne same] using running)

/-- A call trades cells of its agent; everybody else's stay. -/
theorem Owned.called (owned : Owned handler heap permitted idle gives start s published parts) {agent : Agent}
    {method : Method} {call : Call} {resume : Answer call → Coroutine Call Answer Empty (Result × Local)}
    (running : s.running agent = some (method, .suspend call resume)) {choice : Choice}
    (allowed : permitted call choice) :
    ∃ parts', Owned handler heap permitted idle gives start
      { s with
        world := handler.next s.world call (handler.respond s.world call choice)
        running := Function.update s.running agent (some (method, resume (handler.respond s.world call choice))) }
      published parts' := by
  obtain ⟨part', trades, rest⟩ := owned.busy agent method _ running s.world choice (owned.within agent) allowed
  have others : ∀ other, other ≠ agent → part'.Apart (parts other) ∧ (parts other).Within
      (heap (handler.next s.world call (handler.respond s.world call choice))) := fun other differ =>
    trades.keeps (owned.disjoint agent other (Ne.symm differ)) (owned.within other)
  have seen := trades.keeps (owned.apart agent).symm owned.visible
  refine ⟨Function.update parts agent part', ?_⟩
  constructor
  case log => exact owned.log
  case visible => exact seen.2
  case within =>
    intro other
    by_cases same : other = agent
    · subst same
      simpa using trades.held
    · simpa [Function.update_of_ne same] using (others other same).2
  case apart =>
    intro other
    by_cases same : other = agent
    · subst same
      simpa using seen.1.symm
    · simpa [Function.update_of_ne same] using owned.apart other
  case disjoint =>
    intro left right differ
    by_cases first : left = agent
    · subst first
      simpa [Function.update_of_ne (Ne.symm differ)] using (others right (Ne.symm differ)).1
    · by_cases second : right = agent
      · subst second
        simpa [Function.update_of_ne first] using (others left first).1.symm
      · simpa [Function.update_of_ne first, Function.update_of_ne second] using owned.disjoint left right differ
  case covered =>
    intro place cell found
    rcases trades.found found with own | ⟨free, before⟩
    · exact .inr ⟨agent, by simpa using own⟩
    · rcases owned.covered place cell before with public' | ⟨other, theirs⟩
      · exact .inl public'
      · right
        refine ⟨other, ?_⟩
        have differ : other ≠ agent := by
          rintro rfl
          rw [free] at theirs
          cases theirs
        simpa [Function.update_of_ne differ] using theirs
  case resting =>
    intro other none'
    by_cases same : other = agent
    · subst same
      simp at none'
    · simpa [Function.update_of_ne same] using
        owned.resting other (by simpa [Function.update_of_ne same] using none')
  case busy =>
    intro other method' rest' running'
    by_cases same : other = agent
    · subst same
      simp only [Function.update_self, Option.some.injEq, Prod.mk.injEq] at running'
      obtain ⟨rfl, rfl⟩ := running'
      simpa using rest
    · simpa [Function.update_of_ne same] using
        owned.busy other method' rest' (by simpa [Function.update_of_ne same] using running')

/-- A method that ends hands its gift to the public and keeps the rest. -/
theorem Owned.ended (owned : Owned handler heap permitted idle gives start s published parts) {agent : Agent}
    {method : Method} {result : Result} {after : Local}
    (running : s.running agent = some (method, .done (result, after))) :
    ∃ published' parts', Owned handler heap permitted idle gives start
      { s with
        localState := Function.update s.localState agent after
        running := Function.update s.running agent none
        history := (agent, method, result) :: s.history }
      published' parts' := by
  obtain ⟨kept, given, whole, split, rests, gift⟩ := owned.busy agent method _ running
  have keptWithin : kept.Within (parts agent) := by
    intro place cell found
    simp [whole, Heap.join, found]
  have givenWithin : given.Within (parts agent) := by
    intro place cell found
    rcases split place with none' | none'
    · simp [whole, Heap.join, none', found]
    · rw [none'] at found
      cases found
  have freeOf : ∀ {part other : Heap Place Cell}, part.Within (parts agent) → other.Apart (parts agent) →
      other.Apart part := by
    intro part other inside apart place
    cases found : part place with
    | none => exact .inr rfl
    | some cell =>
        rcases apart place with none' | none'
        · exact .inl none'
        · rw [inside place cell found] at none'
          cases none'
  have others : ∀ other, other ≠ agent → (parts other).Apart (parts agent) := fun other differ =>
    owned.disjoint other agent differ
  refine ⟨published.join given, Function.update parts agent kept, ?_⟩
  constructor
  case log => exact .ended owned.log gift (freeOf givenWithin (owned.apart agent))
  case visible =>
    intro place cell found
    cases before : published place with
    | some held =>
        rw [Heap.join, before] at found
        exact found ▸ owned.visible place held before
    | none =>
        rw [Heap.join, before] at found
        exact owned.within agent place cell (givenWithin place cell found)
  case within =>
    intro other
    by_cases same : other = agent
    · subst same
      simpa using keptWithin.trans (owned.within other)
    · simpa [Function.update_of_ne same] using owned.within other
  case apart =>
    intro other place
    by_cases same : other = agent
    · subst same
      rcases freeOf keptWithin (owned.apart other) place with none' | none'
      · rcases split place with kept' | given'
        · exact .inr (by simpa using kept')
        · exact .inl (by simp [Heap.join, none', given'])
      · exact .inr (by simpa using none')
    · rcases owned.apart other place with none' | none'
      · rcases freeOf givenWithin (others other same) place with theirs | given'
        · exact .inr (by simpa [Function.update_of_ne same] using theirs)
        · exact .inl (by simp [Heap.join, none', given'])
      · exact .inr (by simpa [Function.update_of_ne same] using none')
  case disjoint =>
    intro left right differ
    by_cases first : left = agent
    · subst first
      simpa [Function.update_of_ne (Ne.symm differ)] using
        (freeOf keptWithin (others right (Ne.symm differ))).symm
    · by_cases second : right = agent
      · subst second
        simpa [Function.update_of_ne first] using freeOf keptWithin (others left first)
      · simpa [Function.update_of_ne first, Function.update_of_ne second] using owned.disjoint left right differ
  case covered =>
    intro place cell found
    rcases owned.covered place cell found with public' | ⟨other, theirs⟩
    · exact .inl (by simp [Heap.join, public'])
    · by_cases same : other = agent
      · subst same
        rw [whole] at theirs
        cases own : kept place with
        | some held =>
            rw [Heap.join, own] at theirs
            exact .inr ⟨other, by simpa [own] using theirs⟩
        | none =>
            rw [Heap.join, own] at theirs
            rcases freeOf givenWithin (owned.apart other) place with none' | none'
            · exact .inl (by simpa [Heap.join, none'] using theirs)
            · rw [none'] at theirs
              cases theirs
      · exact .inr ⟨other, by simpa [Function.update_of_ne same] using theirs⟩
  case resting =>
    intro other none'
    by_cases same : other = agent
    · subst same
      simpa [past_cons_self] using rests
    · simpa [Function.update_of_ne same, past_cons_of_ne _ (Ne.symm same)] using
        owned.resting other (by simpa [Function.update_of_ne same] using none')
  case busy =>
    intro other method' rest' running'
    by_cases same : other = agent
    · subst same
      simp at running'
    · simpa [Function.update_of_ne same, past_cons_of_ne _ (Ne.symm same)] using
        owned.busy other method' rest' (by simpa [Function.update_of_ne same] using running')

/-- One step keeps the division. -/
theorem Owned.step (methods : ∀ history local' part method, idle history local' part →
      Keeps handler heap permitted (Handover idle gives history method) (program method local') part)
    (owned : Owned handler heap permitted idle gives start s published parts) {turn : Turn Agent Method Choice}
    (allowed : Permits permitted s turn) {next : Agents Agent Method Call Answer Result Local World}
    (stepped : Agents.step handler program s turn = some next) :
    ∃ published' parts', Owned handler heap permitted idle gives start next published' parts' := by
  cases turn with
  | start agent method =>
      cases free : s.running agent with
      | none =>
          simp only [Agents.step, free, Option.some.injEq] at stepped
          exact ⟨_, _, stepped ▸ owned.started methods free⟩
      | some busy => simp [Agents.step, free] at stepped
  | proceed agent choice =>
      cases running : s.running agent with
      | none => simp [Agents.step, running] at stepped
      | some method =>
          obtain ⟨method, rest⟩ := method
          cases rest with
          | done ended =>
              simp only [Agents.step, running, Option.some.injEq] at stepped
              exact stepped ▸ owned.ended running
          | raise thrown => exact thrown.elim
          | suspend call resume =>
              simp only [Agents.step, running, Option.some.injEq] at stepped
              have answered : permitted call choice := by simpa [Permits, running] using allowed
              obtain ⟨parts', called⟩ := owned.called running answered
              exact ⟨published, parts', stepped ▸ called⟩

/-- Every interleaving divides the heap among the public, whose log only grows, and the
agents. -/
theorem owned_of_run (methods : ∀ history local' part method, idle history local' part →
      Keeps handler heap permitted (Handover idle gives history method) (program method local') part)
    {world : World} {localState : Local} (begins : idle [] localState (fun _ => none))
    {turns : List (Turn Agent Method Choice)}
    (conforms : (machine handler program).Conforms (Permits permitted) (initial world localState) turns)
    (done : (machine handler program).run (initial world localState) turns = some s) :
    ∃ published parts, Owned handler heap permitted idle gives (heap world) s published parts := by
  have kept : ∀ (before : Agents Agent Method Call Answer Result Local World) turn next,
      (∃ published parts, Owned handler heap permitted idle gives (heap world) before published parts) →
      Permits permitted before turn → (machine handler program).step before turn = some next →
      ∃ published parts, Owned handler heap permitted idle gives (heap world) next published parts := by
    rintro before turn next ⟨published, parts, owned⟩ allowed stepped
    exact owned.step methods allowed stepped
  have first : Owned handler heap permitted idle gives (heap world)
      (initial world localState : Agents Agent Method Call Answer Result Local World) (heap world)
      (fun _ _ => none) := by
    constructor
    case log => exact .begin
    case visible => exact fun _ _ found => found
    case within => exact fun _ _ _ found => by cases found
    case apart => exact fun _ _ => .inr rfl
    case disjoint => exact fun _ _ _ _ => .inr rfl
    case covered => exact fun _ _ found => .inl found
    case resting => exact fun _ _ => begins
    case busy => exact fun _ _ _ running => by cases running
  exact Machine.invariant_run kept ⟨_, _, first⟩ conforms done

end Runs

end Agents

end SearchEngine.Lib
