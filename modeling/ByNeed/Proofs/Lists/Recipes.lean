import ByNeed.Proofs.Safety.Veil

/-!
# Lists that are put together

A recipe says what a list is put together from: a list that is there, a cell or a joined list in
front of a recipe, or all lists of a list.  Suspended thunks stand for recipes and are read as these
are, which changes no thunk but those that were made for it.
-/

namespace ByNeed

open Attempt

/-- What a list is put together from. -/
inductive Recipe where
  | list (thunk : Thunk)
  | cell (head : Thunk) (rest : Recipe)
  | join (first : Thunk) (others : Recipe)
  | flatten (lists : Thunk)

/-- How a list begins. -/
inductive Front where
  | broken (failure : Error)
  | closed
  | cell (head : Thunk) (rest : Recipe)

/-- Some cells of a list, and whether it is closed or broken behind them. -/
inductive Stretch where
  | unread
  | broken (failure : Error)
  | closed
  | cell (head : Thunk) (rest : Stretch)

namespace Recipe

/-- The list that is forced first. -/
def source? : Recipe → Option Thunk
  | .list thunk => some thunk
  | .cell .. => none
  | .join first _ => some first
  | .flatten lists => some lists

/-- What forcing this list leads to: the front is found, or it is that of another recipe. -/
def step : Recipe → Except Error LazyList → Front ⊕ Recipe
  | _, .error failure => .inl (.broken failure)
  | .list _, .ok .empty => .inl .closed
  | .list _, .ok (.cons head tail) => .inl (.cell head (.list tail))
  | .cell head rest, .ok _ => .inl (.cell head rest)
  | .join _ others, .ok .empty => .inr others
  | .join _ others, .ok (.cons head tail) => .inl (.cell head (.join tail others))
  | .flatten _, .ok .empty => .inl .closed
  | .flatten _, .ok (.cons first lists) => .inr (.join first (.flatten lists))

/-- A thread finds out how a list begins. -/
inductive Opens (self : Nat) : Recipe → Store → Front → Store → Prop
  | here (head : Thunk) (rest : Recipe) (store : Store) :
      Opens self (.cell head rest) store (.cell head rest) store
  | found {recipe : Recipe} {list : Thunk} {outcome : Except Error LazyList} {front : Front}
      {store after : Store}
      (source : recipe.source? = some list)
      (ends : (forceList list).run.Ends self store (.ok outcome) after)
      (step : recipe.step outcome = .inl front) :
      Opens self recipe store front after
  | onward {recipe next : Recipe} {list : Thunk} {outcome : Except Error LazyList} {front : Front}
      {store between after : Store}
      (source : recipe.source? = some list)
      (ends : (forceList list).run.Ends self store (.ok outcome) between)
      (step : recipe.step outcome = .inr next)
      (opens : Opens self next between front after) :
      Opens self recipe store front after

/-- A thread reads so many cells of a list, unless it is closed or broken before. -/
inductive Reads (self : Nat) : Recipe → Nat → Store → Stretch → Store → Prop
  | unread (recipe : Recipe) (store : Store) : Reads self recipe 0 store .unread store
  | broken {recipe : Recipe} {count : Nat} {failure : Error} {store after : Store}
      (opens : Opens self recipe store (.broken failure) after) :
      Reads self recipe (count + 1) store (.broken failure) after
  | closed {recipe : Recipe} {count : Nat} {store after : Store}
      (opens : Opens self recipe store .closed after) :
      Reads self recipe (count + 1) store .closed after
  | cell {recipe rest : Recipe} {count : Nat} {head : Thunk} {stretch : Stretch}
      {store between after : Store}
      (opens : Opens self recipe store (.cell head rest) between)
      (reads : Reads self rest count between stretch after) :
      Reads self recipe (count + 1) store (.cell head stretch) after

end Recipe

variable {self count : Nat} {store between after later : Store} {thunk list : Thunk}
  {pending : List Thunk} {recipe : Recipe} {front : Front} {stretch : Stretch}
  {outcome : Except Error LazyList} {value : Value}

theorem run_forceList (list : Thunk) :
    (forceList list).run = .evaluate list fun value => .done value.purely.toList := by
  refine congrArg (Code.evaluate list) (funext fun value => ?_)
  change Attempt.ofExcept value.purely.toList = _
  cases value.purely.toList <;> rfl

theorem Thunk.Evaluates.forceList_ends (evaluates : list.Evaluates self store value after) :
    (forceList list).run.Ends self store (.ok value.purely.toList) after := by
  rw [run_forceList]
  exact Code.ends_iff_runs.mpr (.evaluate evaluates (.done _ after))

theorem Recipe.Opens.of_list (opens : (Recipe.list list).Opens self store front after) :
    ∃ outcome, (forceList list).run.Ends self store (.ok outcome) after ∧
      (Recipe.list list).step outcome = .inl front := by
  cases opens with
  | found source ends step =>
    cases source
    exact ⟨_, ends, step⟩
  | @onward _ _ _ outcome _ _ _ _ _ _ step _ =>
    rcases outcome with _ | _ | _ <;> cases step

namespace Store

/-! ## What is memoised -/

/-- A list has been forced, with this outcome. -/
def Reveals (store : Store) (list : Thunk) (outcome : Except Error LazyList) : Prop :=
  ∃ value, store.slot? list = some (.evaluated value) ∧ value.purely.toList = outcome

/-- It is known how a list begins. -/
inductive Fronts (store : Store) : Recipe → Front → Prop
  | here (head : Thunk) (rest : Recipe) : Fronts store (.cell head rest) (.cell head rest)
  | found {recipe : Recipe} {list : Thunk} {outcome : Except Error LazyList} {front : Front}
      (source : recipe.source? = some list)
      (reveals : store.Reveals list outcome)
      (step : recipe.step outcome = .inl front) :
      Fronts store recipe front
  | onward {recipe next : Recipe} {list : Thunk} {outcome : Except Error LazyList} {front : Front}
      (source : recipe.source? = some list)
      (reveals : store.Reveals list outcome)
      (step : recipe.step outcome = .inr next)
      (fronts : Fronts store next front) :
      Fronts store recipe front

/-- So many cells of a list are known. -/
inductive Shows (store : Store) : Recipe → Nat → Stretch → Prop
  | unread (recipe : Recipe) : Shows store recipe 0 .unread
  | broken {recipe : Recipe} {count : Nat} {failure : Error}
      (fronts : store.Fronts recipe (.broken failure)) :
      Shows store recipe (count + 1) (.broken failure)
  | closed {recipe : Recipe} {count : Nat} (fronts : store.Fronts recipe .closed) :
      Shows store recipe (count + 1) .closed
  | cell {recipe rest : Recipe} {count : Nat} {head : Thunk} {stretch : Stretch}
      (fronts : store.Fronts recipe (.cell head rest))
      (shows : Shows store rest count stretch) :
      Shows store recipe (count + 1) (.cell head stretch)

theorem Reveals.mono (reveals : store.Reveals list outcome) (evaluated : store.Remembers later) :
    later.Reveals list outcome := by
  obtain ⟨value, held, same⟩ := reveals
  exact ⟨value, evaluated list value held, same⟩

theorem Reveals.ends (reveals : store.Reveals list outcome) :
    (forceList list).run.Ends self store (.ok outcome) store := by
  obtain ⟨value, held, rfl⟩ := reveals
  exact (Thunk.Evaluates.memoized (slot_eq_of_slot? held)).forceList_ends

/-- Cells of a recipe are those of the recipe that forcing its first list leads to. -/
theorem Shows.onward (shows : store.Shows next (count + 1) stretch)
    (source : recipe.source? = some list) (reveals : store.Reveals list outcome)
    (step : recipe.step outcome = .inr next) : store.Shows recipe (count + 1) stretch := by
  cases shows with
  | broken fronts => exact .broken (.onward source reveals step fronts)
  | closed fronts => exact .closed (.onward source reveals step fronts)
  | cell fronts shows => exact .cell (.onward source reveals step fronts) shows

/-! ## Thunks that are pending -/

/-- A thunk is suspended. -/
def IsSuspended (store : Store) (thunk : Thunk) : Prop :=
  ∃ computation, store.slot? thunk = some (.suspended computation)

/-- A later store has the values of an earlier one, and pending thunks are as they were. -/
structure Extends (pending : List Thunk) (earlier later : Store) : Prop where
  evaluated : ∀ thunk value, earlier.slot? thunk = some (.evaluated value) →
    later.slot? thunk = some (.evaluated value)
  spares : ∀ thunk ∈ pending, later.slot? thunk = earlier.slot? thunk

namespace Extends

theorem trans (left : store.Extends pending between) (right : between.Extends pending after) :
    store.Extends pending after where
  evaluated thunk value held := right.evaluated thunk value (left.evaluated thunk value held)
  spares thunk mem := by rw [right.spares thunk mem, left.spares thunk mem]

theorem of_grows (grows : store.Grows later)
    (suspended : ∀ thunk ∈ pending, store.IsSuspended thunk) : store.Extends pending later where
  evaluated thunk value held := grows.keeps thunk _ held
  spares thunk mem := by
    obtain ⟨computation, held⟩ := suspended thunk mem
    rw [held, grows.keeps thunk _ held]

/-- Claiming a thunk or publishing its value concerns no other thunk. -/
theorem of_setSlot (unevaluated : ∀ value, store.slot? thunk ≠ some (.evaluated value))
    (apart : thunk ∉ pending) (slot : Slot) : store.Extends pending (store.setSlot thunk slot) where
  evaluated other value held := by
    have ne : other ≠ thunk := fun same => unevaluated value (same ▸ held)
    rw [slot?_setSlot_of_ne store ne, held]
  spares other mem := by
    have ne : other ≠ thunk := fun same => apart (same ▸ mem)
    exact slot?_setSlot_of_ne store ne slot

end Extends

/-- A thunk stands for a recipe, by way of thunks that are pending. -/
inductive Builds (store : Store) : Recipe → Thunk → List Thunk → Prop
  | list (list : Thunk) : Builds store (.list list) list []
  | cell {head thunk tail : Thunk} {rest : Recipe} {pending : List Thunk}
      (held : store.slot? thunk = some (.evaluated (.list (.cons head tail))))
      (builds : Builds store rest tail pending) :
      Builds store (.cell head rest) thunk pending
  | join {first thunk tail : Thunk} {others : Recipe} {pending : List Thunk}
      (suspended : store.slot? thunk = some (.suspended (.append first tail)))
      (apart : thunk ∉ pending)
      (builds : Builds store others tail pending) :
      Builds store (.join first others) thunk (thunk :: pending)
  | flatten {lists thunk : Thunk}
      (suspended : store.slot? thunk = some (.suspended (.concatenate lists))) :
      Builds store (.flatten lists) thunk [thunk]

/-- The outcome of forcing a list is its front, and a tail stands for the rest. -/
def Presents (store : Store) (outcome : Except Error LazyList) (pending : List Thunk) :
    Front → Prop
  | .broken failure => outcome = .error failure ∧ pending = []
  | .closed => outcome = .ok .empty ∧ pending = []
  | .cell head rest => ∃ tail, outcome = .ok (.cons head tail) ∧ store.Builds rest tail pending

/-- A thunk stands for what a step has led to. -/
def Gives (store : Store) (thunk : Thunk) (pending : List Thunk) : Front ⊕ Recipe → Prop
  | .inl front => ∃ value, store.slot? thunk = some (.evaluated value) ∧
      store.Presents value.purely.toList pending front
  | .inr recipe => store.Builds recipe thunk pending

section

variable (builds : store.Builds recipe thunk pending)

include builds

theorem Builds.isSuspended : ∀ thunk ∈ pending, store.IsSuspended thunk := by
  induction builds with
  | list => exact fun _ mem => absurd mem List.not_mem_nil
  | cell _ _ ih => exact ih
  | join suspended _ _ ih => exact List.forall_mem_cons.mpr ⟨⟨_, suspended⟩, ih⟩
  | flatten suspended => exact List.forall_mem_singleton.mpr ⟨_, suspended⟩

theorem Builds.mono (extended : store.Extends pending later) :
    later.Builds recipe thunk pending := by
  induction builds with
  | list list => exact .list list
  | cell held _ ih => exact .cell (extended.evaluated _ _ held) (ih extended)
  | join suspended apart _ ih =>
    have others := fun thunk mem => extended.spares thunk (List.mem_cons_of_mem _ mem)
    exact .join ((extended.spares _ List.mem_cons_self).trans suspended) apart
      (ih ⟨extended.evaluated, others⟩)
  | flatten suspended =>
    exact .flatten ((extended.spares _ List.mem_cons_self).trans suspended)

theorem Builds.of_grows (grows : store.Grows later) : later.Builds recipe thunk pending :=
  builds.mono (.of_grows grows builds.isSuspended)

end

theorem Presents.publish (presents : store.Presents outcome pending front)
    (marked : store.slot? thunk = some (.evaluating self)) (value : Value) :
    (store.publish thunk value).Presents outcome pending front := by
  cases front with
  | cell head rest =>
    obtain ⟨tail, isCons, builds⟩ := presents
    have apart : thunk ∉ pending := by
      intro mem
      obtain ⟨computation, held⟩ := builds.isSuspended thunk mem
      rw [marked] at held
      cases held
    exact ⟨tail, isCons, builds.mono (.of_setSlot (by simp [marked]) apart _)⟩
  | _ => exact presents

/-- A thunk that was just made joins a list to a recipe. -/
theorem Builds.allocate_join (builds : store.Builds recipe tail pending) (first : Thunk) :
    let (joined, after) := store.allocate (.suspended (.append first tail))
    after.Builds (.join first recipe) joined (joined :: pending) := by
  have absent := store.not_holds_allocated (.suspended (.append first tail))
  refine .join (store.slot?_allocated _) ?_ (builds.of_grows (store.grows_allocate _ (by simp)))
  intro mem
  obtain ⟨computation, held⟩ := builds.isSuspended _ mem
  exact absent ⟨_, held⟩

theorem builds_allocate_flatten (store : Store) (lists : Thunk) :
    let (flat, after) := store.allocate (.suspended (.concatenate lists))
    after.Builds (.flatten lists) flat [flat] :=
  .flatten (store.slot?_allocated _)

theorem not_holds_allocated_twice (store : Store) (unclaimed : ¬first.IsEvaluating)
    (second : Slot) : ¬store.Holds ((store.allocate first).2.allocate second).1 := by
  rintro ⟨slot, held⟩
  exact (store.allocate first).2.not_holds_allocated second
    ⟨slot, (store.grows_allocate first unclaimed).keeps _ slot held⟩

end Store

/-! ## Taking a step -/

theorem returning_runs (returns : attempt.Returns self store thunk after) :
    (returning attempt).Runs self store (.ok thunk) after :=
  (returns_iff_runs.mp returns).bind rfl (.done thunk after)

namespace Store

/-- A computation forces a list and then makes thunks until it has one that stands for what a
step has led to.  Others that are pending were so before, or are new. -/
structure Resumes (number : Nat) (computation : Suspension) (list : Thunk)
    (outcome : Except Error LazyList) (store : Store) (pending : List Thunk)
    (result : Front ⊕ Recipe) (next : Thunk) (others : List Thunk) (after : Store) : Prop where
  runs : ∀ claimed, (forceList list).run.Ends number claimed (.ok outcome) store →
    computation.resume.Runs number claimed (.ok next) after
  adds : store.Adds after
  gives : after.Gives next others result
  pending : ∀ other ∈ others, other ∈ pending ∨ ¬store.Holds other

theorem resumes_broken {following : LazyList → Attempt Thunk}
    (resume_eq : computation.resume = returning (forceList list >>= following)) (failure : Error) :
    let (next, after) := store.allocate (.evaluated (.error failure))
    Resumes self computation list (.error failure) store pending (.inl (.broken failure)) next []
      after where
  runs claimed fails := by
    rw [resume_eq]
    have ends := Code.ends_iff_runs.mp (Attempt.Fails.bind fails following)
    exact ends.bind rfl (.act rfl (.done _ _))
  adds := .make .refl _ (by simp)
  gives := ⟨_, store.slot?_allocated _, rfl, rfl⟩
  pending _ mem := absurd mem List.not_mem_nil

theorem Builds.exists_resumes_append (builds : store.Builds recipe tail pending) (self : Nat)
    (first : Thunk) (outcome : Except Error LazyList) :
    ∃ next others after, Resumes self (.append first tail) first outcome store pending
      ((Recipe.join first recipe).step outcome) next others after := by
  rcases outcome with failure | _ | ⟨head, rest⟩
  · exact ⟨_, _, _, resumes_broken rfl failure⟩
  · refine ⟨tail, pending, store, fun claimed returns => ?_, .refl, builds, fun _ => .inl⟩
    exact returning_runs (Attempt.Returns.bind returns (returns_pure tail store))
  · let joined := store.allocate (.suspended (.append rest tail))
    let cell := joined.2.allocate (.evaluated (.list (.cons head joined.1)))
    have grows : joined.2.Grows cell.2 := joined.2.grows_allocate _ (by simp)
    refine ⟨cell.1, joined.1 :: pending, cell.2, fun claimed returns => ?_,
      .make (.make .refl (.suspended (.append rest tail)) (by simp)) _ (by simp),
      ⟨_, joined.2.slot?_allocated _, joined.1, rfl, (builds.allocate_join rest).of_grows grows⟩,
      List.forall_mem_cons.mpr ⟨.inr (store.not_holds_allocated _), fun _ => .inl⟩⟩
    refine returning_runs (Attempt.Returns.bind returns ?_)
    exact (returns_perform rfl).bind (returns_perform rfl)

/-- What a pending concatenation comes to. -/
theorem exists_resumes_concatenate (store : Store) (self : Nat) (lists : Thunk)
    (outcome : Except Error LazyList) :
    ∃ next others after, Resumes self (.concatenate lists) lists outcome store []
      ((Recipe.flatten lists).step outcome) next others after := by
  rcases outcome with failure | _ | ⟨first, rest⟩
  · exact ⟨_, _, _, resumes_broken rfl failure⟩
  · refine ⟨_, [], _, fun claimed returns => ?_, .make .refl (.evaluated (.list .empty)) (by simp),
      ⟨_, store.slot?_allocated _, rfl, rfl⟩, fun _ => .inl⟩
    exact returning_runs (Attempt.Returns.bind returns (returns_perform rfl))
  · let others := store.allocate (.suspended (.concatenate rest))
    let joined := others.2.allocate (.suspended (.append first others.1))
    refine ⟨joined.1, [joined.1, others.1], joined.2, fun claimed returns => ?_,
      .make (.make .refl (.suspended (.concatenate rest)) (by simp)) _ (by simp),
      (store.builds_allocate_flatten rest).allocate_join first, ?_⟩
    · refine returning_runs (Attempt.Returns.bind returns ?_)
      exact (returns_perform rfl).bind (returns_perform rfl)
    · refine List.forall_mem_cons.mpr ⟨.inr (store.not_holds_allocated_twice (by simp) _), ?_⟩
      exact List.forall_mem_singleton.mpr (.inr (store.not_holds_allocated _))

theorem Builds.exists_resumes (builds : store.Builds recipe thunk pending) (own : thunk ∈ pending)
    (self : Nat) :
    ∃ list computation following, recipe.source? = some list ∧ store.slot? thunk = some (.suspended
      computation) ∧ computation.site = none ∧ computation.resume = returning (forceList list >>=
      following) ∧ thunk ∉ pending.tail ∧ ∀ later outcome, store.Extends pending.tail later →
        ∃ next others after, Resumes self computation list outcome later pending.tail
          (recipe.step outcome) next others after := by
  cases builds with
  | list => cases own
  | cell held builds =>
    obtain ⟨computation, suspended⟩ := builds.isSuspended thunk own
    rw [held] at suspended
    cases suspended
  | join suspended apart builds =>
    exact ⟨_, _, _, rfl, suspended, rfl, rfl, apart, fun later outcome extended =>
      (builds.mono extended).exists_resumes_append self _ outcome⟩
  | flatten suspended =>
    exact ⟨_, _, _, rfl, suspended, rfl, rfl, List.not_mem_nil, fun later outcome _ =>
      later.exists_resumes_concatenate self _ outcome⟩

theorem Builds.own_or_list (builds : store.Builds recipe thunk pending)
    (source : recipe.source? = some list) :
    thunk ∈ pending ∨ recipe = .list thunk ∧ list = thunk := by
  cases builds with
  | list =>
    cases source
    exact .inr ⟨rfl, rfl⟩
  | cell => cases source
  | _ => exact .inl List.mem_cons_self

/-! ## Reading a thunk that stands for a recipe -/

/-- A thunk may be changed without concern to a store: it is one of some, or it is new. -/
def Free (origin : Store) (own : List Thunk) (thunk : Thunk) : Prop :=
  thunk ∈ own ∨ ¬origin.Holds thunk

/-- A later store has all thunks of an earlier one, but for some, as they were. -/
def Leaves (own : List Thunk) (earlier later : Store) : Prop :=
  ∀ thunk slot, thunk ∉ own → earlier.slot? thunk = some slot → later.slot? thunk = some slot

variable {origin : Store} {own : List Thunk}

section

variable (leaves : origin.Leaves own store)

include leaves

theorem Leaves.of_grows (grows : store.Grows later) : origin.Leaves own later :=
  fun thunk slot notOwn held => grows.keeps thunk slot (leaves thunk slot notOwn held)

theorem Leaves.setSlot (free : origin.Free own thunk)
    (slot : Slot) : origin.Leaves own (store.setSlot thunk slot) := by
  intro other former notOwn held
  have ne : other ≠ thunk := by
    rintro rfl
    exact free.elim notOwn fun absent => absent ⟨former, held⟩
  rw [slot?_setSlot_of_ne store ne]
  exact leaves other former notOwn held

theorem Leaves.free_of_not_holds (absent : ¬store.Holds thunk) : origin.Free own thunk :=
  or_iff_not_imp_left.mpr fun notOwn ⟨slot, held⟩ => absent ⟨slot, leaves thunk slot notOwn held⟩

end

/-- Evaluating a thunk leaves a store alone and gives a front. -/
def Yields (self : Nat) (origin : Store) (own : List Thunk) (store : Store) (thunk : Thunk)
    (front : Front) : Prop :=
  ∃ value after others, thunk.Evaluates self store value after ∧ origin.Leaves own after ∧
    after.Presents value.purely.toList others front ∧ ∀ other ∈ others, origin.Free own other

theorem Builds.yields (builds : store.Builds recipe thunk pending) (isOwn : thunk ∈ pending)
    (source : recipe.source? = some list) (reveals : store.Reveals list outcome)
    (leaves : origin.Leaves own store) (free : ∀ other ∈ pending, origin.Free own other)
    (follow : ∀ {between next others}, origin.Leaves own between →
      between.Gives next others (recipe.step outcome) → (∀ other ∈ others, origin.Free own other) →
        Yields self origin own between next front) : Yields self origin own store thunk front := by
  obtain ⟨list, computation, -, isSource, suspended, site_eq, -, apart, resumes⟩ :=
    builds.exists_resumes isOwn self
  obtain rfl := Option.some.inj (source.symm.trans isSource)
  have isSuspended := slot_eq_of_slot? suspended
  let claimed := store.setSlot thunk (.evaluating self)
  have extended : store.Extends pending.tail claimed := .of_setSlot (by simp [suspended]) apart _
  have leavesClaimed : origin.Leaves own claimed := leaves.setSlot (free thunk isOwn) _
  obtain ⟨next, others, between, resumed⟩ := resumes claimed outcome extended
  have runs := resumed.runs claimed (reveals.mono extended.evaluated).ends
  have othersFree : ∀ other ∈ others, origin.Free own other := fun other mem =>
    (resumed.pending other mem).elim (fun former => free other (List.mem_of_mem_tail former))
      leavesClaimed.free_of_not_holds
  obtain ⟨value, after, further, evaluates, leavesAfter, presents, furtherFree⟩ :=
    follow (leavesClaimed.of_grows resumed.adds.grows) resumed.gives othersFree
  have marked := (runs.keeps.trans evaluates.keeps).claimed isSuspended
  have published := Thunk.Evaluates.computed isSuspended runs evaluates
  rw [site_eq, Value.through_none] at published
  exact ⟨value, _, further, published, leavesAfter.setSlot (free thunk isOwn) _,
    presents.publish marked value, furtherFree⟩

theorem presents_list (step : (Recipe.list thunk).step outcome = .inl front) :
    store.Presents outcome [] front := by
  rcases outcome with failure | _ | ⟨head, tail⟩ <;> cases step
  · exact ⟨rfl, rfl⟩
  · exact ⟨rfl, rfl⟩
  · exact ⟨tail, rfl, .list tail⟩

theorem Fronts.yields (fronts : origin.Fronts recipe front)
    (suspended : ∀ thunk ∈ own, origin.IsSuspended thunk) (leaves : origin.Leaves own store)
    (builds : store.Builds recipe thunk pending) (free : ∀ other ∈ pending, origin.Free own other) :
    Yields self origin own store thunk front := by
  have evaluated : ∀ {store}, origin.Leaves own store → origin.Remembers store := by
    intro store leaves thunk value held
    refine leaves thunk _ (fun mem => ?_) held
    obtain ⟨computation, isHeld⟩ := suspended thunk mem
    rw [held] at isHeld
    cases isHeld
  induction fronts generalizing store thunk pending with
  | here head rest =>
    cases builds with
    | cell held builds =>
      exact ⟨_, store, pending, .memoized (slot_eq_of_slot? held), leaves, ⟨_, rfl, builds⟩, free⟩
  | found source known step =>
    rcases builds.own_or_list source with isOwn | ⟨rfl, rfl⟩
    · refine builds.yields isOwn source (known.mono (evaluated leaves)) leaves free ?_
      intro between next others leavesToo gives othersFree
      rw [step] at gives
      obtain ⟨value, held, presents⟩ := gives
      exact ⟨value, between, others, .memoized (slot_eq_of_slot? held), leavesToo, presents,
        othersFree⟩
    · obtain ⟨value, held, rfl⟩ := known.mono (evaluated leaves)
      exact ⟨value, store, [], .memoized (slot_eq_of_slot? held), leaves, presents_list step,
        fun _ mem => absurd mem List.not_mem_nil⟩
  | @onward recipe next list outcome front source known step _ ih =>
    rcases builds.own_or_list source with isOwn | ⟨rfl, rfl⟩
    · refine builds.yields isOwn source (known.mono (evaluated leaves)) leaves free ?_
      intro between next others leavesToo gives othersFree
      rw [step] at gives
      exact ih leavesToo gives othersFree
    · rcases outcome with failure | _ | ⟨head, tail⟩ <;> cases step

/-- Reading such a thunk gives the cells of its recipe that are known. -/
theorem Shows.exists_reads (shows : origin.Shows recipe count stretch)
    (suspended : ∀ thunk ∈ own, origin.IsSuspended thunk) (leaves : origin.Leaves own store)
    (builds : store.Builds recipe thunk pending) (free : ∀ other ∈ pending, origin.Free own other) :
    ∃ after, (Recipe.list thunk).Reads self count store stretch after ∧
      origin.Leaves own after := by
  induction shows generalizing store thunk pending with
  | unread recipe => exact ⟨store, .unread _ store, leaves⟩
  | broken fronts =>
    obtain ⟨value, after, -, evaluates, leavesAfter, ⟨isError, -⟩, -⟩ :=
      fronts.yields suspended leaves builds free
    exact ⟨after, .broken (.found rfl (isError ▸ evaluates.forceList_ends) rfl), leavesAfter⟩
  | closed fronts =>
    obtain ⟨value, after, -, evaluates, leavesAfter, ⟨isEmpty, -⟩, -⟩ :=
      fronts.yields suspended leaves builds free
    exact ⟨after, .closed (.found rfl (isEmpty ▸ evaluates.forceList_ends) rfl), leavesAfter⟩
  | cell fronts _ ih =>
    obtain ⟨value, between, others, evaluates, leavesToo, ⟨tail, isCons, restBuilds⟩,
      othersFree⟩ := fronts.yields suspended leaves builds free
    obtain ⟨after, reads, leavesAfter⟩ := ih leavesToo restBuilds othersFree
    exact ⟨after, .cell (.found rfl (isCons ▸ evaluates.forceList_ends) rfl) reads, leavesAfter⟩

end Store
end ByNeed
