import ByNeed.Proofs.Binding.Rest

/-!
# Lists one after the other

A joined list has the very elements of its first list and goes on as the second; the lists of a list
follow each other in the same way.  Each cell that is read forces one cell of the list it comes
from.
-/

namespace ByNeed

open Attempt

/-- What is left of a list is broken or has not been read. -/
def Stretch.IsOpen : Stretch → Prop
  | .closed => False
  | .cell _ rest => rest.IsOpen
  | _ => True

variable {self count : Nat} {list thunk : Thunk} {recipe : Recipe} {front : Front}
  {stretch : Stretch} {elements : List Thunk}

namespace Store

variable {store : Store}

/-! ## Spines in a row -/

theorem Fronts.of_list (fronts : store.Fronts (.list list) front) :
    ∃ outcome, store.Reveals list outcome ∧ (Recipe.list list).step outcome = .inl front := by
  cases fronts with
  | found source reveals step =>
    cases source
    exact ⟨_, reveals, step⟩
  | @onward _ _ _ outcome _ _ _ step _ => rcases outcome with _ | _ | _ <;> cases step

/-- As far as a list is not closed, the joined list has its cells. -/
theorem Shows.join (shows : store.Shows (.list list) count stretch) (isOpen : stretch.IsOpen)
    (recipe : Recipe) : store.Shows (.join list recipe) count stretch := by
  induction stretch generalizing list count with
  | unread =>
    cases shows
    exact .unread _
  | closed => exact isOpen.elim
  | broken failure =>
    cases shows with
    | broken fronts =>
      obtain ⟨_ | _ | _, reveals, step⟩ := fronts.of_list <;> cases step
      exact .broken (.found rfl reveals rfl)
  | cell head rest ih =>
    cases shows with
    | cell fronts shows =>
      obtain ⟨_ | _ | _, reveals, step⟩ := fronts.of_list <;> cases step
      exact .cell (.found rfl reveals rfl) (ih shows isOpen)

/-- So many cells of the lists of a list are known, in order. -/
inductive Strings (store : Store) : Thunk → Nat → Stretch → Prop
  | unread (lists : Thunk) : Strings store lists 0 .unread
  | broken {lists : Thunk} {failure : Error} (reveals : store.Reveals lists (.error failure))
      (count : Nat) : Strings store lists (count + 1) (.broken failure)
  | closed {lists : Thunk} (reveals : store.Reveals lists (.ok .empty)) (count : Nat) :
      Strings store lists (count + 1) .closed
  | within {lists first rest : Thunk} {count : Nat} {stretch : Stretch}
      (reveals : store.Reveals lists (.ok (.cons first rest)))
      (shows : store.Shows (.list first) (count + 1) stretch) (isOpen : stretch.IsOpen) :
      Strings store lists (count + 1) stretch
  | beyond {lists first rest : Thunk} {elements : List Thunk} {count : Nat} {stretch : Stretch}
      (reveals : store.Reveals lists (.ok (.cons first rest))) (spine : store.Spine first elements)
      (strings : Strings store rest (count + 1) stretch) :
      Strings store lists (count + elements.length + 1) (elements.foldr .cell stretch)

theorem Strings.shows {lists : Thunk} (strings : store.Strings lists count stretch) :
    store.Shows (.flatten lists) count stretch := by
  induction strings with
  | unread lists => exact .unread _
  | broken reveals => exact .broken (.found rfl reveals rfl)
  | closed reveals => exact .closed (.found rfl reveals rfl)
  | within reveals shows isOpen => exact (shows.join isOpen _).onward rfl reveals rfl
  | beyond reveals spine _ ih => exact (spine.join ih).onward rfl reveals rfl

/-! ## One cell -/

/-- To evaluate a thunk that stands for a recipe is to force the first list of the recipe, make
thunks for what this leads to, and evaluate the one that stands for it. -/
def Unfolds (self : Nat) (store : Store) (recipe : Recipe) (thunk : Thunk) : Prop :=
  let claimed := store.setSlot thunk (.evaluating self)
  ∃ list, recipe.source? = some list ∧
    (∀ value after, thunk.Evaluates self store value after →
      ∃ outcome between, (forceList list).run.Ends self claimed (.ok outcome) between) ∧
    ∀ outcome between, (forceList list).run.Ends self claimed (.ok outcome) between →
      ∃ next others made, between.Adds made ∧ made.Gives next others (recipe.step outcome) ∧
        ∀ value after, thunk.Evaluates self store value after ↔
          ∃ final, next.Evaluates self made value final ∧ after = final.publish thunk value

theorem exists_runs_of_suspended {computation : Suspension} {value : Value} {after : Store}
    (suspended : store.slot thunk = .suspended computation)
    (evaluates : thunk.Evaluates self store value after) :
    ∃ outcome between, computation.resume.Runs self (store.setSlot thunk (.evaluating self))
      outcome between ∧ ∀ next, outcome = .ok next → ∃ found final,
        next.Evaluates self between found final ∧ value = found.through computation.site ∧
          after = final.publish thunk value := by
  cases evaluates with
  | memoized evaluated => rw [suspended] at evaluated; cases evaluated
  | cycle evaluating => rw [suspended] at evaluating; cases evaluating
  | computed held runs continues =>
    rw [suspended] at held
    cases held
    exact ⟨_, _, runs, fun _ same => by cases same; exact ⟨_, _, continues, rfl, rfl⟩⟩
  | brokenOff held runs =>
    rw [suspended] at held
    cases held
    exact ⟨_, _, runs, fun _ same => by cases same⟩

theorem Builds.unfolds (builds : store.Builds recipe thunk [thunk]) (self : Nat) :
    store.Unfolds self recipe thunk := by
  obtain ⟨list, computation, following, source, suspended, site_eq, resume_eq, apart, resumes⟩ :=
    builds.exists_resumes List.mem_cons_self self
  have isSuspended := slot_eq_of_slot? suspended
  refine ⟨list, source, ?_, ?_⟩
  · intro value after evaluates
    obtain ⟨_, _, runs, -⟩ := exists_runs_of_suspended isSuspended evaluates
    rw [resume_eq] at runs
    cases runs with
    | evaluate evaluates => exact ⟨_, _, evaluates.forceList_ends⟩
  · intro outcome between ends
    have claimed : store.Extends [] (store.setSlot thunk (.evaluating self)) :=
      .of_setSlot (by simp [suspended]) apart _
    have extended : store.Extends [] between :=
      claimed.trans ⟨(Evolves.of_ends ends).evaluated, fun _ mem => absurd mem List.not_mem_nil⟩
    obtain ⟨next, others, made, resumed⟩ := resumes between outcome extended
    have runs := resumed.runs _ ends
    refine ⟨next, others, made, resumed.adds, resumed.gives, fun value after => ⟨?_, ?_⟩⟩
    · intro evaluates
      obtain ⟨_, _, runsToo, follow⟩ := exists_runs_of_suspended isSuspended evaluates
      obtain ⟨rfl, rfl⟩ := Code.Ends.unique (Code.ends_iff_runs.mpr runsToo)
        (Code.ends_iff_runs.mpr runs)
      obtain ⟨found, final, continues, rfl, rfl⟩ := follow next rfl
      rw [site_eq, Value.through_none]
      exact ⟨final, continues, rfl⟩
    · rintro ⟨final, evaluates, rfl⟩
      have computed := Thunk.Evaluates.computed isSuspended runs evaluates
      rwa [site_eq, Value.through_none] at computed

/-! ## Many cells -/

/-- What is read once a list has been forced. -/
def ReadsBehind (self count : Nat) (store after : Store) (stretch : Stretch) :
    Except Error LazyList → Prop
  | .error failure => stretch = .broken failure ∧ after = store
  | .ok .empty => stretch = .closed ∧ after = store
  | .ok (.cons head rest) => ∃ further, stretch = .cell head further ∧
      (Recipe.list rest).Reads self count store further after

/-- A thread reads cells of a joined list.  For each it claims the joined thunk, forces the first
list and publishes a cell, with a thunk for the rest.  Where that list is closed, it publishes what
the other evaluates to. -/
inductive Drains (self : Nat) (tail : Thunk) : Thunk → Thunk → Nat → Store → Stretch → Store → Prop
  | unread (list joined : Thunk) (store : Store) :
      Drains self tail list joined 0 store .unread store
  | broken {list joined : Thunk} {count : Nat} {failure : Error} {value : Value}
      {store between made : Store}
      (ends : (forceList list).run.Ends self (store.setSlot joined (.evaluating self))
        (.ok (.error failure)) between)
      (adds : between.Adds made)
      (isError : value.purely.toList = .error failure) :
      Drains self tail list joined (count + 1) store (.broken failure) (made.publish joined value)
  | cell {list joined head rest further : Thunk} {count : Nat} {value : Value} {stretch : Stretch}
      {store between made after : Store}
      (ends : (forceList list).run.Ends self (store.setSlot joined (.evaluating self))
        (.ok (.ok (.cons head rest))) between)
      (adds : between.Adds made)
      (isCell : value.purely.toList = .ok (.cons head further))
      (drains : Drains self tail rest further count (made.publish joined value) stretch after) :
      Drains self tail list joined (count + 1) store (.cell head stretch) after
  | onward {list joined : Thunk} {count : Nat} {value : Value} {stretch : Stretch}
      {store between made final after : Store}
      (ends : (forceList list).run.Ends self (store.setSlot joined (.evaluating self))
        (.ok (.ok .empty)) between)
      (adds : between.Adds made)
      (evaluates : tail.Evaluates self made value final)
      (behind : ReadsBehind self count (final.publish joined value) after stretch
        value.purely.toList) :
      Drains self tail list joined (count + 1) store stretch after

variable {after : Store}

theorem exists_readsBehind
    (reads : (Recipe.list list).Reads self (count + 1) store stretch after) :
    ∃ value between, list.Evaluates self store value between ∧
      ReadsBehind self count between after stretch value.purely.toList := by
  have opened : ∀ {front between}, (Recipe.list list).Opens self store front between →
      ∃ value, list.Evaluates self store value between ∧
        (Recipe.list list).step value.purely.toList = .inl front := by
    intro front between opens
    obtain ⟨_, ends, step⟩ := opens.of_list
    rw [run_forceList] at ends
    obtain _ | _ | _ | ⟨evaluates, ⟨⟩⟩ := Code.ends_iff_runs.mp ends
    exact ⟨_, evaluates, step⟩
  cases reads with
  | broken opens | closed opens =>
    obtain ⟨value, evaluates, step⟩ := opened opens
    refine ⟨value, _, evaluates, ?_⟩
    generalize value.purely.toList = outcome at step ⊢
    rcases outcome with _ | _ | _ <;> cases step
    exact ⟨rfl, rfl⟩
  | cell opens reads =>
    obtain ⟨value, evaluates, step⟩ := opened opens
    refine ⟨value, _, evaluates, ?_⟩
    generalize value.purely.toList = outcome at step ⊢
    rcases outcome with _ | _ | _ <;> cases step
    exact ⟨_, rfl, reads⟩

/-- What is read of a joined list comes from its lists, one cell at a time. -/
theorem Builds.drains {tail : Thunk}
    (builds : store.Builds (.join list (.list tail)) thunk [thunk])
    (reads : (Recipe.list thunk).Reads self count store stretch after) :
    Drains self tail list thunk count store stretch after := by
  induction count generalizing list thunk store stretch with
  | zero =>
    cases reads
    exact .unread _ _ _
  | succ count ih =>
    obtain ⟨value, _, evaluates, behind⟩ := exists_readsBehind reads
    obtain ⟨_, ⟨⟩, forces, unfolds⟩ := builds.unfolds self
    obtain ⟨outcome, between, forced⟩ := forces value _ evaluates
    obtain ⟨next, others, made, adds, gives, evaluates_iff⟩ := unfolds outcome between forced
    obtain ⟨final, continues, rfl⟩ := (evaluates_iff value _).mp evaluates
    rcases outcome with failure | _ | ⟨head, rest⟩
    · obtain ⟨shown, held, isError, -⟩ := gives
      obtain ⟨rfl, rfl⟩ := continues.unique (.memoized (slot_eq_of_slot? held))
      rw [isError] at behind
      obtain ⟨rfl, rfl⟩ := behind
      exact .broken forced adds isError
    · cases gives
      exact .onward forced adds continues behind
    · obtain ⟨shown, held, presents⟩ := gives
      obtain ⟨rfl, rfl⟩ := continues.unique (.memoized (slot_eq_of_slot? held))
      have marked : final.slot? thunk = some (.evaluating self) := by
        obtain ⟨computation, suspended⟩ := builds.isSuspended thunk List.mem_cons_self
        exact ((Code.ends_iff_runs.mp forced).keeps.trans adds.grows.toKeeps).claimed
          (slot_eq_of_slot? suspended)
      obtain ⟨further, isCell, restBuilds⟩ := presents.publish marked value
      rw [isCell] at behind
      obtain ⟨stretch, rfl, restReads⟩ := behind
      obtain _ | _ | ⟨suspended, apart, ⟨⟩⟩ := restBuilds
      exact .cell forced adds isCell (ih (.join suspended apart (.list tail)) restReads)

end Store

/-- The spine of a concatenation is that of the lists in a row, with the very elements.  It is
put together as it is read, one cell of one list at a time, and what is known of the lists is
read without a change to any thunk but those that were made for it. -/
theorem concatenation_is_faithful_to_spines (self : Nat) (store : Store) :
    (∀ list tail, ∃ joined after,
      (LazyList.append list tail).Runs self store (.ok joined) after ∧
      store.Adds after ∧
      after.Builds (.join list (.list tail)) joined [joined]) ∧
    (∀ list others cells between,
      list.Evaluates self store (.list cells) between →
      ∃ joined flat after,
        (Collection.merge list others).Returns self store joined after ∧
        between.Adds after ∧
        after.Builds (.join list (.flatten others)) joined [joined, flat] ∧
        after.Builds (.join list (.list flat)) joined [joined]) ∧
    (∀ recipe thunk pending count stretch,
      store.Builds recipe thunk pending →
      store.Shows recipe count stretch →
      ∃ after,
        (Recipe.list thunk).Reads self count store stretch after ∧
        store.Leaves pending after) ∧
    (∀ list recipe count stretch,
      store.Shows (.list list) count stretch →
      stretch.IsOpen →
      store.Shows (.join list recipe) count stretch) ∧
    (∀ list recipe elements count stretch,
      store.Spine list elements →
      store.Shows recipe (count + 1) stretch →
      store.Shows (.join list recipe) (count + elements.length + 1)
        (elements.foldr .cell stretch)) ∧
    (∀ lists count stretch,
      store.Strings lists count stretch →
      store.Shows (.flatten lists) count stretch) ∧
    (∀ recipe thunk,
      store.Builds recipe thunk [thunk] →
      store.Unfolds self recipe thunk) ∧
    ∀ list tail joined count stretch after,
      store.Builds (.join list (.list tail)) joined [joined] →
      (Recipe.list joined).Reads self count store stretch after →
      Store.Drains self tail list joined count store stretch after := by
  refine ⟨fun list tail => ?_, fun list others cells between evaluates => ?_,
    fun recipe thunk pending count stretch builds shows => ?_,
    fun list recipe count stretch shows isOpen => shows.join isOpen recipe,
    fun _ _ _ _ _ spine shows => spine.join shows, fun _ _ _ strings => strings.shows,
    fun _ _ builds => builds.unfolds self, fun _ _ _ _ _ _ builds reads => builds.drains reads⟩
  · exact ⟨_, _, .act rfl (.done _ _), .make .refl _ (by simp),
      (Store.Builds.list tail).allocate_join list⟩
  · refine ⟨_, _, _, ?_,
      .make (.make .refl (.suspended (.concatenate others)) (by simp)) _ (by simp),
      (between.builds_allocate_flatten others).allocate_join list,
      (Store.Builds.list _).allocate_join list⟩
    have forced : Returns self (ExceptT.lift (force list)) store (.list cells) between :=
      returns_lift (.evaluate evaluates (.done _ between))
    exact forced.bind ((returns_perform rfl).bind (returns_perform rfl))
  · exact shows.exists_reads builds.isSuspended (fun _ _ _ held => held) builds fun _ => .inl

end ByNeed
