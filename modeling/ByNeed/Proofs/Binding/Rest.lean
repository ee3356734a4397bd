import ByNeed.Proofs.Binding.Passing
import ByNeed.Proofs.Lists.Recipes

/-!
# The list of remaining positionals

What remains becomes a list of a cell for each value and a suspended join for each list that is
spread.  As long as nobody has begun a join, reading it gives the values of the arguments.
-/

namespace ByNeed

open Attempt

variable {self : Nat} {store between after later : Store} {thunk : Thunk}
  {pending : List Thunk}

/-- What the remaining positionals are put together from, in front of a last list. -/
def Recipe.ofPositionals (last : Thunk) : List Positional → Recipe
  | [] => .list last
  | .single value :: rest => .cell value (ofPositionals last rest)
  | .spread values :: rest => .join values (ofPositionals last rest)

/-- All cells of a list that has certain elements. -/
def Stretch.ofList : List Thunk → Stretch
  | [] => .closed
  | head :: rest => .cell head (ofList rest)

namespace Store

variable {positionals : List Positional} {values elements rest : List Thunk} {list last : Thunk}
  {recipe : Recipe}

/-- A list was put together from positional arguments, with one pending join for each list
that is spread. -/
def Chains (store : Store) (positionals : List Positional) (list : Thunk)
    (pending : List Thunk) : Prop :=
  ∃ last, store.slot? last = some (.evaluated (.list .empty)) ∧
    store.Builds (.ofPositionals last positionals) list pending

/-- Behind a list that is memoised, a joined list goes on as what it is joined to. -/
theorem Spine.join (spine : store.Spine list elements)
    (shows : store.Shows recipe (count + 1) stretch) :
    store.Shows (.join list recipe) (count + elements.length + 1)
      (elements.foldr .cell stretch) := by
  induction elements generalizing list with
  | nil => exact shows.onward rfl ⟨_, spine, rfl⟩ rfl
  | cons head elements ih =>
    obtain ⟨tail, held, tailSpine⟩ := spine
    exact .cell (.found rfl ⟨_, held, rfl⟩ rfl) (ih tailSpine)

end Store

theorem Recipe.Reads.returns_elements {list : Thunk}
    (reads : (Recipe.list list).Reads self count store (.ofList values) after) :
    (listElements list).Returns self store values after := by
  induction values generalizing list count store with
  | nil =>
    cases reads with
    | closed opens =>
      obtain ⟨_ | _ | _, ends, step⟩ := opens.of_list <;> cases step
      exact Returns.bind ends (returns_elements (returns_pure [] after))
  | cons head rest ih =>
    cases reads with
    | cell opens reads =>
      obtain ⟨_ | _ | ⟨_, tail⟩, ends, step⟩ := opens.of_list <;> cases step
      refine Returns.bind ends (returns_elements ?_)
      rw [LazyList.elementsStep_cons]
      exact (ih reads).map (head :: ·)

theorem passEach_append (first second : List Positional) (list : Thunk) :
    passEach (first ++ second) list = passEach first list >>= passEach second := by
  induction first generalizing list with
  | nil => rfl
  | cons positional rest ih =>
    cases positional with
    | _ => simp only [List.cons_append, passEach, ih, bind_assoc]

/-- Passing arguments to the end of a list makes a chain of new thunks. -/
theorem exists_passEach (store : Store) (last : Thunk) (positionals : List Positional) :
    ∃ list pending after, (passEach positionals.reverse last).Runs self store (.ok list) after ∧
      store.Adds after ∧ after.Builds (.ofPositionals last positionals) list pending ∧
      ∀ thunk ∈ pending, store.Makes after thunk := by
  induction positionals with
  | nil =>
    exact ⟨last, [], store, .done last store, .refl, .list last,
      fun _ mem => absurd mem List.not_mem_nil⟩
  | cons positional rest ih =>
    obtain ⟨tail, pending, between, runs, adds, builds, made⟩ := ih
    rw [List.reverse_cons, passEach_append]
    cases positional with
    | single value =>
      have grows := between.grows_allocate (.evaluated (.list (.cons value tail))) (by simp)
      refine ⟨_, pending, _, runs.bind rfl (.act rfl (.done _ _)), adds.make _ (by simp),
        .cell (between.slot?_allocated _) (builds.of_grows grows), ?_⟩
      exact fun thunk mem => (made thunk mem).of_grows grows
    | spread values =>
      have grows := between.grows_allocate (.suspended (.append values tail)) (by simp)
      have isNew := between.not_holds_allocated (.suspended (.append values tail))
      refine ⟨_, _, _, runs.bind rfl (.act rfl (.done _ _)), adds.make _ (by simp),
        builds.allocate_join values, ?_⟩
      refine List.forall_mem_cons.mpr ⟨⟨?_, ⟨_, between.slot?_allocated _⟩⟩, ?_⟩
      · rintro ⟨slot, isHeld⟩
        exact isNew ⟨slot, adds.grows.keeps _ slot isHeld⟩
      · exact fun thunk mem => (made thunk mem).of_grows grows

theorem exists_restList (self : Nat) (store : Store) (positionals : List Positional) :
    ∃ list pending after, (restList positionals).Runs self store (.ok list) after ∧ store.Adds after
      ∧ after.Chains positionals list pending ∧ ∀ thunk ∈ pending, store.Makes after thunk := by
  let last := store.allocate (.evaluated (.list .empty))
  have first : store.Adds last.2 := Store.Adds.refl.make _ (by simp)
  obtain ⟨list, pending, after, runs, adds, builds, made⟩ :=
    exists_passEach last.2 last.1 positionals
  have held := adds.grows.keeps last.1 _ (store.slot?_allocated _)
  refine ⟨list, pending, after, .act rfl runs, first.trans adds, ⟨last.1, held, builds⟩,
    fun thunk mem => ?_⟩
  obtain ⟨absent, present⟩ := made thunk mem
  refine ⟨?_, present⟩
  rintro ⟨slot, held⟩
  exact absent ⟨slot, first.grows.keeps thunk slot held⟩

end ByNeed
