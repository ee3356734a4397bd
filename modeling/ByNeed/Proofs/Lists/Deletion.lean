import ByNeed.Proofs.Binding.Rest

/-!
# Deleting an element

Deleting puts the elements in front of a position, in new cells, in front of the tail that follows
the deleted one, so both lists lead to that tail.
-/

namespace ByNeed

open Attempt List

variable {self skipped : Nat} {store between after later : Store}

/-- Where an element stands in a list: behind which others, and in front of which tail. -/
structure Place where
  before : List Thunk
  element : Thunk
  behind : Thunk

/-- The same place, seen from one element further to the front. -/
def Place.past (head : Thunk) (place : Place) : Place :=
  { place with before := head :: place.before }

/-- A thread walks past so many elements of a list and finds where the next one stands, if
there is one. -/
inductive LazyList.Walks (self : Nat) : LazyList → Nat → Store → Option Place → Store → Prop
  | ended (skipped : Nat) (store : Store) : Walks self .empty skipped store none store
  | here (head tail : Thunk) (store : Store) :
      Walks self (.cons head tail) 0 store (some ⟨[], head, tail⟩) store
  | onward {head tail : Thunk} {rest : LazyList} {skipped : Nat} {place : Option Place}
      {store between after : Store}
      (evaluates : tail.Evaluates self store (.list rest) between)
      (walks : Walks self rest skipped between place after) :
      Walks self (.cons head tail) (skipped + 1) store (place.map (.past head)) after

/-- Memoised cells pave the way past some elements to a tail.  If there are none, the tail has
been evaluated. -/
inductive Store.Paves (store : Store) : LazyList → List Thunk → Thunk → Prop
  | evaluated {list : LazyList} {last : Thunk}
      (held : store.slot? last = some (.evaluated (.list list))) : Paves store list [] last
  | cell (head tail : Thunk) : Paves store (.cons head tail) [head] tail
  | cons {head tail last : Thunk} {rest : LazyList} {passed : List Thunk}
      (held : store.slot? tail = some (.evaluated (.list rest)))
      (paves : Paves store rest passed last) (further : passed ≠ []) :
      Paves store (.cons head tail) (head :: passed) last

namespace LazyList

variable {list : LazyList} {found : Option Place} {place : Place}

theorem elements_cons_returns_iff {head tail : Thunk} {elements : List Thunk} :
    (LazyList.cons head tail).elements.Returns self store elements after ↔
      ∃ rest, (listElements tail).Returns self store rest after ∧ elements = head :: rest := by
  refine Code.ends_call_done_iff.trans ?_
  change Attempt.Returns self (elementsStep (.cons head tail)) store elements after ↔ _
  rw [elementsStep_cons]
  refine ⟨fun returns => ?_, ?_⟩
  · obtain ⟨rest, between, restReturns, final⟩ := returns.of_bind
    obtain ⟨rfl, rfl⟩ := final.unique (returns_pure _ _)
    exact ⟨rest, restReturns, rfl⟩
  · rintro ⟨rest, returns, rfl⟩
    exact returns.map (head :: ·)

/-! ## Walking -/

section

variable (walks : list.Walks self skipped store found after)

include walks

theorem Walks.nth_returns :
    (list.nth skipped).Returns self store (found.map Place.element) after := by
  refine Code.ends_call_done_iff.mpr ?_
  induction walks with
  | ended skipped store => exact returns_pure none store
  | here head tail store => exact returns_pure (some head) store
  | @onward _ _ _ _ place _ _ _ evaluates walks ih =>
    rw [Option.map_map]
    exact (returns_lift (.evaluate evaluates (.done _ _))).bind
      (Code.ends_call_done_iff.mpr ih)

theorem Walks.cut_returns : (list.cut (skipped + 1)).Returns self store
      (found.map fun place => (place.before, place.behind)) after := by
  refine Code.ends_call_done_iff.mpr ?_
  induction walks with
  | ended skipped store => exact returns_pure none store
  | here head tail store => exact returns_pure (some ([], tail)) store
  | @onward head tail rest skipped place store between after evaluates walks ih =>
    refine (returns_forceList_of_evaluates evaluates).bind
      (Attempt.Returns.bind (Code.ends_call_done_iff.mpr ih) ?_)
    cases place with
    | none => exact returns_pure none after
    | some place => exact returns_pure (some (head :: place.before, place.behind)) after

theorem Walks.length_before (isFound : found = some place) : place.before.length = skipped := by
  induction walks generalizing place with
  | ended => cases isFound
  | here => cases isFound; rfl
  | onward evaluates walks ih =>
    obtain ⟨behind, same, rfl⟩ := Option.map_eq_some_iff.mp isFound
    exact congrArg Nat.succ (ih same)

/-- The cells on the way stay memoised. -/
theorem Walks.paves (isFound : found = some place) :
    after.Paves list (place.before ++ [place.element]) place.behind := by
  induction walks generalizing place with
  | ended => cases isFound
  | here head tail => cases isFound; exact .cell head tail
  | onward evaluates walks ih =>
    obtain ⟨behind, same, rfl⟩ := Option.map_eq_some_iff.mp isFound
    have held := (Store.Evolves.of_ends walks.nth_returns).evaluated _ _
      (evaluates.slot?_eq (by simp) (by simp))
    exact .cons held (ih same) (by simp)

end

end LazyList

/-! ## Following memoised cells -/

namespace Store.Paves

variable {list : LazyList} {passed : List Thunk} {last : Thunk}

section

variable (paves : store.Paves list passed last)

include paves

theorem of_remembers (remembers : store.Remembers later) : later.Paves list passed last := by
  induction paves with
  | evaluated held => exact .evaluated (remembers _ _ held)
  | cell head tail => exact .cell head tail
  | cons held paves further ih => exact .cons (remembers _ _ held) ih further

theorem nth_returns {position : Nat} {element : Thunk}
    (isPassed : passed[position]? = some element) :
    (list.nth position).Returns self store (some element) store := by
  refine Code.ends_call_done_iff.mpr ?_
  induction paves generalizing position with
  | evaluated => cases isPassed
  | cell head tail =>
    obtain _ | _ := position <;> cases isPassed
    exact returns_pure (some _) store
  | cons held paves further ih =>
    cases position with
    | zero =>
      cases isPassed
      exact returns_pure (some _) store
    | succ position =>
      exact (returns_force (Store.slot_eq_of_slot? held)).bind
        (Code.ends_call_done_iff.mpr (ih isPassed))

/-- Behind the cells that are passed, a list goes on as its last tail does. -/
theorem nth_ends_iff (head : Thunk) (further : Nat)
    (outcome : Except String (Except Error (Option Thunk))) (after : Store) :
    (list.nth (passed.length + further)).run.Ends self store outcome after ↔
      ((LazyList.cons head last).nthStep (further + 1)).run.Ends self store outcome after := by
  induction paves with
  | evaluated held =>
    rw [length_nil, Nat.zero_add]
    refine Iff.symm ?_
    exact (returns_force (Store.slot_eq_of_slot? held)).ends_bind_iff outcome after
  | cell first tail =>
    rw [length_singleton, Nat.add_comm]
    exact Code.ends_call_done_iff
  | @cons first tail _ rest passed held paves _ ih =>
    rw [length_cons, Nat.succ_add]
    exact Code.ends_call_done_iff.trans <|
      ((returns_force (Store.slot_eq_of_slot? held)).ends_bind_iff outcome after).trans ih

theorem elements_returns_iff {elements : List Thunk} :
    list.elements.Returns self store elements after ↔
      ∃ rest, (listElements last).Returns self store rest after ∧ elements = passed ++ rest := by
  induction paves generalizing elements with
  | evaluated held =>
    refine Iff.trans ?_ ⟨fun returns => ⟨elements, returns, rfl⟩, ?_⟩
    · exact ((returns_forceList_of_evaluates (.of_slot? held)).ends_bind_iff _ _).symm
    · rintro ⟨rest, returns, rfl⟩
      exact returns
  | cell head tail => exact LazyList.elements_cons_returns_iff
  | cons held paves further ih =>
    refine LazyList.elements_cons_returns_iff.trans ⟨?_, ?_⟩
    · rintro ⟨others, returns, rfl⟩
      obtain ⟨rest, restReturns, rfl⟩ := ih.mp
        (((returns_forceList_of_evaluates (.of_slot? held)).ends_bind_iff _ _).mp returns)
      exact ⟨rest, restReturns, rfl⟩
    · rintro ⟨rest, returns, rfl⟩
      refine ⟨_, ?_, rfl⟩
      exact (returns_forceList_of_evaluates (.of_slot? held)).bind (ih.mpr ⟨rest, returns, rfl⟩)

end

end Store.Paves

namespace LazyList

variable {list made : LazyList} {place : Place}

theorem prependEach_append (first second : List Thunk) (list : Thunk) :
    prependEach (first ++ second) list = prependEach first list >>= prependEach second := by
  induction first generalizing list with
  | nil => rfl
  | cons element rest ih => simp only [cons_append, prependEach, ih, bind_assoc]

/-- Elements in front of a list are put into new cells that lead to it. -/
theorem exists_prepend (self : Nat) (store : Store) (head : Thunk) (elements : List Thunk)
    (behind : Thunk) : ∃ start made after,
      (prepend (head :: elements) behind).Runs self store (.ok start) after ∧ store.Adds after ∧
        after.slot? start = some (.evaluated (.list made)) ∧
          after.Paves made (head :: elements) behind := by
  induction elements generalizing head with
  | nil =>
    exact ⟨_, _, _, .act rfl (.done _ _), .make .refl _ (by simp), store.slot?_allocated _,
      .cell head behind⟩
  | cons next elements ih =>
    obtain ⟨start, made, between, runs, adds, held, paves⟩ := ih next
    have grows := between.grows_allocate (.evaluated (.list (.cons head start))) (by simp)
    rw [prepend, reverse_cons, prependEach_append]
    exact ⟨_, _, _, runs.bind rfl (.act rfl (.done _ _)), adds.make _ (by simp),
      between.slot?_allocated _, .cons (grows.keeps _ _ held)
        (paves.of_remembers fun thunk value => grows.keeps thunk _) (by simp)⟩

/-! ## What deleting leaves -/

/-- Indexing a list at a position is like indexing another one elsewhere: it gives the same, or
both positions are out of range. -/
def IndexesLike (self : Nat) (store : Store) (list : LazyList) (position : Nat)
    (other : LazyList) (otherPosition : Nat) : Prop :=
  ∀ outcome after, (list.index position).run.Ends self store (.ok outcome) after →
    ∃ reply, (other.index otherPosition).run.Ends self store (.ok reply) after ∧
      (reply = outcome ∨ outcome = .error (Fault.positionOutOfRange position).error ∧
        reply = .error (Fault.positionOutOfRange otherPosition).error)

/-- A list is another one without the element at some place. -/
structure Omits (self : Nat) (store : Store) (made list : LazyList) (place : Place) : Prop where
  before : ∀ position < place.before.length,
    made.IndexesLike self store (position + 1) list (position + 1) ∧
      list.IndexesLike self store (position + 1) made (position + 1)
  behind : ∀ position ≥ place.before.length,
    made.IndexesLike self store (position + 1) list (position + 2) ∧
      list.IndexesLike self store (position + 2) made (position + 1)
  elements : ∀ elements after, list.elements.Returns self store elements after →
    ∃ rest, elements = place.before ++ place.element :: rest ∧
      made.elements.Returns self store (place.before ++ rest) after

theorem indexesLike_of_nth {other : LazyList} {position otherPosition : Nat}
    (passes : ∀ outcome after, (list.nth position).run.Ends self store outcome after →
      (other.nth otherPosition).run.Ends self store outcome after) :
    list.IndexesLike self store (position + 1) other (otherPosition + 1) := by
  intro outcome after ends
  rcases Code.Runs.of_bind (Code.ends_iff_runs.mp ends) with
    ⟨reply, between, first, second⟩ | ⟨message, -, same⟩
  · have firstEnds := passes _ _ (Code.ends_iff_runs.mpr first)
    rcases reply with failure | _ | element
    · cases second
      exact ⟨_, Attempt.Fails.bind firstEnds _, .inl rfl⟩
    · cases second
      exact ⟨_, Attempt.Returns.bind_fails firstEnds (fails_throw _ _), .inr ⟨rfl, rfl⟩⟩
    · cases second
      exact ⟨_, Attempt.Returns.bind firstEnds (returns_pure _ _), .inl rfl⟩
  · cases same

/-- Two lists that lead to the same tail go on alike behind it. -/
theorem omits_of_paves (paves : store.Paves list (place.before ++ [place.element]) place.behind)
    (madePaves : store.Paves made place.before place.behind) :
    made.Omits self store list place := by
  refine ⟨fun position isBefore => ?_, fun position isBehind => ?_,
    fun elements after returns => ?_⟩
  · have element := getElem?_eq_getElem isBefore
    have returns : (list.nth position).Returns self store _ store :=
      paves.nth_returns (getElem?_append_left isBefore ▸ element)
    have madeReturns : (made.nth position).Returns self store _ store :=
      madePaves.nth_returns element
    refine ⟨indexesLike_of_nth fun outcome after ends => ?_,
      indexesLike_of_nth fun outcome after ends => ?_⟩
    · obtain ⟨rfl, rfl⟩ := Code.Ends.unique ends madeReturns
      exact returns
    · obtain ⟨rfl, rfl⟩ := Code.Ends.unique ends returns
      exact madeReturns
  · obtain ⟨further, rfl⟩ := Nat.exists_eq_add_of_le isBehind
    have alike : ∀ outcome after,
        (list.nth (place.before.length + further + 1)).run.Ends self store outcome after ↔
          (made.nth (place.before.length + further)).run.Ends self store outcome after := by
      intro outcome after
      rw [madePaves.nth_ends_iff place.element, Nat.add_right_comm]
      rw [← paves.nth_ends_iff place.element, length_append, length_singleton]
    exact ⟨indexesLike_of_nth fun outcome after => (alike outcome after).mpr,
      indexesLike_of_nth fun outcome after => (alike outcome after).mp⟩
  · obtain ⟨rest, restReturns, rfl⟩ := paves.elements_returns_iff.mp returns
    refine ⟨rest, by simp, ?_⟩
    exact madePaves.elements_returns_iff.mpr ⟨rest, restReturns, rfl⟩

/-- Every tail of a list that a thread comes to is a list. -/
def Proper (self : Nat) (list : LazyList) (store : Store) : Prop :=
  ∀ skipped, ∃ found after, list.Walks self skipped store found after

/-- Deleting an element puts those before it in front of the tail behind it. -/
theorem Walks.exists_delete (proper : list.Proper self store)
    (walks : list.Walks self skipped store (some place) between) :
    ∃ made after, (list.delete (skipped + 1)).Returns self store made after ∧
      after.Paves made place.before place.behind ∧ between.Remembers after ∧
        (0 < skipped → between.Adds after) := by
  obtain ⟨before, element, behind⟩ := place
  have cut := walks.cut_returns
  cases before with
  | nil =>
    obtain rfl := walks.length_before rfl
    obtain ⟨_, _, onward⟩ := proper 1
    cases walks
    cases onward with
    | @onward _ _ made _ _ _ after _ evaluates =>
      have held := evaluates.slot?_eq (by simp) (by simp)
      refine ⟨made, after, cut.bind (returns_forceList_of_evaluates evaluates),
        .evaluated held, ?_, fun positive => absurd positive (Nat.lt_irrefl 0)⟩
      exact (Store.Evolves.of_evaluates evaluates).evaluated
  | cons head before =>
    obtain ⟨start, made, after, runs, adds, held, paves⟩ :=
      exists_prepend self between head before behind
    refine ⟨made, after, cut.bind ((returns_lift runs).bind
      (returns_forceList_of_evaluates (.of_slot? held))), paves, ?_, fun _ => adds⟩
    exact fun thunk value => adds.grows.keeps thunk _

/-- What fails at the end of a list and returns elsewhere fails only there. -/
theorem Proper.fails_iff {α : Type} {attempt : Attempt α} {error : Error}
    (proper : list.Proper self store) (ended : ∀ after, list.Walks self skipped store none after →
      attempt.Fails self store error after)
    (found : ∀ place after, list.Walks self skipped store (some place) after →
      ∃ result later, attempt.Returns self store result later) (failure : Error) (after : Store) :
    attempt.Fails self store failure after ↔
      list.Walks self skipped store none after ∧ failure = error := by
  refine ⟨fun fails => ?_, fun ⟨walks, same⟩ => same ▸ ended after walks⟩
  obtain ⟨_ | place, left, walks⟩ := proper skipped
  · obtain ⟨same, rfl⟩ := Code.Ends.unique fails (ended left walks)
    cases same
    exact ⟨walks, rfl⟩
  · obtain ⟨result, later, returns⟩ := found place left walks
    exact absurd fails returns.not_fails

theorem Walks.index_returns (walks : list.Walks self skipped store (some place) after) :
    (list.index (skipped + 1)).Returns self store place.element after :=
  walks.nth_returns.bind (returns_pure _ after)

end LazyList

/-- Deleting and indexing agree on positions. -/
theorem deleting_agrees_with_indexing {list : LazyList} (proper : list.Proper self store)
    (skipped : Nat) :
    (∀ failure after, (list.index (skipped + 1)).Fails self store failure after ↔
      list.Walks self skipped store none after ∧
        failure = (Fault.positionOutOfRange (skipped + 1)).error) ∧
    (∀ failure after, (list.delete (skipped + 1)).Fails self store failure after ↔
      list.Walks self skipped store none after ∧
        failure = (Fault.positionOutOfRange (skipped + 1)).error) ∧
    ∀ place between, list.Walks self skipped store (some place) between →
      place.before.length = skipped ∧
      (list.index (skipped + 1)).Returns self store place.element between ∧
      ∃ made after,
        (list.delete (skipped + 1)).Returns self store made after ∧
        after.Paves made place.before place.behind ∧
        (0 < skipped → between.Adds after) ∧
        ∀ later, after.Evolves self later → made.Omits self later list place := by
  refine ⟨proper.fails_iff ?_ ?_, proper.fails_iff ?_ ?_, fun place between walks => ?_⟩
  · exact fun after walks => walks.nth_returns.bind_fails (Attempt.fails_throw _ after)
  · exact fun place after walks => ⟨_, _, walks.index_returns⟩
  · exact fun after walks => walks.cut_returns.bind_fails (Attempt.fails_throw _ after)
  · intro place between walks
    obtain ⟨made, after, returns, -⟩ := walks.exists_delete proper
    exact ⟨made, after, returns⟩
  · obtain ⟨made, after, returns, paves, remembers, adds⟩ := walks.exists_delete proper
    refine ⟨walks.length_before rfl, walks.index_returns, made, after, returns, paves, adds,
      fun later evolves => ?_⟩
    exact LazyList.omits_of_paves (((walks.paves rfl).of_remembers remembers).of_remembers
      evolves.evaluated) (paves.of_remembers evolves.evaluated)

/-- A store with a list that repeats its only element for ever. -/
def repeatingStore : Store where
  slots := #[.evaluated (.list (.cons ⟨1⟩ ⟨0⟩)), .evaluated .nil]
  digest := Digest.multiplicative

/-- An element of an endless list can be deleted. -/
theorem deleting_from_an_endless_list :
    ∃ made after, ((LazyList.cons ⟨1⟩ ⟨0⟩).delete 2).Returns 0 repeatingStore made after ∧
      made.Omits 0 after (.cons ⟨1⟩ ⟨0⟩) ⟨[⟨1⟩], ⟨1⟩, ⟨0⟩⟩ := by
  have evaluates : Thunk.Evaluates 0 ⟨0⟩ repeatingStore (.list (.cons ⟨1⟩ ⟨0⟩)) repeatingStore :=
    .memoized rfl
  have proper : (LazyList.cons ⟨1⟩ ⟨0⟩).Proper 0 repeatingStore := by
    intro skipped
    induction skipped with
    | zero => exact ⟨_, _, .here _ _ _⟩
    | succ skipped ih =>
      obtain ⟨found, after, walks⟩ := ih
      exact ⟨_, after, .onward evaluates walks⟩
  obtain ⟨-, -, found⟩ := deleting_agrees_with_indexing proper 1
  obtain ⟨-, -, made, after, returns, -, -, omits⟩ :=
    found ⟨[⟨1⟩], ⟨1⟩, ⟨0⟩⟩ repeatingStore (.onward evaluates (.here _ _ _))
  exact ⟨made, after, returns, omits after (.refl after)⟩

end ByNeed
