import Mathlib.Data.List.Forall2
import Mathlib.Logic.Relation
import ByNeed.Proofs.Machine.Slots

/-!
# Recursive groups of sums

The cells of a recursive group are numbers, other cells, or sums of other cells, and form a graph.
It is read off a store in which nothing of the group has been evaluated, together with the graph of
the thunks through which the cells are evaluated.
-/

namespace ByNeed

open List

/-- What a thunk of a recursive group is. -/
inductive Definition where
  | number (value : Float)
  | reference (cell : Nat)
  /-- The sum of other cells. -/
  | sum (cells : List Nat)

/-- The cells that a definition mentions. -/
def Definition.cells : Definition → List Nat
  | .number _ => []
  | .reference cell => [cell]
  | .sum cells => cells

theorem exists_mem_of_forall₂ (related : List.Forall₂ relation left right) (mem : first ∈ left) :
    ∃ second ∈ right, relation first second := by
  induction related with
  | nil => contradiction
  | cons holds _ ih =>
    rcases mem_cons.mp mem with rfl | mem
    · exact ⟨_, mem_cons_self, holds⟩
    · obtain ⟨second, found, holds⟩ := ih mem
      exact ⟨second, mem_cons_of_mem _ found, holds⟩

/-- Whether a function adds any number of operands. -/
def Function.isSum : Function → Bool
  | .plain _ _ ⟨[], some _, [], none⟩ false (.lazyPrimitive (.total .add)) => true
  | _ => false

namespace Store

/-- A thunk of a recursive group is what a definition says, and not evaluated yet. -/
inductive Defines (store : Store) (group : Nat) : Thunk → Definition → Prop
  | number {thunk : Thunk} {value : Float}
      (held : store.slot? thunk = some (.evaluated (.number value))) :
      Defines store group thunk (.number value)
  | reference {thunk : Thunk} {cell : Nat}
      (held : store.slot? thunk = some (.suspended (.cell group cell))) :
      Defines store group thunk (.reference cell)
  | sum {thunk function : Thunk} {callee : Function} {references : List Thunk} {cells : List Nat}
      {site : Option Site}
      (held : store.slot? thunk =
        some (.suspended (.apply function { positionals := references.map .single } site)))
      (applied : store.slot? function = some (.evaluated (.function callee)))
      (isSum : callee.isSum = true)
      (refers : List.Forall₂ (fun reference cell =>
        store.slot? reference = some (.suspended (.cell group cell))) references cells) :
      Defines store group thunk (.sum cells)

/-- A thunk of a recursive group mentions defined cells only. -/
structure Belongs (store : Store) (group : Nat) (thunk : Thunk) (definition : Definition) :
    Prop where
  defines : store.Defines group thunk definition
  defined : ∀ cell ∈ definition.cells, (store.cell? group cell).isSome

/-- Every cell that a group defines is a number, another cell, or a sum of other cells, and
the cells it mentions are defined. -/
def IsSumGroup (store : Store) (group : Nat) : Prop :=
  ∀ cell thunk, store.cell? group cell = some thunk →
    ∃ definition, store.Belongs group thunk definition

/-- The definition of a cell mentions another. -/
def Needs (store : Store) (group : Nat) (cell needed : Nat) : Prop :=
  ∃ thunk definition, store.cell? group cell = some thunk ∧
    store.Defines group thunk definition ∧ needed ∈ definition.cells

/-- From a cell, a cell can be reached that needs itself. -/
def Loops (store : Store) (group : Nat) (cell : Nat) : Prop :=
  ∃ looping, Relation.ReflTransGen (store.Needs group) cell looping ∧
    Relation.TransGen (store.Needs group) looping looping

/-- A definition mentions a cell from which a cell can be reached that needs itself. -/
def LoopsFrom (store : Store) (group : Nat) (definition : Definition) : Prop :=
  ∃ cell ∈ definition.cells, store.Loops group cell

variable {store : Store} {group cell : Nat} {thunk other : Thunk} {definition further : Definition}

@[simp] theorem loopsFrom_number (value : Float) : ¬store.LoopsFrom group (.number value) := by
  simp [LoopsFrom, Definition.cells]

@[simp] theorem loopsFrom_reference :
    store.LoopsFrom group (.reference cell) ↔ store.Loops group cell := by
  simp [LoopsFrom, Definition.cells]

theorem references_eq {references operands : List Thunk} (held : store.slot? thunk =
      some (.suspended (.apply function { positionals := references.map .single } site)))
    (heldToo : store.slot? thunk =
      some (.suspended (.apply called { positionals := operands.map .single } place))) :
    references = operands := by
  rw [held] at heldToo
  simp only [Option.some.injEq, Slot.suspended.injEq, Suspension.apply.injEq,
    Arguments.mk.injEq] at heldToo
  obtain ⟨-, ⟨same, -⟩, -⟩ := heldToo
  rwa [List.map_inj_right fun _ _ => Positional.single.inj] at same

theorem Defines.unique (defines : store.Defines group thunk definition)
    (definesToo : store.Defines group thunk further) : definition = further := by
  cases defines with
  | number held =>
    cases definesToo with
    | number heldToo =>
      rw [held] at heldToo
      cases heldToo
      rfl
    | reference heldToo | sum heldToo => simp [held] at heldToo
  | reference held =>
    cases definesToo with
    | number heldToo | sum heldToo => simp [held] at heldToo
    | reference heldToo =>
      rw [held] at heldToo
      cases heldToo
      rfl
  | sum held applied isSum refers =>
    cases definesToo with
    | number heldToo | reference heldToo => simp [held] at heldToo
    | sum heldToo appliedToo isSumToo refersToo =>
      obtain rfl := references_eq held heldToo
      congr 1
      refine right_unique_forall₂' ?_ refers refersToo
      intro reference first second refersFirst refersSecond
      rw [refersFirst] at refersSecond
      cases refersSecond
      rfl

theorem loops_iff (found : store.cell? group cell = some thunk)
    (defines : store.Defines group thunk definition) :
    store.Loops group cell ↔ store.LoopsFrom group definition := by
  have needs_iff : ∀ needed, store.Needs group cell needed ↔ needed ∈ definition.cells := by
    intro needed
    refine ⟨?_, fun mem => ⟨thunk, definition, found, defines, mem⟩⟩
    rintro ⟨thunkToo, definitionToo, foundToo, definesToo, mem⟩
    rw [found] at foundToo
    cases foundToo
    rwa [defines.unique definesToo]
  constructor
  · rintro ⟨looping, reaches, loops⟩
    rcases reaches.cases_head with rfl | ⟨needed, needs, rest⟩
    · obtain ⟨needed, needs, rest⟩ := Relation.TransGen.head'_iff.mp loops
      exact ⟨needed, (needs_iff needed).mp needs, cell, rest, loops⟩
    · exact ⟨needed, (needs_iff needed).mp needs, looping, rest, loops⟩
  · rintro ⟨needed, mem, looping, reaches, loops⟩
    exact ⟨looping, .head ((needs_iff needed).mpr mem) reaches, loops⟩

/-! ## The graph of thunks -/

/-- Evaluating a thunk of a group comes to another. -/
inductive Leads (store : Store) (group : Nat) : Thunk → Thunk → Prop
  | follow {thunk next : Thunk} {cell : Nat}
      (held : store.slot? thunk = some (.suspended (.cell group cell)))
      (found : store.cell? group cell = some next) :
      Leads store group thunk next
  | operand {thunk function next : Thunk} {references : List Thunk} {site : Option Site}
      (held : store.slot? thunk =
        some (.suspended (.apply function { positionals := references.map .single } site)))
      (mem : next ∈ references) :
      Leads store group thunk next

theorem Leads.definition_cases (leads : store.Leads group thunk other)
    (isSumGroup : store.IsSumGroup group) (defines : store.Defines group thunk definition) :
    (∃ cell further, definition = .reference cell ∧ store.cell? group cell = some other ∧
      store.Defines group other further) ∨ ∃ cell cells, definition = .sum cells ∧ cell ∈ cells ∧
      store.Defines group other (.reference cell) := by
  cases leads with
  | follow held found =>
    left
    obtain ⟨further, belongs⟩ := isSumGroup _ _ found
    exact ⟨_, further, defines.unique (.reference held), found, belongs.defines⟩
  | operand held mem =>
    right
    cases defines with
    | number heldToo | reference heldToo => simp [held] at heldToo
    | sum heldToo applied isSum refers =>
      obtain rfl := references_eq held heldToo
      obtain ⟨cell, cellMember, refersTo⟩ := exists_mem_of_forall₂ refers mem
      exact ⟨cell, _, rfl, cellMember, .reference refersTo⟩

theorem exists_needs_of_leads (isSumGroup : store.IsSumGroup group)
    (leads : Relation.ReflTransGen (store.Leads group) thunk other)
    (defines : store.Defines group thunk definition)
    (refers : store.Defines group other (.reference cell)) :
    ∃ mentioned ∈ definition.cells, Relation.ReflTransGen (store.Needs group) mentioned cell := by
  induction leads using Relation.ReflTransGen.head_induction_on generalizing definition with
  | refl =>
    rw [defines.unique refers]
    exact ⟨cell, mem_singleton_self cell, .refl⟩
  | head first _ ih =>
    rcases first.definition_cases isSumGroup defines with
      ⟨referred, further, rfl, found, furtherDefines⟩ |
      ⟨operand, cells, rfl, mem, refersFirst⟩
    · obtain ⟨mentioned, mem, needs⟩ := ih furtherDefines
      exact ⟨referred, mem_singleton_self referred,
        .head ⟨_, further, found, furtherDefines, mem⟩ needs⟩
    · obtain ⟨mentioned, mentionedMember, needs⟩ := ih refersFirst
      obtain rfl := mem_singleton.mp mentionedMember
      exact ⟨mentioned, mem, needs⟩

section

variable (isSumGroup : store.IsSumGroup group)
  (leads : Relation.TransGen (store.Leads group) thunk thunk)

include isSumGroup leads

theorem needs_self_of_leads_self (refers : store.Defines group thunk (.reference cell)) :
    Relation.TransGen (store.Needs group) cell cell := by
  obtain ⟨next, first, rest⟩ := Relation.TransGen.head'_iff.mp leads
  rcases first.definition_cases isSumGroup refers with
    ⟨_, further, same, found, defines⟩ | ⟨_, _, impossible, -⟩
  · cases same
    obtain ⟨mentioned, mem, needs⟩ := exists_needs_of_leads isSumGroup rest defines refers
    exact .head' ⟨next, further, found, defines, mem⟩ needs
  · cases impossible

/-- A thunk that leads back to itself mentions a cell from which a loop can be reached. -/
theorem loopsFrom_of_leads_self (defines : store.Defines group thunk definition) :
    store.LoopsFrom group definition := by
  obtain ⟨next, first, rest⟩ := Relation.TransGen.head'_iff.mp leads
  rcases first.definition_cases isSumGroup defines with
    ⟨cell, _, rfl, -⟩ | ⟨cell, cells, rfl, mem, refers⟩
  · have loops := needs_self_of_leads_self isSumGroup leads defines
    exact ⟨cell, mem_singleton_self cell, cell, .refl, loops⟩
  · -- The first operand on the way leads back to itself as well.
    have operandLeads : Relation.TransGen (store.Leads group) next next :=
      Relation.TransGen.tail'_iff.mpr ⟨thunk, rest, first⟩
    have loops := needs_self_of_leads_self isSumGroup operandLeads refers
    exact ⟨cell, mem, cell, .refl, loops⟩

end

end Store
end ByNeed
