import ByNeed.Proofs.Dictionary.Workshop

/-!
# Comparing without shortcuts

Comparing does not look into a thunk or a dictionary that stands on both sides.  The plain order
does.  Wherever it has an answer for one value on both sides, it says that they are equal, so the
shortcuts never change an answer.
-/

namespace ByNeed
namespace Store

open Option

variable {outcome : Ordering} {value : Value}

/-! ## The plain order -/

section Plain

variable (store : Store) (order : Value → Value → Option Ordering)

/-- The order of what two thunks evaluate to, even if they are the same thunk. -/
def plainThunkOrder? (left right : Thunk) : Option Ordering := do
  let leftValue ← store.forced? left
  let rightValue ← store.forced? right
  order leftValue rightValue

/-- The order of the tails of two lists, even if they are the same thunk. -/
def plainTailOrder? (left right : Thunk) : Option Ordering := do
  let leftList ← store.forcedList? left
  let rightList ← store.forcedList? right
  order (.list leftList) (.list rightList)

/-- The order of two lists, heads and tails looked into. -/
def plainListOrder? : LazyList → LazyList → Option Ordering
  | .empty, .empty => some .eq
  | .empty, .cons .. => some .lt
  | .cons .., .empty => some .gt
  | .cons leftHead leftTail, .cons rightHead rightTail => do
      match ← store.plainThunkOrder? order leftHead rightHead with
      | .eq => store.plainTailOrder? order leftTail rightTail
      | unequal => some unequal

/-- The order of entries pair by pair, values looked into. -/
def plainEntriesOrder? : List (Value × Thunk) → List (Value × Thunk) → Option Ordering
  | (leftKey, leftValue) :: left, (rightKey, rightValue) :: right => do
      match ← order leftKey rightKey with
      | .eq =>
        match ← store.plainThunkOrder? order leftValue rightValue with
        | .eq => plainEntriesOrder? left right
        | unequal => some unequal
      | unequal => some unequal
  | _, _ => some .eq

/-- The order of two dictionaries, their entries looked into whatever their roots are. -/
def plainDictionaryOrder? (left right : Dict) : Option Ordering :=
  match Ord.compare left.size right.size with
  | .eq => do
      let leftEntries ← sortEntries? order [] left.toList
      let rightEntries ← sortEntries? order [] right.toList
      store.plainEntriesOrder? order leftEntries rightEntries
  | unequal => some unequal

/-- The plain order of two values, one level down. -/
def plainValueOrder? : Value → Value → Option Ordering
  | .list left, .list right => store.plainListOrder? order left right
  | .dictionary left, .dictionary right => store.plainDictionaryOrder? order left right
  | left, right => store.valueOrder? order left right

end Plain

/-- The plain order of two values, so many levels down. -/
def plainOrder? (store : Store) : Nat → Value → Value → Option Ordering
  | 0, _, _ => none
  | bound + 1, left, right => store.plainValueOrder? (store.plainOrder? bound) left right

/-! ## One value on both sides -/

section Alike

variable {store : Store} {order : Value → Value → Option Ordering}
  (alike : ∀ {value outcome}, order value value = some outcome → outcome = .eq)
variable {thunk : Thunk}

include alike

theorem eq_of_plainThunkOrder? (known : store.plainThunkOrder? order thunk thunk = some outcome) :
    outcome = .eq := by
  obtain ⟨value, forced, known⟩ := bind_eq_some_iff.mp known
  rw [forced] at known
  exact alike known

theorem eq_of_plainTailOrder? (known : store.plainTailOrder? order thunk thunk = some outcome) :
    outcome = .eq := by
  obtain ⟨cells, forced, known⟩ := bind_eq_some_iff.mp known
  rw [forced] at known
  exact alike known

theorem eq_of_plainListOrder? (known : store.plainListOrder? order cells cells = some outcome) :
    outcome = .eq := by
  cases cells with
  | empty => exact (Option.some.inj known).symm
  | cons head tail =>
    obtain ⟨heads, headsKnown, tailsKnown⟩ := bind_eq_some_iff.mp known
    obtain rfl := eq_of_plainThunkOrder? alike headsKnown
    exact eq_of_plainTailOrder? alike tailsKnown

theorem eq_of_plainEntriesOrder?
    (known : store.plainEntriesOrder? order entries entries = some outcome) : outcome = .eq := by
  induction entries with
  | nil => exact (Option.some.inj known).symm
  | cons entry rest ih =>
    obtain ⟨keys, keysKnown, known⟩ := bind_eq_some_iff.mp known
    obtain rfl := alike keysKnown
    obtain ⟨values, valuesKnown, restKnown⟩ := bind_eq_some_iff.mp known
    obtain rfl := eq_of_plainThunkOrder? alike valuesKnown
    exact ih restKnown

theorem eq_of_plainDictionaryOrder?
    (known : store.plainDictionaryOrder? order dictionary dictionary = some outcome) :
    outcome = .eq := by
  rw [plainDictionaryOrder?, Std.ReflOrd.compare_self] at known
  obtain ⟨entries, sorts, known⟩ := bind_eq_some_iff.mp known
  rw [sorts] at known
  exact eq_of_plainEntriesOrder? alike known

theorem eq_of_plainValueOrder? (known : store.plainValueOrder? order value value = some outcome) :
    outcome = .eq := by
  cases value with
  | list cells => exact eq_of_plainListOrder? alike known
  | dictionary entries => exact eq_of_plainDictionaryOrder? alike known
  | error failure => cases known
  | nil => exact (Option.some.inj known).symm
  | number x =>
    have sameKey : compare (Number.key x) (Number.key x) = .eq := Std.ReflOrd.compare_self
    exact (Option.some.inj known).symm.trans sameKey
  | _ => exact (Option.some.inj known).symm.trans Std.ReflOrd.compare_self

end Alike

/-- A value that the plain order comes to an end on is as great as itself. -/
theorem eq_of_plainOrder? {store : Store}
    (known : store.plainOrder? bound value value = some outcome) : outcome = .eq := by
  induction bound generalizing value outcome with
  | zero => cases known
  | succ bound ih => exact eq_of_plainValueOrder? ih known

end Store

/-! ## Shortcuts keep the answer -/

/-- A shortcut taken where any answer would be the one it gives. -/
theorem Refines.shortcut {answer further : Option Ordering} [Decidable same]
    (alike : same → ∀ outcome, answer = some outcome → outcome = .eq)
    (refines : Refines answer further) : Refines answer (if same then some .eq else further) := by
  intro outcome known
  split
  · rw [alike ‹same› outcome known]
  · exact refines outcome known

namespace Store

section Stage

variable {frame : Frame} {stage : Stage frame} {order further : Value → Value → Option Ordering}
  (alike : ∀ {value outcome}, order value value = some outcome → outcome = .eq)
  (refines : ∀ left right, stage.Admits left → stage.Admits right →
    Refines (order left right) (further left right))

include alike refines

theorem plainThunkOrder?_refines (left right : Thunk) :
    Refines (stage.store.plainThunkOrder? order left right)
      (stage.store.thunkOrder? further left right) := by
  refine Refines.shortcut (fun same outcome known => ?_) ?_
  · subst same
    exact eq_of_plainThunkOrder? alike known
  · exact (Refines.refl _).bind_of_known fun leftValue leftForced =>
      (Refines.refl _).bind_of_known fun rightValue rightForced =>
        refines leftValue rightValue (stage.admits_of_forced? leftForced)
          (stage.admits_of_forced? rightForced)

theorem plainTailOrder?_refines (left right : Thunk) :
    Refines (stage.store.plainTailOrder? order left right)
      (stage.store.tailOrder? further left right) := by
  refine Refines.shortcut (fun same outcome known => ?_) ?_
  · subst same
    exact eq_of_plainTailOrder? alike known
  · exact (Refines.refl _).bind_of_known fun leftList leftForced =>
      (Refines.refl _).bind_of_known fun rightList rightForced =>
        refines (.list leftList) (.list rightList) (stage.seesAll_of_forcedList? leftForced)
          (stage.seesAll_of_forcedList? rightForced)

theorem plainListOrder?_refines (left right : LazyList) :
    Refines (stage.store.plainListOrder? order left right)
      (stage.store.listOrder? further left right) := by
  unfold plainListOrder? listOrder?
  split
  · exact .refl _
  · exact .refl _
  · exact .refl _
  · refine (plainThunkOrder?_refines alike refines _ _).bind fun outcome => ?_
    cases outcome with
    | eq => exact plainTailOrder?_refines alike refines _ _
    | lt | gt => exact .refl _

theorem plainEntriesOrder?_refines (leftAdmits : ∀ entry ∈ left, stage.Admits entry.1)
    (rightAdmits : ∀ entry ∈ right, stage.Admits entry.1) :
    Refines (stage.store.plainEntriesOrder? order left right)
      (stage.store.entriesOrder? further left right) := by
  induction left generalizing right with
  | nil => exact .refl _
  | cons leftEntry left ih =>
    cases right with
    | nil => exact .refl _
    | cons rightEntry right =>
      obtain ⟨leftAdmits, restAdmits⟩ := List.forall_mem_cons.mp leftAdmits
      obtain ⟨rightAdmits, rightRestAdmits⟩ := List.forall_mem_cons.mp rightAdmits
      refine (refines _ _ leftAdmits rightAdmits).bind fun keys => ?_
      cases keys with
      | eq =>
        refine (plainThunkOrder?_refines alike refines _ _).bind fun values => ?_
        cases values with
        | eq => exact ih restAdmits rightRestAdmits
        | lt | gt => exact .refl _
      | lt | gt => exact .refl _

/-- Dictionaries of one size that share their root are the same, as both are admitted. -/
theorem plainDictionaryOrder?_refines {left right : Dict} (leftAdmits : stage.AdmitsDictionary left)
    (rightAdmits : stage.AdmitsDictionary right) :
    Refines (stage.store.plainDictionaryOrder? order left right)
      (stage.store.dictionaryOrder? further left right) := by
  unfold dictionaryOrder?
  split
  · rename_i sameSize
    refine Refines.shortcut (fun same outcome known => ?_) ?_
    · obtain rfl := leftAdmits.eq_of_isSame stage.sound rightAdmits
        (Nat.compare_eq_eq.mp sameSize) same
      exact eq_of_plainDictionaryOrder? alike known
    · rw [plainDictionaryOrder?, sameSize]
      have sorts : ∀ {dictionary : Dict}, stage.AdmitsDictionary dictionary →
          Refines (sortEntries? order [] dictionary.toList)
            (sortEntries? further [] dictionary.toList) := fun admits =>
        sortEntries?_refines_among refines fun entry mem => (admits.entries stage.sound mem).1
      refine (sorts leftAdmits).bind_of_known fun leftEntries leftSorts =>
        (sorts rightAdmits).bind_of_known fun rightEntries rightSorts =>
          plainEntriesOrder?_refines alike refines (fun entry mem => ?_) fun entry mem => ?_
      · exact (Dictionary.holds_of_sortEntries? leftAdmits leftSorts entry mem).1
      · exact (Dictionary.holds_of_sortEntries? rightAdmits rightSorts entry mem).1
  · rename_i unequal
    rw [plainDictionaryOrder?]
    split
    · contradiction
    · exact .refl _

theorem plainValueOrder?_refines (leftAdmits : stage.Admits left)
    (rightAdmits : stage.Admits right) :
    Refines (stage.store.plainValueOrder? order left right)
      (stage.store.valueOrder? further left right) := by
  unfold plainValueOrder?
  split
  · exact plainListOrder?_refines alike refines _ _
  · exact plainDictionaryOrder?_refines alike refines leftAdmits rightAdmits
  · rename_i noLists noDictionaries
    unfold valueOrder?
    split
    all_goals try exact .refl _
    · exact absurd rfl (noLists _ _ rfl)
    · exact absurd rfl (noDictionaries _ _ rfl)

end Stage

/-- What the plain order of admitted values says is what comparing them says. -/
theorem plainOrder?_refines {frame : Frame} (stage : Stage frame) (bound : Nat) :
    ∀ left right, stage.Admits left → stage.Admits right →
      Refines (stage.store.plainOrder? bound left right)
        (stage.store.order? bound left right) := by
  induction bound with
  | zero => exact fun left right _ _ => .none _
  | succ bound ih =>
    exact fun left right leftAdmits rightAdmits =>
      plainValueOrder?_refines eq_of_plainOrder? ih leftAdmits rightAdmits

end Store

section Workshop

variable {self : Nat} {digest : List Piece → UInt64} {moves : List Move}
  {made : List Dict} {asked : List Consultation} {store : Store}

/-- The shortcuts of comparing only save work.  Whenever the plain order of two values has an
answer, whatever is shared between them, comparing them gives that answer, and evaluates
nothing. -/
theorem compare_returns_plain_order {left right : Value} {bound : Nat} {outcome : Ordering}
    (workshop : Workshop self ((Service.initial digest).run moves).store made asked store)
    (leftOffered : left.Offered store made)
    (rightOffered : right.Offered store made)
    (known : store.plainOrder? bound left right = some outcome) :
    (compareValues left right).Returns self store outcome store := by
  obtain ⟨held, stage, rfl, -, admits, -⟩ := workshop.exists_stage
  have compared := Store.plainOrder?_refines stage bound left right (leftOffered.admits admits)
    (rightOffered.admits admits) outcome known
  exact (returns_of_order? self stage.store bound).1 compared

theorem compare_returns_plain_order_of_lists :
    (listedStore 2).plainOrder? 6 (.dictionary (listed 0)) (.dictionary (listed 1)) = some .eq ∧
      (compareValues (.dictionary (listed 0)) (.dictionary (listed 1))).Returns 7 (listedStore 2)
        .eq (listedStore 2) ∧
      (listedStore 2).plainOrder? 6 (.dictionary (listed 0)) (.dictionary (listed 0)) = some .eq ∧
      (compareValues (.dictionary (listed 0)) (.dictionary (listed 0))).Returns 7 (listedStore 2)
        .eq (listedStore 2) := by
  have apart : (listedStore 2).plainOrder? 6 (.dictionary (listed 0)) (.dictionary (listed 1)) =
      some .eq := by decide +kernel
  have shared : (listedStore 2).plainOrder? 6 (.dictionary (listed 0)) (.dictionary (listed 0)) =
      some .eq := by decide +kernel
  have zeroMade : (Value.dictionary (listed 0)).Offered (listedStore 2)
      [listed 1, listed 0, .empty] := by simp [Value.Offered]
  have oneMade : (Value.dictionary (listed 1)).Offered (listedStore 2)
      [listed 1, listed 0, .empty] := by simp [Value.Offered]
  exact ⟨apart, compare_returns_plain_order workshop_listed zeroMade oneMade apart,
    shared, compare_returns_plain_order workshop_listed zeroMade zeroMade shared⟩

end Workshop

end ByNeed
