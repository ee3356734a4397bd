import ByNeed.Proofs.Evaluator.Returns
import ByNeed.Proofs.Safety.Calls

/-!
# What a call passes

Read eagerly, the positional values of a call are the thunks written and the elements of the lists
spread, and its keywords the names written and the entries of the dictionaries spread.  Binding is
compared with this account afterwards, when what it evaluated is memoised.
-/

namespace ByNeed

open Attempt Store

variable {self : Nat}

/-! ## The eager account -/

/-- The elements of the list that a thunk evaluates to. -/
def listElements (list : Thunk) : Attempt (List Thunk) := do
  (← forceList list).elements

/-- The positional values of a call. -/
def positionalValues : List Positional → Attempt (List Thunk)
  | [] => return []
  | .single value :: rest => do
      return value :: (← positionalValues rest)
  | .spread list :: rest => do
      let elements ← listElements list
      return elements ++ (← positionalValues rest)

/-- An entry whose key is a name. -/
def namedEntry? : Value × Thunk → Option (String × Thunk)
  | (.string name, value) => some (name, value)
  | _ => none

/-- The entries of a dictionary whose keys are names. -/
def Dictionary.named (dict : Dict) : List (String × Thunk) :=
  dict.toList.filterMap namedEntry?

/-- The list that a positional argument spreads. -/
def Positional.spread? : Positional → Option Thunk
  | .single _ => none
  | .spread list => some list

/-- The dictionary that a keyword argument spreads. -/
def Keyword.spread? : Keyword → Option Thunk
  | .named _ _ => none
  | .spread dictionary => some dictionary

/-- All that a call spreads. -/
def Arguments.spreads (arguments : Arguments) : List Thunk :=
  arguments.positionals.filterMap Positional.spread? ++
    arguments.keywords.filterMap Keyword.spread?

namespace Store

/-- A thread can make one store of another by running code to its end. -/
def Evolves (self : Nat) (earlier later : Store) : Prop :=
  ∃ code : Code Unit, code.Runs self earlier (.ok ()) later

/-- A thunk is spread, or a tail of a list that is. -/
inductive Within (store : Store) (spreads : List Thunk) : Thunk → Prop
  | spread {thunk : Thunk} (mem : thunk ∈ spreads) : Within store spreads thunk
  | tail {list head tail : Thunk} (within : Within store spreads list)
      (held : store.slot? list = some (.evaluated (.list (.cons head tail)))) :
      Within store spreads tail

/-- There may be new thunks, and all else is as it was. -/
structure Gains (earlier later : Store) : Prop where
  grows : earlier.Grows later
  channels_eq : later.channels = earlier.channels

/-- A thread evaluates what is spread, in any order and as far as it likes, and makes thunks
that it does not evaluate. -/
inductive Unrolls (self : Nat) (spreads : List Thunk) (start : Store) : Store → Prop
  | refl : Unrolls self spreads start start
  | evaluate {between after : Store} {thunk : Thunk} {value : Value}
      (former : Unrolls self spreads start between)
      (within : between.Within spreads thunk)
      (evaluates : thunk.Evaluates self between value after) :
      Unrolls self spreads start after
  | gain {between after : Store}
      (former : Unrolls self spreads start between)
      (gains : between.Gains after) :
      Unrolls self spreads start after

end Store

/-- However far what is spread has been evaluated, a thunk is a proper list of so many
elements. -/
def Thunk.Lists (self : Nat) (spreads : List Thunk) : Nat → Store → Thunk → Prop
  | 0, store, thunk =>
    ∀ later, store.Unrolls self spreads later →
      ∃ after, thunk.Evaluates self later (.list .empty) after
  | length + 1, store, thunk =>
    ∀ later, store.Unrolls self spreads later →
      ∃ head tail after, thunk.Evaluates self later (.list (.cons head tail)) after ∧
        Lists self spreads length after tail

/-- However far what is spread has been evaluated, a thunk is a dictionary whose keys are
names. -/
def Thunk.Names (self : Nat) (spreads : List Thunk) (store : Store) (thunk : Thunk) : Prop :=
  ∀ later, store.Unrolls self spreads later →
    ∃ dict after, thunk.Evaluates self later (.dictionary dict) after ∧
      ∀ entry ∈ dict.toList, ∃ name, entry.1 = .string name

variable {spreads : List Thunk}

/-- All positional arguments that are spread are proper lists. -/
def SpreadsLists (self : Nat) (spreads : List Thunk) (store : Store)
    (positionals : List Positional) : Prop :=
  ∀ list, .spread list ∈ positionals →
    store.Within spreads list ∧ ∃ length, list.Lists self spreads length store

/-- All keyword arguments that are spread are dictionaries whose keys are names. -/
def SpreadsNames (self : Nat) (spreads : List Thunk) (store : Store)
    (keywords : List Keyword) : Prop :=
  ∀ dict, .spread dict ∈ keywords →
    store.Within spreads dict ∧ dict.Names self spreads store

variable {α : Type} {store between after later : Store} {thunk : Thunk}
variable {positionals : List Positional} {list : Thunk} {value : Value} {elements : List Thunk}

namespace Store.Evolves

theorem refl (store : Store) : store.Evolves self store :=
  ⟨.done (), .done () store⟩

theorem of_runs {code : Code α} (runs : code.Runs self store (.ok result) after) :
    store.Evolves self after :=
  ⟨code.bind fun _ => .done (), runs.bind rfl (.done () after)⟩

theorem of_ends {code : Code α} (ends : code.Ends self store (.ok result) after) :
    store.Evolves self after :=
  .of_runs (Code.ends_iff_runs.mp ends)

theorem of_evaluates (evaluates : thunk.Evaluates self store value after) :
    store.Evolves self after :=
  ⟨.evaluate thunk fun _ => .done (), .evaluate evaluates (.done () after)⟩

theorem keeps (evolves : store.Evolves self after) : store.Keeps after := by
  obtain ⟨code, runs⟩ := evolves
  exact runs.keeps

theorem evaluated (evolves : store.Evolves self after) (thunk : Thunk) (value : Value)
    (held : store.slot? thunk = some (.evaluated value)) :
    after.slot? thunk = some (.evaluated value) :=
  evolves.keeps thunk _ held (by simp)

end Store.Evolves

namespace Store

theorem Within.mono (within : store.Within spreads thunk) (remembers : store.Remembers later) :
    later.Within spreads thunk := by
  induction within with
  | spread mem => exact .spread mem
  | tail _ held ih => exact .tail ih (remembers _ _ held)

namespace Unrolls

theorem trans (first : store.Unrolls self spreads between)
    (second : between.Unrolls self spreads after) : store.Unrolls self spreads after := by
  induction second with
  | refl => exact first
  | evaluate _ within evaluates ih => exact ih.evaluate within evaluates
  | gain _ gains ih => exact ih.gain gains

theorem of_evaluates (within : store.Within spreads thunk)
    (evaluates : thunk.Evaluates self store value after) : store.Unrolls self spreads after :=
  .evaluate .refl within evaluates

theorem of_gains (gains : store.Gains after) : store.Unrolls self spreads after :=
  .gain .refl gains

theorem remembers (unrolls : store.Unrolls self spreads after) : store.Remembers after := by
  induction unrolls with
  | refl => exact fun _ _ held => held
  | evaluate _ _ evaluates ih =>
    exact fun thunk value held =>
      (Evolves.of_evaluates evaluates).evaluated thunk value (ih thunk value held)
  | gain _ gains ih =>
    exact fun thunk value held => gains.grows.keeps thunk _ (ih thunk value held)

end Unrolls
end Store

section Mono

variable (unrolls : store.Unrolls self spreads later)

include unrolls

theorem Thunk.Lists.mono (lists : thunk.Lists self spreads length store) :
    thunk.Lists self spreads length later := by
  cases length with
  | _ => exact fun final further => lists final (unrolls.trans further)

theorem SpreadsLists.mono (lists : SpreadsLists self spreads store positionals) :
    SpreadsLists self spreads later positionals := by
  intro list mem
  obtain ⟨within, length, isList⟩ := lists list mem
  exact ⟨within.mono unrolls.remembers, length, isList.mono unrolls⟩

theorem SpreadsNames.mono (names : SpreadsNames self spreads store keywords) :
    SpreadsNames self spreads later keywords := by
  intro dict mem
  obtain ⟨within, isNames⟩ := names dict mem
  exact ⟨within.mono unrolls.remembers, fun final further => isNames final (unrolls.trans further)⟩

end Mono

/-! ## Evaluating lists and dictionaries -/

/-- A thunk memoises the value it evaluates to, unless there is none. -/
theorem Thunk.Evaluates.slot?_eq (evaluates : thunk.Evaluates self store value after)
    (notNil : value ≠ .nil) (noError : ∀ failure, value ≠ .error failure) :
    after.slot? thunk = some (.evaluated value) := by
  cases evaluates with
  | memoized evaluated => exact (slot?_or_nil_of_evaluated evaluated).resolve_right notNil
  | cycle => exact absurd rfl (noError _)
  | computed suspended runs continues =>
    exact slot?_setSlot_self ((runs.keeps.trans continues.keeps).claimed suspended) _
  | brokenOff suspended runs =>
    exact slot?_setSlot_self (runs.keeps.claimed suspended) _

theorem Thunk.Evaluates.of_slot? (held : store.slot? thunk = some (.evaluated value)) :
    thunk.Evaluates self store value store :=
  .memoized (slot_eq_of_slot? held)

theorem LazyList.elementsStep_cons (head tail : Thunk) :
    (LazyList.cons head tail).elementsStep =
      listElements tail >>= fun rest => pure (head :: rest) := by
  rw [listElements, bind_assoc]
  rfl

namespace Attempt

theorem returns_forceList_of_evaluates
    (evaluates : thunk.Evaluates self store (.list cells) after) :
    (forceList thunk).Returns self store cells after :=
  (returns_lift (.evaluate evaluates (.done _ after))).bind (returns_pure cells after)

theorem returns_listElements_empty (evaluates : thunk.Evaluates self store (.list .empty) after) :
    (listElements thunk).Returns self store [] after :=
  (returns_forceList_of_evaluates evaluates).bind (returns_elements (returns_pure [] after))

theorem returns_listElements_cons
    (evaluates : thunk.Evaluates self store (.list (.cons head tail)) between)
    (returns : (listElements tail).Returns self between rest after) :
    (listElements thunk).Returns self store (head :: rest) after := by
  refine (returns_forceList_of_evaluates evaluates).bind (returns_elements ?_)
  rw [LazyList.elementsStep_cons]
  exact returns.map (head :: ·)

end Attempt

/-! ## Spines -/

/-- The cells of a list with such elements are memoised. -/
def Store.Spine (store : Store) : Thunk → List Thunk → Prop
  | list, [] => store.slot? list = some (.evaluated (.list .empty))
  | list, head :: rest =>
    ∃ tail, store.slot? list = some (.evaluated (.list (.cons head tail))) ∧ store.Spine tail rest

theorem Store.Spine.mono (spine : store.Spine list elements) (evaluated : store.Remembers later) :
    later.Spine list elements := by
  induction elements generalizing list with
  | nil => exact evaluated list _ spine
  | cons head rest ih =>
    obtain ⟨tail, held, tailSpine⟩ := spine
    exact ⟨tail, evaluated list _ held, ih tailSpine⟩

theorem Store.Spine.returns (spine : store.Spine list elements) (self : Nat) :
    (listElements list).Returns self store elements store := by
  induction elements generalizing list with
  | nil => exact returns_listElements_empty (.of_slot? spine)
  | cons head rest ih =>
    obtain ⟨tail, held, tailSpine⟩ := spine
    exact returns_listElements_cons (.of_slot? held) (ih tailSpine)

section Safe

variable {frame : Frame} {stage : Stage frame}

end Safe
end ByNeed
