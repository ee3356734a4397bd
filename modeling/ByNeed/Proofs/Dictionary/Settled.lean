import ByNeed.Proofs.Dictionary.Keys

/-!
# Settled keys

A key is settled when all that is inside it has been evaluated; its shape forgets the thunks.
Settled keys are equal when they have one shape, and hash to a function of it, whatever the digest
is.  So they answer on every store that keeps them.
-/

namespace ByNeed

open Attempt Store

variable {self : Nat}

/-- A value without its thunks. -/
inductive Shape where
  | nil
  | boolean (truth : Bool)
  | number (key : Int)
  | string (text : String)
  | empty
  | cons (head tail : Shape)
  | function (identity : Nat)
  | effect (identity : Nat)
  deriving DecidableEq

namespace Shape

mutual

/-- The hash of the values of a shape. -/
def hash (digest : List Piece → UInt64) : Shape → UInt64
  | .nil => digest [.word 0]
  | .boolean truth => digest [.word 1, .word (if truth then 1 else 0)]
  | .number key => digest [.word 2, .word (UInt64.ofNat (Number.keyBits key))]
  | .string text => digest [.word 3, .text text]
  | .empty => digest [.word 4]
  | .cons head tail =>
    digest (.word 4 :: .word (head.hash digest) :: (tail.elementHashes digest).map Piece.word)
  | .function identity => digest [.word 6, .word (UInt64.ofNat identity)]
  | .effect identity => digest [.word 7, .word (UInt64.ofNat identity)]

/-- The hashes of the elements of a list. -/
def elementHashes (digest : List Piece → UInt64) : Shape → List UInt64
  | .cons head tail => head.hash digest :: tail.elementHashes digest
  | _ => []

end

end Shape

/-- A value is settled on a store and has a shape.  Elements of a list are no effects,
since to look at an effect there is to refuse it. -/
inductive Value.Has (store : Store) : Value → Shape → Prop
  | nil : Has store .nil .nil
  | boolean (truth : Bool) : Has store (.boolean truth) (.boolean truth)
  | number (x : Float) : Has store (.number x) (.number (Number.key x))
  | string (text : String) : Has store (.string text) (.string text)
  | empty : Has store (.list .empty) .empty
  | cons {head tail : Thunk} {value : Value} {rest : LazyList} {headShape tailShape : Shape}
      (headHeld : store.slot? head = some (.evaluated value))
      (pure : value.purely = value)
      (headHas : Has store value headShape)
      (tailHeld : store.slot? tail = some (.evaluated (.list rest)))
      (tailHas : Has store (.list rest) tailShape) :
      Has store (.list (.cons head tail)) (.cons headShape tailShape)
  | function (callee : Function) : Has store (.function callee) (.function callee.identity)
  | effect (identity : Nat) (payload : Thunk) :
      Has store (.effect identity payload) (.effect identity)

namespace Value.Has

variable {store later : Store} {value left right : Value} {shape other : Shape}

/-- What is settled stays so, with its shape. -/
theorem of_keeps (keeps : store.Keeps later) (has : value.Has store shape) :
    value.Has later shape := by
  induction has with
  | nil => exact .nil
  | boolean truth => exact .boolean truth
  | number x => exact .number x
  | string text => exact .string text
  | empty => exact .empty
  | cons headHeld pure _ tailHeld _ headHypothesis tailHypothesis =>
    exact .cons (keeps _ _ headHeld (by simp)) pure headHypothesis
      (keeps _ _ tailHeld (by simp)) tailHypothesis
  | function callee => exact .function callee
  | effect identity payload => exact .effect identity payload

theorem unique (has : value.Has store shape) (hasToo : value.Has store other) : shape = other := by
  induction has generalizing other with
  | cons headHeld _ _ tailHeld _ headHypothesis tailHypothesis =>
    cases hasToo with
    | cons headHeldToo _ headHas tailHeldToo tailHas =>
      rw [headHeld] at headHeldToo
      rw [tailHeld] at tailHeldToo
      cases headHeldToo
      cases tailHeldToo
      rw [headHypothesis headHas, tailHypothesis tailHas]
  | _ =>
    cases hasToo
    rfl

end Value.Has

/-! ## Comparing -/

namespace Attempt

variable {store after : Store}

theorem returns_forceList (self : Nat) (evaluated : store.slot thunk = .evaluated (.list list)) :
    (forceList thunk).Returns self store list store :=
  (returns_force evaluated).bind (returns_pure list store)

theorem returns_force_of_pure (self : Nat) (evaluated : store.slot thunk = .evaluated value)
    (pure : value.purely = value) :
    Returns self (ExceptT.lift (force thunk)) store value store := by
  have returns : Returns self (ExceptT.lift (force thunk)) store value.purely store :=
    returns_force evaluated
  rwa [pure] at returns

end Attempt

namespace Value.Has

variable {store : Store} {left right : Value} {leftShape rightShape : Shape}

/-- Thunks are compared by the shapes of their values, if their values are. -/
theorem compareThunks_returns (leftHeld : store.slot? leftThunk = some (.evaluated left))
    (leftPure : left.purely = left) (leftHas : left.Has store leftShape)
    (rightHeld : store.slot? rightThunk = some (.evaluated right))
    (rightPure : right.purely = right) (rightHas : right.Has store rightShape)
    (compares : ∃ order, (left.compare right).Returns self store order store ∧
      (order = .eq ↔ leftShape = rightShape)) :
    ∃ order, (compareThunks leftThunk rightThunk).Returns self store order store ∧
      (order = .eq ↔ leftShape = rightShape) := by
  rw [compareThunks]
  by_cases same : leftThunk = rightThunk
  · subst rightThunk
    rw [leftHeld] at rightHeld
    cases rightHeld
    rw [if_pos rfl]
    exact ⟨.eq, returns_pure Ordering.eq store, by simp [leftHas.unique rightHas]⟩
  · obtain ⟨order, returns, order_iff⟩ := compares
    rw [if_neg same]
    have leftForced :=
      returns_force_of_pure self (slot_eq_of_slot? leftHeld) leftPure
    have rightForced :=
      returns_force_of_pure self (slot_eq_of_slot? rightHeld) rightPure
    refine ⟨order, ?_, order_iff⟩
    exact leftForced.bind (rightForced.bind (returns_compareValues returns))

theorem compare_cons_returns
    (heads : ∃ order, (compareThunks leftHead rightHead).Returns self store order store ∧
      (order = .eq ↔ leftFirst = rightFirst))
    (leftHeld : store.slot? leftTail = some (.evaluated (.list leftRest)))
    (leftHas : (Value.list leftRest).Has store leftShape)
    (rightHeld : store.slot? rightTail = some (.evaluated (.list rightRest)))
    (rightHas : (Value.list rightRest).Has store rightShape)
    (tails : ∃ order, (leftRest.compare rightRest).Returns self store order store ∧
      (order = .eq ↔ leftShape = rightShape)) :
    ∃ order, ((LazyList.cons leftHead leftTail).compare (.cons rightHead rightTail)).Returns
        self store order store ∧
      (order = .eq ↔ Shape.cons leftFirst leftShape = .cons rightFirst rightShape) := by
  obtain ⟨headOrder, headReturns, head_iff⟩ := heads
  by_cases ne : headOrder = .eq
  · subst headOrder
    have sameHead := head_iff.mp rfl
    by_cases same : leftTail = rightTail
    · subst rightTail
      rw [leftHeld] at rightHeld
      cases rightHeld
      refine ⟨.eq, headReturns.bind ?_, by simp [sameHead, leftHas.unique rightHas]⟩
      rw [if_pos rfl]
      exact returns_pure Ordering.eq store
    · obtain ⟨tailOrder, tailReturns, tail_iff⟩ := tails
      have leftForced := returns_forceList self (slot_eq_of_slot? leftHeld)
      have rightForced := returns_forceList self (slot_eq_of_slot? rightHeld)
      refine ⟨tailOrder, headReturns.bind ?_, by simp [sameHead, tail_iff]⟩
      rw [if_neg same]
      exact leftForced.bind (rightForced.bind (returns_compareLists tailReturns))
  · refine ⟨headOrder, headReturns.bind ?_, ?_⟩
    · cases headOrder with
      | eq => contradiction
      | lt => exact returns_pure Ordering.lt store
      | gt => exact returns_pure Ordering.gt store
    · have differentHead : leftFirst ≠ rightFirst := fun same => ne (head_iff.mpr same)
      simp [ne, differentHead]

/-- Settled values are compared by their shapes, and the store stays as it is. -/
theorem compare_returns (self : Nat) (leftHas : left.Has store leftShape)
    (rightHas : right.Has store rightShape) :
    ∃ order, (left.compare right).Returns self store order store ∧
      (order = .eq ↔ leftShape = rightShape) := by
  induction leftHas generalizing right rightShape with
  | cons headHeld headPure headHas tailHeld tailHas headHypothesis tailHypothesis =>
    cases rightHas with
    | cons otherHeld otherPure otherHas otherTailHeld otherTailHas =>
      have heads := compareThunks_returns headHeld headPure headHas otherHeld otherPure
        otherHas (headHypothesis otherHas)
      exact compare_cons_returns heads tailHeld tailHas otherTailHeld otherTailHas
        (tailHypothesis otherTailHas)
    | _ => exact ⟨_, returns_pure _ store, by simp [Value.kind, Kind.rank]⟩
  | _ =>
    cases rightHas <;>
      exact ⟨_, returns_pure _ store, by simp [Number.order, Value.kind, Kind.rank]⟩

theorem equalValues_returns (leftHas : left.Has store leftShape)
    (rightHas : right.Has store rightShape) :
    (equalValues left right).Returns self store (decide (leftShape = rightShape)) store := by
  obtain ⟨order, returns, order_iff⟩ := compare_returns self leftHas rightHas
  have equal_eq : (order == .eq) = decide (leftShape = rightShape) := by
    rw [Bool.eq_iff_iff, beq_iff_eq, decide_eq_true_iff, order_iff]
  rw [← equal_eq]
  exact (returns_compareValues returns).map (· == .eq)

end Value.Has

/-! ## Hashing -/

namespace Value.Has

variable {store : Store} {value : Value} {shape : Shape}

theorem digest_returns (pieces : List Piece) :
    (digest pieces).Returns self store (store.digest pieces) store :=
  returns_perform rfl

theorem hash_returns (has : value.Has store shape) :
    value.hash.Returns self store (shape.hash store.digest) store ∧ ∀ cells, value = .list cells →
        cells.hashes.Returns self store (shape.elementHashes store.digest) store := by
  induction has with
  | empty =>
    have elements : LazyList.empty.hashes.Returns self store [] store :=
      returns_pure [] store
    refine ⟨elements.bind (digest_returns _), ?_⟩
    intro cells same
    cases same
    exact elements
  | @cons head tail value rest headShape tailShape headHeld headPure _ tailHeld _
      headHypothesis tailHypothesis =>
      have headForced :=
        returns_force_of_pure self (slot_eq_of_slot? headHeld) headPure
      have headHashed := returns_hashValue headHypothesis.1
      have tailForced := returns_forceList self (slot_eq_of_slot? tailHeld)
      have tailHashed := returns_hashElements (tailHypothesis.2 rest rfl)
      have elements : (LazyList.cons head tail).hashes.Returns self store
          ((Shape.cons headShape tailShape).elementHashes store.digest) store :=
        headForced.bind (headHashed.bind (tailForced.bind (tailHashed.map _)))
      refine ⟨elements.bind (digest_returns _), ?_⟩
      intro cells same
      cases same
      exact elements
  | _ => exact ⟨digest_returns _, by simp⟩

end Value.Has

/-! ## Settled keys answer -/

namespace Store

variable {base : Store} {value : Value} {shape : Shape}

open Classical in
/-- The shape of a value, if it is settled. -/
noncomputable def shape? (base : Store) (value : Value) : Option Shape :=
  if settled : ∃ shape, value.Has base shape then some settled.choose else none

theorem shape?_eq_some (has : value.Has base shape) : base.shape? value = some shape := by
  have settled : ∃ shape, value.Has base shape := ⟨shape, has⟩
  rw [shape?, dif_pos settled, settled.choose_spec.unique has]

/-- The values settled on a store are keys that answer, on every store that keeps them and
has the same digest. -/
noncomputable def settledKeys (number : Nat) (base : Store) : Keys number where
  hash value := ((base.shape? value).map (Shape.hash base.digest)).getD 0
  equal left right := decide (base.shape? left = base.shape? right)
  equal_refl key := by simp
  equal_symm same := by simpa [eq_comm] using same
  equal_trans same sameToo := by
    rw [decide_eq_true_iff] at same sameToo ⊢
    exact same.trans sameToo
  hash_eq same := by
    rw [decide_eq_true_iff] at same
    rw [same]
  Hashable value := ∃ shape, value.Has base shape
  Usable store := base.Keeps store ∧ store.digest = base.digest
  hashes usable hashable := by
    obtain ⟨keeps, digest_eq⟩ := usable
    obtain ⟨shape, has⟩ := hashable
    refine ⟨_, ⟨keeps, digest_eq⟩, ?_⟩
    rw [shape?_eq_some has, Option.map_some, Option.getD_some, ← digest_eq]
    exact returns_hashValue (has.of_keeps keeps).hash_returns.1
  equals usable leftHashable rightHashable := by
    obtain ⟨keeps, digest_eq⟩ := usable
    obtain ⟨leftShape, leftHas⟩ := leftHashable
    obtain ⟨rightShape, rightHas⟩ := rightHashable
    refine ⟨_, ⟨keeps, digest_eq⟩, ?_⟩
    rw [shape?_eq_some leftHas, shape?_eq_some rightHas]
    simpa using (leftHas.of_keeps keeps).equalValues_returns (rightHas.of_keeps keeps)
  stamps usable := usable

end Store
end ByNeed
