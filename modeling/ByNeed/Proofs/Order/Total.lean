import ByNeed.Proofs.Dictionary.Workshop

/-!
# Comparing is a total order, and hashing respects it

Comparing and hashing say what can be read off a store, and return what can be read, however often,
in which order and on behalf of whom they are asked.
-/

namespace ByNeed

/-! ## Numbers -/

/-- A number is one of the two zeros. -/
def Number.IsZero (number : Float) : Prop :=
  ∃ negative exponent, read number = .finite negative 0 exponent

theorem Number.key_of_isNaN (isNaN : Number.isNaN number = true) :
    key number = (twoTo 63 : Int) := by
  unfold key
  exact if_pos isNaN

theorem Number.key_of_isZero (isZero : IsZero number) : key number = 0 := by
  obtain ⟨negative, exponent, reading⟩ := isZero
  have finite : isNaN number = false := by
    rw [isNaN, reading]
    rfl
  -- Neither the exponent nor the fraction has a bit set.
  have noBits : number.toBits.toNat % twoTo 63 = 0 := by
    have powers : twoTo 52 = 4503599627370496 ∧ twoTo 11 = 2048 ∧
        twoTo 63 = 9223372036854775808 := ⟨rfl, rfl, rfl⟩
    simp only [read, powers] at reading ⊢
    split at reading
    · split at reading <;> cases reading
    · split at reading
      · rename_i field
        have fraction := (Reading.finite.inj reading).2.1
        omega
      · have mantissa := (Reading.finite.inj reading).2.1
        omega
  simp [key, finite, noBits]

theorem Number.key_eq
    (alike : isNaN left = true ∧ isNaN right = true ∨ IsZero left ∧ IsZero right) :
    key left = key right := by
  rcases alike with ⟨leftNaN, rightNaN⟩ | ⟨leftZero, rightZero⟩
  · rw [key_of_isNaN leftNaN, key_of_isNaN rightNaN]
  · rw [key_of_isZero leftZero, key_of_isZero rightZero]

theorem Number.returns_of_key_eq (self : Nat) (store : Store) (sameKey : key left = key right) :
    (equalValues (.number left) (.number right)).Returns self store true store ∧
      ∃ word, (hashValue (.number left)).Returns self store word store ∧
        (hashValue (.number right)).Returns self store word store := by
  have equal : store.order? 1 (.number left) (.number right) = some .eq := by
    change some (order left right) = some .eq
    rw [order, sameKey, Std.ReflOrd.compare_self]
  have leftHash : store.hash? 1 (.number left) =
      some (store.digest [.word 2, .word (word left)]) := rfl
  have rightHash : store.hash? 1 (.number right) =
      some (store.digest [.word 2, .word (word left)]) := by
    rw [word_eq_of_key_eq sameKey]
    rfl
  have returns := (returns_of_order? self store 1).1 equal
  exact ⟨returns.map fun outcome : Ordering => outcome == .eq, _,
    (returns_of_hash? self store 1).1 leftHash, (returns_of_hash? self store 1).1 rightHash⟩

/-! ## Laws of what was said -/

section Laws

variable {self : Nat} {digest : List Piece → UInt64} {moves : List Move}
  {made : List Dict} {asked : List Consultation} {store : Store}

/-- Comparing is a total order wherever it answers.  A value that is no error equals itself.
If two values compare, then they compare the other way round with the reverse outcome,
whenever they are asked for or were asked for.  What three comparisons say chains, and is
equality only if all of them are. -/
theorem compare_is_total_order
    (workshop : Workshop self ((Service.initial digest).run moves).store made asked store) :
    (∀ value,
      (∀ failure, value ≠ .error failure) →
      (compareValues value value).Returns self store .eq store) ∧
    (∀ left right outcome,
      .compared left right (.ok outcome) ∈ asked →
      (compareValues right left).Returns self store outcome.swap store ∧
        ∀ back, .compared right left back ∈ asked → back = .ok outcome.swap) ∧
    ∀ first second third near far outer,
      .compared first second (.ok near) ∈ asked →
      .compared second third (.ok far) ∈ asked →
      .compared first third (.ok outer) ∈ asked →
      near ≠ .gt →
      far ≠ .gt →
      outer ≠ .gt ∧ (outer = .eq → near = .eq ∧ far = .eq) := by
  obtain ⟨held, stage, rfl, -, -, holds⟩ := workshop.exists_stage
  refine ⟨fun value noError => compareValues_self_returns self stage.store noError, ?_, ?_⟩
  · intro left right outcome mem
    obtain ⟨leftAdmits, rightAdmits, agrees⟩ := holds _ mem
    obtain ⟨bound, known⟩ := agrees.known
    have turned := (order?_lawful stage bound).swap leftAdmits rightAdmits known
    refine ⟨(returns_of_order? self stage.store bound).1 turned, fun back backMember => ?_⟩
    exact (holds _ backMember).2.2.eq_of_known (.order right left) le_rfl turned
  · intro first second third near far outer nearMember farMember outerMember nearNe farNe
    obtain ⟨firstAdmits, secondAdmits, nearBound, nearKnown⟩ := holds _ nearMember
    obtain ⟨-, thirdAdmits, farBound, farKnown⟩ := holds _ farMember
    obtain ⟨-, -, outerBound, outerKnown⟩ := holds _ outerMember
    -- All three can be read at one depth.
    have chained := (order?_lawful stage (max nearBound (max farBound outerBound))).chain
      firstAdmits secondAdmits thirdAdmits (nearKnown stage le_rfl _ (by omega))
      (farKnown stage le_rfl _ (by omega)) (outerKnown stage le_rfl _ (by omega)) nearNe farNe
    subst chained
    cases near <;> cases far <;> simp_all

/-- The list in between has no thunk of its own: it has the head of one list and the tail of
another. -/
theorem compare_is_total_order_of_lists :
    (∃ asked,
      Workshop 7 listStore [] asked listStore ∧
      .compared (listAt 0) (.list (.cons ⟨0⟩ ⟨8⟩)) (.ok .eq) ∈ asked ∧
      .compared (.list (.cons ⟨0⟩ ⟨8⟩)) (listAt 2) (.ok .lt) ∈ asked ∧
      .compared (listAt 0) (listAt 2) (.ok .lt) ∈ asked) ∧
    (compareValues (listAt 2) (listAt 0)).Returns 7 listStore .gt listStore := by
  have first : (listAt 0).Offered listStore [] := offered_cons (by decide +kernel)
  have second : (Value.list (.cons ⟨0⟩ ⟨8⟩)).Offered listStore [] :=
    offered_cons (by decide +kernel)
  have third : (listAt 2).Offered listStore [] := offered_cons (by decide +kernel)
  have returns := fun {left right outcome} =>
    (@(returns_of_order? 7 listStore 4).1 left right outcome)
  have near := returns
    (by decide +kernel : listStore.order? 4 (listAt 0) (.list (.cons ⟨0⟩ ⟨8⟩)) = some .eq)
  have far := returns
    (by decide +kernel : listStore.order? 4 (.list (.cons ⟨0⟩ ⟨8⟩)) (listAt 2) = some .lt)
  have outer := returns (by decide +kernel : listStore.order? 4 (listAt 0) (listAt 2) = some .lt)
  have asked := ((Workshop.start.ask (.compared (listAt 0) (.list (.cons ⟨0⟩ ⟨8⟩)) (.ok .eq))
    ⟨first, second⟩ near).ask (.compared (.list (.cons ⟨0⟩ ⟨8⟩)) (listAt 2) (.ok .lt))
    ⟨second, third⟩ far).ask (.compared (listAt 0) (listAt 2) (.ok .lt)) ⟨first, third⟩ outer
  obtain ⟨-, turned, -⟩ := compare_is_total_order asked
  exact ⟨⟨_, asked, by simp⟩, (turned (listAt 0) (listAt 2) .lt (by simp)).1⟩

/-- Equality and hashing agree, whatever the digest is.  If two values were found equal and
one of them has a hash, then the other has that hash, whenever it is asked for or was asked
for.  Numbers that are both none, and the two zeros, are equal and have one hash. -/
theorem equal_values_hash_alike
    (workshop : Workshop self ((Service.initial digest).run moves).store made asked store) :
    (∀ left right word,
      .equated left right (.ok true) ∈ asked →
      .hashed left (.ok word) ∈ asked →
      (hashValue right).Returns self store word store ∧
        ∀ outcome, .hashed right outcome ∈ asked → outcome = .ok word) ∧
    (∀ left right word,
      .equated left right (.ok true) ∈ asked →
      .hashed right (.ok word) ∈ asked →
      (hashValue left).Returns self store word store ∧
        ∀ outcome, .hashed left outcome ∈ asked → outcome = .ok word) ∧
    ∀ left right : Float,
      Number.isNaN left = true ∧ Number.isNaN right = true ∨
        Number.IsZero left ∧ Number.IsZero right →
      (equalValues (.number left) (.number right)).Returns self store true store ∧
        ∃ word,
          (hashValue (.number left)).Returns self store word store ∧
          (hashValue (.number right)).Returns self store word store := by
  obtain ⟨held, stage, rfl, -, -, holds⟩ := workshop.exists_stage
  -- Equality that can be read carries over a hash that was given.
  have carried : ∀ {bound left right word}, stage.Admits right →
      stage.store.order? bound left right = some .eq → .hashed left (.ok word) ∈ asked →
      (hashValue right).Returns self stage.store word stage.store ∧
        ∀ outcome, .hashed right outcome ∈ asked → outcome = .ok word := by
    intro bound left right word rightAdmits equal mem
    obtain ⟨leftAdmits, agrees⟩ := holds _ mem
    obtain ⟨depth, known⟩ := agrees.known
    have rightKnown := (hash?_of_order? stage bound depth).1 leftAdmits rightAdmits equal known
    refine ⟨(returns_of_hash? self stage.store depth).1 rightKnown, fun outcome rightMember => ?_⟩
    exact (holds _ rightMember).2.eq_of_known (.hash right) le_rfl rightKnown
  have equalities : ∀ {left right}, .equated left right (.ok true) ∈ asked →
      stage.Admits left ∧ stage.Admits right ∧
        ∃ bound, stage.store.order? bound left right = some .eq := by
    intro left right mem
    obtain ⟨leftAdmits, rightAdmits, agrees⟩ := holds _ mem
    obtain ⟨bound, known⟩ := agrees.known
    obtain ⟨outcome, orderKnown, isEqual⟩ := Option.bind_eq_some_iff.mp known
    obtain rfl : outcome = .eq := by simpa using isEqual
    exact ⟨leftAdmits, rightAdmits, bound, orderKnown⟩
  refine ⟨?_, ?_, ?_⟩
  · intro left right word mem hashMember
    obtain ⟨-, rightAdmits, bound, equal⟩ := equalities mem
    exact carried rightAdmits equal hashMember
  · intro left right word mem hashMember
    obtain ⟨leftAdmits, rightAdmits, bound, equal⟩ := equalities mem
    exact carried leftAdmits ((order?_lawful stage bound).swap leftAdmits rightAdmits equal)
      hashMember
  · intro left right alike
    exact Number.returns_of_key_eq self stage.store (Number.key_eq alike)

/-- The second list has no thunk of its own. -/
theorem equal_values_hash_alike_of_lists :
    ∃ word, (hashValue (listAt 0)).Returns 7 listStore word listStore ∧
      (hashValue (.list (.cons ⟨0⟩ ⟨8⟩))).Returns 7 listStore word listStore := by
  have first : (listAt 0).Offered listStore [] := offered_cons (by decide +kernel)
  have second : (Value.list (.cons ⟨0⟩ ⟨8⟩)).Offered listStore [] :=
    offered_cons (by decide +kernel)
  have equal := Store.returns_of_equal? 7
    (by decide +kernel : listStore.equal? 4 (listAt 0) (.list (.cons ⟨0⟩ ⟨8⟩)) = some true)
  obtain ⟨word, known⟩ := Option.isSome_iff_exists.mp
    (by decide +kernel : (listStore.hash? 4 (listAt 0)).isSome = true)
  have hashes := (returns_of_hash? 7 listStore 4).1 known
  have asked := (Workshop.start.ask (.equated (listAt 0) (.list (.cons ⟨0⟩ ⟨8⟩)) (.ok true))
    ⟨first, second⟩ equal).ask (.hashed (listAt 0) (.ok word)) first hashes
  obtain ⟨carried, -⟩ := equal_values_hash_alike asked
  exact ⟨word, hashes,
    (carried (listAt 0) (.list (.cons ⟨0⟩ ⟨8⟩)) word (by simp) (by simp)).1⟩

end Laws
end ByNeed
