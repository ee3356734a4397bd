import ByNeed.Proofs.Evaluator.Agreement

/-!
# Attempts that return

An attempt returns a result when its code ends with it and not with an error.  Attempts
are put together from smaller ones, and so are the reasons why they return.
-/

namespace ByNeed

open Code

variable {α β : Type} {self : Nat}

theorem Code.Runs.bind {code : Code α} :
    code.Runs self store reply between → reply = .ok result →
      (following result).Runs self between outcome after →
        (code.bind following).Runs self store outcome after
  | .done _ _, rfl, second => second
  | .act performed rest, same, second => .act performed (rest.bind same second)
  | .evaluate evaluates rest, same, second => .evaluate evaluates (rest.bind same second)
  | .call rest, same, second => .call (bind_assoc _ _ _ ▸ rest.bind same second)

theorem Code.Runs.bind_breakOff {code : Code α} :
    code.Runs self store reply after → reply = .error message → ∀ following : α → Code β,
      (code.bind following).Runs self store (.error message) after
  | .breakOff _ _, rfl, _ => .breakOff _ _
  | .act performed rest, same, following => .act performed (rest.bind_breakOff same following)
  | .evaluate evaluates rest, same, following =>
    .evaluate evaluates (rest.bind_breakOff same following)
  | .call rest, same, following =>
    .call (bind_assoc _ _ _ ▸ rest.bind_breakOff same following)

/-- Code whose first part is done runs as what follows does. -/
theorem Code.Runs.of_done_bind (runs : bound.Runs self store outcome after)
    (isBound : (Code.done first).bind following = bound) :
    ∃ result between, (Code.done first).Runs self store (.ok result) between ∧
      (following result).Runs self between outcome after :=
  ⟨first, store, .done first store, by rwa [← isBound] at runs⟩

/-- The first part of code has run before what follows, or it has broken off. -/
theorem Code.Runs.of_bind {code : Code α}
    (runs : (code.bind following).Runs self store outcome after) :
    (∃ result between, code.Runs self store (.ok result) between ∧
      (following result).Runs self between outcome after) ∨
    ∃ message, code.Runs self store (.error message) after ∧ outcome = .error message := by
  generalize isBound : code.bind following = bound at runs
  induction runs using Code.Runs.stepInduction generalizing α code with
  | done result store =>
    cases code with
    | done first => exact .inl (Code.Runs.of_done_bind (.done result store) isBound)
    | _ => cases isBound
  | breakOff message store =>
    cases code with
    | done first => exact .inl (Code.Runs.of_done_bind (.breakOff message store) isBound)
    | breakOff text =>
      cases isBound
      exact .inr ⟨message, .breakOff message store, rfl⟩
    | _ => cases isBound
  | act performed rest ih =>
    cases code with
    | done first => exact .inl (Code.Runs.of_done_bind (.act performed rest) isBound)
    | act action next =>
      cases isBound
      exact (ih rfl).imp (fun ⟨result, between, first, second⟩ =>
          ⟨result, between, .act performed first, second⟩)
        (fun ⟨message, first, same⟩ => ⟨message, .act performed first, same⟩)
    | _ => cases isBound
  | evaluate evaluates rest ih =>
    cases code with
    | done first => exact .inl (Code.Runs.of_done_bind (.evaluate evaluates rest) isBound)
    | evaluate thunk next =>
      cases isBound
      exact (ih rfl).imp (fun ⟨result, between, first, second⟩ =>
          ⟨result, between, .evaluate evaluates first, second⟩)
        (fun ⟨message, first, same⟩ => ⟨message, .evaluate evaluates first, same⟩)
    | _ => cases isBound
  | call rest ih =>
    cases code with
    | done first => exact .inl (Code.Runs.of_done_bind (.call rest) isBound)
    | call routine next =>
      cases isBound
      exact (ih (bind_assoc _ _ _)).imp (fun ⟨result, between, first, second⟩ => ⟨result,
        between, .call first, second⟩) (fun ⟨message, first, same⟩ => ⟨message, .call first, same⟩)
    | _ => cases isBound

theorem Code.Runs.call_done (runs : routine.body.Runs self store outcome after) :
    (Code.call routine .done).Runs self store outcome after :=
  .call (bind_done _ ▸ runs)

theorem Code.ends_call_done_iff :
    (Code.call routine .done).Ends self store outcome after ↔
      routine.body.Ends self store outcome after := by
  rw [ends_iff_runs, ends_iff_runs]
  refine ⟨fun runs => ?_, fun runs => .call_done runs⟩
  obtain _ | _ | _ | _ | rest := runs
  rwa [bind_done] at rest

namespace Attempt

/-- An attempt returns a result. -/
def Returns (self : Nat) (attempt : Attempt α) (store : Store) (result : α)
    (after : Store) : Prop :=
  attempt.run.Ends self store (.ok (.ok result)) after

variable {store between after : Store} {attempt : Attempt α} {result : α}

theorem returns_iff_runs :
    attempt.Returns self store result after ↔
      attempt.run.Runs self store (.ok (.ok result)) after :=
  ends_iff_runs

theorem Returns.nextIdentity_le (returns : attempt.Returns self store result after) :
    store.nextIdentity ≤ after.nextIdentity :=
  (returns_iff_runs.mp returns).nextIdentity_le

theorem Returns.unique (returns : attempt.Returns self store result after)
    (returnsToo : attempt.Returns self store other left) : result = other ∧ after = left := by
  obtain ⟨results, stores⟩ := Code.Ends.unique returns returnsToo
  exact ⟨Except.ok.inj (Except.ok.inj results), stores⟩

theorem returns_pure (result : α) (store : Store) :
    (pure result : Attempt α).Returns self store result store :=
  returns_iff_runs.mpr (.done _ store)

theorem Returns.bind_ends (returns : attempt.Returns self store result between)
    (ends : (following result).run.Ends self between outcome after) :
    (attempt >>= following).run.Ends self store outcome after := by
  rw [ends_iff_runs] at ends ⊢
  exact (returns_iff_runs.mp returns).bind rfl ends

theorem Returns.bind (first : attempt.Returns self store result between)
    (second : (following result).Returns self between final after) :
    (attempt >>= following).Returns self store final after :=
  first.bind_ends second

theorem Returns.map (function : α → β) (returns : attempt.Returns self store result after) :
    (do return function (← attempt) : Attempt β).Returns self store (function result) after :=
  returns.bind (returns_pure _ after)

theorem returns_lift {code : Code α} (runs : code.Runs self store (.ok result) after) :
    Returns self (ExceptT.lift code) store result after :=
  returns_iff_runs.mpr (runs.bind rfl (.done _ after))

/-- An action that replies. -/
theorem returns_perform {reply : action.Reply}
    (performed : action.perform store = (some reply, after)) :
    Returns self (ExceptT.lift (.perform action)) store reply after :=
  returns_lift (.act performed (.done reply after))

/-- A node is made with the identity handed out next. -/
theorem returns_make (node : Nat → Trie Value Thunk) (store : Store) :
    (Trie.make node).Returns self store (node store.nextIdentity) store.takeIdentity.2 :=
  (returns_perform rfl).bind (returns_pure _ _)

theorem returns_force (evaluated : store.slot thunk = .evaluated value) :
    Returns self (ExceptT.lift (force thunk)) store value.purely store :=
  returns_lift (.evaluate (.memoized evaluated) (.done _ store))

/-! ## Failing -/

/-- An attempt fails with an error. -/
def Fails (self : Nat) (attempt : Attempt α) (store : Store) (failure : Error)
    (after : Store) : Prop :=
  attempt.run.Ends self store (.ok (.error failure)) after

theorem fails_throw (failure : Error) (store : Store) :
    Fails self (throw failure : Attempt α) store failure store :=
  ends_iff_runs.mpr (.done _ store)

/-- An error is passed on. -/
theorem Fails.bind {failure : Error} (fails : attempt.Fails self store failure after)
    (following : α → Attempt β) : (attempt >>= following).Fails self store failure after :=
  ends_iff_runs.mpr ((ends_iff_runs.mp fails).bind rfl (.done _ after))

theorem Returns.bind_fails {failure : Error} (returns : attempt.Returns self store result between)
    (fails : (following result).Fails self between failure after) :
    (attempt >>= following).Fails self store failure after :=
  returns.bind_ends fails

/-- An attempt fails exactly when another does, with the same error, and it returns when the
other does. -/
structure HingesOn (number : Nat) (store : Store) (attempt : Attempt β) (first : Attempt α) :
    Prop where
  fails_iff : ∀ {failure after},
    attempt.Fails number store failure after ↔ first.Fails number store failure after
  returns : ∀ {result between}, first.Returns number store result between →
    ∃ final after, attempt.Returns number store final after

theorem Returns.of_bind (returns : (attempt >>= following).Returns self store final after) :
    ∃ result between, attempt.Returns self store result between ∧
      (following result).Returns self between final after := by
  rcases Code.Runs.of_bind (returns_iff_runs.mp returns) with
    ⟨outcome, between, first, second⟩ | ⟨message, -, same⟩
  · cases outcome with
    | ok result => exact ⟨result, between, returns_iff_runs.mpr first, returns_iff_runs.mpr second⟩
    | error error =>
      obtain ⟨same, -⟩ := Code.Ends.unique (ends_iff_runs.mpr second)
        (fails_throw error between)
      cases same
  · cases same

theorem Returns.not_fails {failure : Error} (returns : attempt.Returns self store result between) :
    ¬attempt.Fails self store failure after := by
  intro fails
  obtain ⟨same, -⟩ := Code.Ends.unique returns fails
  cases same

theorem hingesOn_bind {following : α → Attempt β}
    (follows : ∀ result between, attempt.Returns self store result between →
      ∃ final later, (following result).Returns self between final later) :
    (attempt >>= following).HingesOn self store attempt where
  fails_iff := by
    intro failure after
    refine ⟨fun fails => ?_, fun fails => fails.bind following⟩
    rcases Code.Runs.of_bind (ends_iff_runs.mp fails) with
      ⟨outcome, between, first, second⟩ | ⟨message, -, same⟩
    · cases outcome with
      | ok result =>
        obtain ⟨final, later, returns⟩ := follows result between (returns_iff_runs.mpr first)
        exact absurd (ends_iff_runs.mpr second) returns.not_fails
      | error error =>
        obtain ⟨same, rfl⟩ := Code.Ends.unique (ends_iff_runs.mpr second)
          (fails_throw error between)
        cases same
        exact ends_iff_runs.mpr first
    · cases same
  returns := by
    intro result between returns
    obtain ⟨final, later, rest⟩ := follows result between returns
    exact ⟨final, later, returns.bind rest⟩

theorem HingesOn.trans {third : Attempt γ} (left : third.HingesOn self store second)
    (right : second.HingesOn self store attempt) : third.HingesOn self store attempt where
  fails_iff := left.fails_iff.trans right.fails_iff
  returns returns := by
    obtain ⟨result, between, second⟩ := right.returns returns
    exact left.returns second

theorem Returns.ends_bind_iff {following : α → Attempt β}
    (returns : attempt.Returns self store result between)
    (outcome : Except String (Except Error β)) (after : Store) :
    (attempt >>= following).run.Ends self store outcome after ↔
      (following result).run.Ends self between outcome after := by
  refine ⟨fun ends => ?_, returns.bind_ends⟩
  rcases Code.Runs.of_bind (ends_iff_runs.mp ends) with
    ⟨found, left, first, second⟩ | ⟨message, first, -⟩
  · obtain ⟨same, rfl⟩ := Code.Ends.unique returns (ends_iff_runs.mpr first)
    cases same
    exact ends_iff_runs.mpr second
  · obtain ⟨same, -⟩ := Code.Ends.unique returns (ends_iff_runs.mpr first)
    cases same

theorem ends_bind_congr {first second : α → Attempt β}
    (alike : ∀ result between, attempt.Returns self store result between →
      ((first result).run.Ends self between outcome after ↔
        (second result).run.Ends self between outcome after)) :
    (attempt >>= first).run.Ends self store outcome after ↔
      (attempt >>= second).run.Ends self store outcome after := by
  have passes : ∀ {one other : α → Attempt β},
      (∀ result between, attempt.Returns self store result between →
        (one result).run.Ends self between outcome after →
          (other result).run.Ends self between outcome after) →
      (attempt >>= one).run.Ends self store outcome after →
        (attempt >>= other).run.Ends self store outcome after := by
    intro one other carries ends
    rcases Code.Runs.of_bind (ends_iff_runs.mp ends) with
      ⟨reply, between, ran, rest⟩ | ⟨message, ran, rfl⟩
    · cases reply with
      | ok result =>
        have returns := returns_iff_runs.mpr ran
        exact returns.bind_ends (carries result between returns (ends_iff_runs.mpr rest))
      | error failure => exact ends_iff_runs.mpr (ran.bind rfl rest)
    · exact ends_iff_runs.mpr (ran.bind_breakOff rfl _)
  exact ⟨passes fun result between returns => (alike result between returns).mp,
    passes fun result between returns => (alike result between returns).mpr⟩

theorem returns_elements {list : LazyList}
    (returns : list.elementsStep.Returns self store elements after) :
    list.elements.Returns self store elements after :=
  returns_iff_runs.mpr (.call_done (returns_iff_runs.mp returns))

theorem returns_hashValue {hash : UInt64} (returns : value.hash.Returns self store hash after) :
    (hashValue value).Returns self store hash after :=
  returns_iff_runs.mpr (.call_done (returns_iff_runs.mp returns))

theorem returns_hashElements (returns : list.hashes.Returns self store hashes after) :
    Returns self (.ofCode (.call (.hashElements list) .done)) store hashes after :=
  returns_iff_runs.mpr (.call_done (returns_iff_runs.mp returns))

theorem returns_compareValues (returns : (left.compare right).Returns self store order after) :
    (compareValues left right).Returns self store order after :=
  returns_iff_runs.mpr (.call_done (returns_iff_runs.mp returns))

theorem returns_compareLists (returns : (left.compare right).Returns self store order after) :
    Returns self (.ofCode (.call (.compareLists left right) .done)) store order after :=
  returns_iff_runs.mpr (.call_done (returns_iff_runs.mp returns))

end Attempt
end ByNeed
