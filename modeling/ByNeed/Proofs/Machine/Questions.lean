import ByNeed.Machine.Thread

/-!
# What code asks for

`Code.After` follows code through any replies and any answers, so what it says holds in every run.
Calls of routines are followed into their bodies; what is evaluated to find an answer is no part of
it.  The questions of code put together are those of the first part, and then of what follows.
-/

namespace ByNeed

open Code

variable {α β : Type}

/-- Thunks that were asked for, with the answers, in order. -/
abbrev Asked := List (Thunk × Value)

namespace Code

/-- Code goes on as other code once it has asked for some thunks. -/
inductive After : Code α → Asked → Code α → Prop
  | start (code : Code α) : After code [] code
  | act {action : Action} {next : action.Reply → Code α} {asked : Asked} {rest : Code α}
      (reply : action.Reply)
      (after : After (next reply) asked rest) :
      After (.act action next) asked rest
  | evaluate {thunk : Thunk} {next : Value → Code α} {asked : Asked} {rest : Code α}
      (answer : Value)
      (after : After (next answer) asked rest) :
      After (.evaluate thunk next) ((thunk, answer) :: asked) rest
  | call {routine : Routine} {next : routine.Reply → Code α} {asked : Asked} {rest : Code α}
      (after : After (routine.body.bind next) asked rest) :
      After (.call routine next) asked rest

/-- Code asks for a thunk, having asked for some others. -/
def Asks (code : Code α) (asked : Asked) (thunk : Thunk) : Prop :=
  ∃ next, code.After asked (.evaluate thunk next)

/-- Code ends with a result, having asked for some thunks. -/
def Yields (code : Code α) (asked : Asked) (result : α) : Prop :=
  code.After asked (.done result)

variable {code rest : Code α} {asked : Asked} {thunk : Thunk} {result : α}
  {following : α → Code β}
variable {action : Action} {routine : Routine}

theorem After.trans (first : code.After asked between) (second : between.After further rest) :
    code.After (asked ++ further) rest := by
  induction first with
  | start code => exact second
  | act reply _ ih => exact .act reply (ih second)
  | evaluate answer _ ih => exact .evaluate answer (ih second)
  | call _ ih => exact .call (ih second)

/-- Code whose first part is done goes on as what follows does. -/
theorem After.of_done_bind {bound rest : Code β} (after : bound.After asked rest)
    (isBound : (done result).bind following = bound) :
    ∃ before further found, asked = before ++ further ∧ (done result).Yields before found ∧
      (following found).After further rest :=
  ⟨[], asked, result, rfl, .start _, by rwa [← isBound] at after⟩

/-- Code put together goes on within its first part, or within what follows the result of
the first part. -/
theorem After.of_bind {rest : Code β} (after : (code.bind following).After asked rest) :
    (∃ left, code.After asked left ∧ left.bind following = rest) ∨
      ∃ before further result, asked = before ++ further ∧ code.Yields before result ∧
        (following result).After further rest := by
  generalize isBound : code.bind following = bound at after
  induction after generalizing α with
  | start bound => exact .inl ⟨code, .start code, isBound⟩
  | act reply after ih =>
    cases code with
    | done result => exact .inr (After.of_done_bind (.act reply after) isBound)
    | act action next =>
      cases isBound
      rcases ih rfl with ⟨left, first, same⟩ | ⟨before, further, result, same, first, second⟩
      · exact .inl ⟨left, .act reply first, same⟩
      · exact .inr ⟨before, further, result, same, .act reply first, second⟩
    | _ => cases isBound
  | evaluate answer after ih =>
    cases code with
    | done result => exact .inr (After.of_done_bind (.evaluate answer after) isBound)
    | evaluate thunk next =>
      cases isBound
      rcases ih rfl with ⟨left, first, same⟩ | ⟨before, further, result, same, first, second⟩
      · exact .inl ⟨left, .evaluate answer first, same⟩
      · exact .inr ⟨(_, answer) :: before, further, result, by rw [same, List.cons_append],
          .evaluate answer first, second⟩
    | _ => cases isBound
  | call after ih =>
    cases code with
    | done result => exact .inr (After.of_done_bind (.call after) isBound)
    | call routine next =>
      cases isBound
      rcases ih (bind_assoc _ _ _) with ⟨left, first, same⟩ |
        ⟨before, further, result, same, first, second⟩
      · exact .inl ⟨left, .call first, same⟩
      · exact .inr ⟨before, further, result, same, .call first, second⟩
    | _ => cases isBound

/-! ## Laws of questions and results -/

@[simp] theorem yields_done : (done result).Yields asked other ↔ asked = [] ∧ other = result := by
  constructor
  · rintro ⟨⟩
    exact ⟨rfl, rfl⟩
  · rintro ⟨rfl, rfl⟩
    exact .start _

@[simp] theorem not_asks_done : ¬(done result).Asks asked thunk := by
  rintro ⟨next, ⟨⟩⟩

@[simp] theorem yields_act :
    (act action next).Yields asked result ↔ ∃ reply, (next reply).Yields asked result := by
  constructor
  · rintro (_ | ⟨reply, after⟩)
    exact ⟨reply, after⟩
  · rintro ⟨reply, after⟩
    exact .act reply after

@[simp] theorem asks_act :
    (act action next).Asks asked thunk ↔ ∃ reply, (next reply).Asks asked thunk := by
  constructor
  · rintro ⟨_, _ | ⟨reply, after⟩⟩
    exact ⟨reply, _, after⟩
  · rintro ⟨reply, _, after⟩
    exact ⟨_, .act reply after⟩

theorem yields_evaluate :
    (evaluate thunk next).Yields asked result ↔
      ∃ answer further, asked = (thunk, answer) :: further ∧
        (next answer).Yields further result := by
  constructor
  · rintro (_ | _ | ⟨answer, after⟩)
    exact ⟨answer, _, rfl, after⟩
  · rintro ⟨answer, further, rfl, after⟩
    exact .evaluate answer after

theorem asks_evaluate :
    (evaluate first next).Asks asked thunk ↔ (asked = [] ∧ thunk = first) ∨
        ∃ answer further, asked = (first, answer) :: further ∧
          (next answer).Asks further thunk := by
  constructor
  · rintro ⟨_, _ | _ | ⟨answer, after⟩⟩
    · exact .inl ⟨rfl, rfl⟩
    · exact .inr ⟨answer, _, rfl, _, after⟩
  · rintro (⟨rfl, rfl⟩ | ⟨answer, further, rfl, _, after⟩)
    · exact ⟨next, .start _⟩
    · exact ⟨_, .evaluate answer after⟩

theorem yields_call :
    (call routine next).Yields asked result ↔ (routine.body.bind next).Yields asked result := by
  constructor
  · rintro (_ | _ | _ | after)
    exact after
  · exact .call

theorem asks_call :
    (call routine next).Asks asked thunk ↔ (routine.body.bind next).Asks asked thunk := by
  constructor
  · rintro ⟨_, _ | _ | _ | after⟩
    exact ⟨_, after⟩
  · rintro ⟨_, after⟩
    exact ⟨_, .call after⟩

theorem Yields.of_bind {outcome : β} (yields : (code.bind following).Yields asked outcome) :
    ∃ before further result, asked = before ++ further ∧ code.Yields before result ∧
      (following result).Yields further outcome := by
  rcases After.of_bind yields with ⟨left, after, same⟩ | found
  · cases left with
    | done result =>
      rw [done_bind] at same
      exact ⟨asked, [], result, (List.append_nil asked).symm, after, same ▸ .start _⟩
    | _ => cases same
  · exact found

theorem Asks.of_bind (asks : (code.bind following).Asks asked thunk) :
    code.Asks asked thunk ∨
      ∃ before further result, asked = before ++ further ∧ code.Yields before result ∧
        (following result).Asks further thunk := by
  obtain ⟨next, after⟩ := asks
  rcases After.of_bind after with
    ⟨left, afterFirst, same⟩ | ⟨before, further, result, same, yields, asks⟩
  · cases left with
    | done result =>
      rw [done_bind] at same
      exact .inr ⟨asked, [], result, (List.append_nil asked).symm, afterFirst, next,
        same ▸ .start _⟩
    | evaluate first following =>
      cases same
      exact .inl ⟨_, afterFirst⟩
    | _ => cases same
  · exact .inr ⟨before, further, result, same, yields, next, asks⟩

/-! ## Code that asks for nothing -/

/-- Code asks for nothing, and its results are of a kind. -/
structure Quiet (kind : α → Prop) (code : Code α) : Prop where
  asks : ∀ asked thunk, ¬code.Asks asked thunk
  yields : ∀ asked result, code.Yields asked result → asked = [] ∧ kind result

namespace Quiet

variable {kind : α → Prop} {others : β → Prop}

theorem done (isKind : kind result) : (Code.done result).Quiet kind where
  asks asked thunk := not_asks_done
  yields asked other yields := by
    obtain ⟨rfl, rfl⟩ := yields_done.mp yields
    exact ⟨rfl, isKind⟩

theorem act (quiet : ∀ reply, (next reply).Quiet kind) : (Code.act action next).Quiet kind where
  asks asked thunk asks := by
    obtain ⟨reply, asks⟩ := asks_act.mp asks
    exact (quiet reply).asks asked thunk asks
  yields asked result yields := by
    obtain ⟨reply, yields⟩ := yields_act.mp yields
    exact (quiet reply).yields asked result yields

theorem bind (first : code.Quiet kind)
    (second : ∀ result, kind result → (following result).Quiet others) :
    (code.bind following).Quiet others where
  asks asked thunk asks := by
    rcases asks.of_bind with asks | ⟨before, further, result, -, yields, asks⟩
    · exact first.asks asked thunk asks
    · exact (second result (first.yields before result yields).2).asks further thunk asks
  yields asked outcome yields := by
    obtain ⟨before, further, result, rfl, yields, yieldsThen⟩ := yields.of_bind
    obtain ⟨rfl, isKind⟩ := first.yields before result yields
    exact (second result isKind).yields further outcome yieldsThen

theorem call (quiet : (routine.body.bind next).Quiet kind) :
    (Code.call routine next).Quiet kind where
  asks asked thunk asks := quiet.asks asked thunk (asks_call.mp asks)
  yields asked result yields := quiet.yields asked result (yields_call.mp yields)

end Quiet
end Code

/-! ## Attempts -/

namespace Attempt

variable {attempt : Attempt α} {following : α → Attempt β} {asked : Asked} {thunk : Thunk}
variable {result : α} {outcome : Except Error α}

/-- An attempt asks for a thunk, having asked for some others. -/
def Asks (attempt : Attempt α) (asked : Asked) (thunk : Thunk) : Prop :=
  attempt.run.Asks asked thunk

/-- An attempt ends with a result or an error, having asked for some thunks. -/
def Yields (attempt : Attempt α) (asked : Asked) (outcome : Except Error α) : Prop :=
  attempt.run.Yields asked outcome

/-- An attempt asks for nothing, and what it returns is of a kind. -/
def Quiet (kind : α → Prop) (attempt : Attempt α) : Prop :=
  attempt.run.Quiet fun outcome => ∀ result, outcome = .ok result → kind result

theorem yields_pure :
    (pure result : Attempt α).Yields asked outcome ↔ asked = [] ∧ outcome = .ok result :=
  yields_done

theorem not_asks_pure : ¬(pure result : Attempt α).Asks asked thunk :=
  not_asks_done

theorem yields_throw {failure : Error} :
    (throw failure : Attempt α).Yields asked outcome ↔ asked = [] ∧ outcome = .error failure :=
  yields_done

theorem not_asks_throw {failure : Error} : ¬(throw failure : Attempt α).Asks asked thunk :=
  not_asks_done

/-- Code that cannot fail ends with a result. -/
theorem Yields.of_lift (yields : Attempt.Yields (ExceptT.lift code) asked outcome) :
    ∃ result, outcome = .ok result ∧ code.Yields asked result := by
  obtain ⟨before, further, result, rfl, first, second⟩ := Code.Yields.of_bind yields
  obtain ⟨rfl, rfl⟩ := yields_done.mp second
  exact ⟨result, rfl, by rwa [List.append_nil]⟩

/-- An attempt put together fails in its first part, or ends as what follows does. -/
theorem Yields.of_bind {outcome : Except Error β}
    (yields : (attempt >>= following).Yields asked outcome) :
    (∃ failure, outcome = .error failure ∧ attempt.Yields asked (.error failure)) ∨
      ∃ before further result, asked = before ++ further ∧ attempt.Yields before (.ok result) ∧
        (following result).Yields further outcome := by
  obtain ⟨before, further, result, same, first, second⟩ := Code.Yields.of_bind yields
  cases result with
  | error failure =>
    obtain ⟨rfl, rfl⟩ := yields_done.mp second
    rw [List.append_nil] at same
    exact .inl ⟨failure, rfl, same ▸ first⟩
  | ok result => exact .inr ⟨before, further, result, same, first, second⟩

/-- An attempt put together asks what its first part does, and then what follows does. -/
theorem Asks.of_bind (asks : (attempt >>= following).Asks asked thunk) :
    attempt.Asks asked thunk ∨
      ∃ before further result, asked = before ++ further ∧ attempt.Yields before (.ok result) ∧
        (following result).Asks further thunk := by
  rcases Code.Asks.of_bind asks with asks | ⟨before, further, result, same, first, asks⟩
  · exact .inl asks
  · cases result with
    | error failure => exact absurd asks not_asks_done
    | ok result => exact .inr ⟨before, further, result, same, first, asks⟩

namespace Quiet

variable {kind : α → Prop} {others : β → Prop}

theorem pure (isKind : kind result) : (pure result : Attempt α).Quiet kind :=
  Code.Quiet.done fun _ same => Except.ok.inj same ▸ isKind

theorem throw (failure : Error) : (throw failure : Attempt α).Quiet kind :=
  Code.Quiet.done fun _ same => by cases same

theorem bind (first : attempt.Quiet kind)
    (second : ∀ result, kind result → (following result).Quiet others) :
    (attempt >>= following).Quiet others := by
  refine Code.Quiet.bind first fun outcome isKind => ?_
  cases outcome with
  | error failure => exact throw failure
  | ok result => exact second result (isKind result rfl)

theorem lift (quiet : code.Quiet kind) : Attempt.Quiet kind (ExceptT.lift code) :=
  Code.Quiet.bind quiet fun _ isKind => pure isKind

end Quiet
end Attempt
end ByNeed
