import ByNeed.Proofs.Calls.Arity

/-!
# The course of a call

A call binds its arguments, and fails if this does.  Otherwise its body is run on one thunk for each
parameter: as they are, or, for a strict body, once they have been evaluated in order.  The call of
an effectful function makes an effect that holds the body.  This holds of the code of a call,
whatever it is told, and so of every call in every run.
-/

namespace ByNeed

open List

variable {asked : Asked}
variable {bound : List Thunk} {thunk : Thunk} {answer : Value} {run : List Value → Attempt Thunk}
variable {computation : Suspension}

/-- How a body takes its parameters, and what it does with them. -/
inductive Implementation where
  | byNeed (run : List Thunk → Attempt Thunk)
  | strict (run : List Value → Attempt Thunk)

/-- The implementation of a body, where parameters have names. -/
def Body.implementation (names : List String) : Body → Implementation
  | .lazyPrimitive operation => .byNeed operation.run
  | .strictPrimitive operation => .strict operation.run
  | .lazyExpr scope expr => .byNeed fun bound => build expr (scope.bindAll names bound)
  | .strictExpr scope expr => .strict fun values => do
      let thunks ← ExceptT.lift (values.mapM newValue)
      build expr (scope.bindAll names thunks)

/-- Run an implementation on bound parameters. -/
def Implementation.invoke (bound : List Thunk) : Implementation → Attempt Thunk
  | .byNeed run => run bound
  | .strict run => do run (← forceParameters bound)

theorem Body.invoke_eq (body : Body) (names : List String) (bound : List Thunk) :
    body.invoke names bound = (body.implementation names).invoke bound := by
  cases body <;> rfl

/-! ## Strict parameters -/

/-- Thunks were asked for in order, and they gave values that are neither errors nor effects. -/
structure Asked.Gives (asked : Asked) (thunks : List Thunk) (values : List Value) : Prop where
  thunks_eq : asked.map Prod.fst = thunks
  values_eq : asked.map (fun question => question.2.purely) = values
  plain : ∀ value ∈ values, value.kind ≠ .error ∧ value.kind ≠ .effect

/-- Where code stands that runs an implementation on bound parameters, once it has asked for
some thunks. -/
inductive Implementation.Course :
    Implementation → List Thunk → Asked → Code (Except Error Thunk) → Prop
  /-- Parameters are passed as they are. -/
  | byNeed {run : List Thunk → Attempt Thunk} {bound : List Thunk} {asked : Asked}
      {rest : Code (Except Error Thunk)}
      (after : (run bound).run.After asked rest) :
      Course (.byNeed run) bound asked rest
  /-- The parameters before one were evaluated, and this one comes next. -/
  | forcing {run : List Value → Attempt Thunk} {before behind : List Thunk} {thunk : Thunk}
      {asked : Asked} {values : List Value} {next : Value → Code (Except Error Thunk)}
      (gives : asked.Gives before values) :
      Course (.strict run) (before ++ thunk :: behind) asked (.evaluate thunk next)
  /-- One gave an error, which is the result. -/
  | refused {run : List Value → Attempt Thunk} {before behind : List Thunk} {thunk : Thunk}
      {asked : Asked} {values : List Value} {answer : Value} {failure : Error}
      (gives : asked.Gives before values)
      (fails : answer.purely = .error failure) :
      Course (.strict run) (before ++ thunk :: behind) (asked ++ [(thunk, answer)])
        (.done (.error failure))
  /-- All were evaluated, and their values are passed. -/
  | strict {run : List Value → Attempt Thunk} {bound : List Thunk} {asked further : Asked}
      {values : List Value} {rest : Code (Except Error Thunk)}
      (gives : asked.Gives bound values)
      (after : (run values).run.After further rest) :
      Course (.strict run) bound (asked ++ further) rest

theorem Value.purely_kind_ne_effect (value : Value) : value.purely.kind ≠ .effect := by
  cases value <;> simp [purely, kind, fault]

namespace Asked.Gives

theorem nil : Asked.Gives [] [] [] :=
  ⟨rfl, rfl, fun _ mem => by cases mem⟩

theorem cons (gives : asked.Gives thunks values) (isPlain : answer.purely.kind ≠ .error) :
    Asked.Gives ((thunk, answer) :: asked) (thunk :: thunks) (answer.purely :: values) where
  thunks_eq := congrArg (thunk :: ·) gives.thunks_eq
  values_eq := congrArg (answer.purely :: ·) gives.values_eq
  plain := forall_mem_cons.mpr ⟨⟨isPlain, answer.purely_kind_ne_effect⟩, gives.plain⟩

end Asked.Gives

/-- One more parameter in front, which gave a value. -/
theorem Implementation.Course.cons
    (course : Course (.strict fun values => run (answer.purely :: values)) bound asked rest)
    (isPlain : answer.purely.kind ≠ .error) :
    Course (.strict run) (thunk :: bound) ((thunk, answer) :: asked) rest := by
  cases course with
  | @forcing _ before _ _ _ _ _ gives => exact forcing (gives.cons isPlain)
  | refused gives fails => exact refused (gives.cons isPlain) fails
  | strict gives after => exact strict (gives.cons isPlain) after

theorem forceParameters_cons_run (thunk : Thunk) (bound : List Thunk)
    (run : List Value → Attempt Thunk) :
    (forceParameters (thunk :: bound) >>= run).run = .evaluate thunk fun answer =>
      (Attempt.ofExcept answer.purely.check >>= fun value =>
        forceParameters bound >>= fun values => run (value :: values)).run := by
  rw [forceParameters, mapM_cons]
  simp only [bind_assoc, pure_bind]
  rfl

theorem Value.check_cases (value : Value) :
    (∃ failure, value = .error failure) ∨ (value.kind ≠ .error ∧ value.check = .ok value) := by
  cases value with
  | error failure => exact .inl ⟨failure, rfl⟩
  | _ => exact .inr ⟨by simp [kind], rfl⟩

theorem Implementation.course_of_strict
    (after : (forceParameters bound >>= run).run.After asked rest) :
    Course (.strict run) bound asked rest := by
  induction bound generalizing asked run with
  | nil => exact .strict .nil after
  | cons thunk bound ih =>
    rw [forceParameters_cons_run] at after
    cases after with
    | start =>
      have course : ∀ next, Course (.strict run) ([] ++ thunk :: bound) [] (.evaluate thunk next) :=
        fun _ => .forcing .nil
      exact course _
    | evaluate answer after =>
      rcases answer.purely.check_cases with ⟨failure, fails⟩ | ⟨isPlain, checked⟩
      · simp only [fails] at after
        cases after
        have course : Course (.strict run) ([] ++ thunk :: bound) ([] ++ [(thunk, answer)])
            (.done (.error failure)) :=
          .refused .nil fails
        exact course
      · simp only [checked] at after
        exact (ih after).cons isPlain

/-- Wherever an implementation has got to, it stands in its course. -/
theorem Implementation.course_of_after {implementation : Implementation}
    (after : (implementation.invoke bound).run.After asked rest) :
    implementation.Course bound asked rest := by
  cases implementation with
  | byNeed run => exact .byNeed after
  | strict run => exact course_of_strict after

/-! ## Calls -/

/-- Where the code of a call stands once it has asked for some thunks. -/
inductive Function.Course :
    Function → Arguments → Asked → Code (Except Error Thunk) → Prop
  /-- The arguments come behind those that are fixed. -/
  | fixing {identity : Nat} {target : Function} {fixed arguments : Arguments} {asked : Asked}
      {rest : Code (Except Error Thunk)}
      (course : Course target (fixed.merge arguments) asked rest) :
      Course (.fixing identity target fixed) arguments asked rest
  /-- Binding goes on. -/
  | binding {identity : Nat} {name : String} {signature : Signature} {effectful : Bool}
      {body : Body} {arguments : Arguments} {asked : Asked}
      {left : Code (Except Error (List Thunk))}
      {following : Except Error (List Thunk) → Code (Except Error Thunk)}
      (after : (signature.bind arguments).run.After asked left)
      (unfinished : ∀ outcome, left ≠ .done outcome) :
      Course (.plain identity name signature effectful body) arguments asked (left.bind following)
  /-- Binding failed, and its error is the result. -/
  | unbound {identity : Nat} {name : String} {signature : Signature} {effectful : Bool}
      {body : Body} {arguments : Arguments} {asked : Asked} {failure : Error}
      (fails : (signature.bind arguments).Yields asked (.error failure)) :
      Course (.plain identity name signature effectful body) arguments asked
        (.done (.error failure))
  /-- Binding gave a thunk for each parameter, and an effect is made that holds the body. -/
  | effect {identity : Nat} {name : String} {signature : Signature} {body : Body}
      {arguments : Arguments} {asked : Asked} {bound : List Thunk}
      {rest : Code (Except Error Thunk)}
      (binds : (signature.bind arguments).Yields asked (.ok bound))
      (length_eq : bound.length = signature.arity)
      (after : Code.After
        (ExceptT.run do newEffect (← suspend (.invoke body signature.names bound))) [] rest) :
      Course (.plain identity name signature true body) arguments asked rest
  /-- Binding gave a thunk for each parameter, and the body is run on them. -/
  | body {identity : Nat} {name : String} {signature : Signature} {body : Body}
      {arguments : Arguments} {before further : Asked} {bound : List Thunk}
      {rest : Code (Except Error Thunk)}
      (binds : (signature.bind arguments).Yields before (.ok bound))
      (length_eq : bound.length = signature.arity)
      (course : (body.implementation signature.names).Course bound further rest) :
      Course (.plain identity name signature false body) arguments (before ++ further) rest

/-- Code put together goes on within its first part, or its first part has ended. -/
theorem Code.After.of_bind_unfinished {code : Code α} {following : α → Code β} {rest : Code β}
    (after : (code.bind following).After asked rest) :
    (∃ left, code.After asked left ∧ (∀ result, left ≠ .done result) ∧ left.bind following = rest) ∨
      ∃ before further result, asked = before ++ further ∧ code.Yields before result ∧
        (following result).After further rest := by
  rcases after.of_bind with ⟨left, within, rfl⟩ | ended
  · by_cases isDone : ∃ result, left = .done result
    · obtain ⟨result, rfl⟩ := isDone
      exact .inr ⟨asked, [], result, (append_nil asked).symm, within, .start _⟩
    · exact .inl ⟨left, within, fun result same => isDone ⟨result, same⟩, rfl⟩
  · exact .inr ended

theorem asked_eq_nil_of_newEffect
    (after : Code.After (ExceptT.run (do newEffect (← suspend computation) : Attempt Thunk))
      asked rest) : asked = [] := by
  cases after with
  | start => rfl
  | act payload after =>
    cases after with
    | start => rfl
    | act identity after =>
      cases after with
      | start => rfl
      | act thunk after =>
        cases after
        rfl

theorem Function.course_of_after {callee : Function} {arguments : Arguments}
    {rest : Code (Except Error Thunk)} (after : (callee.call arguments).run.After asked rest) :
    callee.Course arguments asked rest := by
  induction callee generalizing arguments with
  | fixing identity target fixed ih => exact .fixing (ih after)
  | plain identity name signature effectful body =>
    rcases Code.After.of_bind_unfinished after with
      ⟨left, within, unfinished, rfl⟩ | ⟨before, further, outcome, rfl, binds, afterBinding⟩
    · exact .binding within unfinished
    · cases outcome with
      | error failure =>
        cases afterBinding
        rw [append_nil]
        exact .unbound binds
      | ok bound =>
        have length_eq := (signature.bind_always arguments).of_yields binds
        cases effectful with
        | true =>
          obtain rfl := asked_eq_nil_of_newEffect afterBinding
          rw [append_nil]
          exact .effect binds length_eq afterBinding
        | false =>
          have invoked : ((body.implementation signature.names).invoke bound).run.After
              further rest :=
            body.invoke_eq signature.names bound ▸ afterBinding
          exact .body binds length_eq (Implementation.course_of_after invoked)

/-! ## Computations that call -/

/-- The thunk of a result, an error becoming an error value. -/
def conclude : Except Error Thunk → Code Thunk
  | .ok thunk => .done thunk
  | .error failure => newValue (.error failure)

/-- Where a computation stands that takes a course and makes a thunk of the result. -/
inductive Concluding (course : Asked → Code (Except Error Thunk) → Prop) :
    Asked → Code Thunk → Prop
  | within {asked : Asked} {position : Code (Except Error Thunk)} (stands : course asked position) :
      Concluding course asked (position.bind conclude)
  /-- The error was made a value. -/
  | failed {asked : Asked} {failure : Error} (stands : course asked (.done (.error failure)))
      (thunk : Thunk) :
      Concluding course asked (.done thunk)

theorem concluding_of_after
    (courses : ∀ {asked position}, result.run.After asked position → course asked position)
    (after : (returning result).After asked rest) : Concluding course asked rest := by
  have returning_eq : returning result = result.run.bind conclude := by
    refine congrArg (Code.bind result.run) (funext fun outcome => ?_)
    cases outcome <;> rfl
  rw [returning_eq] at after
  rcases after.of_bind with ⟨position, within, rfl⟩ | ⟨before, further, outcome, rfl, ends, last⟩
  · exact .within (courses within)
  · have stands := courses ends
    cases outcome with
    | ok thunk =>
      cases last
      rw [append_nil]
      exact .within stands
    | error failure =>
      cases last with
      | start =>
        rw [append_nil]
        exact .within stands
      | act thunk last =>
        cases last
        rw [append_nil]
        exact .failed stands thunk

/-- Where a suspended computation stands that calls a function or runs the body of one. -/
def Suspension.Course : Suspension → Asked → Code Thunk → Prop
  | .apply function arguments _, asked, rest =>
    (asked = [] ∧ ∃ next, rest = .evaluate function next) ∨
      ∃ answer further, asked = (function, answer) :: further ∧
        ∀ callee, answer.purely = .function callee →
          Concluding (callee.Course arguments) further rest
  | .invoke body names bound, asked, rest =>
    Concluding ((body.implementation names).Course bound) asked rest
  | _, _, _ => True

theorem Suspension.course_of_after {rest : Code Thunk}
    (after : computation.resume.After asked rest) : computation.Course asked rest := by
  cases computation with
  | apply function arguments site =>
    cases after with
    | start => exact .inl ⟨rfl, _, rfl⟩
    | @evaluate _ _ further _ answer after =>
      refine .inr ⟨answer, further, rfl, fun callee isFunction => ?_⟩
      have called : (returning (callee.call arguments)).After further rest := by
        simp only [isFunction] at after
        exact after
      exact concluding_of_after Function.course_of_after called
  | invoke body names bound =>
    refine concluding_of_after (fun after => ?_) after
    exact Implementation.course_of_after (body.invoke_eq names bound ▸ after)
  | _ => trivial

end ByNeed
