import ByNeed.Proofs.Machine.Questions

/-!
# Gathering positional values

Binding gathers as many positional values as it needs, and one more where nothing may be left over.
`Gathers` says which thunks are asked for: lists that are spread and their tails, and only while
values are still wanted.
-/

namespace ByNeed

open Attempt List Code Fault

/-- The cells of a value that is spread. -/
def Value.spreadCells (answer : Value) : Except Error LazyList :=
  match answer.purely with
  | .list cells => .ok cells
  | .error failure => .error failure
  | other => .error (notSpreadable other.kind).error

/-- How gathering values comes to an end. -/
inductive Ending where
  /-- All values wanted were found before the remaining arguments. -/
  | enough (remaining : List Positional)
  /-- The arguments ran out. -/
  | exhausted
  /-- What was to be spread is not a list. -/
  | broken (failure : Error)
  /-- It has not ended yet: a list is about to be asked for. -/
  | asking (list : Thunk)

namespace Ending

/-- Whether gathering is over. -/
def isOver : Ending → Bool
  | .asking _ => false
  | _ => true

/-- The same ending, with more arguments behind those that remain. -/
def extend (back : List Positional) : Ending → Ending
  | .enough remaining => .enough (remaining ++ back)
  | ending => ending

end Ending

/-- Gather so many values from arguments.  The thunks asked for, with their answers, decide
which values are found and how it ends. -/
inductive Gathers : Nat → List Positional → Asked → List Thunk → Ending → Prop
  | enough (positionals : List Positional) : Gathers 0 positionals [] [] (.enough positionals)
  | exhausted (wanted : Nat) : Gathers (wanted + 1) [] [] [] .exhausted
  | asking (wanted : Nat) (list : Thunk) (rest : List Positional) :
      Gathers (wanted + 1) (.spread list :: rest) [] [] (.asking list)
  | single {wanted : Nat} {rest : List Positional} {asked : Asked} {values : List Thunk}
      {ending : Ending}
      (value : Thunk)
      (gathers : Gathers wanted rest asked values ending) :
      Gathers (wanted + 1) (.single value :: rest) asked (value :: values) ending
  | broken {answer : Value} {failure : Error} (wanted : Nat) (list : Thunk)
      (rest : List Positional)
      (fails : answer.spreadCells = .error failure) :
      Gathers (wanted + 1) (.spread list :: rest) [(list, answer)] [] (.broken failure)
  | empty {wanted : Nat} {rest : List Positional} {asked : Asked} {values : List Thunk}
      {ending : Ending} {answer : Value}
      (list : Thunk)
      (isEmpty : answer.spreadCells = .ok .empty)
      (gathers : Gathers (wanted + 1) rest asked values ending) :
      Gathers (wanted + 1) (.spread list :: rest) ((list, answer) :: asked) values ending
  | cons {wanted : Nat} {rest : List Positional} {asked : Asked} {values : List Thunk}
      {ending : Ending} {answer : Value} {head tail : Thunk}
      (list : Thunk)
      (isCons : answer.spreadCells = .ok (.cons head tail))
      (gathers : Gathers wanted (.spread tail :: rest) asked values ending) :
      Gathers (wanted + 1) (.spread list :: rest) ((list, answer) :: asked) (head :: values)
        ending

namespace Gathers

variable {wanted more : Nat} {positionals remaining : List Positional} {asked further : Asked}
  {values others : List Thunk} {ending final : Ending}

theorem trans (first : Gathers wanted positionals asked values (.enough remaining))
    (second : Gathers more remaining further others final) :
    Gathers (wanted + more) positionals (asked ++ further) (values ++ others) final := by
  generalize isEnough : Ending.enough remaining = ending at first
  induction first with
  | enough positionals =>
    cases isEnough
    simpa using second
  | single value _ ih =>
    rw [Nat.succ_add]
    exact .single value (ih isEnough)
  | empty list isEmpty _ ih =>
    have gathers := ih isEnough
    rw [Nat.succ_add] at gathers ⊢
    exact .empty list isEmpty gathers
  | cons list isCons _ ih =>
    rw [Nat.succ_add]
    exact .cons list isCons (ih isEnough)
  | _ => cases isEnough

theorem of_short (gathers : Gathers wanted positionals asked values ending)
    (short : ∀ remaining, ending ≠ .enough remaining) (more : Nat) :
    Gathers (wanted + more) positionals asked values ending := by
  induction gathers with
  | enough positionals => exact absurd rfl (short positionals)
  | exhausted wanted =>
    rw [Nat.succ_add]
    exact .exhausted _
  | asking wanted list rest =>
    rw [Nat.succ_add]
    exact .asking _ list rest
  | broken wanted list rest fails =>
    rw [Nat.succ_add]
    exact .broken _ list rest fails
  | single value _ ih =>
    rw [Nat.succ_add]
    exact .single value (ih short)
  | empty list isEmpty _ ih =>
    have gathers := ih short
    rw [Nat.succ_add] at gathers ⊢
    exact .empty list isEmpty gathers
  | cons list isCons _ ih =>
    rw [Nat.succ_add]
    exact .cons list isCons (ih short)

/-- Arguments behind those that were walked make no difference, unless the end was met. -/
theorem append (gathers : Gathers wanted positionals asked values ending)
    (unmet : ending ≠ .exhausted) (back : List Positional) :
    Gathers wanted (positionals ++ back) asked values (ending.extend back) := by
  induction gathers with
  | enough positionals => exact .enough _
  | exhausted wanted => exact absurd rfl unmet
  | asking wanted list rest => exact .asking wanted list _
  | broken wanted list rest fails => exact .broken wanted list _ fails
  | single value _ ih => exact .single value (ih unmet)
  | empty list isEmpty _ ih =>
    exact .empty list isEmpty (ih unmet)
  | cons list isCons _ ih =>
    exact .cons list isCons (ih unmet)

theorem length_of_enough (gathers : Gathers wanted positionals asked values (.enough remaining)) :
    values.length = wanted := by
  generalize isEnough : Ending.enough remaining = ending at gathers
  induction gathers with
  | enough positionals => rfl
  | single value _ ih | cons list isCons _ ih => simp [ih isEnough]
  | empty list isEmpty _ ih => exact ih isEnough
  | _ => cases isEnough

theorem length_lt_of_asking (gathers : Gathers wanted positionals asked values (.asking list)) :
    values.length < wanted := by
  generalize isAsking : Ending.asking list = ending at gathers
  induction gathers with
  | asking wanted list rest => exact Nat.succ_pos wanted
  | single value _ ih | cons list isCons _ ih => simpa using ih isAsking
  | empty list isEmpty _ ih => exact ih isAsking
  | _ => cases isAsking

/-- As long as nothing is broken, every answer is a list. -/
theorem exists_spreadCells (gathers : Gathers wanted positionals asked values ending)
    (unbroken : ∀ failure, ending ≠ .broken failure) :
    ∀ question ∈ asked, ∃ cells, question.2.spreadCells = .ok cells := by
  induction gathers with
  | enough | exhausted | asking => exact fun _ mem => by cases mem
  | broken wanted list rest fails => exact absurd rfl (unbroken _)
  | single value _ ih => exact ih unbroken
  | empty list isEmpty _ ih =>
    exact forall_mem_cons.mpr ⟨⟨_, isEmpty⟩, ih unbroken⟩
  | cons list isCons _ ih =>
    exact forall_mem_cons.mpr ⟨⟨_, isCons⟩, ih unbroken⟩

end Gathers

/-- Thunks asked for twice were given the same answer. -/
def Asked.Consistent (asked others : Asked) : Prop :=
  ∀ thunk answer other, (thunk, answer) ∈ asked → (thunk, other) ∈ others → answer = other

theorem Asked.Consistent.of_cons {asked others : Asked}
    (consistent : Asked.Consistent (first :: asked) (second :: others)) : asked.Consistent others :=
  fun thunk answer other mem memberToo =>
    consistent thunk answer other (mem_cons_of_mem _ mem) (mem_cons_of_mem _ memberToo)

theorem Asked.Consistent.head_eq
    (consistent : Asked.Consistent ((thunk, answer) :: asked) ((thunk, other) :: others)) :
    answer = other :=
  consistent thunk answer other mem_cons_self mem_cons_self

/-- What is gathered is decided by the answers. -/
theorem Gathers.unique {ending final : Ending}
    (first : Gathers wanted positionals asked values ending)
    (second : Gathers wanted positionals askedToo others final)
    (consistent : asked.Consistent askedToo) (isOver : ending.isOver = true)
    (overToo : final.isOver = true) : asked = askedToo ∧ values = others ∧ ending = final := by
  induction first generalizing askedToo others with
  | asking wanted list rest => cases isOver
  | single value _ ih =>
    cases second with
    | single _ gathers =>
      obtain ⟨rfl, rfl, rfl⟩ := ih gathers consistent isOver
      exact ⟨rfl, rfl, rfl⟩
  | broken wanted list rest fails =>
    cases second with
    | asking => cases overToo
    | broken _ _ _ failsToo =>
      cases consistent.head_eq
      cases fails.symm.trans failsToo
      exact ⟨rfl, rfl, rfl⟩
    | empty _ isEmpty =>
      cases consistent.head_eq
      cases fails.symm.trans isEmpty
    | cons _ isCons =>
      cases consistent.head_eq
      cases fails.symm.trans isCons
  | empty list isEmpty _ ih =>
    cases second with
    | asking => cases overToo
    | broken _ _ _ failsToo =>
      cases consistent.head_eq
      cases isEmpty.symm.trans failsToo
    | empty _ _ gathers =>
      cases consistent.head_eq
      obtain ⟨rfl, rfl, rfl⟩ := ih gathers consistent.of_cons isOver
      exact ⟨rfl, rfl, rfl⟩
    | cons _ isCons =>
      cases consistent.head_eq
      cases isEmpty.symm.trans isCons
  | cons list isCons _ ih =>
    cases second with
    | asking => cases overToo
    | broken _ _ _ failsToo =>
      cases consistent.head_eq
      cases isCons.symm.trans failsToo
    | empty _ isEmpty =>
      cases consistent.head_eq
      cases isCons.symm.trans isEmpty
    | cons _ isConsToo gathers =>
      cases consistent.head_eq
      cases isCons.symm.trans isConsToo
      obtain ⟨rfl, rfl, rfl⟩ := ih gathers consistent.of_cons isOver
      exact ⟨rfl, rfl, rfl⟩
  | _ =>
    cases second
    exact ⟨rfl, rfl, rfl⟩

/-! ## One value -/

/-- The values found by pulling once, and how it ended. -/
def pulled : Except Error (Option (Thunk × List Positional)) → List Thunk × Ending
  | .ok (some (value, remaining)) => ([value], .enough remaining)
  | .ok none => ([], .exhausted)
  | .error failure => ([], .broken failure)

theorem pull_spread (list : Thunk) (rest : List Positional) :
    (pull (.spread list :: rest)).run = .evaluate list fun answer =>
      match answer.spreadCells with
      | .ok .empty => (pull rest).run
      | .ok (.cons head tail) => .done (.ok (some (head, .spread tail :: rest)))
      | .error failure => .done (.error failure) := by
  rw [pull]
  refine congrArg (evaluate list) (funext fun answer => ?_)
  cases answer with
  | list cells => cases cells <;> rfl
  | _ => rfl

variable {asked : Asked} {thunk : Thunk} {positionals : List Positional}

theorem pull_asks (asks : (pull positionals).Asks asked thunk) :
    Gathers 1 positionals asked [] (.asking thunk) := by
  induction positionals generalizing asked with
  | nil => exact absurd asks not_asks_pure
  | cons positional rest ih =>
    cases positional with
    | single value => exact absurd asks not_asks_pure
    | spread list =>
      rw [Attempt.Asks, pull_spread, asks_evaluate] at asks
      rcases asks with ⟨rfl, rfl⟩ | ⟨answer, further, rfl, asks⟩
      · exact .asking 0 _ rest
      · split at asks
        · exact .empty list ‹_› (ih asks)
        · exact absurd asks not_asks_done
        · exact absurd asks not_asks_done

theorem pull_yields (yields : (pull positionals).Yields asked outcome) :
    Gathers 1 positionals asked (pulled outcome).1 (pulled outcome).2 := by
  induction positionals generalizing asked with
  | nil =>
    obtain ⟨rfl, rfl⟩ := yields_pure.mp yields
    exact .exhausted 0
  | cons positional rest ih =>
    cases positional with
    | single value =>
      obtain ⟨rfl, rfl⟩ := yields_pure.mp yields
      exact .single value (.enough rest)
    | spread list =>
      rw [Attempt.Yields, pull_spread, yields_evaluate] at yields
      obtain ⟨answer, further, rfl, yields⟩ := yields
      split at yields
      · exact .empty list ‹_› (ih yields)
      · obtain ⟨rfl, rfl⟩ := yields_done.mp yields
        exact .cons list ‹_› (.enough _)
      · obtain ⟨rfl, rfl⟩ := yields_done.mp yields
        exact .broken 0 list rest ‹_›

/-! ## The positional phase -/

/-- Binding required parameters gathers one value for each.  When the arguments run out, the
first parameter without a value is reported. -/
inductive RequiredBound (parameters : List String) (values : List Thunk) :
    Ending → Except Error (List Thunk × List Positional) → Prop
  | enough (remaining : List Positional) :
      RequiredBound parameters values (.enough remaining) (.ok (values, remaining))
  | exhausted {parameter : String} (missing : parameters[values.length]? = some parameter) :
      RequiredBound parameters values .exhausted (.error (missingPositional parameter).error)
  | broken (failure : Error) : RequiredBound parameters values (.broken failure) (.error failure)

theorem bindRequired_asks (asks : (bindRequired parameters positionals).Asks asked thunk) :
    ∃ values, Gathers parameters.length positionals asked values (.asking thunk) := by
  induction parameters generalizing positionals asked with
  | nil => exact absurd asks not_asks_pure
  | cons parameter parameters ih =>
    rcases Attempt.Asks.of_bind asks with asks | ⟨before, further, found, rfl, yields, asks⟩
    · have gathers := (pull_asks asks).of_short (fun _ => by simp) parameters.length
      rw [Nat.add_comm] at gathers
      exact ⟨[], gathers⟩
    · cases found with
      | none => exact absurd asks not_asks_throw
      | some pair =>
        obtain ⟨value, remaining⟩ := pair
        rcases Attempt.Asks.of_bind asks with asks | ⟨_, _, _, -, -, asks⟩
        · obtain ⟨values, gathers⟩ := ih asks
          have both := (pull_yields yields).trans gathers
          rw [Nat.add_comm] at both
          exact ⟨value :: values, both⟩
        · exact absurd asks not_asks_pure

theorem bindRequired_yields (yields : (bindRequired parameters positionals).Yields asked outcome) :
    ∃ values ending, Gathers parameters.length positionals asked values ending ∧
      RequiredBound parameters values ending outcome := by
  induction parameters generalizing positionals asked outcome with
  | nil =>
    obtain ⟨rfl, rfl⟩ := yields_pure.mp yields
    exact ⟨[], _, .enough positionals, .enough positionals⟩
  | cons parameter parameters ih =>
    rcases Attempt.Yields.of_bind yields with ⟨failure, rfl, fails⟩ |
      ⟨before, further, found, rfl, pulls, yields⟩
    · have gathers := (pull_yields fails).of_short (fun _ => by simp [pulled]) parameters.length
      rw [Nat.add_comm] at gathers
      exact ⟨[], _, gathers, .broken failure⟩
    · have gathers := pull_yields pulls
      cases found with
      | none =>
        obtain ⟨rfl, rfl⟩ := yields_throw.mp yields
        have short := gathers.of_short (fun _ => by simp [pulled]) parameters.length
        rw [Nat.add_comm] at short
        rw [append_nil]
        exact ⟨[], _, short, .exhausted rfl⟩
      | some pair =>
        obtain ⟨value, remaining⟩ := pair
        rcases Attempt.Yields.of_bind yields with ⟨failure, rfl, fails⟩ |
          ⟨middle, last, result, rfl, binds, yields⟩
        · obtain ⟨values, ending, rest, bound⟩ := ih fails
          have both := gathers.trans rest
          rw [Nat.add_comm] at both
          refine ⟨value :: values, ending, both, ?_⟩
          cases bound with
          | exhausted missing => exact .exhausted missing
          | broken failure => exact .broken failure
        · obtain ⟨rfl, rfl⟩ := yields_pure.mp yields
          obtain ⟨values, ending, rest, bound⟩ := ih binds
          have both := gathers.trans rest
          rw [Nat.add_comm] at both
          cases bound with
          | enough final =>
            rw [append_nil]
            exact ⟨value :: values, _, both, .enough final⟩

/-- Putting the remaining positionals into a list asks for nothing. -/
theorem passEach_quiet (positionals : List Positional) (list : Thunk) :
    (passEach positionals list).Quiet fun _ => True := by
  induction positionals generalizing list with
  | nil => exact .done trivial
  | cons positional rest ih =>
    cases positional with
    | _ => exact .act fun made => ih made

theorem restList_quiet (positionals : List Positional) :
    (restList positionals).Quiet fun _ => True :=
  .act fun made => passEach_quiet positionals.reverse made

theorem not_asks_bindRest_some : ¬(bindRest (some name) positionals).Asks asked thunk := by
  intro asks
  rcases Attempt.Asks.of_bind asks with asks | ⟨_, _, _, -, -, asks⟩
  · exact (Attempt.Quiet.lift (restList_quiet positionals)).asks asked thunk asks
  · exact not_asks_pure asks

theorem bindRest_some_yields (yields : (bindRest (some name) positionals).Yields asked outcome) :
    asked = [] ∧ ∃ list, outcome = .ok [list] := by
  rcases Attempt.Yields.of_bind yields with ⟨failure, -, fails⟩ |
    ⟨before, further, list, rfl, puts, ends⟩
  · obtain ⟨list, impossible, -⟩ := fails.of_lift
    cases impossible
  · obtain ⟨rfl, -⟩ := (Attempt.Quiet.lift (restList_quiet positionals)).yields before _ puts
    obtain ⟨rfl, rfl⟩ := yields_pure.mp ends
    exact ⟨rfl, list, rfl⟩

theorem bindRest_none_asks (asks : (bindRest none positionals).Asks asked thunk) :
    Gathers 1 positionals asked [] (.asking thunk) := by
  rcases Attempt.Asks.of_bind asks with asks | ⟨_, _, found, -, -, asks⟩
  · exact pull_asks asks
  · cases found with
    | none => exact absurd asks not_asks_pure
    | some _ => exact absurd asks not_asks_throw

/-- Without a parameter for the rest, nothing may be left over. -/
inductive NothingLeft : List Thunk → Ending → Except Error (List Thunk) → Prop
  | enough (value : Thunk) (remaining : List Positional) :
      NothingLeft [value] (.enough remaining) (.error surplusPositionals.error)
  | exhausted : NothingLeft [] .exhausted (.ok [])
  | broken (failure : Error) : NothingLeft [] (.broken failure) (.error failure)

theorem bindRest_none_yields (yields : (bindRest none positionals).Yields asked outcome) :
    ∃ values ending, Gathers 1 positionals asked values ending ∧
      NothingLeft values ending outcome := by
  rcases Attempt.Yields.of_bind yields with ⟨failure, rfl, fails⟩ |
    ⟨before, further, found, rfl, pulls, yields⟩
  · exact ⟨_, _, pull_yields fails, .broken failure⟩
  · cases found with
    | none =>
      obtain ⟨rfl, rfl⟩ := yields_pure.mp yields
      rw [append_nil]
      exact ⟨_, _, pull_yields pulls, .exhausted⟩
    | some pair =>
      obtain ⟨rfl, rfl⟩ := yields_throw.mp yields
      rw [append_nil]
      exact ⟨_, _, pull_yields pulls, .enough pair.1 pair.2⟩

namespace Signature

/-- The part of binding that is about positionals: the values of the required parameters, and
the list of the remaining ones where there is a parameter for it. -/
def bindPositionals (signature : Signature) (positionals : List Positional) :
    Attempt (List Thunk × List Thunk) := do
  let (required, remaining) ← bindRequired signature.required positionals
  let rest ← bindRest signature.rest remaining
  return (required, rest)

/-- How many positional values binding looks for.  Without a parameter for the rest, it looks
for one too many. -/
def wanted (signature : Signature) : Nat :=
  match signature.rest with
  | some _ => signature.required.length
  | none => signature.required.length + 1

/-- The values of the required parameters, or an error, once gathering has ended. -/
def required? (signature : Signature) (values : List Thunk) :
    Ending → Option (Except Error (List Thunk))
  | .enough _ =>
    match signature.rest with
    | some _ => some (.ok values)
    | none => some (.error surplusPositionals.error)
  | .exhausted =>
    match signature.required[values.length]? with
    | some parameter => some (.error (missingPositional parameter).error)
    | none => some (.ok values)
  | .broken failure => some (.error failure)
  | .asking _ => none

variable {signature : Signature}

/-- What ends before the required parameters have values ends so for the whole phase. -/
theorem gathers_wanted_of_short
    (gathers : Gathers signature.required.length positionals asked values ending)
    (short : ∀ remaining, ending ≠ .enough remaining) :
    Gathers signature.wanted positionals asked values ending := by
  unfold wanted
  split
  · exact gathers
  · exact gathers.of_short short 1

/-- The positional phase asks for lists that are spread and for their tails, while values are
wanted. -/
theorem bindPositionals_asks (asks : (signature.bindPositionals positionals).Asks asked thunk) :
    ∃ values, Gathers signature.wanted positionals asked values (.asking thunk) := by
  rcases Attempt.Asks.of_bind asks with asks | ⟨before, further, result, rfl, binds, asks⟩
  · obtain ⟨values, gathers⟩ := bindRequired_asks asks
    exact ⟨values, gathers_wanted_of_short gathers fun _ => by simp⟩
  · obtain ⟨values, ending, gathers, bound⟩ := bindRequired_yields binds
    cases bound with
    | enough remaining =>
      rcases Attempt.Asks.of_bind asks with asks | ⟨_, _, _, -, -, asks⟩
      · cases rest_eq : signature.rest with
        | some name =>
          rw [rest_eq] at asks
          exact absurd asks not_asks_bindRest_some
        | none =>
          rw [rest_eq] at asks
          rw [wanted, rest_eq]
          exact ⟨_, gathers.trans (bindRest_none_asks asks)⟩
      · exact absurd asks not_asks_pure

theorem bindPositionals_yields
    (yields : (signature.bindPositionals positionals).Yields asked outcome) :
    ∃ values ending, Gathers signature.wanted positionals asked values ending ∧
      signature.required? values ending = some (outcome.map Prod.fst) := by
  rcases Attempt.Yields.of_bind yields with ⟨failure, rfl, fails⟩ |
    ⟨before, further, result, rfl, binds, yields⟩
  · obtain ⟨values, ending, gathers, bound⟩ := bindRequired_yields fails
    cases bound with
    | exhausted missing =>
      refine ⟨values, _, gathers_wanted_of_short gathers fun _ => by simp, ?_⟩
      simp [required?, missing, Except.map]
    | broken failure =>
      exact ⟨values, _, gathers_wanted_of_short gathers fun _ => by simp, rfl⟩
  · obtain ⟨values, ending, gathers, bound⟩ := bindRequired_yields binds
    cases bound with
    | enough remaining =>
      have length_eq := gathers.length_of_enough
      cases rest_eq : signature.rest with
      | some name =>
        rw [rest_eq] at yields
        rw [wanted, rest_eq]
        rcases Attempt.Yields.of_bind yields with ⟨failure, -, fails⟩ |
          ⟨_, last, list, rfl, binds, ends⟩
        · obtain ⟨-, list, impossible⟩ := bindRest_some_yields fails
          cases impossible
        · obtain ⟨rfl, -⟩ := bindRest_some_yields binds
          obtain ⟨rfl, rfl⟩ := yields_pure.mp ends
          simp only [append_nil]
          exact ⟨values, _, gathers, by simp [required?, rest_eq, Except.map]⟩
      | none =>
        rw [rest_eq] at yields
        rw [wanted, rest_eq]
        rcases Attempt.Yields.of_bind yields with ⟨failure, rfl, fails⟩ |
          ⟨middle, last, list, rfl, binds, yields⟩
        · obtain ⟨others, final, more, left⟩ := bindRest_none_yields fails
          refine ⟨_, final, gathers.trans more, ?_⟩
          cases left with
          | enough value final => simp [required?, rest_eq, Except.map]
          | broken failure => rfl
        · obtain ⟨others, final, more, left⟩ := bindRest_none_yields binds
          obtain ⟨rfl, rfl⟩ := yields_pure.mp yields
          rw [append_nil]
          refine ⟨_, final, gathers.trans more, ?_⟩
          cases left with
          | exhausted => simp [required?, length_eq, Except.map]

end Signature
end ByNeed
