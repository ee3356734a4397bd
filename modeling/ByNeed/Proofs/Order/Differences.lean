import ByNeed.Proofs.Lists.Recipes
import ByNeed.Proofs.Machine.Questions

/-!
# The first difference of two lists

A comparison asks for some thunks in order, and any other way in which it may go has other answers.
Where two lists part at a position, it asks for tails before the position and for what comparing the
heads up to it asks for.  So the result does not depend on anything behind.
-/

namespace ByNeed

open Attempt

variable {α β : Type} {self : Nat} {told other : Thunk → Value} {asked more : List Thunk}
  {path : Asked}

/-! ## Foretold values -/

/-- All answers are as foretold. -/
def Asked.Foretold (told : Thunk → Value) (path : Asked) : Prop :=
  ∀ question ∈ path, question.2 = told question.1

/-- A thread evaluates thunks one after the other, with the values foretold. -/
inductive EvaluatesEach (self : Nat) (told : Thunk → Value) : List Thunk → Store → Store → Prop
  | nil (store : Store) : EvaluatesEach self told [] store store
  | cons {thunk : Thunk} {rest : List Thunk} {store between after : Store}
      (evaluates : thunk.Evaluates self store (told thunk) between)
      (each : EvaluatesEach self told rest between after) :
      EvaluatesEach self told (thunk :: rest) store after

namespace Code

/-- Code ends with a result if thunks evaluate as foretold.  It asks for some of them, in order,
and does nothing else. -/
inductive Finds (told : Thunk → Value) : Code α → List Thunk → α → Prop
  | done (result : α) : Finds told (.done result) [] result
  | evaluate {thunk : Thunk} {next : Value → Code α} {asked : List Thunk} {result : α}
      (finds : Finds told (next (told thunk)) asked result) :
      Finds told (.evaluate thunk next) (thunk :: asked) result
  | call {routine : Routine} {next : routine.Reply → Code α} {asked : List Thunk} {result : α}
      (finds : Finds told (routine.body.bind next) asked result) :
      Finds told (.call routine next) asked result

namespace Finds

variable {code rest : Code α} {result : α}

theorem bind (first : code.Finds told asked result)
    (second : (following result).Finds told more final) :
    (code.bind following).Finds told (asked ++ more) final := by
  induction first with
  | done result => exact second
  | evaluate _ ih => exact .evaluate (ih second)
  | call _ ih => exact .call (by simpa only [bind_assoc] using ih second)

section

variable (finds : code.Finds told asked result)

include finds

/-- However far code has gone with answers as foretold, it was on this way. -/
theorem of_after (after : code.After path rest) (foretold : path.Foretold told) :
    ∃ more, asked = path.map Prod.fst ++ more ∧ rest.Finds told more result := by
  induction after generalizing asked with
  | start code => exact ⟨asked, rfl, finds⟩
  | act reply _ ih => cases finds
  | evaluate answer _ ih =>
    obtain ⟨same, foretold⟩ := List.forall_mem_cons.mp foretold
    cases finds with
    | evaluate finds =>
      obtain ⟨more, rfl, onward⟩ := ih (same ▸ finds) foretold
      exact ⟨more, rfl, onward⟩
  | call _ ih =>
    cases finds with
    | call finds => exact ih finds foretold

theorem mem_of_asks (foretold : path.Foretold told)
    (asks : code.Asks path thunk) : thunk ∈ asked := by
  obtain ⟨next, after⟩ := asks
  obtain ⟨more, rfl, onward⟩ := finds.of_after after foretold
  cases onward with
  | evaluate => simp

theorem eq_of_yields (foretold : path.Foretold told)
    (yields : code.Yields path final) : final = result := by
  obtain ⟨more, rfl, onward⟩ := finds.of_after yields foretold
  cases onward with
  | done => rfl

theorem exists_yields : ∃ path : Asked, path.Foretold told ∧ code.Yields path result := by
  induction finds with
  | done result => exact ⟨[], fun _ mem => absurd mem List.not_mem_nil, .start _⟩
  | @evaluate thunk _ _ _ _ ih =>
    obtain ⟨path, foretold, yields⟩ := ih
    exact ⟨(thunk, told thunk) :: path, List.forall_mem_cons.mpr ⟨rfl, foretold⟩,
      .evaluate _ yields⟩
  | call _ ih =>
    obtain ⟨path, foretold, yields⟩ := ih
    exact ⟨path, foretold, .call yields⟩

/-- What is foretold of other thunks does not matter. -/
theorem congr (agree : ∀ thunk ∈ asked, other thunk = told thunk) :
    code.Finds other asked result := by
  induction finds with
  | done result => exact .done result
  | @evaluate thunk next _ _ _ ih =>
    obtain ⟨same, agree⟩ := List.forall_mem_cons.mp agree
    exact .evaluate (same ▸ ih agree)
  | call _ ih => exact .call (ih agree)

/-- Code runs by evaluating the thunks that it asks for, one after the other. -/
theorem runs (each : EvaluatesEach self told asked store after) :
    code.Runs self store (.ok result) after := by
  induction finds generalizing store with
  | done result =>
    cases each with
    | nil => exact .done result _
  | evaluate _ ih =>
    cases each with
    | cons evaluates each => exact .evaluate evaluates (ih each)
  | call _ ih => exact .call (ih each)

end

end Finds
end Code

theorem Attempt.finds_bind {attempt : Attempt α} (first : attempt.run.Finds told asked (.ok result))
    (second : (following result).run.Finds told more outcome) :
    (attempt >>= following).run.Finds told (asked ++ more) outcome :=
  first.bind second

theorem forceList_finds (told : Thunk → Value) (list : Thunk) :
    (forceList list).run.Finds told [list] (told list).purely.toList := by
  rw [run_forceList]
  exact .evaluate (.done _)

/-! ## Where lists part -/

namespace LazyList

variable {left right : LazyList} {position : Nat} {order : Ordering} {compared : List Thunk}

/-- Two lists have equal heads before a position, counted from one.  There one of them ends, or
the heads are unequal.  Comparing heads asks for some thunks, and so does finding the cells. -/
inductive PartAt (told : Thunk → Value) :
    LazyList → LazyList → Nat → Ordering → List Thunk → List Thunk → Prop
  | shorter (head tail : Thunk) : PartAt told .empty (.cons head tail) 1 .lt [] []
  | longer (head tail : Thunk) : PartAt told (.cons head tail) .empty 1 .gt [] []
  | heads {leftHead leftTail rightHead rightTail : Thunk} {order : Ordering} {asked : List Thunk}
      (unequal : order ≠ .eq)
      (compares : (compareThunks leftHead rightHead).run.Finds told asked (.ok order)) :
      PartAt told (.cons leftHead leftTail) (.cons rightHead rightTail) 1 order asked asked
  | further {leftHead leftTail rightHead rightTail : Thunk} {left right : LazyList}
      {position : Nat} {order : Ordering} {heads compared asked : List Thunk}
      (compares : (compareThunks leftHead rightHead).run.Finds told heads (.ok .eq))
      (isLeft : (told leftTail).purely.toList = .ok left)
      (isRight : (told rightTail).purely.toList = .ok right)
      (part : PartAt told left right position order compared asked) :
      PartAt told (.cons leftHead leftTail) (.cons rightHead rightTail) (position + 1) order
        (heads ++ compared) (heads ++ leftTail :: rightTail :: asked)

section

variable (part : left.PartAt told right position order compared asked)

include part

/-- A list does not part from itself. -/
theorem PartAt.ne : left ≠ right := by
  induction part with
  | shorter | longer => simp
  | @heads leftHead _ rightHead _ order asked unequal compares =>
    rintro ⟨⟩
    rw [compareThunks, if_pos rfl] at compares
    cases compares
    exact unequal rfl
  | further _ isLeft isRight _ ih =>
    rintro ⟨⟩
    rw [isLeft] at isRight
    exact ih (Except.ok.inj isRight)

/-- Comparing lists finds the order in which they part. -/
theorem PartAt.finds : (left.compare right).run.Finds told asked (.ok order) := by
  induction part with
  | shorter | longer => exact .done _
  | @heads _ _ _ _ order asked unequal compares =>
    rw [← List.append_nil asked]
    refine finds_bind compares ?_
    cases order with
    | eq => exact absurd rfl unequal
    | _ => exact .done _
  | @further _ leftTail _ rightTail _ _ _ _ _ _ _ compares isLeft isRight part ih =>
    have ne : leftTail ≠ rightTail := by
      rintro rfl
      exact part.ne (Except.ok.inj (isLeft.symm.trans isRight))
    refine finds_bind compares ?_
    simp only [if_neg ne]
    refine finds_bind (isLeft ▸ forceList_finds told leftTail) ?_
    refine finds_bind (isRight ▸ forceList_finds told rightTail) ?_
    exact .call (by rwa [Code.bind_done])

end

/-! ## Whatever is behind -/

/-- Another list has the same heads up to a position, counted from one, and anything behind. -/
inductive SameUpTo (told other : Thunk → Value) : Nat → LazyList → LazyList → Prop
  | ended (position : Nat) : SameUpTo told other position .empty .empty
  | here (head tail behind : Thunk) :
      SameUpTo told other 1 (.cons head tail) (.cons head behind)
  | further {head tail behind : Thunk} {list another : LazyList} {position : Nat}
      (isTail : (told tail).purely.toList = .ok list)
      (isBehind : (other behind).purely.toList = .ok another)
      (same : SameUpTo told other position list another) :
      SameUpTo told other (position + 1) (.cons head tail) (.cons head behind)

/-- Lists with other things behind part at the same position, in the same order. -/
theorem PartAt.replace (part : left.PartAt told right position order compared asked)
    (sameLeft : left.SameUpTo told other position newLeft)
    (sameRight : right.SameUpTo told other position newRight)
    (agree : ∀ thunk ∈ compared, other thunk = told thunk) :
    ∃ newAsked, newLeft.PartAt other newRight position order compared newAsked := by
  induction part generalizing newLeft newRight with
  | shorter =>
    cases sameLeft
    cases sameRight with
    | _ => exact ⟨_, .shorter _ _⟩
  | longer =>
    cases sameRight
    cases sameLeft with
    | _ => exact ⟨_, .longer _ _⟩
  | heads unequal compares =>
    have compares := compares.congr agree
    cases sameLeft with
    | _ =>
      cases sameRight with
      | _ => exact ⟨_, .heads unequal compares⟩
  | further compares isLeft isRight part ih =>
    obtain ⟨agreeHeads, agreeRest⟩ := List.forall_mem_append.mp agree
    cases sameLeft with
    | here => cases part
    | further isTail isBehind sameLeft =>
      cases sameRight with
      | here => cases part
      | further isTailToo isBehindToo sameRight =>
        rw [isLeft] at isTail
        rw [isRight] at isTailToo
        cases isTail
        cases isTailToo
        obtain ⟨newAsked, part⟩ := ih sameLeft sameRight agreeRest
        exact ⟨_, .further (compares.congr agreeHeads) isBehind isBehindToo part⟩

/-- With values as foretold, comparing two lists gives an order and asks for no other thunks
than some. -/
structure ComparesTo (told : Thunk → Value) (left right : LazyList) (order : Ordering)
    (asked : List Thunk) : Prop where
  yields : ∃ path : Asked, path.Foretold told ∧
    (compareValues (.list left) (.list right)).Yields path (.ok order)
  only : ∀ path outcome, Asked.Foretold told path →
    (compareValues (.list left) (.list right)).Yields path outcome → outcome = .ok order
  asks : ∀ path thunk, Asked.Foretold told path →
    (compareValues (.list left) (.list right)).Asks path thunk → thunk ∈ asked
  returns : ∀ self store after, EvaluatesEach self told asked store after →
    (compareValues (.list left) (.list right)).Returns self store order after

theorem PartAt.comparesTo (part : left.PartAt told right position order compared asked) :
    ComparesTo told left right order asked := by
  have finds : (compareValues (.list left) (.list right)).run.Finds told asked (.ok order) :=
    .call (by rw [Code.bind_done]; exact part.finds)
  exact
    { yields := finds.exists_yields
      only := fun path outcome foretold yields => finds.eq_of_yields foretold yields
      asks := fun path thunk foretold asks => finds.mem_of_asks foretold asks
      returns := fun self store after each => returns_iff_runs.mpr (finds.runs each) }

end LazyList

/-- Comparing lists finds the order in which they part, and asks for nothing but the thunks of
the heads up to there and of the tails before.  Other lists with the same heads up to there are
compared with the same result, whatever they have behind. -/
theorem comparison_looks_no_further_than_the_first_difference {left right : LazyList}
    {position : Nat} {order : Ordering} {compared : List Thunk}
    (part : left.PartAt told right position order compared asked) :
    LazyList.ComparesTo told left right order asked ∧
      ∀ other newLeft newRight,
        left.SameUpTo told other position newLeft →
        right.SameUpTo told other position newRight →
        (∀ thunk ∈ compared, other thunk = told thunk) →
        ∃ newAsked,
          newLeft.PartAt other newRight position order compared newAsked ∧
          LazyList.ComparesTo other newLeft newRight order newAsked := by
  refine ⟨part.comparesTo, fun other newLeft newRight sameLeft sameRight agree => ?_⟩
  obtain ⟨newAsked, newPart⟩ := part.replace sameLeft sameRight agree
  exact ⟨newAsked, newPart, newPart.comparesTo⟩

/-- Values of some thunks, two of them lists that are broken behind their second element. -/
def brokenBehind (thunk : Thunk) : Value :=
  match thunk.slot with
  | 0 => .boolean false
  | 1 => .boolean true
  | 2 => .list (.cons ⟨0⟩ ⟨4⟩)
  | 3 => .list (.cons ⟨1⟩ ⟨5⟩)
  | _ => .fault .noDefaultBranch

theorem comparison_of_broken_lists :
    LazyList.ComparesTo brokenBehind (.cons ⟨0⟩ ⟨2⟩) (.cons ⟨0⟩ ⟨3⟩) .lt [⟨2⟩, ⟨3⟩, ⟨0⟩, ⟨1⟩] := by
  have heads : (compareThunks ⟨0⟩ ⟨1⟩).run.Finds brokenBehind [⟨0⟩, ⟨1⟩] (.ok .lt) :=
    .evaluate (.evaluate (.call (.done _)))
  have same : (compareThunks ⟨0⟩ ⟨0⟩).run.Finds brokenBehind [] (.ok .eq) := .done _
  have part : LazyList.PartAt brokenBehind (.cons ⟨0⟩ ⟨2⟩) (.cons ⟨0⟩ ⟨3⟩) 2 .lt [⟨0⟩, ⟨1⟩]
      [⟨2⟩, ⟨3⟩, ⟨0⟩, ⟨1⟩] :=
    .further same rfl rfl (.heads (by decide) heads)
  exact (comparison_looks_no_further_than_the_first_difference part).1

end ByNeed
