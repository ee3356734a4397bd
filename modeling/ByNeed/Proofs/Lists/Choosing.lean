import ByNeed.Proofs.Binding.Rest
import ByNeed.Proofs.Machine.Questions

/-!
# Choosing a branch

A conditional walks the spine of its branches two cells at a time.  `Passes` are the rounds whose
condition is false, and `Settles` says how far a round gets.  Together they say all that a
conditional ever asks for.
-/

namespace ByNeed

variable {α : Type} {asked : Asked} {spine : Thunk}

/-- What code does next: it asks for a thunk, or it is at its end. -/
inductive Sequel (α : Type) where
  | asks (thunk : Thunk)
  | ends (result : α)

namespace Code

variable {sequel : Sequel α}

/-- Code that has asked for some thunks comes to a sequel. -/
def Comes (code : Code α) (asked : Asked) : Sequel α → Prop
  | .asks thunk => code.Asks asked thunk
  | .ends result => code.Yields asked result

theorem comes_done {result : α} :
    (Code.done result).Comes asked sequel ↔ asked = [] ∧ sequel = .ends result := by
  cases sequel with
  | asks thunk => simp [Comes, not_asks_done]
  | ends other => simp [Comes, yields_done]

theorem comes_evaluate {thunk : Thunk} {next : Value → Code α} :
    (Code.evaluate thunk next).Comes asked sequel ↔ (asked = [] ∧ sequel = .asks thunk) ∨
      ∃ answer further, asked = (thunk, answer) :: further ∧
        (next answer).Comes further sequel := by
  cases sequel with
  | asks other => simpa [Comes] using asks_evaluate
  | ends result => simpa [Comes] using yields_evaluate

theorem comes_call {routine : Routine} {sequel : Sequel routine.Reply} :
    (Code.call routine .done).Comes asked sequel ↔ routine.body.Comes asked sequel := by
  cases sequel with
  | asks thunk => exact asks_call.trans (by rw [bind_done]; rfl)
  | ends result => exact yields_call.trans (by rw [bind_done]; rfl)

end Code

/-! ## Rounds -/

/-- A thunk on the spine of a list, evaluated to a cell. -/
structure Cell (spine : Thunk) where
  answer : Value
  head : Thunk
  tail : Thunk
  isCell : answer.purely.toList = .ok (.cons head tail)

/-- The question that was answered by a cell. -/
def Cell.question (cell : Cell spine) : Thunk × Value :=
  (spine, cell.answer)

namespace Branches

/-- Rounds whose condition is false lead from one cell of the spine to another. -/
inductive Passes : Thunk → Asked → Thunk → Prop
  | start (spine : Thunk) : Passes spine [] spine
  | pass {spine last : Thunk} {answer : Value} {asked : Asked}
      (first : Cell spine) (second : Cell first.tail)
      (isFalse : answer.purely.toBoolean = .ok false)
      (passes : Passes second.tail asked last) :
      Passes spine (first.question :: second.question :: (first.head, answer) :: asked) last

/-- What comes in a round, as far as it gets. -/
inductive Settles (spine : Thunk) : Asked → Sequel (Except Error Thunk) → Prop
  | spine : Settles spine [] (.asks spine)
  | broken {answer : Value} {failure : Error} (isBroken : answer.purely.toList = .error failure) :
      Settles spine [(spine, answer)] (.ends (.error failure))
  | lacking {answer : Value} (isEmpty : answer.purely.toList = .ok .empty) :
      Settles spine [(spine, answer)] (.ends (.error Fault.noDefaultBranch.error))
  | behind (first : Cell spine) : Settles spine [first.question] (.asks first.tail)
  | brokenBehind {answer : Value} {failure : Error} (first : Cell spine)
      (isBroken : answer.purely.toList = .error failure) :
      Settles spine [first.question, (first.tail, answer)] (.ends (.error failure))
  | default {answer : Value} (first : Cell spine) (isEmpty : answer.purely.toList = .ok .empty) :
      Settles spine [first.question, (first.tail, answer)] (.ends (.ok first.head))
  | condition (first : Cell spine) (second : Cell first.tail) :
      Settles spine [first.question, second.question] (.asks first.head)
  | refused {answer : Value} {failure : Error} (first : Cell spine) (second : Cell first.tail)
      (isRefused : answer.purely.toBoolean = .error failure) :
      Settles spine [first.question, second.question, (first.head, answer)] (.ends (.error failure))
  | chosen {answer : Value} (first : Cell spine) (second : Cell first.tail)
      (isTrue : answer.purely.toBoolean = .ok true) :
      Settles spine [first.question, second.question, (first.head, answer)]
        (.ends (.ok second.head))

variable {before rest : Asked} {last : Thunk} {sequel : Sequel (Except Error Thunk)}

/-- A list that is forced is asked for, is broken, is empty, or begins with a cell. -/
theorem comes_forceList_bind {list : Thunk} {following : LazyList → Attempt Thunk} :
    (forceList list >>= following).run.Comes asked sequel ↔
      (asked = [] ∧ sequel = .asks list) ∨
      (∃ answer failure, answer.purely.toList = .error failure ∧ asked = [(list, answer)] ∧
        sequel = .ends (.error failure)) ∨
      (∃ answer further, answer.purely.toList = .ok .empty ∧ asked = (list, answer) :: further ∧
        (following .empty).run.Comes further sequel) ∨
      ∃ (cell : Cell list) (further : Asked), asked = cell.question :: further ∧
        (following (.cons cell.head cell.tail)).run.Comes further sequel := by
  have forced : (forceList list >>= following).run = .evaluate list fun answer =>
    (Attempt.ofExcept answer.purely.toList >>= following).run := rfl
  rw [forced, Code.comes_evaluate]
  refine or_congr_right ⟨?_, ?_⟩
  · rintro ⟨answer, further, rfl, comes⟩
    rcases isList : answer.purely.toList with failure | _ | ⟨head, tail⟩ <;> rw [isList] at comes
    · obtain ⟨rfl, rfl⟩ := Code.comes_done.mp comes
      exact .inl ⟨answer, failure, isList, rfl, rfl⟩
    · exact .inr (.inl ⟨answer, further, isList, rfl, comes⟩)
    · exact .inr (.inr ⟨⟨answer, head, tail, isList⟩, further, rfl, comes⟩)
  · rintro (⟨answer, failure, isBroken, rfl, rfl⟩ | ⟨answer, further, isEmpty, rfl, comes⟩ |
      ⟨cell, further, rfl, comes⟩)
    · exact ⟨answer, [], rfl, by rw [isBroken]; exact Code.comes_done.mpr ⟨rfl, rfl⟩⟩
    · exact ⟨answer, further, rfl, by rwa [isEmpty]⟩
    · exact ⟨cell.answer, further, rfl, by rwa [cell.isCell]⟩

theorem comes_test_iff {condition value next : Thunk} :
    Code.Comes (ExceptT.run (do
      let truth ← Attempt.ofExcept (← force condition).toBoolean
      if truth then return value else choose next)) asked sequel ↔
      (asked = [] ∧ sequel = .asks condition) ∨
      ∃ answer further, asked = (condition, answer) :: further ∧
        ((∃ failure, answer.purely.toBoolean = .error failure ∧ further = [] ∧
            sequel = .ends (.error failure)) ∨
          (answer.purely.toBoolean = .ok true ∧ further = [] ∧ sequel = .ends (.ok value)) ∨
          answer.purely.toBoolean = .ok false ∧ (choose next).run.Comes further sequel) := by
  refine Code.comes_evaluate.trans (or_congr_right (exists_congr fun answer =>
    exists_congr fun further => and_congr_right fun _ => ?_))
  change (Attempt.ofExcept answer.purely.toBoolean >>= _).run.Comes further sequel ↔ _
  rcases answer.purely.toBoolean with failure | _ | _
  · exact Code.comes_done.trans (by simp)
  · exact (Iff.refl ((choose next).run.Comes further sequel)).trans (by simp)
  · exact Code.comes_done.trans (by simp)

/-- What comes is part of this round, or of another one if the condition is false. -/
theorem comes_choose_iff :
    (choose spine).run.Comes asked sequel ↔ Settles spine asked sequel ∨
      ∃ (first : Cell spine) (second : Cell first.tail) (answer : Value) (further : Asked),
        answer.purely.toBoolean = .ok false ∧
          asked = first.question :: second.question :: (first.head, answer) :: further ∧
            (choose second.tail).run.Comes further sequel := by
  refine Code.comes_call.trans (Iff.trans comes_forceList_bind ⟨?_, ?_⟩)
  · rintro (⟨rfl, rfl⟩ | ⟨answer, failure, isBroken, rfl, rfl⟩ |
      ⟨answer, further, isEmpty, rfl, told⟩ | ⟨first, further, rfl, told⟩)
    · exact .inl .spine
    · exact .inl (.broken isBroken)
    · obtain ⟨rfl, rfl⟩ := Code.comes_done.mp told
      exact .inl (.lacking isEmpty)
    rcases comes_forceList_bind.mp told with ⟨rfl, rfl⟩ | ⟨answer, failure, isBroken, rfl, rfl⟩ |
      ⟨answer, last, isEmpty, rfl, ended⟩ | ⟨second, last, rfl, tests⟩
    · exact .inl (.behind first)
    · exact .inl (.brokenBehind first isBroken)
    · obtain ⟨rfl, rfl⟩ := Code.comes_done.mp ended
      exact .inl (.default first isEmpty)
    rcases comes_test_iff.mp tests with ⟨rfl, rfl⟩ | ⟨answer, last, rfl, ⟨failure, isRefused, rfl,
      rfl⟩ | ⟨isTrue, rfl, rfl⟩ | ⟨isFalse, again⟩⟩
    · exact .inl (.condition first second)
    · exact .inl (.refused first second isRefused)
    · exact .inl (.chosen first second isTrue)
    · exact .inr ⟨first, second, answer, last, isFalse, rfl, again⟩
  · rintro (settles | ⟨first, second, answer, further, isFalse, rfl, again⟩)
    · cases settles with
      | spine => exact .inl ⟨rfl, rfl⟩
      | broken isBroken => exact .inr (.inl ⟨_, _, isBroken, rfl, rfl⟩)
      | lacking isEmpty =>
        exact .inr (.inr (.inl ⟨_, _, isEmpty, rfl, Code.comes_done.mpr ⟨rfl, rfl⟩⟩))
      | behind first =>
        exact .inr (.inr (.inr ⟨first, _, rfl, comes_forceList_bind.mpr (.inl ⟨rfl, rfl⟩)⟩))
      | brokenBehind first isBroken =>
        exact .inr (.inr (.inr ⟨first, _, rfl, comes_forceList_bind.mpr
          (.inr (.inl ⟨_, _, isBroken, rfl, rfl⟩))⟩))
      | default first isEmpty =>
        exact .inr (.inr (.inr ⟨first, _, rfl, comes_forceList_bind.mpr
          (.inr (.inr (.inl ⟨_, _, isEmpty, rfl, Code.comes_done.mpr ⟨rfl, rfl⟩⟩)))⟩))
      | condition first second =>
        refine .inr (.inr (.inr ⟨first, _, rfl, comes_forceList_bind.mpr
          (.inr (.inr (.inr ⟨second, _, rfl, comes_test_iff.mpr ?_⟩)))⟩))
        exact .inl ⟨rfl, rfl⟩
      | refused first second isRefused =>
        refine .inr (.inr (.inr ⟨first, _, rfl, comes_forceList_bind.mpr
          (.inr (.inr (.inr ⟨second, _, rfl, comes_test_iff.mpr ?_⟩)))⟩))
        exact .inr ⟨_, _, rfl, .inl ⟨_, isRefused, rfl, rfl⟩⟩
      | chosen first second isTrue =>
        refine .inr (.inr (.inr ⟨first, _, rfl, comes_forceList_bind.mpr
          (.inr (.inr (.inr ⟨second, _, rfl, comes_test_iff.mpr ?_⟩)))⟩))
        exact .inr ⟨_, _, rfl, .inr (.inl ⟨isTrue, rfl, rfl⟩)⟩
    · refine .inr (.inr (.inr ⟨first, _, rfl, comes_forceList_bind.mpr
        (.inr (.inr (.inr ⟨second, _, rfl, comes_test_iff.mpr ?_⟩)))⟩))
      exact .inr ⟨_, _, rfl, .inr (.inr ⟨isFalse, again⟩)⟩

/-- Everything that comes is part of a round, after rounds whose condition was false. -/
theorem exists_passes {asked : Asked} {spine : Thunk}
    (comes : (choose spine).run.Comes asked sequel) :
    ∃ before last rest, Passes spine before last ∧ Settles last rest sequel ∧
      asked = before ++ rest := by
  rcases comes_choose_iff.mp comes with
    settles | ⟨first, second, answer, further, isFalse, same, again⟩
  · exact ⟨[], spine, asked, .start spine, settles, rfl⟩
  · have shorter : further.length < asked.length := by simp [same]; omega
    obtain ⟨before, last, rest, passes, settles, rfl⟩ := exists_passes again
    exact ⟨_, last, rest, .pass first second isFalse passes, settles, same⟩
  termination_by asked.length

theorem Passes.comes (passes : Passes spine before last) (settles : Settles last rest sequel) :
    (choose spine).run.Comes (before ++ rest) sequel := by
  induction passes with
  | start spine => exact comes_choose_iff.mpr (.inl settles)
  | pass first second isFalse passes ih =>
    exact comes_choose_iff.mpr (.inr ⟨first, second, _, _, isFalse, rfl, ih settles⟩)

end Branches

/-- A conditional forces the spine of its branches and the conditions up to the first that is
true, and nothing else.  The spine is put together from the arguments, and read as they are. -/
theorem conditionals_force_only_what_they_must (self : Nat) (store : Store)
    (positionals : List Positional) :
    ∃ list last pending after,
      (restList positionals).Runs self store (.ok list) after ∧
      store.Adds after ∧
      after.slot? last = some (.evaluated (.list .empty)) ∧
      after.Builds (.ofPositionals last positionals) list pending ∧
      (∀ later count stretch,
        after.Extends pending later →
        later.Shows (.ofPositionals last positionals) count stretch →
          ∃ final, (Recipe.list list).Reads self count later stretch final) ∧
      ∀ asked sequel,
        (LazyPrimitive.conditional.run [list]).run.Comes asked sequel ↔
          ∃ before here rest,
            Branches.Passes list before here ∧
            Branches.Settles here rest sequel ∧
            asked = before ++ rest := by
  obtain ⟨list, pending, after, runs, adds, ⟨last, held, builds⟩, -⟩ :=
    exists_restList self store positionals
  refine ⟨list, last, pending, after, runs, adds, held, builds, ?_, fun asked sequel => ⟨?_, ?_⟩⟩
  · intro later count stretch extended shows
    have buildsLater := builds.mono extended
    obtain ⟨final, reads, -⟩ := shows.exists_reads buildsLater.isSuspended
      (fun _ _ _ held => held) buildsLater fun _ => .inl
    exact ⟨final, reads⟩
  · exact Branches.exists_passes
  · rintro ⟨before, here, rest, passes, settles, rfl⟩
    exact passes.comes settles

end ByNeed
