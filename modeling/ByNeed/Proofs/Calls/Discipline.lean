import ByNeed.Proofs.Calls.Course
import ByNeed.Proofs.Calls.Origins
import ByNeed.Proofs.Calls.Runs

/-!
# Calls keep to their signatures

Whatever programs are run and however threads take turns, a body is run only once its arguments are
bound, on one thunk for each parameter, and a strict body only on values that are neither errors nor
effects.  What knows its names and does not break off on purpose never breaks off; and if it raises
no errors of its own choice either, no error is internal.
-/

namespace ByNeed

/-! ## Runs -/

/-- A service keeps to what is granted: its threads break off only with messages that are
granted, and the errors that it holds or ends requests with may occur.  The bodies that it has
suspended have a thunk for each parameter. -/
structure Service.KeepsTo (service : Service) (allowance : Allowance) : Prop where
  running : ∀ {number request message},
    service.tasks number = some ⟨request, .running (.breakOff message)⟩ → allowance.breaks message
  driving : ∀ {number request message chain stack}, service.tasks number = some ⟨request, .driving
    (.breakOff message) chain stack⟩ → allowance.breaks message
  evaluated : ∀ {thunk value}, service.store.slot? thunk = some (.evaluated value) →
    value.Fits allowance
  suspended : ∀ {thunk computation}, service.store.slot? thunk = some (.suspended computation) →
    computation.Fits allowance
  results : ∀ {number task result after}, service.tasks number = some task → task.thread.step number
    service.store = (.finished (.ok result), after) → task.request.Told allowance result

theorem Service.Fits.keepsTo {service : Service} (fits : service.Fits allowance) :
    service.KeepsTo allowance where
  running present := fits.tasks present
  driving present := (fits.tasks present).1
  evaluated := fits.store.evaluated
  suspended := fits.store.suspended
  results present finished := Thread.Fits.of_finished (fits.tasks present) finished

/-- In every run of every program, whatever functions it calls:

* a call stands in its course, as the thunks it asked for have answered: the body is run only
  after binding succeeded, on one thunk for each parameter, and a strict body only once each of
  these gave a value that is neither an error nor an effect, in the order of the parameters; the
  first error is the result, and nothing is asked for after it;
* so does every computation that a thread has begun and is working on;
* a body that is run for an effect is run on one thunk for each parameter;
* if what is asked for fits an allowance, the run keeps to it;
* every function of the prelude may be used where nothing breaks off, and each but the one that
  raises errors where no error is internal. -/
theorem calls_keep_to_their_signatures (digest : List Piece → UInt64) (moves : List Move) :
    let service := (Service.initial digest).run moves
    (∀ number callee arguments code,
      service.tasks number = some ⟨.call callee arguments, .running code⟩ →
        ∃ asked, service.store.Answers asked ∧ callee.Course arguments asked code) ∧
    (∀ number request code chain stack,
      service.tasks number = some ⟨request, .driving code chain stack⟩ →
        ∃ begun ∈ (Service.initial digest).beginnings moves,
          begun.number = number ∧
          (chainThunks chain).head? = some begun.thunk ∧
          ∃ asked, service.store.Answers asked ∧ begun.computation.Course asked code) ∧
    (∀ begun ∈ (Service.initial digest).beginnings moves, ∀ body names bound,
      begun.computation = .invoke body names bound → bound.length = names.length) ∧
    (∀ allowance : Allowance,
      (∀ number request, .start number request ∈ moves → request.Fits allowance) →
        service.KeepsTo allowance) ∧
    (∀ entry ∈ Prelude.entries,
      Allowance.unbroken.Offers entry.name ∧
      (entry.name ≠ "error" → Allowance.external.Offers entry.name)) := by
  have soundIn := Service.soundIn_initial digest
  have stems := soundIn.stems_run (fun _ => rfl) moves
  refine ⟨?_, ?_, ?_, ?_, ?_⟩
  · intro number callee arguments code present
    obtain ⟨asked, reached, answers⟩ := stems number _ present
    exact ⟨asked, answers, Function.course_of_after reached⟩
  · intro number request code chain stack present
    obtain ⟨⟨link, computation, isHead, ⟨begun, mem, numbered, same, rfl⟩, asked, reached,
      answers⟩, -⟩ := stems number _ present
    refine ⟨begun, mem, numbered, ?_, asked, answers, Suspension.course_of_after reached⟩
    rw [chainThunks, List.head?_map, isHead, same]
    rfl
  · intro begun mem body names bound isBody
    obtain ⟨before, move, after, rfl, begins⟩ := Service.exists_of_mem_beginnings mem
    obtain ⟨between, -, soundThen⟩ := soundIn.run before
    obtain ⟨suspended, -⟩ := soundThen.suspended_of_begins begins
    have fits : ((Service.initial digest).run before).Fits .everything :=
      (Service.fits_initial digest).run fun _ request _ => request.fits_everything
    have computationFits := fits.store.suspended suspended
    rw [isBody] at computationFits
    exact computationFits.2
  · intro allowance fit
    exact ((Service.fits_initial digest).run fit).keepsTo
  · intro entry listed
    have named := List.mem_map_of_mem (f := PreludeEntry.name) listed
    exact ⟨Prelude.offers named fun _ _ _ => trivial,
      fun different => Prelude.offers named fun same => absurd same different⟩

/-- The key of the first of no elements is looked up, where evaluating the key leaves a note. -/
def refusedLookup : Expr :=
  .call (.name "index") [ (.single, .call (.name "first") [(.single, .list [])] [] none) , (.single,
    .probe "key" (.literal .nil)) ] [] none

/-- The call is built and evaluated. -/
def refusedMoves : List Move :=
  .start 0 (.build refusedLookup []) :: List.replicate 9 (.step 0) ++
    .start 0 (.force ⟨5⟩) :: List.replicate 12 (.step 0)

theorem refusedLookup_fits : refusedLookup.Fits .external [] := by
  have index : Allowance.external.Offers "index" := Prelude.offers (by decide) (by simp)
  have first : Allowance.external.Offers "first" := Prelude.offers (by decide) (by simp)
  simp [refusedLookup, Expr.Fits, PositionalsFit, KeywordsFit, ElementsFit, index, first]

theorem refusedLookup_keeps_to_signatures :
    (∀ number request, .start number request ∈ refusedMoves → request.Fits .external) ∧
    ((Service.initial Digest.multiplicative).run refusedMoves).KeepsTo .external ∧
    ∃ failure, ((Service.initial Digest.multiplicative).run refusedMoves).store.slot? ⟨5⟩ =
        some (.evaluated (.error failure)) ∧
      failure.name ≠ ErrorKind.internal.name ∧
      ((Service.initial Digest.multiplicative).run refusedMoves).store.log = #[] := by
  obtain ⟨-, -, -, keepsTo, -⟩ := calls_keep_to_their_signatures Digest.multiplicative refusedMoves
  have fit : ∀ number request, .start number request ∈ refusedMoves → request.Fits .external := by
    intro number request started
    simp only [refusedMoves, List.cons_append, List.mem_cons, List.mem_append, List.mem_replicate,
      reduceCtorEq, and_false, false_or, or_false, Move.start.injEq] at started
    rcases started with ⟨-, rfl⟩ | ⟨-, rfl⟩
    · exact refusedLookup_fits
    · trivial
  have kept := keepsTo .external fit
  refine ⟨fit, kept, ?_⟩
  have held : ((Service.initial Digest.multiplicative).run refusedMoves).store.slot? ⟨5⟩ =
      some (.evaluated (.error Fault.emptyList.error)) := rfl
  exact ⟨_, held, Value.fits_error.mp (kept.evaluated held), rfl⟩

end ByNeed
