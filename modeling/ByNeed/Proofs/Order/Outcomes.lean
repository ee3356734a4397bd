import ByNeed.Proofs.Safety.Service

/-!
# Outcomes can be read

What a thread is told of values of a store can be read off the store from then on, so outcomes of
different times can be held against each other.
-/

namespace ByNeed

variable {after : Store} {frame : Frame} {stage : Stage frame}

/-- Some thunk of a store has a value. -/
def Store.Memoises (store : Store) (value : Value) : Prop :=
  ∃ thunk, store.slot? thunk = some (.evaluated value)

/-- Whether two values are equal, so many levels down. -/
def Store.equal? (store : Store) (bound : Nat) (left right : Value) : Option Bool :=
  (store.order? bound left right).bind fun outcome => some (outcome == .eq)

theorem StableReading.equal (left right : Value) :
    StableReading fun store bound => store.equal? bound left right :=
  ⟨fun recalls le => ((StableReading.order left right).refines recalls le).bind fun _ => .refl _⟩

section Agree

variable {frame : Frame} {stage : Stage frame} {α : Type} {reading : Store → Nat → Option α}
variable {outcome : Except Error α}

theorem equalValues_reads (leftAdmits : stage.Admits left) (rightAdmits : stage.Admits right) :
    (equalValues left right).Reads (fun store bound => store.equal? bound left right) stage :=
  (compareValues_reads leftAdmits rightAdmits).bind fun _ _ _ _ => Attempt.reads_pure _

theorem Agrees.mono (agrees : Agrees reading stage outcome) (le : stage ≤ later) :
    Agrees reading later outcome :=
  agrees.imp fun _ answers final leFinal => answers final (le.trans leFinal)

/-- A reading that has an answer has it as the outcome. -/
theorem Agrees.eq_of_known (agrees : Agrees reading stage outcome)
    (stable : StableReading reading) (le : stage ≤ later)
    (known : reading later.store bound = some result) : outcome = .ok result := by
  obtain ⟨least, answers⟩ := agrees
  have answer := answers later le (max least bound) (Nat.le_max_left _ _)
  rw [stable.refines (Stage.recalls (le_refl later)) (Nat.le_max_right _ _) result known] at answer
  cases outcome with
  | ok => rw [Option.some.inj answer]
  | error => cases answer

theorem Attempt.Reads.of_ends {attempt : Attempt α} (reads : attempt.Reads reading stage)
    (exact : stage.Exact)
    (ends : attempt.run.Ends frame.self stage.store (.ok outcome) after) :
    ∃ later : Stage frame, stage ≤ later ∧ later.store = after ∧ later.Exact ∧
      Agrees reading later outcome := by
  obtain ⟨later, le, same, exactLater, agrees⟩ :=
    Code.Safe.of_ends reads (fun _ _ _ le agrees => agrees.mono le) exact ends
  exact ⟨later, le, same, exactLater, agrees outcome rfl⟩

theorem Stage.admits_of_memoises (memoises : stage.store.Memoises value) : stage.Admits value := by
  obtain ⟨thunk, evaluated⟩ := memoises
  exact stage.sound.evaluated evaluated

end Agree

/-- Doing what a request asks for leads to a later stage. -/
theorem Request.exists_later (exact : stage.Exact)
    {request : Request} (sees : stage.SeesAll request.thunks)
    {outcome : Except String request.Result}
    (ends : request.code.Ends frame.self stage.store outcome after) :
    ∃ later : Stage frame, stage ≤ later ∧ later.store = after ∧ later.Exact := by
  -- The same stage, in the frame of the request.
  let there : Stage { frame with runs := request.runs } :=
    { toRealm := stage.toRealm, sound := stage.sound, fits := stage.fits }
  have safe : request.code.Safe (fun _ result => request.Answers result) there :=
    Request.code_safe rfl sees
  obtain ⟨later, le, same, exactLater, -⟩ :=
    safe.of_ends (fun _ _ _ _ answers => answers) exact ends
  exact ⟨{ toRealm := later.toRealm, sound := later.sound, fits := later.fits }, le, same,
    exactLater⟩

end ByNeed
