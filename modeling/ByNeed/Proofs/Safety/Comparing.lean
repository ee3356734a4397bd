import ByNeed.Proofs.Safety.Attempts

/-!
# Comparing and hashing agree with the readings

Comparing and hashing are safe, and what they say can be read off the store in the end.  Where they
fail, nothing can be read off any later store either: an error is memoised, and a thunk that depends
on itself stays without a value while the thread that found this out evaluates it.
-/

namespace ByNeed

open Attempt Store List Option

variable {α β : Type} {frame : Frame} {stage : Stage frame}
variable {thunk : Thunk} {value : Value} {entries : List (Value × Thunk)}

/-- The answers of a reading stay the same in later stores and at greater bounds. -/
structure StableReading (reading : Store → Nat → Option α) : Prop where
  refines : ∀ {earlier later : Store} {bound greater : Nat}, earlier.Recalls later →
    bound ≤ greater → Refines (reading earlier bound) (reading later greater)

namespace StableReading

theorem order (left right : Value) :
    StableReading fun store bound => store.order? bound left right :=
  ⟨fun recalls le => order?_refines recalls le left right⟩

theorem hash (value : Value) : StableReading fun store bound => store.hash? bound value :=
  ⟨fun recalls le => (hash?_refines recalls le).1 value⟩

end StableReading

theorem Agrees.known {reading : Store → Nat → Option α}
    (agrees : Agrees reading stage (.ok result)) :
    ∃ bound, reading stage.store bound = some result :=
  agrees.imp fun bound answers => answers stage le_rfl bound le_rfl

namespace Attempt

variable {reading : Store → Nat → Option α} {attempt : Attempt α}

/-- An attempt is safe, and its outcome agrees with a reading. -/
def Reads (reading : Store → Nat → Option α) (attempt : Attempt α) (stage : Stage frame) : Prop :=
  attempt.run.Safe (fun later outcome => Agrees reading later outcome) stage

theorem reads_pure (result : α) : Reads (fun _ _ => some result) (pure result) stage :=
  ⟨0, fun _ _ _ _ => rfl⟩

theorem reads_throw (error : Error) : Reads (fun _ _ => (none : Option α)) (throw error) stage :=
  ⟨0, fun _ _ _ _ => rfl⟩

theorem Reads.safe (reads : attempt.Reads reading stage) :
    attempt.Safe (fun later result => ∃ bound, reading later.store bound = some result) stage := by
  refine Code.Safe.weaken reads fun later _ outcome agrees result isOk => ?_
  rw [isOk] at agrees
  exact agrees.known

theorem Reads.congr (reads : attempt.Reads reading stage)
    (same : ∀ store bound, other store bound = reading store bound) :
    attempt.Reads other stage := by
  have equal : other = reading := by
    funext store bound
    exact same store bound
  exact equal ▸ reads

/-- A reading one level up. -/
theorem Reads.succ (reads : attempt.Reads (fun store bound => reading store (bound + 1)) stage) :
    attempt.Reads reading stage := by
  refine Code.Safe.weaken reads fun later _ outcome ⟨bound, agrees⟩ => ⟨bound + 1, ?_⟩
  rintro final le (_ | greater) leGreater
  · cases leGreater
  · exact agrees final le greater (Nat.le_of_succ_le_succ leGreater)

theorem Reads.bind {next : α → Store → Nat → Option β} (reads : attempt.Reads reading stage)
    (rest : ∀ later, stage ≤ later → ∀ result, (∃ bound, reading later.store bound = some result) →
      (following result).Reads (next result) later) :
    Reads (fun store bound => (reading store bound).bind fun result => next result store bound)
      (attempt >>= following) stage := by
  refine safe_run_bind reads ?_ ?_
  · rintro later le result agrees
    refine Code.Safe.weaken (rest later le result agrees.known) ?_
    rintro final leFinal outcome ⟨bound, agreesToo⟩
    obtain ⟨firstBound, agrees⟩ := agrees
    refine ⟨max firstBound bound, fun last leLast greater leGreater => ?_⟩
    obtain ⟨leFirst, leSecond⟩ := Nat.max_le.mp leGreater
    change Option.bind _ _ = _
    rw [agrees last (leFinal.trans leLast) greater leFirst]
    exact agreesToo last leLast greater leSecond
  · rintro later _ error ⟨bound, agrees⟩
    refine ⟨bound, fun final leFinal greater leGreater => ?_⟩
    change Option.bind _ _ = none
    rw [agrees final leFinal greater leGreater]
    rfl

/-- Forcing a thunk and going on with its value.  A thunk that depends on itself has no
value to be read, so going on with the fault must not lead to an answer. -/
theorem reads_force_bind {next : Value → Store → Nat → Option β} (sees : stage.store.Sees thunk)
    (strict : ∀ store bound, next (.fault .selfDependence) store bound = none)
    (rest : ∀ later, stage ≤ later → ∀ value, later.Admits value →
      (following value).Reads (next value) later) :
    Reads (fun store bound => (store.forced? thunk).bind fun value => next value store bound)
      (ExceptT.lift (force thunk) >>= following) stage := by
  have forced : (ExceptT.lift (force thunk) : Attempt Value).run.Safe
      (fun later outcome => ∃ value, outcome = .ok value ∧ later.Gives thunk value) stage :=
    Code.Safe.bind (force_safe sees) fun later _ value gives => ⟨value, rfl, gives⟩
  refine safe_run_bind forced ?_ ?_
  · rintro later le value ⟨found, isOk, gives⟩
    cases isOk
    refine Code.Safe.weaken (rest later le value gives.admits) ?_
    rintro final leFinal outcome ⟨bound, agrees⟩
    refine ⟨bound, fun last leLast greater leGreater => ?_⟩
    change Option.bind _ _ = _
    rcases gives.2 with known | ⟨held, rfl⟩
    · rw [forced?_refines (Stage.recalls (leFinal.trans leLast)) thunk value known]
      exact agrees last leLast greater leGreater
    · have unknown : last.store.forced? thunk = none := by
        simp [Store.forced?, last.fits thunk held]
      rw [unknown, ← agrees last leLast greater leGreater, strict]
      rfl
  · rintro later _ error ⟨value, isOk, -⟩
    cases isOk

theorem reads_forceList (sees : stage.store.Sees thunk) :
    (forceList thunk).Reads (fun store _ => store.forcedList? thunk) stage := by
  have reads : (forceList thunk).Reads
      (fun store _ => (store.forced? thunk).bind fun value => value.toList.toOption) stage := by
    refine reads_force_bind sees (fun _ _ => rfl) fun later _ value _ => ?_
    cases value with
    | list cells => exact reads_pure cells
    | _ => exact reads_throw _
  refine reads.congr fun store bound => ?_
  unfold Store.forcedList?
  cases store.forced? thunk with
  | none => rfl
  | some value => cases value <;> rfl

end Attempt

/-- What a thunk is known to give is admitted. -/
theorem Stage.admits_of_forced? (stage : Stage frame)
    (known : stage.store.forced? thunk = some value) : stage.Admits value := by
  unfold Store.forced? at known
  split at known
  · rename_i found evaluated
    cases known
    exact (stage.sound.evaluated evaluated).purely
  · contradiction

theorem Stage.seesAll_of_forcedList? (stage : Stage frame)
    (known : stage.store.forcedList? thunk = some cells) : stage.SeesAll cells.thunks := by
  unfold Store.forcedList? at known
  split at known
  · rename_i found forced
    cases known
    exact stage.admits_of_forced? forced
  · contradiction

/-! ## Comparing -/

namespace Store

@[simp] theorem order?_error_left (store : Store) (bound : Nat) (failure : Error) (right : Value) :
    store.order? bound (.error failure) right = none := by
  cases bound with
  | zero => rfl
  | succ bound => simp only [order?, valueOrder?]

@[simp] theorem order?_error_right (store : Store) (bound : Nat) (left : Value) (failure : Error) :
    store.order? bound left (.error failure) = none := by
  cases bound with
  | zero => rfl
  | succ bound => cases left <;> simp only [order?, valueOrder?]

end Store

theorem compareValues_reads (leftAdmits : stage.Admits left) (rightAdmits : stage.Admits right) :
    (compareValues left right).Reads (fun store bound => store.order? bound left right) stage :=
  ⟨⟨leftAdmits, rightAdmits⟩, fun _ _ _ answers => answers⟩

theorem compareThunks_reads {left right : Thunk} (leftSees : stage.store.Sees left)
    (rightSees : stage.store.Sees right) : (compareThunks left right).Reads
      (fun store bound => store.thunkOrder? (store.order? bound) left right) stage := by
  unfold compareThunks Store.thunkOrder?
  split
  · exact reads_pure _
  · refine reads_force_bind leftSees ?_ fun later le leftValue leftAdmits => ?_
    · simp [Value.fault]
    · refine reads_force_bind (rightSees.mono le) ?_
        fun final leFinal rightValue rightAdmits => ?_
      · simp [Value.fault]
      · exact compareValues_reads (leftAdmits.mono leFinal) rightAdmits

theorem LazyList.compare_reads {left right : LazyList} (leftSees : stage.SeesAll left.thunks)
    (rightSees : stage.SeesAll right.thunks) : (left.compare right).Reads
      (fun store bound => store.listOrder? (store.order? bound) left right) stage := by
  cases left with
  | empty => cases right <;> exact reads_pure _
  | cons leftHead leftTail =>
    cases right with
    | empty => exact reads_pure _
    | cons rightHead rightTail =>
      simp only [LazyList.thunks, Realm.seesAll_cons] at leftSees rightSees
      refine (compareThunks_reads leftSees.1 rightSees.1).bind fun later le outcome _ => ?_
      cases outcome with
      | eq =>
        dsimp only
        unfold Store.tailOrder?
        split
        · exact reads_pure _
        · refine (reads_forceList (leftSees.2.1.mono le)).bind ?_
          rintro second leSecond leftList ⟨-, leftKnown⟩
          refine (reads_forceList ((rightSees.2.1.mono le).mono leSecond)).bind ?_
          rintro final leFinal rightList ⟨-, rightKnown⟩
          exact ⟨⟨(second.seesAll_of_forcedList? leftKnown).mono leFinal,
            final.seesAll_of_forcedList? rightKnown⟩, fun _ _ _ answers => answers⟩
      | _ => exact reads_pure _

/-! ### Sorting entries -/

namespace Dictionary

theorem insertSorted_reads {entry : Value × Thunk} (entryAdmits : stage.Admits entry.1)
    (admits : ∀ other ∈ entries, stage.Admits other.1) : (insertSorted entry passed entries).Reads
      (fun store bound => Store.insertSorted? (store.order? bound) entry passed entries) stage := by
  induction entries generalizing passed stage with
  | nil => exact reads_pure _
  | cons other rest ih =>
    refine (compareValues_reads (admits other mem_cons_self) entryAdmits).bind
      fun later le outcome _ => ?_
    have restAdmits : ∀ found ∈ rest, later.Admits found.1 := fun found mem =>
      (admits found (mem_cons_of_mem _ mem)).mono le
    cases outcome with
    | gt => exact reads_pure _
    | _ => exact ih (entryAdmits.mono le) restAdmits

theorem sortEntries_reads {sorted : List (Value × Thunk)}
    (sortedAdmits : ∀ entry ∈ sorted, stage.Admits entry.1)
    (admits : ∀ entry ∈ entries, stage.Admits entry.1) : (sortEntries sorted entries).Reads
      (fun store bound => Store.sortEntries? (store.order? bound) sorted entries) stage := by
  induction entries generalizing sorted stage with
  | nil => exact reads_pure _
  | cons entry rest ih =>
    refine (insertSorted_reads (admits entry mem_cons_self) sortedAdmits).bind ?_
    rintro later le between ⟨bound, inserted⟩
    refine ih (fun other mem => ?_) fun other mem =>
      (admits other (mem_cons_of_mem _ mem)).mono le
    rcases mem_cons.mp ((insertSorted?_perm inserted).mem_iff.mp mem) with
      rfl | earlier
    · exact (admits other mem_cons_self).mono le
    · exact (sortedAdmits other earlier).mono le

theorem compareEntries_reads {left right : List (Value × Thunk)}
    (leftHolds : ∀ entry ∈ left, stage.AdmitsEntry entry)
    (rightHolds : ∀ entry ∈ right, stage.AdmitsEntry entry) : (compareEntries left right).Reads
      (fun store bound => store.entriesOrder? (store.order? bound) left right) stage := by
  induction left generalizing right stage with
  | nil => exact reads_pure _
  | cons leftEntry left ih =>
    cases right with
    | nil => exact reads_pure _
    | cons rightEntry right =>
      obtain ⟨leftKey, leftValue⟩ := leftEntry
      obtain ⟨rightKey, rightValue⟩ := rightEntry
      obtain ⟨leftAdmits, leftSees⟩ := leftHolds _ mem_cons_self
      obtain ⟨rightAdmits, rightSees⟩ := rightHolds _ mem_cons_self
      refine (compareValues_reads leftAdmits rightAdmits).bind fun later le keys _ => ?_
      cases keys with
      | eq =>
        refine (compareThunks_reads (leftSees.mono le) (rightSees.mono le)).bind
          fun final leFinal values _ => ?_
        have leAll := le.trans leFinal
        cases values with
        | eq =>
          refine ih (fun entry mem => ?_) fun entry mem => ?_
          · exact (leftHolds entry (mem_cons_of_mem _ mem)).mono leAll
          · exact (rightHolds entry (mem_cons_of_mem _ mem)).mono leAll
        | _ => exact reads_pure _
      | _ => exact reads_pure _

/-- What holds of the entries of a dictionary holds of them in key order. -/
theorem sortedEntries_reads (admits : stage.AdmitsDictionary dict) : dict.sortedEntries.Reads
      (fun store bound => Store.sortEntries? (store.order? bound) [] dict.toList) stage :=
  sortEntries_reads (fun _ mem => by cases mem) fun _ mem =>
    (admits.entries stage.sound mem).1

theorem holds_of_sortEntries? (admits : stage.AdmitsDictionary dict)
    (sorts : Store.sortEntries? order [] dict.toList = some sorted) :
    ∀ entry ∈ sorted, stage.AdmitsEntry entry :=
  fun _ mem =>
    admits.entries stage.sound ((sortEntries?_perm sorts).mem_iff.mp mem)

theorem compare_reads {left right : Dict} (leftAdmits : stage.AdmitsDictionary left)
    (rightAdmits : stage.AdmitsDictionary right) : (left.compare right).Reads
      (fun store bound => store.dictionaryOrder? (store.order? bound) left right) stage := by
  unfold Dictionary.compare Store.dictionaryOrder?
  cases Ord.compare left.size right.size with
  | lt | gt => exact reads_pure _
  | eq =>
    dsimp only
    split
    · exact reads_pure _
    · refine (sortedEntries_reads leftAdmits).bind ?_
      rintro later le leftEntries ⟨_, leftSorts⟩
      refine (sortedEntries_reads (rightAdmits.mono le)).bind ?_
      rintro final leFinal rightEntries ⟨_, rightSorts⟩
      have leAll := le.trans leFinal
      exact compareEntries_reads (holds_of_sortEntries? (leftAdmits.mono leAll) leftSorts)
        (holds_of_sortEntries? (rightAdmits.mono leAll) rightSorts)

end Dictionary

/-- Comparing two values is safe, and its outcome can be read off the store. -/
theorem Value.compare_reads {left right : Value} (leftAdmits : stage.Admits left)
    (rightAdmits : stage.Admits right) :
    (left.compare right).Reads (fun store bound => store.order? bound left right) stage := by
  refine Attempt.Reads.succ ?_
  cases left with
  | error failure => exact reads_throw failure
  | list leftCells =>
    cases right with
    | list rightCells => exact LazyList.compare_reads leftAdmits rightAdmits
    | error failure => exact reads_throw failure
    | _ => exact reads_pure _
  | dictionary leftEntries =>
    cases right with
    | dictionary rightEntries => exact Dictionary.compare_reads leftAdmits rightAdmits
    | error failure => exact reads_throw failure
    | _ => exact reads_pure _
  | _ =>
    cases right with
    | error failure => exact reads_throw failure
    | _ => exact reads_pure _

/-! ## Hashing -/

@[simp] theorem Store.hash?_error (store : Store) (bound : Nat) (failure : Error) :
    store.hash? bound (.error failure) = none := by
  cases bound <;> rfl

theorem hashValue_reads (admits : stage.Admits value) :
    (hashValue value).Reads (fun store bound => store.hash? bound value) stage :=
  ⟨admits, fun _ _ _ answers => answers⟩

theorem hashElements_reads (sees : stage.SeesAll list.thunks) :
    Attempt.Reads (fun store bound => store.hashes? bound list)
      (.ofCode (.call (.hashElements list) .done)) stage :=
  ⟨sees, fun _ _ _ answers => answers⟩

theorem digest_reads (pieces : List Piece) :
    (digest pieces).Reads (fun store _ => some (store.digest pieces)) stage := by
  refine ⟨Realm.seesAll_nil, fun later _ word answers => ⟨0, fun final le _ _ => ?_⟩⟩
  rw [answers]
  exact congrArg some (congrFun (Stage.recalls le).digest pieces)

theorem LazyList.hashes_reads {list : LazyList} (sees : stage.SeesAll list.thunks) :
    list.hashes.Reads
      (fun store bound => store.listHashes? (store.hash? bound) (store.hashes? bound) list)
      stage := by
  cases list with
  | empty => exact reads_pure _
  | cons head tail =>
    simp only [LazyList.thunks, Realm.seesAll_cons] at sees
    have reads : (LazyList.cons head tail).hashes.Reads
        (fun store bound => (store.forced? head).bind fun value =>
          (store.hash? bound value).bind fun headHash =>
            (store.forcedList? tail).bind fun rest =>
              (store.hashes? bound rest).bind fun tailHashes => some (headHash :: tailHashes))
        stage := by
      refine reads_force_bind sees.1 (by simp [Value.fault])
        fun first leFirst value valueAdmits => ?_
      refine (hashValue_reads valueAdmits).bind fun second leSecond headHash _ => ?_
      have le := leFirst.trans leSecond
      refine (reads_forceList (sees.2.1.mono le)).bind ?_
      rintro third _ rest ⟨-, restKnown⟩
      refine (hashElements_reads (third.seesAll_of_forcedList? restKnown)).bind ?_
      exact fun _ _ tailHashes _ => reads_pure _
    refine reads.congr fun store bound => ?_
    simp only [Store.listHashes?, Store.thunkHash?, bind_eq_bind, Option.bind_assoc,
      Option.pure_def]

theorem Dictionary.hashEntries_reads {sum : UInt64}
    (holds : ∀ entry ∈ entries, stage.AdmitsEntry entry) : (hashEntries entries sum).Reads
      (fun store bound => store.entriesHash? (store.hash? bound) entries sum) stage := by
  induction entries generalizing sum stage with
  | nil => exact reads_pure _
  | cons entry rest ih =>
    obtain ⟨key, value⟩ := entry
    obtain ⟨keyAdmits, valueSees⟩ := holds _ mem_cons_self
    have reads : (hashEntries ((key, value) :: rest) sum).Reads
        (fun store bound => (store.hash? bound key).bind fun keyHash =>
          (store.forced? value).bind fun forced =>
            (store.hash? bound forced).bind fun valueHash =>
              (some (store.digest ([keyHash, valueHash].map Piece.word))).bind fun word =>
                store.entriesHash? (store.hash? bound) rest (sum + word)) stage := by
      refine (hashValue_reads keyAdmits).bind fun first leFirst keyHash _ => ?_
      refine reads_force_bind (valueSees.mono leFirst) (by simp [Value.fault])
        fun second leSecond forced forcedAdmits => ?_
      refine (hashValue_reads forcedAdmits).bind fun third leThird valueHash _ => ?_
      refine (digest_reads _).bind fun final leFinal word _ => ?_
      have le := ((leFirst.trans leSecond).trans leThird).trans leFinal
      exact ih fun entry mem => (holds entry (mem_cons_of_mem _ mem)).mono le
    refine reads.congr fun store bound => ?_
    simp only [Store.entriesHash?, Store.entryHash?, Store.thunkHash?, bind_eq_bind,
      Option.bind_assoc, Option.pure_def]

/-- Hashing a value is safe, and its outcome can be read off the store. -/
theorem Value.hash_reads (admits : stage.Admits value) :
    value.hash.Reads (fun store bound => store.hash? bound value) stage := by
  refine Attempt.Reads.succ ?_
  cases value with
  | list cells =>
    exact (LazyList.hashes_reads admits).bind fun _ _ hashes _ => digest_reads _
  | dictionary entries =>
    exact (Dictionary.hashEntries_reads fun entry mem => admits.entries stage.sound mem).bind
      fun _ _ sum _ => digest_reads _
  | error failure => exact reads_throw failure
  | _ => exact digest_reads _

end ByNeed
