import ByNeed.Proofs.Order.Keywise

/-!
# Making dictionaries and consulting values

A thread makes dictionaries from what is in a store and from dictionaries made before, asks how
values compare, what their hashes are and what is found under them, and may do anything else in
between.  In the end all dictionaries are admitted, and what the thread was told can be read.
-/

namespace ByNeed

open Attempt Dictionary

variable {self : Nat}
variable {made : List Dict} {store : Store}

/-- A value is made of what there is: its thunks can be seen, and a dictionary is one of
those made. -/
def Value.Offered (store : Store) (made : List Dict) : Value → Prop
  | .list cells => ∀ thunk ∈ cells.thunks, store.Sees thunk
  | .dictionary entries => entries ∈ made
  | .function callee => ∀ thunk ∈ callee.thunks, store.Sees thunk
  | .effect _ payload => store.Holds payload
  | _ => True

/-- An operation that makes a dictionary. -/
inductive Making where
  | new
  | insert (dict : Dict) (key : Value) (value : Thunk)
  | remove (dict : Dict) (key : Value)
  | merge (dict other : Dict)
  | ofEntries (entries : List (Value × Thunk))

namespace Making

/-- The code of an operation. -/
def attempt : Making → Attempt Dict
  | .new => return .empty
  | .insert dict key value => dict.insert key value
  | .remove dict key => dict.remove key
  | .merge dict other => dict.merge other
  | .ofEntries entries => Dictionary.ofEntries entries

/-- An operation is given what there is. -/
def Allowed (store : Store) (made : List Dict) : Making → Prop
  | .new => True
  | .insert dict key value => dict ∈ made ∧ key.Offered store made ∧ store.Sees value
  | .remove dict key => dict ∈ made ∧ key.Offered store made
  | .merge dict other => dict ∈ made ∧ other ∈ made
  | .ofEntries entries => ∀ entry ∈ entries, entry.1.Offered store made ∧ store.Sees entry.2

end Making

/-- Whether what two thunks evaluate to is equal. -/
def equalThunks (left right : Thunk) : Attempt Bool := do
  equalValues (← force left) (← force right)

/-- A question, with what was said in answer. -/
inductive Consultation where
  | compared (left right : Value) (outcome : Except Error Ordering)
  | equated (left right : Value) (outcome : Except Error Bool)
  | hashed (value : Value) (outcome : Except Error UInt64)
  | found (dict : Dict) (key : Value) (outcome : Except Error (Option Thunk))
  | matched (left right : Thunk) (outcome : Except Error Bool)

namespace Consultation

/-- A question is about what there is. -/
def Allowed (store : Store) (made : List Dict) : Consultation → Prop
  | .compared left right _ | .equated left right _ =>
    left.Offered store made ∧ right.Offered store made
  | .hashed value _ => value.Offered store made
  | .found dict key _ => dict ∈ made ∧ key.Offered store made
  | .matched left right _ => store.Sees left ∧ store.Sees right

/-- A thread asks in one store and is told the outcome in another. -/
def Ends (self : Nat) (store after : Store) : Consultation → Prop
  | .compared left right outcome =>
    (compareValues left right).run.Ends self store (.ok outcome) after
  | .equated left right outcome => (equalValues left right).run.Ends self store (.ok outcome) after
  | .hashed value outcome => (hashValue value).run.Ends self store (.ok outcome) after
  | .found dict key outcome => (dict.get? key).run.Ends self store (.ok outcome) after
  | .matched left right outcome => (equalThunks left right).run.Ends self store (.ok outcome) after

end Consultation

/-- A thread has made dictionaries in a store that was another one at the start, and it has
asked questions. -/
inductive Workshop (self : Nat) (start : Store) :
    List Dict → List Consultation → Store → Prop
  | start : Workshop self start [] [] start
  /-- A dictionary that a thunk evaluates to is taken up. -/
  | take {made : List Dict} {asked : List Consultation} {store : Store} {dict : Dict}
      (former : Workshop self start made asked store)
      (held : store.Memoises (.dictionary dict)) :
      Workshop self start (dict :: made) asked store
  | make {made : List Dict} {asked : List Consultation} {store after : Store} {making : Making}
      {outcome : Except Error Dict}
      (former : Workshop self start made asked store)
      (allowed : making.Allowed store made)
      (ends : making.attempt.run.Ends self store (.ok outcome) after) :
      Workshop self start (outcome.toOption.toList ++ made) asked after
  | ask {made : List Dict} {asked : List Consultation} {store after : Store}
      (former : Workshop self start made asked store)
      (consultation : Consultation)
      (allowed : consultation.Allowed store made)
      (ends : consultation.Ends self store after) :
      Workshop self start made (consultation :: asked) after
  /-- Something else is asked for in between. -/
  | serve {made : List Dict} {asked : List Consultation} {store after : Store}
      {request : Request} {outcome : Except String request.Result}
      (former : Workshop self start made asked store)
      (sees : ∀ thunk ∈ request.thunks, store.Sees thunk)
      (ends : request.code.Ends self store outcome after) :
      Workshop self start made asked after

/-! ## What is made is admitted, and what is said holds -/

section Stage

variable {frame : Frame} {stage : Stage frame} {made : List Dict}

theorem Value.Offered.admits (offered : value.Offered stage.store made)
    (madeAdmits : ∀ dict ∈ made, stage.AdmitsDictionary dict) : stage.Admits value := by
  cases value with
  | dictionary entries => exact madeAdmits entries offered
  | list | function | effect => exact offered
  | _ => trivial

theorem Making.attempt_safe {making : Making} (allowed : making.Allowed stage.store made)
    (madeAdmits : ∀ dict ∈ made, stage.AdmitsDictionary dict) :
    making.attempt.Safe Stage.Admitted stage := by
  cases making with
  | new => exact safe_pure Realm.admitsDictionary_empty
  | insert dict key value =>
    obtain ⟨isMade, offered, sees⟩ := allowed
    exact insert_safe (madeAdmits dict isMade) (offered.admits madeAdmits) sees
  | remove dict key =>
    obtain ⟨isMade, offered⟩ := allowed
    exact remove_safe (madeAdmits dict isMade) (offered.admits madeAdmits)
  | merge dict other =>
    exact merge_safe (madeAdmits dict allowed.1) (madeAdmits other allowed.2)
  | ofEntries entries =>
    exact ofEntries_safe fun entry mem =>
      ⟨(allowed entry mem).1.admits madeAdmits, (allowed entry mem).2⟩

/-- Whether what two thunks evaluate to is equal, so many levels down. -/
def Store.equalThunks? (store : Store) (bound : Nat) (left right : Thunk) : Option Bool :=
  (store.forced? left).bind fun leftValue =>
    (store.forced? right).bind fun rightValue => store.equal? bound leftValue rightValue

theorem StableReading.equalThunks (left right : Thunk) :
    StableReading fun store bound => store.equalThunks? bound left right :=
  ⟨fun recalls le => (Store.forced?_refines recalls left).bind fun leftValue =>
    (Store.forced?_refines recalls right).bind fun rightValue =>
      (StableReading.equal leftValue rightValue).refines recalls le⟩

theorem equalThunks_reads (leftSees : stage.store.Sees left) (rightSees : stage.store.Sees right) :
    (equalThunks left right).Reads (fun store bound => store.equalThunks? bound left right)
      stage := by
  refine reads_force_bind leftSees ?_ fun later le leftValue leftAdmits => ?_
  · simp [Store.equal?, Value.fault]
  · refine reads_force_bind (rightSees.mono le) ?_
      fun final leFinal rightValue rightAdmits => ?_
    · simp [Store.equal?, Value.fault]
    · exact equalValues_reads (leftAdmits.mono leFinal) rightAdmits

namespace Dictionary

variable {dict : Dict} {key : Value}

theorem LooksUp.mono (looksUp : LooksUp earlier dict key found) (recalls : earlier.Recalls later) :
    LooksUp later dict key found := by
  cases found with
  | none => exact fun entry mem => (looksUp entry mem).mono recalls
  | some value =>
    obtain ⟨entry, mem, isEqual, same⟩ := looksUp
    exact ⟨entry, mem, isEqual.mono recalls, same⟩

theorem LooksUp.unique (admits : stage.AdmitsDictionary dict) (keyAdmits : stage.Admits key)
    (looksUp : LooksUp stage.store dict key found)
    (otherLooksUp : LooksUp stage.store dict key other) : found = other := by
  cases found with
  | none =>
    cases other with
    | none => rfl
    | some value =>
      obtain ⟨entry, mem, isEqual, -⟩ := otherLooksUp
      exact absurd (looksUp entry mem) isEqual.not_differ
  | some value =>
    obtain ⟨entry, mem, isEqual, rfl⟩ := looksUp
    cases other with
    | none => exact absurd (otherLooksUp entry mem) isEqual.not_differ
    | some otherValue =>
      obtain ⟨otherEntry, otherMember, otherEqual, rfl⟩ := otherLooksUp
      rw [eq_of_matches admits mem otherMember keyAdmits isEqual otherEqual]

/-- What was said when a key was looked up: what is found there from then on, or an error of
a key that has no hash, now or later. -/
def SaidOf (stage : Stage frame) (dict : Dict) (key : Value) :
    Except Error (Option Thunk) → Prop
  | .ok found => LooksUp stage.store dict key found
  | .error _ => ∀ later, stage ≤ later → ¬later.store.Hashable key

theorem saidOf_of_ends (admits : stage.AdmitsDictionary dict) (exact : stage.Exact)
    (keyAdmits : stage.Admits key)
    (ends : (dict.get? key).run.Ends frame.self stage.store (.ok outcome) after) :
    ∃ later : Stage frame, stage ≤ later ∧ later.store = after ∧ later.Exact ∧
      SaidOf later dict key outcome := by
  cases root : dict.root with
  | none =>
    have pure : (dict.get? key).Returns frame.self stage.store none stage.store := by
      rw [get?, root]
      exact returns_pure _ _
    obtain ⟨same, rfl⟩ := Code.Ends.unique pure ends
    cases same
    refine ⟨stage, le_rfl, rfl, exact, fun entry mem => ?_⟩
    simp [toList, root] at mem
  | some trie =>
    cases outcome with
    | ok found =>
      have returns : (dict.get? key).Returns frame.self stage.store found after := ends
      rw [get?, root] at returns
      obtain ⟨word, between, hashes, rest⟩ := returns.of_bind
      obtain ⟨later, le, rfl, exactLater, bound, known⟩ := exists_hashed exact keyAdmits hashes
      obtain ⟨position, locates, looksUp⟩ :=
        exists_located (admits.mono le) frame.self (keyAdmits.mono le) known
      rw [bucket, root] at locates looksUp
      obtain ⟨rfl, rfl⟩ := (locates.map fun position : Option Nat => position.bind
        fun position => (trie.bucket word)[position]?.map Prod.snd).unique rest
      exact ⟨later, le, rfl, exactLater, looksUp⟩
    | error failure =>
      have nonempty := (isEmpty_eq_false_iff admits).mpr ⟨trie, root⟩
      have fails := (get?_hingesOn admits exact keyAdmits nonempty).fails_iff.mp ends
      obtain ⟨later, le, same, exactLater, agrees⟩ :=
        (hashValue_reads keyAdmits).of_ends exact fails
      refine ⟨later, le, same, exactLater, fun final leFinal hashable => ?_⟩
      obtain ⟨bound, word, known⟩ := hashable
      cases agrees.eq_of_known (.hash key) leFinal known

end Dictionary

namespace Consultation

/-- The outcome of a consultation is what can be read. -/
def Holds (stage : Stage frame) : Consultation → Prop
  | .compared left right outcome => stage.Admits left ∧ stage.Admits right ∧
      Agrees (fun store bound => store.order? bound left right) stage outcome
  | .equated left right outcome => stage.Admits left ∧ stage.Admits right ∧
      Agrees (fun store bound => store.equal? bound left right) stage outcome
  | .hashed value outcome => stage.Admits value ∧
      Agrees (fun store bound => store.hash? bound value) stage outcome
  | .found dict key outcome => stage.Admits key ∧ Dictionary.SaidOf stage dict key outcome
  | .matched left right outcome => stage.store.Sees left ∧ stage.store.Sees right ∧
      Agrees (fun store bound => store.equalThunks? bound left right) stage outcome

variable {consultation : Consultation}

theorem Holds.mono (holds : consultation.Holds stage) (le : stage ≤ later) :
    consultation.Holds later := by
  cases consultation with
  | compared left right outcome =>
    exact ⟨holds.1.mono le, holds.2.1.mono le, holds.2.2.mono le⟩
  | equated left right outcome =>
    exact ⟨holds.1.mono le, holds.2.1.mono le, holds.2.2.mono le⟩
  | hashed value outcome => exact ⟨holds.1.mono le, holds.2.mono le⟩
  | found dict key outcome =>
    refine ⟨holds.1.mono le, ?_⟩
    cases outcome with
    | ok found => exact Dictionary.LooksUp.mono holds.2 (Stage.recalls le)
    | error failure => exact fun final leFinal => holds.2 final (le.trans leFinal)
  | matched left right outcome =>
    exact ⟨holds.1.mono le, holds.2.1.mono le, holds.2.2.mono le⟩

/-- What a thread is told can be read when it is told. -/
theorem exists_holds (exact : stage.Exact)
    (madeAdmits : ∀ dict ∈ made, stage.AdmitsDictionary dict)
    (allowed : consultation.Allowed stage.store made)
    (ends : consultation.Ends frame.self stage.store after) :
    ∃ later : Stage frame, stage ≤ later ∧ later.store = after ∧ later.Exact ∧
      consultation.Holds later := by
  cases consultation with
  | compared left right outcome =>
    have leftAdmits := allowed.1.admits madeAdmits
    have rightAdmits := allowed.2.admits madeAdmits
    obtain ⟨later, le, same, exactLater, agrees⟩ :=
      (compareValues_reads leftAdmits rightAdmits).of_ends exact ends
    exact ⟨later, le, same, exactLater, leftAdmits.mono le, rightAdmits.mono le, agrees⟩
  | equated left right outcome =>
    have leftAdmits := allowed.1.admits madeAdmits
    have rightAdmits := allowed.2.admits madeAdmits
    obtain ⟨later, le, same, exactLater, agrees⟩ :=
      (equalValues_reads leftAdmits rightAdmits).of_ends exact ends
    exact ⟨later, le, same, exactLater, leftAdmits.mono le, rightAdmits.mono le, agrees⟩
  | hashed value outcome =>
    have admits := Value.Offered.admits allowed madeAdmits
    obtain ⟨later, le, same, exactLater, agrees⟩ :=
      (hashValue_reads admits).of_ends exact ends
    exact ⟨later, le, same, exactLater, admits.mono le, agrees⟩
  | found dict key outcome =>
    have keyAdmits := allowed.2.admits madeAdmits
    obtain ⟨later, le, same, exactLater, said⟩ :=
      saidOf_of_ends (madeAdmits dict allowed.1) exact keyAdmits ends
    exact ⟨later, le, same, exactLater, keyAdmits.mono le, said⟩
  | matched left right outcome =>
    obtain ⟨leftSees, rightSees⟩ := allowed
    obtain ⟨later, le, same, exactLater, agrees⟩ :=
      (equalThunks_reads leftSees rightSees).of_ends exact ends
    exact ⟨later, le, same, exactLater, leftSees.mono le, rightSees.mono le, agrees⟩

end Consultation
end Stage

/-- Whatever was made is admitted in the end, and whatever was said can be read. -/
theorem Workshop.exists_holds {start : Stage ⟨self, held, none⟩} (exact : start.Exact)
    {asked : List Consultation} (workshop : Workshop self start.store made asked store) :
    ∃ stage : Stage ⟨self, held, none⟩, stage.store = store ∧ stage.Exact ∧
      (∀ dict ∈ made, stage.AdmitsDictionary dict) ∧
      ∀ consultation ∈ asked, consultation.Holds stage := by
  induction workshop with
  | start => exact ⟨start, rfl, exact, by simp, by simp⟩
  | take _ memoises ih =>
    obtain ⟨stage, rfl, exact, admits, holds⟩ := ih
    have taken := Stage.admits_of_memoises memoises
    exact ⟨stage, rfl, exact, List.forall_mem_cons.mpr ⟨taken, admits⟩, holds⟩
  | @make made asked _ after making outcome _ allowed ends ih =>
    obtain ⟨stage, rfl, exact, admits, holds⟩ := ih
    obtain ⟨later, le, same, exactLater, makes⟩ :=
      Code.Safe.of_ends (Making.attempt_safe allowed admits)
        (fun _ _ _ le reached result isOk => (reached result isOk).mono le) exact ends
    refine ⟨later, same, exactLater, ?_, fun said mem => (holds said mem).mono le⟩
    intro dict mem
    rcases List.mem_append.mp mem with new | former
    · cases outcome with
      | ok next =>
        rw [List.mem_singleton.mp new]
        exact makes (.ok next) rfl next rfl
      | error failure => cases new
    · exact (admits dict former).mono le
  | ask _ consultation allowed ends ih =>
    obtain ⟨stage, rfl, exact, admits, holds⟩ := ih
    obtain ⟨later, le, same, exactLater, now⟩ :=
      Consultation.exists_holds exact admits allowed ends
    exact ⟨later, same, exactLater, fun dict mem => (admits dict mem).mono le,
      List.forall_mem_cons.mpr ⟨now, fun said mem => (holds said mem).mono le⟩⟩
  | serve _ sees ends ih =>
    obtain ⟨stage, rfl, exact, admits, holds⟩ := ih
    obtain ⟨later, le, same, exactLater⟩ := Request.exists_later exact sees ends
    exact ⟨later, same, exactLater, fun dict mem => (admits dict mem).mono le,
      fun said mem => (holds said mem).mono le⟩

theorem Workshop.exists_stage {digest : List Piece → UInt64} {moves : List Move}
    (workshop : Workshop self ((Service.initial digest).run moves).store made asked store) :
    ∃ held, ∃ stage : Stage ⟨self, held, none⟩, stage.store = store ∧ stage.Exact ∧
      (∀ dict ∈ made, stage.AdmitsDictionary dict) ∧
      ∀ consultation ∈ asked, consultation.Holds stage := by
  obtain ⟨held, start, same, exact⟩ := Service.exists_stage digest moves self
  rw [← same] at workshop
  exact ⟨held, workshop.exists_holds exact⟩

/-! ## Three lists -/

/-- Lists are built, two of them alike. -/
def listMoves : List Move :=
  ["one", "one", "two"].flatMap fun text =>
    .start 0 (.build (.list [.literal (.string text), .literal (.boolean true)]) [])
      :: List.replicate 6 (.step 0)

/-- The store with the lists. -/
def listStore : Store :=
  ((Service.initial Digest.multiplicative).run listMoves).store

/-- One of the lists. -/
def listAt (place : Nat) : Value :=
  .list (.cons ⟨5 * place⟩ ⟨5 * place + 3⟩)

theorem offered_cons {head tail : Thunk} (sees : [head, tail].all store.canSee = true) :
    (Value.list (.cons head tail)).Offered store made := by
  intro thunk mem
  exact Store.canSee_iff.mp (List.all_eq_true.mp sees thunk mem)

/-! ## Two dictionaries with a list as key -/

/-- A dictionary of one entry. -/
def Dictionary.single (stamp : Nat) (hash : UInt64) (key : Value) (value : Thunk) : Dict :=
  { size := 1, root := some (.tip stamp hash [(key, value)]) }

/-- The first assignment to a key that has a hash. -/
theorem Dictionary.returns_insert_empty (self : Nat) (known : store.hash? bound key = some word)
    (value : Thunk) :
    (Dictionary.empty.insert key value).Returns self store
      (single store.nextIdentity word key value)
      { store with nextIdentity := store.nextIdentity + 1 } :=
  ((returns_of_hash? self store bound).1 known).bind ((returns_make _ _).bind (returns_pure _ _))

/-- The store of the lists after so many dictionaries were made. -/
def listedStore : Nat → Store
  | 0 => listStore
  | count + 1 =>
    { listedStore count with nextIdentity := (listedStore count).nextIdentity + 1 }

/-- A dictionary whose only key is one of the lists. -/
def listed (place : Nat) : Dict :=
  single (listedStore place).nextIdentity
    (((listedStore place).hash? 4 (listAt place)).getD 0) (listAt place) ⟨5 * place⟩

/-- One of the lists is assigned to in the empty dictionary. -/
theorem Workshop.insertListed (former : Workshop 7 listStore made [] (listedStore place))
    (isMade : .empty ∈ made)
    (sees : [⟨5 * place⟩, ⟨5 * place + 3⟩].all (listedStore place).canSee = true)
    (hashes : ((listedStore place).hash? 4 (listAt place)).isSome = true) :
    Workshop 7 listStore (listed place :: made) [] (listedStore (place + 1)) := by
  obtain ⟨word, known⟩ := Option.isSome_iff_exists.mp hashes
  have headSees := Store.canSee_iff.mp (List.all_eq_true.mp sees _ List.mem_cons_self)
  have inserts := returns_insert_empty 7 known ⟨5 * place⟩
  have isListed : listed place = single (listedStore place).nextIdentity word
      (listAt place) ⟨5 * place⟩ := by
    rw [listed, known, Option.getD_some]
  rw [← isListed] at inserts
  have allowed : (Making.insert .empty (listAt place) ⟨5 * place⟩).Allowed (listedStore place)
      made := ⟨isMade, offered_cons sees, headSees⟩
  exact former.make allowed inserts

theorem workshop_listed : Workshop 7 listStore [listed 1, listed 0, .empty] [] (listedStore 2) := by
  have allowed : Making.new.Allowed listStore [] := trivial
  have new : Workshop 7 listStore [.empty] [] (listedStore 0) :=
    Workshop.start.make allowed (returns_pure Dictionary.empty listStore)
  exact (new.insertListed (by simp) (by decide +kernel) (by decide +kernel)).insertListed (by simp)
    (by decide +kernel) (by decide +kernel)

end ByNeed
