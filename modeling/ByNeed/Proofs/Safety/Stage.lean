import ByNeed.Proofs.Safety.Realm

/-!
# Code that is safe

Code is safe at a stage when it evaluates only thunks it can see, makes only values that the realm
admits, and hands over only thunks that can be seen, while the realm may become a later one between
any two steps.  A frame says on whose behalf code runs.
-/

namespace ByNeed

variable {α β : Type}
variable {earlier : Realm} {frame : Frame} {action : Action}

/-- On whose behalf code runs. -/
structure Frame where
  self : Nat
  /-- The thunks the thread is evaluating already. -/
  held : Thunk → Prop
  /-- The thunk whose effect the code may run. -/
  runs : Option Thunk

namespace Frame

/-- A thunk can be seen, or it is the payload of the effect that the code may run. -/
def MayEvaluate (frame : Frame) (realm : Realm) (thunk : Thunk) : Prop :=
  realm.store.Sees thunk ∨ ∃ source identity, frame.runs = some source ∧
      realm.store.slot? source = some (.evaluated (.effect identity thunk))

/-- A thunk that the thread is evaluating already depends on itself. -/
def Excuses (frame : Frame) (thunk : Thunk) (value : Value) : Prop :=
  frame.held thunk ∧ value = .fault .selfDependence

/-- What evaluating a thunk gives: the value it memoises from then on, or the fault of a
thunk that depends on itself. -/
def Answers (frame : Frame) (realm : Realm) (thunk : Thunk) (value : Value) : Prop :=
  realm.Admits value ∧ realm.store.Tells frame.Excuses thunk value

theorem MayEvaluate.mono (may : frame.MayEvaluate earlier thunk) (le : earlier ≤ later) :
    frame.MayEvaluate later thunk := by
  rcases may with sees | ⟨source, identity, runs, evaluated⟩
  · exact .inl (sees.mono le)
  · exact .inr ⟨source, identity, runs, Realm.slot?_of_le le evaluated⟩

end Frame

/-- A sound realm as it may be found by a frame. -/
structure Stage (frame : Frame) extends Realm where
  sound : toRealm.Sound
  fits : ∀ thunk, frame.held thunk → store.slot? thunk = some (.evaluating frame.self)

namespace Stage

variable {frame : Frame}
variable {earlier later : Stage frame}

instance : Preorder (Stage frame) :=
  Preorder.lift Stage.toRealm

theorem toRealm_le (le : earlier ≤ later) : earlier.toRealm ≤ later.toRealm :=
  le

theorem recalls (le : earlier ≤ later) : earlier.store.Recalls later.store :=
  Realm.recalls (toRealm_le le)

/-! What may be wanted of a result -/

abbrev Seen (stage : Stage frame) (thunk : Thunk) : Prop :=
  stage.store.Sees thunk

abbrev SeenAll (stage : Stage frame) (thunks : List Thunk) : Prop :=
  stage.SeesAll thunks

abbrev Admitted (stage : Stage frame) (dict : Dict) : Prop :=
  stage.AdmitsDictionary dict

abbrev Any (_ : Stage frame) (_ : α) : Prop :=
  True

end Stage

/-! ## Actions -/

namespace Action

/-- What an action may be given. -/
def Allowed (realm : Realm) : Action → Prop
  | .hold value => realm.Admits value
  | .suspend computation => realm.SeesAll computation.thunks
  | action => realm.SeesAll action.thunks

/-- What an action replies. -/
def Answers (realm : Realm) : (action : Action) → action.Reply → Prop
  | .hold value, thunk => realm.store.slot? thunk = some (.evaluated value)
  | .suspend computation, thunk =>
    realm.store.Holds thunk ∧ (computation.isBody = false → realm.store.Sees thunk)
  | .digest pieces, word => word = realm.store.digest pieces
  | .global _, reply => ∀ function, reply = some function → realm.SeesAll function.thunks
  | .cell .., reply => ∀ thunk, reply = some thunk → realm.store.Sees thunk
  | .receive _, reply => ∀ thunk, reply = .item thunk → realm.store.Sees thunk
  | .submit .., reply => ∀ daemon, reply = some daemon → realm.SeesAll daemon.duty.thunks
  | .takeQueue _, reply =>
    ∀ queue, reply = some queue → ∀ daemon ∈ queue, realm.SeesAll daemon.duty.thunks
  | _, _ => True

theorem Allowed.mono (allowed : action.Allowed earlier) (le : earlier ≤ later) :
    action.Allowed later := by
  cases action with
  | hold value => exact Realm.Admits.mono allowed le
  | _ => exact Realm.SeesAll.mono allowed le

end Action

/-- An identity that no node bears as its stamp. -/
def Realm.Unused (realm : Realm) (stamp : Nat) : Prop :=
  stamp < realm.store.nextIdentity ∧ ∀ trie, realm.nodes trie → trie.stamp ≠ stamp

/-- An action is allowed, and whatever it replies leads on.  After taking a fresh
identity, nodes with that stamp may be made. -/
def Action.Leads {frame : Frame} (stage : Stage frame) :
    (action : Action) → (action.Reply → Stage frame → Prop) → Prop
  | .identity, next =>
    ∀ later, stage ≤ later → ∀ stamp, later.Unused stamp →
      ∃ richer, later ≤ richer ∧ richer.store = later.store ∧ next stamp richer
  | action, next =>
    action.Allowed stage.toRealm ∧
      ∀ later, stage ≤ later → ∀ reply, action.Answers later.toRealm reply → next reply later

theorem Action.Leads.mono {earlier later : Stage frame} (leads : action.Leads earlier next)
    (le : earlier ≤ later)
    (weaker : ∀ reply stage, later ≤ stage → next reply stage → further reply stage) :
    action.Leads later further := by
  cases action with
  | identity =>
    intro following leFollowing stamp unused
    obtain ⟨richer, leRicher, same, holds⟩ :=
      leads following (le.trans leFollowing) stamp unused
    exact ⟨richer, leRicher, same, weaker stamp richer (leFollowing.trans leRicher) holds⟩
  | _ =>
    refine ⟨leads.1.mono le, fun following leFollowing reply answers => ?_⟩
    exact weaker reply following leFollowing
      (leads.2 following (le.trans leFollowing) reply answers)

/-! ## Routines -/

/-- The outcome of an attempt agrees with a reading: from some bound on it is the answer, now and
later.  There is none where the attempt fails. -/
def Agrees {frame : Frame} (reading : Store → Nat → Option α) (stage : Stage frame)
    (outcome : Except Error α) : Prop :=
  ∃ bound, ∀ later, stage ≤ later → ∀ greater, bound ≤ greater →
    reading later.store greater = outcome.toOption

namespace Routine

/-- What a routine may be given. -/
def Allowed (realm : Realm) : Routine → Prop
  | .compare left right => realm.Admits left ∧ realm.Admits right
  | .compareLists left right => realm.SeesAll left.thunks ∧ realm.SeesAll right.thunks
  | .hash value => realm.Admits value
  | .hashElements list => realm.SeesAll list.thunks
  | .render value => realm.Admits value
  | .renderElements list => realm.SeesAll list.thunks
  | .elements list => realm.SeesAll list.thunks
  | .contains list value => realm.SeesAll list.thunks ∧ realm.Admits value
  | .nth list _ => realm.SeesAll list.thunks
  | .cut list _ => realm.SeesAll list.thunks
  | .fold _ _ numbers => realm.SeesAll numbers.thunks
  | .allEqual value list => realm.Admits value ∧ realm.SeesAll list.thunks
  | .monotone _ previous list => realm.Admits previous ∧ realm.SeesAll list.thunks
  | .assign dict list => realm.AdmitsDictionary dict ∧ realm.SeesAll list.thunks
  | .mergeAll dict list => realm.AdmitsDictionary dict ∧ realm.SeesAll list.thunks
  | .choose branches => realm.store.Sees branches
  | .view value _ => realm.Admits value
  | .viewList list _ _ => realm.SeesAll list.thunks
  | .walk _ spine _ _ _ => realm.store.Sees spine

/-- What a routine replies. -/
def Answers {frame : Frame} (stage : Stage frame) : (routine : Routine) → routine.Reply → Prop
  | .compare left right, reply =>
    Agrees (fun store bound => store.order? bound left right) stage reply
  | .compareLists left right, reply =>
    Agrees (fun store bound => store.order? bound (.list left) (.list right)) stage reply
  | .hash value, reply => Agrees (fun store bound => store.hash? bound value) stage reply
  | .hashElements list, reply => Agrees (fun store bound => store.hashes? bound list) stage reply
  | .elements _, reply => ∀ thunks, reply = .ok thunks → stage.SeesAll thunks
  | .nth .., reply => ∀ thunk, reply = .ok (some thunk) → stage.store.Sees thunk
  | .cut .., reply => ∀ before behind, reply = .ok (some (before, behind)) →
      stage.SeesAll before ∧ stage.store.Sees behind
  | .assign .., reply => ∀ dict, reply = .ok dict → stage.AdmitsDictionary dict
  | .mergeAll .., reply =>
    ∀ dict, reply = .ok dict → stage.AdmitsDictionary dict
  | .choose _, reply => ∀ thunk, reply = .ok thunk → stage.store.Sees thunk
  | _, _ => True

theorem Allowed.mono {routine : Routine} (allowed : routine.Allowed earlier)
    (le : earlier ≤ later) : routine.Allowed later := by
  cases routine with
  | compare | compareLists | contains | allEqual | monotone | assign | mergeAll =>
    exact ⟨allowed.1.mono le, allowed.2.mono le⟩
  | hash | render | view => exact Realm.Admits.mono allowed le
  | choose | walk => exact Store.Sees.mono allowed le
  | _ => exact Realm.SeesAll.mono allowed le

end Routine

/-! ## Code -/

namespace Code

variable {frame : Frame} {post : Stage frame → α → Prop}
variable {code : Code α} {stage : Stage frame}

/-- Code keeps the realm sound, whatever it is answered, and its result is as wanted. -/
def Safe (post : Stage frame → α → Prop) : Code α → Stage frame → Prop
  | .done result, stage => post stage result
  | .breakOff _, _ => True
  | .act action next, stage =>
    action.Leads stage fun reply later => (next reply).Safe post later
  | .evaluate thunk next, stage =>
    frame.MayEvaluate stage.toRealm thunk ∧
      ∀ later, stage ≤ later → ∀ value, frame.Answers later.toRealm thunk value →
        (next value).Safe post later
  | .call routine next, stage =>
    routine.Allowed stage.toRealm ∧ ∀ later, stage ≤ later → ∀ reply, routine.Answers later reply →
        (next reply).Safe post later

theorem Safe.mono {later : Stage frame} (safe : code.Safe post stage) (le : stage ≤ later)
    (stable : ∀ {earlier later : Stage frame} {result}, earlier ≤ later →
      post earlier result → post later result) : code.Safe post later := by
  cases code with
  | done result => exact stable le safe
  | breakOff message => trivial
  | act action next => exact Action.Leads.mono safe le fun _ _ _ nextSafe => nextSafe
  | _ => exact ⟨safe.1.mono le, fun final leFinal => safe.2 final (le.trans leFinal)⟩

theorem Safe.bind {final : Stage frame → β → Prop} (safe : code.Safe post stage)
    (rest : ∀ later, stage ≤ later → ∀ result, post later result →
      (following result).Safe final later) : (code.bind following).Safe final stage := by
  induction code generalizing stage with
  | done result => exact rest stage le_rfl result safe
  | breakOff message => trivial
  | act action next ih =>
    refine Action.Leads.mono safe le_rfl fun reply later le nextSafe => ?_
    exact ih reply nextSafe fun last leLast => rest last (le.trans leLast)
  | evaluate thunk next ih =>
    refine ⟨safe.1, fun later le value answers => ?_⟩
    exact ih value (safe.2 later le value answers) fun last leLast =>
      rest last (le.trans leLast)
  | call routine next ih =>
    refine ⟨safe.1, fun later le reply answers => ?_⟩
    exact ih reply (safe.2 later le reply answers) fun last leLast =>
      rest last (le.trans leLast)

theorem Safe.weaken {further : Stage frame → α → Prop} (safe : code.Safe post stage)
    (weaker : ∀ later, stage ≤ later → ∀ result, post later result → further later result) :
    code.Safe further stage := by
  have rest : (code.bind .done).Safe further stage := safe.bind weaker
  rwa [bind_done] at rest

/-- Breaking off is safe, and so is going on after it. -/
theorem Safe.attempt (safe : code.Safe post stage) : code.attempt.Safe Stage.Any stage := by
  induction code generalizing stage with
  | done | breakOff => trivial
  | act action next ih =>
    exact Action.Leads.mono safe le_rfl fun reply later _ nextSafe =>
      ih reply nextSafe
  | evaluate thunk next ih =>
    exact ⟨safe.1, fun later le value answers =>
      ih value (safe.2 later le value answers)⟩
  | call routine next ih =>
    exact ⟨safe.1, fun later le reply answers =>
      ih reply (safe.2 later le reply answers)⟩

end Code
end ByNeed
