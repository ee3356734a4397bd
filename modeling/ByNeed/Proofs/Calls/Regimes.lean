import ByNeed.Proofs.Calls.Allowances

/-!
# What code keeps to

Code keeps to a regime: it does only what an allowance grants, and uses only the channels that it
may.  Plain code has nothing to do with channels, backlogs or schedulers; what is left are rallies,
feeds, daemons and the lists behind channels.  Code that avoids a channel neither reads it nor
publishes on it, makes no list that reads it and passes it to no daemon, as long as what it is told
does not mention the channel.
-/

namespace ByNeed

/-! ## The use of channels -/

section

variable (mayUse : Option Nat → Prop)

/-- A computation reads only a channel that it may use. -/
@[grind]
def Suspension.Respects : Suspension → Prop
  | .receive channel => mayUse (some channel)
  | _ => True

/-- An action uses and passes on only the channels that it may.  Backlogs, schedulers and new
channels belong to no channel. -/
def Action.Respects : Action → Prop
  | .hold _ => True
  | .suspend computation => computation.Respects mayUse
  | .look _ => True
  | .identity => True
  | .note _ => True
  | .digest _ => True
  | .global _ => True
  | .newGroup _ => True
  | .define .. => True
  | .cell .. => True
  | .send channel _ => mayUse (some channel)
  | .receive channel => mayUse (some channel)
  | .abandon channel => mayUse (some channel)
  | .retain channel => mayUse (some channel)
  | .release channel => mayUse (some channel)
  | .isClosed channel => mayUse (some channel)
  | .submit _ duty => mayUse duty.channel?
  | .launch _ daemon => mayUse daemon.duty.channel?
  | _ => mayUse none

/-- A routine is given only a channel that it may use. -/
@[grind]
def Routine.Respects : Routine → Prop
  | .walk _ _ channel _ _ => mayUse (some channel)
  | _ => True

/-- The reply to an action mentions only channels that may be used. -/
def Action.Mentions : (action : Action) → action.Reply → Prop
  | .newChannel _, made => mayUse (some made)
  | .submit _ _, urgent => ∀ daemon, urgent = some daemon → mayUse daemon.duty.channel?
  | .takeQueue _, taken =>
    ∀ queue, taken = some queue → ∀ daemon ∈ queue, mayUse daemon.duty.channel?
  | _, _ => True

end

section

variable {mayUse : Option Nat → Prop} (all : ∀ channel?, mayUse channel?)

include all

theorem Suspension.respects_of_forall (computation : Suspension) : computation.Respects mayUse := by
  cases computation with
  | receive channel => exact all _
  | _ => trivial

theorem Action.mentions_of_forall (action : Action) (reply : action.Reply) :
    action.Mentions mayUse reply := by
  cases action with
  | newChannel | submit | takeQueue => simp [Mentions, all]
  | _ => trivial

end

/-! ## Regimes -/

/-- What is granted to code, and the channels that it may use.  Who may use a channel may also use
what belongs to none. -/
structure Regime where
  allowance : Allowance
  mayUse : Option Nat → Prop
  general : mayUse channel? → mayUse none

namespace Regime

instance : Coe Regime Allowance := ⟨allowance⟩

/-- Code does what is granted, with any channel. -/
def loose (allowance : Allowance) : Regime where
  allowance
  mayUse _ := True
  general _ := trivial

/-- Code does anything, so long as it has nothing to do with channels. -/
def plain : Regime where
  allowance := .everything
  mayUse _ := False
  general may := may

/-- Code does anything, so long as it leaves a channel alone. -/
def avoiding (channel : Nat) : Regime where
  allowance := .everything
  mayUse used := used ≠ some channel
  general _ := nofun

end Regime

/-- What an action is given fits, and it uses only what it may. -/
def Action.Obeys (regime : Regime) (action : Action) : Prop :=
  action.Fits regime ∧ action.Respects regime.mayUse

/-- What a routine is given fits, and it uses only what it may. -/
def Routine.Obeys (regime : Regime) (routine : Routine) : Prop :=
  routine.Fits regime ∧ routine.Respects regime.mayUse

/-- What an action replies fits, and mentions only what may be used. -/
def Action.Tells (regime : Regime) (action : Action) (reply : action.Reply) : Prop :=
  action.Told regime reply ∧ action.Mentions regime.mayUse reply

variable {α β : Type} {regime : Regime} {cause : Fault}

/-! ## Code -/

namespace Code

/-- Code obeys a regime, as long as what it is told fits, and its result is of a kind. -/
def Obeys (regime : Regime) (kind : α → Prop) : Code α → Prop
  | .done result => kind result
  | .breakOff message => regime.allowance.breaks message
  | .act action next =>
    action.Obeys regime ∧ ∀ reply, action.Tells regime reply → (next reply).Obeys regime kind
  | .evaluate _ next => ∀ value, value.Fits regime → (next value).Obeys regime kind
  | .call routine next =>
    routine.Obeys regime ∧ ∀ reply, routine.Told regime reply → (next reply).Obeys regime kind

/-- Code obeys a regime, whatever its result. -/
def Keeps (regime : Regime) (code : Code α) : Prop :=
  code.Obeys regime fun _ => True

variable {kind : α → Prop} {others : β → Prop} {code : Code α} {following : α → Code β}

theorem obeys_pure (isKind : kind result) : (pure result : Code α).Obeys regime kind :=
  isKind

theorem Obeys.bind (obeys : code.Obeys regime kind)
    (rest : ∀ result, kind result → (following result).Obeys regime others) :
    (code >>= following).Obeys regime others := by
  induction code with
  | done result => exact rest result obeys
  | breakOff message => exact obeys
  | act action next ih | call routine next ih =>
    exact ⟨obeys.1, fun reply told => ih reply (obeys.2 reply told)⟩
  | evaluate thunk next ih =>
    exact fun value valueFits => ih value (obeys value valueFits)

theorem Obeys.weaken (obeys : code.Obeys regime kind)
    (weakens : ∀ result, kind result → weaker result) : code.Obeys regime weaker := by
  have bound := obeys.bind (fun result isKind => obeys_pure (weakens result isKind))
  rwa [bind_pure] at bound

@[grind ←]
theorem keeps_pure (result : α) : (pure result : Code α).Keeps regime :=
  trivial

@[grind ←]
theorem Keeps.bind (keeps : code.Keeps regime) (rest : ∀ result, (following result).Keeps regime) :
    (code >>= following).Keeps regime :=
  Obeys.bind keeps fun result _ => rest result

theorem keeps_mapM {elements : List α} {each : α → Code β}
    (keeps : ∀ element ∈ elements, (each element).Keeps regime) :
    (elements.mapM each).Keeps regime := by
  induction elements with
  | nil => exact keeps_pure []
  | cons element rest ih =>
    obtain ⟨first, rest⟩ := List.forall_mem_cons.mp keeps
    rw [List.mapM_cons]
    exact first.bind fun _ => (ih rest).bind fun _ => keeps_pure _

theorem obeys_perform_bind {following : action.Reply → Code β} (obeys : action.Obeys regime)
    (rest : ∀ reply, action.Tells regime reply → (following reply).Obeys regime others) :
    (Code.perform action >>= following).Obeys regime others :=
  ⟨obeys, rest⟩

theorem keeps_perform (obeys : action.Obeys regime) : (Code.perform action).Keeps regime :=
  ⟨obeys, fun _ _ => trivial⟩

@[grind ←]
theorem keeps_identity : (Code.perform .identity).Keeps regime :=
  keeps_perform ⟨trivial, trivial⟩

theorem Keeps.attempt (keeps : code.Keeps regime) : code.attempt.Keeps regime := by
  induction code with
  | done | breakOff => trivial
  | act action next ih | call routine next ih =>
    exact ⟨keeps.1, fun reply told => ih reply (keeps.2 reply told)⟩
  | evaluate thunk next ih =>
    exact fun value fits => ih value (keeps value fits)

end Code

/-! ## Attempts -/

namespace Attempt

variable {kind : α → Prop} {others : β → Prop} {attempt : Attempt α} {following : α → Attempt β}
variable {code : Code α}

/-- An attempt obeys a regime, and its result is of a kind. -/
def Obeys (regime : Regime) (kind : α → Prop) (attempt : Attempt α) : Prop :=
  attempt.run.Obeys regime (regime.allowance.Grants kind)

/-- An attempt obeys a regime, whatever its result. -/
def Keeps (regime : Regime) (attempt : Attempt α) : Prop :=
  attempt.Obeys regime fun _ => True

theorem obeys_pure (isKind : kind result) : (pure result : Attempt α).Obeys regime kind :=
  isKind

theorem obeys_fault (ordinary : cause.kind ≠ .internal) :
    (fault cause : Attempt α).Obeys regime kind :=
  regime.allowance.ordinary cause ordinary

theorem obeys_ofExcept (grants : regime.allowance.Grants kind outcome) :
    (ofExcept outcome).Obeys regime kind := by
  cases outcome with
  | ok | error => exact grants

theorem Obeys.bind (obeys : attempt.Obeys regime kind)
    (rest : ∀ result, kind result → (following result).Obeys regime others) :
    (attempt >>= following).Obeys regime others := by
  refine Code.Obeys.bind obeys fun outcome grants => ?_
  cases outcome with
  | ok result => exact rest result grants
  | error failure => exact grants

theorem Obeys.keeps (obeys : attempt.Obeys regime kind) : attempt.Keeps regime := by
  refine Code.Obeys.weaken obeys fun outcome grants => ?_
  cases outcome with
  | ok result => trivial
  | error failure => exact grants

theorem obeys_lift (obeys : code.Obeys regime kind) :
    Attempt.Obeys regime kind (ExceptT.lift code) :=
  Code.Obeys.bind obeys fun _ isKind => isKind

theorem obeys_lift_bind (obeys : code.Obeys regime kind)
    (rest : ∀ result, kind result → (following result).Obeys regime others) :
    Attempt.Obeys regime others (ExceptT.lift code >>= following) :=
  (obeys_lift obeys).bind rest

@[grind ←]
theorem keeps_pure (result : α) : (pure result : Attempt α).Keeps regime :=
  trivial

@[grind ←]
theorem keeps_throw {failure : Error} (admits : regime.allowance.Admits failure) :
    (throw failure : Attempt α).Keeps regime :=
  admits

@[grind ←]
theorem keeps_fault (ordinary : cause.kind ≠ .internal) : (fault cause : Attempt α).Keeps regime :=
  obeys_fault ordinary

@[grind ←]
theorem Keeps.bind (keeps : attempt.Keeps regime)
    (rest : ∀ result, (following result).Keeps regime) : (attempt >>= following).Keeps regime :=
  Obeys.bind keeps fun result _ => rest result

@[grind ←]
theorem keeps_lift (keeps : code.Keeps regime) : Attempt.Keeps regime (ExceptT.lift code) :=
  obeys_lift keeps

@[grind ←]
theorem keeps_monadLift (keeps : code.Keeps regime) :
    Attempt.Keeps regime (monadLift code : Attempt α) :=
  obeys_lift keeps

theorem obeys_mapM {elements : List α}
    (obey : ∀ element ∈ elements, (each element).Obeys regime others) :
    Attempt.Obeys regime (fun results => ∀ result ∈ results, others result)
      (elements.mapM each) := by
  induction elements with
  | nil => exact obeys_pure fun _ mem => by cases mem
  | cons element rest ih =>
    obtain ⟨first, rest⟩ := List.forall_mem_cons.mp obey
    rw [List.mapM_cons]
    exact first.bind fun _ isKind => (ih rest).bind fun _ areKind =>
      obeys_pure (List.forall_mem_cons.mpr ⟨isKind, areKind⟩)

end Attempt
end ByNeed
