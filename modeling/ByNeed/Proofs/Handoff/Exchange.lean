import Mathlib.Data.Finset.Card
import ByNeed.Proofs.Rally.Pristine

/-!
# Exchanges

The publishers of a handoff send messages, are copied and dropped, and ask whether the list is gone,
each at any time.  Anybody in company may read its list.  A publisher that has to wait does nothing
until there is room.
-/

namespace ByNeed

/-- What is done in an exchange. -/
inductive Deed where
  /-- Something happens in company. -/
  | company (shift : Shift)
  /-- A publisher sends an element, or the failure that ends the list. -/
  | send (publisher : Nat) (message : Message)
  /-- A publisher is copied. -/
  | clone (publisher copy : Nat)
  /-- A publisher is dropped. -/
  | drop (publisher : Nat)
  /-- A publisher asks whether the list is gone. -/
  | ask (publisher : Nat)
  /-- The list is dropped. -/
  | dropList

/-- A handoff in company: its channel, its list and the publishers that can still send. -/
structure Exchange where
  service : Service
  channel : Nat
  list : Thunk
  publishers : Finset Nat

/-- Open a handoff with one publisher. -/
def Service.openHandoff (service : Service) (capacity publisher : Nat) : Exchange :=
  let (channel, store) := service.store.newChannel capacity
  let (list, store) := store.allocate (.suspended (.receive channel))
  { service := { service with store }, channel, list, publishers := {publisher} }

namespace Exchange

/-- The state of the channel. -/
def state (exchange : Exchange) : Channel :=
  exchange.service.store.channel exchange.channel

/-- The store is changed from outside. -/
def withStore (exchange : Exchange) (store : Store) : Exchange :=
  { exchange with service := { exchange.service with store } }

/-- An action is performed from outside. -/
def perform (exchange : Exchange) (action : Action) : Exchange :=
  exchange.withStore (action.perform exchange.service.store).2

/-- Whether a publisher is there and sees what it is to send. -/
def maySend (exchange : Exchange) (publisher : Nat) (message : Message) : Bool :=
  publisher ∈ exchange.publishers && message.thunks.all exchange.service.store.canSee

theorem mem_publishers_of_maySend {exchange : Exchange}
    (may : exchange.maySend publisher message = true) : publisher ∈ exchange.publishers := by
  rw [maySend, Bool.and_eq_true] at may
  exact of_decide_eq_true may.1

/-- Do a deed. -/
def act (exchange : Exchange) : Deed → Exchange
  | .company shift => { exchange with service := exchange.service.shift shift }
  | .send publisher message =>
    if exchange.maySend publisher message then
      exchange.perform (.send exchange.channel message)
    else
      exchange
  | .clone publisher copy =>
    if publisher ∈ exchange.publishers ∧ copy ∉ exchange.publishers then
      { exchange.perform (.retain exchange.channel) with
        publishers := insert copy exchange.publishers }
    else
      exchange
  | .drop publisher =>
    if publisher ∈ exchange.publishers then
      { exchange.perform (.release exchange.channel) with
        publishers := exchange.publishers.erase publisher }
    else
      exchange
  | .ask _ => exchange
  | .dropList => exchange.perform (.abandon exchange.channel)

/-- Do deeds in order. -/
def acts (exchange : Exchange) (deeds : List Deed) : Exchange :=
  deeds.foldl act exchange

/-- What a publisher is told: whether its message was accepted, or whether the list is gone.
It is told nothing while it has to wait. -/
def reply? (exchange : Exchange) : Deed → Option Bool
  | .send publisher message =>
    if exchange.maySend publisher message then
      ((Action.send exchange.channel message).perform exchange.service.store).1
    else
      none
  | .ask publisher =>
    if publisher ∈ exchange.publishers then
      ((Action.isClosed exchange.channel).perform exchange.service.store).1
    else
      none
  | _ => none

/-- The message that is accepted with a deed. -/
def accepts? (exchange : Exchange) : Deed → Option Message
  | .send publisher message =>
    if exchange.reply? (.send publisher message) = some true then some message else none
  | _ => none

/-- The messages that are accepted with deeds, in order. -/
def accepted (exchange : Exchange) : List Deed → List Message
  | [] => []
  | first :: rest => (exchange.accepts? first).toList ++ (exchange.act first).accepted rest

@[simp] theorem list_act (exchange : Exchange) (deed : Deed) :
    (exchange.act deed).list = exchange.list := by
  cases deed with
  | company | ask | dropList => rfl
  | _ =>
    simp only [act]
    split <;> rfl

@[simp] theorem list_acts (exchange : Exchange) (deeds : List Deed) :
    (exchange.acts deeds).list = exchange.list := by
  induction deeds generalizing exchange with
  | nil => rfl
  | cons first rest ih =>
    exact (ih (exchange.act first)).trans (exchange.list_act first)

end Exchange

/-! ## Soundness -/

namespace Service.SoundIn

variable {service : Service} {realm : Realm}

theorem perform (soundIn : service.SoundIn realm) {action : Action}
    (allowed : action.Allowed realm) :
    ∃ later, realm ≤ later ∧
      { service with store := (action.perform service.store).2 }.SoundIn later := by
  have le := realm.le_perform action
  have sound := soundIn.sound.perform allowed
  rw [soundIn.store_eq] at le sound
  exact ⟨_, le,
    { store_eq := rfl
      sound := sound
      owned := soundIn.owned.of_grows (action.grows_perform service.store)
      safe := fun number task present => Thread.Safe.mono (soundIn.safe number task present) le }⟩

end Service.SoundIn

theorem Exchange.soundIn_act {exchange : Exchange} (soundIn : exchange.service.SoundIn realm)
    (deed : Deed) : ∃ later, realm ≤ later ∧ (exchange.act deed).service.SoundIn later := by
  cases deed with
  | company shift => exact soundIn.shift shift
  | send publisher message =>
    simp only [act]
    split
    · rename_i may
      refine soundIn.perform fun thunk mentioned => ?_
      simp only [maySend, Bool.and_eq_true, List.all_eq_true] at may
      rw [soundIn.store_eq]
      exact Store.canSee_iff.mp (may.2 thunk mentioned)
    · exact ⟨realm, le_rfl, soundIn⟩
  | ask publisher => exact ⟨realm, le_rfl, soundIn⟩
  | dropList => exact soundIn.perform realm.seesAll_nil
  | _ =>
    simp only [act]
    split
    · exact soundIn.perform (realm.seesAll_nil)
    · exact ⟨realm, le_rfl, soundIn⟩

end ByNeed
