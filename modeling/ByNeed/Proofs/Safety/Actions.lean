import ByNeed.Proofs.Safety.Stage

/-!
# Changes of the store keep the realm sound

A slot that moves, and an action that makes a thunk or changes what is not a slot, lead to a later
realm that is sound again.
-/

namespace ByNeed

open Store

variable {frame : Frame} {stage : Stage frame}

namespace Realm

variable {realm : Realm}

/-- The realm of a store with the nodes made so far. -/
abbrev withStore (realm : Realm) (store : Store) : Realm :=
  { realm with store }

/-- Moving one slot forward leads to a later realm. -/
theorem le_setSlot {former slot : Slot} (held : realm.store.slot? thunk = some former)
    (becomes : former.Becomes slot) : realm ≤ realm.withStore (realm.store.setSlot thunk slot) where
  slots other found otherHeld := by
    rcases slot?_setSlot_cases held slot otherHeld with ⟨rfl, rfl, set⟩ | kept
    · exact ⟨slot, set, becomes⟩
    · exact ⟨found, kept, .stay found⟩
  digest := rfl
  nodes _ made := made

theorem IsNode.mono {earlier later : Realm} (isNode : earlier.IsNode trie) (le : earlier ≤ later)
    (identities : earlier.store.nextIdentity ≤ later.store.nextIdentity) : later.IsNode trie where
  stamp_lt := Nat.lt_of_lt_of_le isNode.stamp_lt identities
  wellFormed := isNode.wellFormed
  admits_key entry mem := (isNode.admits_key entry mem).mono le
  sees_value entry mem := (isNode.sees_value entry mem).mono le
  files hash := (isNode.files hash).mono (recalls le)
  sides isBin := (isNode.sides isBin).imp (le.nodes _) (le.nodes _)

/-- A thunk that is claimed or published keeps the realm sound. -/
theorem Sound.setSlot (sound : realm.Sound) {thunk : Thunk} {former slot : Slot}
    (held : realm.store.slot? thunk = some former) (becomes : former.Becomes slot)
    (admits : ∀ value, slot = .evaluated value → realm.Admits value)
    (running : ∀ computation, slot ≠ .suspended computation) :
    (realm.withStore (realm.store.setSlot thunk slot)).Sound := by
  have le := le_setSlot held becomes
  exact
    { evaluated := fun evaluated => by
        rcases slot?_of_setSlot evaluated with before | moved
        · exact (sound.evaluated before).mono le
        · exact (admits _ moved.symm).mono le
      suspended := fun suspended => by
        rcases slot?_of_setSlot suspended with before | moved
        · exact (sound.suspended before).mono le
        · exact absurd moved.symm (running _)
      mentioned := fun mentions =>
        (sound.mentioned (mentions.congr rfl rfl rfl rfl rfl)).mono le
      isNode := fun made => (sound.isNode made).mono le (Nat.le_refl _)
      alike := sound.alike }

end Realm

/-! ## Actions -/

theorem Scheduler.eq_of_submit {scheduler : Scheduler}
    (urgent : (scheduler.submit submitted).1 = some daemon) : daemon = submitted := by
  unfold submit at urgent
  split at urgent
  · cases urgent
  · exact (Option.some.inj urgent).symm

theorem Store.slot?_allocated (store : Store) (slot : Slot) :
    (store.allocate slot).2.slot? (store.allocate slot).1 = some slot := by
  rw [slot?_allocate]
  exact if_pos rfl

namespace Action

theorem perform_of_waiting {action : Action} (waits : action.perform store = (none, after)) :
    after = store := by
  cases action with
  | send | receive =>
    simp only [perform] at waits
    split at waits
    · exact (Prod.mk.inj waits).2.symm
    · cases waits
  | awaitBelow | awaitQuiet => exact (Prod.mk.inj waits).2.symm
  | _ => cases waits

end Action

namespace Realm

variable {realm : Realm} {action : Action}

theorem le_perform (realm : Realm) (action : Action) :
    realm ≤ realm.withStore (action.perform realm.store).2 where
  slots thunk slot held :=
    ⟨slot, (action.grows_perform realm.store).keeps thunk slot held, .stay slot⟩
  digest := (action.effect_perform realm.store).digest_eq
  nodes _ made := made

theorem Sound.perform (sound : realm.Sound) (allowed : action.Allowed realm) :
    (realm.withStore (action.perform realm.store).2).Sound := by
  have le := realm.le_perform action
  have effect := action.effect_perform realm.store
  exact
    { evaluated := fun evaluated => by
        rcases effect.slot?_cases evaluated with before | made
        · exact (sound.evaluated before).mono le
        · cases action <;> cases made
          exact Admits.mono allowed le
      suspended := fun suspended => by
        rcases effect.slot?_cases suspended with before | made
        · exact (sound.suspended before).mono le
        · cases action <;> cases made
          exact SeesAll.mono allowed le
      mentioned := fun mentions => by
        rcases mentions_perform mentions with known | given
        · exact (sound.mentioned known).mono le
        · cases action <;> first
            | exact (allowed _ given).mono le
            | exact absurd given List.not_mem_nil
      isNode := fun made => (sound.isNode made).mono le effect.nextIdentity_le
      alike := sound.alike }

/-- What an action replies is as it should be. -/
theorem Sound.answers (sound : realm.Sound) (allowed : action.Allowed realm) {reply : action.Reply}
    (performed : action.perform realm.store = (some reply, after)) :
    action.Answers (realm.withStore (action.perform realm.store).2) reply := by
  have le := realm.le_perform action
  rw [performed] at le ⊢
  cases action with
  | hold value =>
    cases performed
    exact realm.store.slot?_allocated _
  | suspend computation =>
    cases performed
    have held := realm.store.slot?_allocated (.suspended computation)
    exact ⟨⟨_, held⟩, fun noBody => ⟨_, held, noBody⟩⟩
  | digest pieces =>
    cases performed
    rfl
  | global name =>
    cases performed
    exact fun function refers thunk mem => sound.mentioned (.global refers mem)
  | cell group index =>
    cases performed
    exact fun thunk defined => sound.mentioned (.cell defined)
  | receive channel =>
    intro thunk isItem
    subst isItem
    simp only [Action.perform] at performed
    split at performed
    · cases performed
    · rename_i reading state received
      cases performed
      refine Store.Sees.mono (sound.mentioned (@Store.Mentions.unread _ channel _ ?_)) le
      unfold Channel.receive? at received
      split at received
      · rename_i message rest unread
        cases message <;> cases received
        simp [unread]
      · split at received <;> cases received
  | submit scheduler duty =>
    cases performed
    intro daemon isSome
    obtain rfl := Scheduler.eq_of_submit isSome
    exact SeesAll.mono allowed le
  | takeQueue scheduler =>
    cases performed
    intro queue isSome daemon mem thunk mentioned
    exact Store.Sees.mono (sound.mentioned (.queued isSome mem mentioned)) le
  | _ => trivial

end Realm

/-- A stage whose realm has moved on by an action. -/
def Stage.perform (stage : Stage frame) (action : Action) (allowed : action.Allowed stage.toRealm) :
    Stage frame where
  toRealm := stage.withStore (action.perform stage.store).2
  sound := stage.sound.perform allowed
  fits thunk held :=
    (action.grows_perform stage.store).keeps thunk _ (stage.fits thunk held)

theorem Action.Leads.perform {action : Action} {next : action.Reply → Stage frame → Prop}
    (leads : action.Leads stage next) {reply : action.Reply}
    (performed : action.perform stage.store = (some reply, after)) :
    ∃ later : Stage frame, later.store = after ∧ stage ≤ later ∧ next reply later := by
  have le := stage.le_perform action
  cases action with
  | identity =>
    cases performed
    let taken := stage.perform .identity (stage.seesAll_nil)
    -- Nodes bear stamps taken before.
    have unused : taken.Unused stage.store.nextIdentity :=
      ⟨Nat.lt_succ_self _, fun trie made =>
        Nat.ne_of_lt (stage.sound.isNode made).stamp_lt⟩
    obtain ⟨richer, leRicher, same, holds⟩ := leads taken le _ unused
    exact ⟨richer, same, le.trans leRicher, holds⟩
  | _ =>
    exact ⟨stage.perform _ leads.1, congrArg Prod.snd performed, le,
      leads.2 _ le _ (stage.sound.answers leads.1 performed)⟩

end ByNeed
