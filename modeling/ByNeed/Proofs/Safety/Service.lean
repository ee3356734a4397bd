import ByNeed.Prelude
import ByNeed.Proofs.Machine.Interleaving
import ByNeed.Proofs.Safety.Threads

/-!
# A store in service

Any number of threads each serve a request: to build an expression, to call a function, to evaluate
a thunk purely, to run the effect of a thunk, or to be a daemon.  Requests name thunks that can be
seen.  Threads begin at any time and take their steps in any order.  The store stays sound, and all
threads stay safe.
-/

namespace ByNeed

variable {request : Request} {after : Store}

/-- Whether a thunk can be seen. -/
def Store.canSee (store : Store) (thunk : Thunk) : Bool :=
  (store.slot? thunk).any fun slot => !slot.isSealed

theorem Store.canSee_iff {store : Store} : store.canSee thunk = true ↔ store.Sees thunk := by
  simp [canSee, Sees, Option.any_eq_true]

/-- What a thread is asked to do. -/
inductive Request where
  /-- Build an expression in sight of names. -/
  | build (expr : Expr) (scope : Scope)
  /-- Call a function. -/
  | call (callee : Function) (arguments : Arguments)
  /-- Evaluate a thunk purely. -/
  | force (thunk : Thunk)
  /-- Run the effect of a thunk. -/
  | forceImpure (thunk : Thunk)
  /-- Start a scheduler. -/
  | startScheduler (scheduler : Nat)
  /-- Submit a daemon to a scheduler. -/
  | submit (scheduler : Nat) (duty : Duty)
  /-- Start a daemon that publishes elements. -/
  | feed (scheduler : Nat) (elements : List Thunk) (failure : Option Error)
  /-- Be a daemon. -/
  | serve (scheduler : Nat) (daemon : Daemon)

namespace Request

/-- The result of a request. -/
abbrev Result : Request → Type
  | .build .. => Thunk
  | .call .. => Except Error Thunk
  | .force _ => Value
  | .forceImpure _ => Value
  | .startScheduler _ => Option Nat
  | .submit .. => Unit
  | .feed .. => Thunk
  | .serve .. => Unit

/-- The code that serves a request. -/
def code : (request : Request) → Code request.Result
  | .build expr scope => ByNeed.build expr scope
  | .call callee arguments => (callee.call arguments).run
  | .force thunk => ByNeed.force thunk
  | .forceImpure thunk => ByNeed.forceImpure thunk
  | .startScheduler scheduler => ByNeed.startScheduler scheduler
  | .submit scheduler duty => spawn scheduler duty
  | .feed scheduler elements failure => ByNeed.feed scheduler elements failure
  | .serve scheduler daemon => daemon.code scheduler

/-- The thunks a request names. -/
def thunks : Request → List Thunk
  | .build _ scope => scope.thunks
  | .call callee arguments => callee.thunks ++ arguments.thunks
  | .force thunk => [thunk]
  | .forceImpure thunk => [thunk]
  | .startScheduler _ => []
  | .submit _ duty => duty.thunks
  | .feed _ elements _ => elements
  | .serve _ daemon => daemon.duty.thunks

/-- The thunk whose effect may be run for a request. -/
def runs : Request → Option Thunk
  | .forceImpure thunk => some thunk
  | _ => none

/-- The frame in which a thread serves a request. -/
def frame (request : Request) (number : Nat) : Frame where
  self := number
  held _ := False
  runs := request.runs

/-- What is known of the result of a request: evaluation gives no effects. -/
def Answers : (request : Request) → request.Result → Prop
  | .force _, value => ∀ identity payload, value ≠ .effect identity payload
  | .forceImpure _, value => ∀ identity payload, value ≠ .effect identity payload
  | _, _ => True

end Request

theorem Value.purely_ne_effect (value : Value) (identity : Nat) (payload : Thunk) :
    value.purely ≠ .effect identity payload := by
  unfold purely
  split
  · rintro ⟨⟩
  · rename_i notEffect
    rintro rfl
    exact notEffect identity payload rfl

/-- Serving a request is safe where the thunks it names can be seen. -/
theorem Request.code_safe {frame : Frame} (runs_eq : frame.runs = request.runs)
    {stage : Stage frame} (sees : stage.SeesAll request.thunks) :
    request.code.Safe (fun _ result => request.Answers result) stage := by
  cases request with
  | build expr scope => exact (build_safe expr sees).weaken fun _ _ _ _ => trivial
  | call callee arguments =>
    obtain ⟨calleeSees, argumentsSee⟩ := Realm.seesAll_append.mp sees
    exact Code.Safe.weaken (Function.call_safe calleeSees argumentsSee) fun _ _ _ _ => trivial
  | force thunk =>
    exact ⟨.inl (Realm.seesAll_cons.mp sees).1, fun _ _ value _ => value.purely_ne_effect⟩
  | forceImpure thunk =>
    refine ⟨.inl (Realm.seesAll_cons.mp sees).1, fun later _ value answers => ?_⟩
    cases value with
    | effect identity payload =>
      -- An effect is not the fault of a thunk that depends on itself.
      have evaluated := answers.2.resolve_right fun cycle => by cases cycle.2
      exact ⟨.inr ⟨thunk, identity, runs_eq, evaluated⟩, fun _ _ value _ => value.purely_ne_effect⟩
    | _ => rintro _ _ ⟨⟩
  | startScheduler scheduler =>
    exact (startScheduler_safe scheduler).weaken fun _ _ _ _ => trivial
  | submit scheduler duty => exact (spawn_safe scheduler sees).weaken fun _ _ _ _ => trivial
  | feed scheduler elements failure =>
    exact (feed_safe scheduler sees failure).weaken fun _ _ _ _ => trivial
  | serve scheduler daemon =>
    exact (Daemon.code_safe scheduler sees).weaken fun _ _ _ _ => trivial

/-- A thread and the request it serves. -/
structure Task where
  request : Request
  thread : Thread request.Result

/-- A store in service. -/
structure Service where
  store : Store
  tasks : Nat → Option Task := fun _ => none

/-- What can happen to a store in service. -/
inductive Move where
  /-- The thread under a number takes its next step. -/
  | step (number : Nat)
  /-- A thread begins to serve a request, if its number is free and the thunks that the
  request names can be seen. -/
  | start (number : Nat) (request : Request)
  /-- A scheduler is made. -/
  | newScheduler (capacity stackSize : Nat)
  /-- The function that merges sources on the daemons of a scheduler is made. -/
  | installRally (scheduler : Nat)

/-- A computation that begins: who began it, for which request, and what it is. -/
structure Beginning where
  number : Nat
  request : Request
  thunk : Thunk
  computation : Suspension

namespace Service

/-- Set the task under a number. -/
def setTask (service : Service) (number : Nat) (task : Option Task) : Service :=
  { service with tasks := fun other => if other = number then task else service.tasks other }

/-- Take the outcome of a step for a task. -/
def afterStep (service : Service) (number : Nat) (task : Task) :
    Step task.request.Result × Store → Service
  | (.moved thread, store) => { service with store }.setTask number (some { task with thread })
  | (.waiting, store) => { service with store }
  | (.finished _, store) => { service with store }.setTask number none

/-- Make a move. -/
def move (service : Service) : Move → Service
  | .step number =>
    match service.tasks number with
    | none => service
    | some task => service.afterStep number task (task.thread.step number service.store)
  | .start number request =>
    if (service.tasks number).isNone && request.thunks.all service.store.canSee then
      service.setTask number (some { request, thread := .running request.code })
    else
      service
  | .newScheduler capacity stackSize =>
    { service with store := (service.store.newScheduler capacity stackSize).2 }
  | .installRally scheduler =>
    { service with store := service.store.install (Prelude.rally scheduler) }

/-- Make moves in order. -/
def run (service : Service) (moves : List Move) : Service :=
  moves.foldl move service

/-- The computation that a move begins, if it begins one. -/
def begins? (service : Service) : Move → Option Beginning
  | .step number =>
    match service.tasks number with
    | none => none
    | some task =>
      match task.thread.access? with
      | some (.claim thunk) =>
        match (service.store.claim number thunk).1 with
        | .owned computation => some { number, request := task.request, thunk, computation }
        | _ => none
      | _ => none
  | _ => none

/-- The computations that moves begin, in order. -/
def beginnings (service : Service) : List Move → List Beginning
  | [] => []
  | first :: moves => (service.begins? first).toList ++ (service.move first).beginnings moves

/-- A service with the functions of the prelude and no thunks. -/
def initial (digest : List Piece → UInt64) : Service where
  store := Store.installPrelude { digest }

/-! ## The service as a pool -/

/-- The threads of a service, without their requests. -/
def pool (service : Service) : Pool where
  store := service.store
  threads number := (service.tasks number).map fun task => ⟨task.thread⟩

theorem pool_setTask (service : Service) (number : Nat) (task : Option Task) :
    (service.setTask number task).pool =
      service.pool.setThread number (task.map fun task => ⟨task.thread⟩) := by
  simp only [pool, setTask, Pool.setThread, Pool.mk.injEq, true_and]
  funext other
  split <;> rfl

theorem pool_afterStep (service : Service) (number : Nat) (task : Task)
    (stepped : Step task.request.Result × Store) :
    (service.afterStep number task stepped).pool = service.pool.afterStep number stepped := by
  obtain ⟨result, after⟩ := stepped
  cases result with
  | moved thread => exact pool_setTask _ number _
  | waiting => rfl
  | finished outcome => exact pool_setTask _ number none

theorem exists_turn (service : Service) (move : Move) :
    ∃ turn, (service.move move).pool = service.pool.turn turn := by
  cases move with
  | step number =>
    refine ⟨.step number, ?_⟩
    cases present : service.tasks number with
    | none => simp [Service.move, Pool.turn, pool, present]
    | some task =>
      have threads : service.pool.threads number = some ⟨task.thread⟩ := by
        simp [pool, present]
      simp only [Service.move, present, Pool.turn, threads]
      exact pool_afterStep service number task _
  | start number request =>
    simp only [Service.move]
    split
    · rename_i allowed
      have free : service.pool.threads number = none := by
        simp only [Bool.and_eq_true, Option.isNone_iff_eq_none] at allowed
        simp [pool, allowed.1]
      refine ⟨.start number request.code, ?_⟩
      simp only [Pool.turn, free]
      exact pool_setTask service number _
    · exact ⟨.change id fun _ => rfl, rfl⟩
  | newScheduler capacity stackSize =>
    exact ⟨.change (fun store => (store.newScheduler capacity stackSize).2) fun _ => rfl, rfl⟩
  | installRally scheduler =>
    exact ⟨.change (fun store => store.install (Prelude.rally scheduler)) fun _ => rfl, rfl⟩

end Service

/-! ## What is not a slot -/

/-- A change that leaves the slots alone and mentions nothing new keeps the realm sound. -/
theorem Realm.Sound.change {realm : Realm} (sound : realm.Sound)
    (slots : after.slots = realm.store.slots) (digest : after.digest = realm.store.digest)
    (identities : realm.store.nextIdentity ≤ after.nextIdentity)
    (mentions : ∀ thunk, after.Mentions thunk → realm.store.Mentions thunk) :
    realm ≤ realm.withStore after ∧ (realm.withStore after).Sound := by
  have same : ∀ thunk, after.slot? thunk = realm.store.slot? thunk :=
    fun thunk => Store.slot?_congr slots thunk
  have le : realm ≤ realm.withStore after :=
    { slots := fun thunk slot held => ⟨slot, (same thunk).trans held, .stay slot⟩
      digest := digest
      nodes := fun _ made => made }
  refine ⟨le, ?_⟩
  exact
    { evaluated := fun evaluated => (sound.evaluated ((same _).symm.trans evaluated)).mono le
      suspended := fun suspended => (sound.suspended ((same _).symm.trans suspended)).mono le
      mentioned := fun mentioned => (sound.mentioned (mentions _ mentioned)).mono le
      isNode := fun made => (sound.isNode made).mono le identities
      alike := sound.alike }

/-- The thunks that a function of the prelude mentions. -/
def PreludeEntry.thunks (entry : PreludeEntry) : List Thunk :=
  entry.signature.thunks ++ entry.body.thunks

theorem Prelude.thunks_eq_nil : ∀ entry ∈ Prelude.entries, entry.thunks = [] := by
  decide

namespace Store

variable {store : Store} {thunk : Thunk}

theorem global?_defineGlobal (refers : (store.defineGlobal made).global? name = some function) :
    function = made ∨ store.global? name = some function := by
  simp only [global?, defineGlobal, List.lookup_cons] at refers
  split at refers
  · exact .inl (Option.some.inj refers).symm
  · rename_i ne
    right
    unfold global?
    generalize store.prelude = globals at refers
    induction globals with
    | nil => exact refers
    | cons entry globals ih =>
      rw [List.filter_cons] at refers
      rw [List.lookup_cons]
      split at refers
      · rw [List.lookup_cons] at refers
        split at refers
        · exact refers
        · exact ih refers
      · rename_i removed
        have unlike : (name == entry.1) = false := by
          simp only [bne_iff_ne, ne_eq, not_not, beq_eq_false_iff_ne] at removed ne ⊢
          rwa [removed]
        rw [unlike]
        exact ih refers

theorem Mentions.of_install (mentions : (store.install entry).Mentions thunk)
    (closed : entry.thunks = []) : store.Mentions thunk := by
  cases mentions with
  | cell defined => exact .cell defined
  | @global name function _ refers mentioned =>
    rcases global?_defineGlobal refers with rfl | before
    · rw [show Function.thunks _ = entry.thunks from rfl, closed] at mentioned
      contradiction
    · exact .global before mentioned
  | unread sent => exact .unread sent
  | queued waiting mem mentioned => exact .queued waiting mem mentioned
  | launched mem mentioned => exact .launched mem mentioned

theorem Mentions.of_installAll {entries : List PreludeEntry}
    (mentions : (entries.foldl install store).Mentions thunk)
    (closed : ∀ entry ∈ entries, entry.thunks = []) : store.Mentions thunk := by
  induction entries generalizing store with
  | nil => exact mentions
  | cons entry entries ih =>
    obtain ⟨closed, rest⟩ := List.forall_mem_cons.mp closed
    exact (ih mentions rest).of_install closed

theorem slots_installAll (store : Store) (entries : List PreludeEntry) :
    (entries.foldl install store).slots = store.slots := by
  induction entries generalizing store with
  | nil => rfl
  | cons entry entries ih => exact ih (store.install entry)

end Store

/-! ## Soundness -/

/-- The thread of a task is safe in the frame of its request. -/
def Task.Safe (task : Task) (number : Nat) (realm : Realm) : Prop :=
  Thread.Safe (fun (_ : Stage (task.request.frame number)) result => task.request.Answers result)
    task.thread realm

/-- A service is sound in a realm. -/
structure Service.SoundIn (service : Service) (realm : Realm) : Prop where
  store_eq : realm.store = service.store
  sound : realm.Sound
  owned : service.pool.Owned
  safe : ∀ number task, service.tasks number = some task → task.Safe number realm

namespace Service

variable {service : Service} {realm : Realm}
variable {number : Nat}

theorem SoundIn.bears (soundIn : service.SoundIn realm)
    (present : service.tasks number = some task) :
    task.thread.Bears (task.request.frame number).held (task.request.frame number).self
      realm.store := by
  have owns : task.thread.Owns number service.store :=
    soundIn.owned.owns number ⟨task.thread⟩ (by simp [pool, present])
  rw [soundIn.store_eq]
  exact owns.bears

theorem owned_move (owned : service.pool.Owned) (move : Move) : (service.move move).pool.Owned := by
  obtain ⟨turn, same⟩ := service.exists_turn move
  rw [same]
  exact owned.turn turn

section

variable (soundIn : service.SoundIn realm)

include soundIn

theorem SoundIn.setTask (le : realm ≤ later) (sound : later.Sound)
    (owned : ({ service with store := later.store }.setTask number task).pool.Owned)
    (safe : ∀ replacement, task = some replacement → replacement.Safe number later) :
    ({ service with store := later.store }.setTask number task).SoundIn later where
  store_eq := rfl
  sound := sound
  owned := owned
  safe other found present := by
    simp only [Service.setTask] at present
    split at present
    · subst other
      exact safe found present
    · exact Thread.Safe.mono (soundIn.safe other found present) le

theorem SoundIn.step (present : service.tasks number = some task)
    (owned : (service.afterStep number task (task.thread.step number service.store)).pool.Owned) :
    ∃ later, realm ≤ later ∧
      (service.afterStep number task (task.thread.step number service.store)).SoundIn later := by
  have safe := soundIn.safe number task present
  have bears := soundIn.bears present
  rcases stepped : task.thread.step number service.store with ⟨result, after⟩
  rw [stepped] at owned
  cases result with
  | moved thread =>
    rw [← soundIn.store_eq] at stepped
    obtain ⟨later, rfl, le, sound, nextSafe⟩ :=
      Thread.Safe.of_moved (fun _ _ _ _ answers => answers) safe soundIn.sound bears stepped
    exact ⟨later, le, soundIn.setTask le sound owned fun replacement same => by
      cases same
      exact nextSafe⟩
  | waiting =>
    obtain rfl := Thread.eq_of_waiting stepped
    exact ⟨realm, le_rfl, soundIn⟩
  | finished outcome =>
    obtain ⟨-, rfl⟩ := Thread.eq_of_finished stepped
    have same := soundIn.store_eq
    refine ⟨realm, le_rfl, ?_⟩
    simp only [afterStep, ← same] at owned ⊢
    exact soundIn.setTask le_rfl soundIn.sound owned fun replacement same => by cases same

theorem SoundIn.start (sees : realm.SeesAll request.thunks)
    (owned : (service.setTask number
      (some { request, thread := .running request.code })).pool.Owned) :
    (service.setTask number (some { request, thread := .running request.code })).SoundIn realm := by
  have same : { service with store := realm.store } = service := by rw [soundIn.store_eq]
  rw [← same] at owned ⊢
  refine soundIn.setTask le_rfl soundIn.sound owned fun replacement same => ?_
  cases same
  exact fun stage le => Request.code_safe rfl (sees.mono le)

theorem SoundIn.change
    (slots : after.slots = service.store.slots) (digest : after.digest = service.store.digest)
    (identities : service.store.nextIdentity ≤ after.nextIdentity)
    (mentions : ∀ thunk, after.Mentions thunk → service.store.Mentions thunk)
    (owned : { service with store := after }.pool.Owned) :
    ∃ later, realm ≤ later ∧ { service with store := after }.SoundIn later := by
  rw [← soundIn.store_eq] at slots digest identities mentions
  obtain ⟨le, sound⟩ := soundIn.sound.change slots digest identities mentions
  exact ⟨_, le,
    { store_eq := rfl
      sound := sound
      owned := owned
      safe := fun number task present => Thread.Safe.mono (soundIn.safe number task present) le }⟩

theorem SoundIn.move (move : Move) :
    ∃ later, realm ≤ later ∧ (service.move move).SoundIn later := by
  have owned := owned_move soundIn.owned move
  cases move with
  | step number =>
    cases present : service.tasks number with
    | none =>
      simp only [Service.move, present]
      exact ⟨realm, le_rfl, soundIn⟩
    | some task =>
      simp only [Service.move, present] at owned ⊢
      exact soundIn.step present owned
  | start number request =>
    simp only [Service.move] at owned ⊢
    split at owned
    · rename_i allowed
      rw [if_pos allowed]
      rw [Bool.and_eq_true, List.all_eq_true] at allowed
      refine ⟨realm, le_rfl, soundIn.start (fun thunk mem => ?_) owned⟩
      rw [soundIn.store_eq]
      exact Store.canSee_iff.mp (allowed.2 thunk mem)
    · rename_i refused
      rw [if_neg refused]
      exact ⟨realm, le_rfl, soundIn⟩
  | newScheduler capacity stackSize =>
    exact soundIn.change rfl rfl (Nat.le_refl _) (fun _ mentions => mentions.of_newScheduler) owned
  | installRally scheduler =>
    exact soundIn.change rfl rfl (Nat.le_succ _) (fun _ mentions => mentions.of_install rfl) owned

theorem SoundIn.run (moves : List Move) :
    ∃ later, realm ≤ later ∧ (service.run moves).SoundIn later := by
  induction moves generalizing service realm with
  | nil => exact ⟨realm, le_rfl, soundIn⟩
  | cons first moves ih =>
    obtain ⟨between, le, soundThen⟩ := soundIn.move first
    obtain ⟨later, leLater, soundNow⟩ := ih soundThen
    exact ⟨later, le.trans leLater, soundNow⟩

end

/-- The service begins in a sound realm, where nothing was made. -/
theorem soundIn_initial (digest : List Piece → UInt64) :
    (initial digest).SoundIn { store := (initial digest).store, nodes := fun _ => False } := by
  have slots : (initial digest).store.slots = #[] := Store.slots_installAll _ _
  have nothing : ∀ thunk, (initial digest).store.slot? thunk = none := by
    intro thunk
    simp [Store.slot?, slots]
  exact
    { store_eq := rfl
      sound :=
        { evaluated := fun evaluated => by simp [nothing] at evaluated
          suspended := fun suspended => by simp [nothing] at suspended
          mentioned := fun mentions => by
            cases mentions.of_installAll Prelude.thunks_eq_nil with
            | cell defined => simp [Store.cell?, Store.group] at defined
            | global refers mentioned => cases refers
            | unread sent => simp [Store.channel] at sent
            | queued waiting mem mentioned =>
              simp only [Store.scheduler, Array.getD_eq_getD_getElem?, Array.getElem?_empty,
                Option.getD_none, Option.some.injEq] at waiting
              simp [← waiting] at mem
            | launched mem mentioned => cases mem
          isNode := fun made => made.elim
          alike := fun made => made.elim }
      owned :=
        Pool.Idle.owned
          { unclaimed := fun thunk slot held => by
              rw [show (initial digest).pool.store.slot? thunk = none from nothing thunk] at held
              cases held
            running := fun number worker present => by cases present }
      safe := fun number task present => by cases present }

/-- The store of a service is a stage for any of its threads, which may be in the middle of
evaluations of its own. -/
theorem exists_stage (digest : List Piece → UInt64) (moves : List Move) (self : Nat) :
    ∃ held, ∃ stage : Stage ⟨self, held, none⟩,
      stage.store = ((initial digest).run moves).store ∧ stage.Exact := by
  obtain ⟨realm, -, soundIn⟩ := (soundIn_initial digest).run moves
  let held : Thunk → Prop := fun thunk => realm.store.slot? thunk = some (.evaluating self)
  let stage : Stage ⟨self, held, none⟩ :=
    { toRealm := realm, sound := soundIn.sound, fits := fun _ marked => marked }
  exact ⟨held, stage, soundIn.store_eq, fun _ marked => marked⟩

end Service
end ByNeed
