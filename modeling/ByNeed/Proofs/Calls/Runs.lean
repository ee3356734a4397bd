import Mathlib.Data.List.Induction
import ByNeed.Proofs.Calls.Bodies

/-!
# Everything fits in every run

That a store and what its threads are about to do fit is kept by everything that can happen to a
store in service.  So a computation breaks off only where this is granted, and no error occurs that
may not.
-/

namespace ByNeed

open List

variable {ρ α : Type} {allowance : Allowance}
variable {store : Store} {value : Value} {action : Action}

/-! ## The store -/

/-- What a store holds fits: values, suspended computations, the functions that free names
refer to and the failures that were sent. -/
structure Store.Fits (allowance : Allowance) (store : Store) : Prop where
  evaluated : ∀ {thunk value}, store.slot? thunk = some (.evaluated value) → value.Fits allowance
  suspended : ∀ {thunk computation}, store.slot? thunk = some (.suspended computation) →
    computation.Fits allowance
  globals : ∀ name, Action.Told allowance (.global name) (store.global? name)
  unread : ∀ {channel message}, message ∈ (store.channel channel).unread → message.Fits allowance

namespace Store.Fits

variable {store after : Store}

section

variable (fits : store.Fits allowance)

include fits

/-- What a thunk is found to hold fits; one that nobody has made counts as nil. -/
theorem of_slot (evaluated : store.slot thunk = .evaluated value) : value.Fits allowance := by
  rcases slot?_or_nil_of_evaluated evaluated with found | rfl
  · exact fits.evaluated found
  · exact .nil

theorem setSlot {slot : Slot} (evaluated : ∀ value, slot = .evaluated value → value.Fits allowance)
    (suspended : ∀ computation, slot = .suspended computation → computation.Fits allowance)
    (thunk : Thunk) : (store.setSlot thunk slot).Fits allowance where
  evaluated held := (slot?_of_setSlot held).elim fits.evaluated fun same => evaluated _ same.symm
  suspended held := (slot?_of_setSlot held).elim fits.suspended fun same => suspended _ same.symm
  globals := fits.globals
  unread := fits.unread

theorem publish (valueFits : value.Fits allowance) (thunk : Thunk) :
    (store.publish thunk value).Fits allowance :=
  fits.setSlot (fun _ same => by cases same; exact valueFits) (fun _ same => by cases same) thunk

theorem perform (actionFits : action.Fits allowance) : (action.perform store).2.Fits allowance := by
  have effect := action.effect_perform store
  exact
    { evaluated := fun held => by
        rcases effect.slot?_cases held with before | made
        · exact fits.evaluated before
        · cases action <;> cases made
          exact actionFits
      suspended := fun held => by
        rcases effect.slot?_cases held with before | made
        · exact fits.suspended before
        · cases action <;> cases made
          exact actionFits
      globals := fun name => by
        rw [global?, effect.prelude_eq]
        exact fits.globals name
      unread := fun isUnread => by
        rcases effect.mem_unread isUnread with before | ⟨other, rfl⟩
        · exact fits.unread before
        · exact actionFits }

/-- What an action replies fits. -/
theorem tells (performed : action.perform store = (some reply, after)) :
    action.Tells (.loose allowance) reply := by
  refine ⟨?_, action.mentions_of_forall (fun _ => trivial) reply⟩
  cases action with
  | global name =>
    cases performed
    exact fits.globals name
  | receive channel =>
    simp only [Action.perform] at performed
    split at performed
    · cases performed
    · rename_i reading state received
      cases performed
      cases reply with
      | failure error =>
        have head : .failure error ∈ (store.channel channel).unread := by
          unfold Channel.receive? at received
          split at received
          · rename_i message rest unread
            cases message <;> cases received
            rw [unread]
            exact List.mem_cons_self
          · split at received <;> cases received
        exact fits.unread head
      | _ => trivial
  | _ => trivial

end

end Store.Fits

/-! ## Threads -/

/-- What waits on a stack goes on with what fits. -/
def Stack.Fits (allowance : Allowance) (kind : ρ → Prop) : Stack ρ → Prop
  | .base next => ∀ value, value.Fits allowance → (next value).Obeys (.loose allowance) kind
  | .nested next _ rest =>
    (∀ value, value.Fits allowance → (next value).Keeps (.loose allowance)) ∧
      rest.Fits allowance kind

/-- What a thread is about to do fits, and its result will be of a kind. -/
def Thread.Fits (allowance : Allowance) (kind : ρ → Prop) : Thread ρ → Prop
  | .running code => code.Obeys (.loose allowance) kind
  | .driving code _ stack => code.Keeps (.loose allowance) ∧ stack.Fits allowance kind
  | .settling value _ stack => value.Fits allowance ∧ stack.Fits allowance kind

theorem Value.Fits.through (fits : value.Fits allowance) (site : Option Site) :
    (value.through site).Fits allowance := by
  cases value with
  | error failure =>
    have admits := fits_error.mp fits
    cases site <;> exact fits_error.mpr admits
  | _ => exact fits

theorem Suspension.Fits.loose {computation : Suspension} (fits : computation.Fits allowance) :
    computation.resume.Keeps (.loose allowance) :=
  Suspension.Suits.resume fits.suits (respects_of_forall (fun _ => trivial) computation)
    fun _ => trivial

theorem Stack.Fits.resume {stack : Stack ρ} (fits : stack.Fits allowance kind)
    (valueFits : value.Fits allowance) : (stack.resume value).Fits allowance kind := by
  cases stack with
  | base next => exact fits value valueFits
  | nested next chain rest => exact ⟨fits.1 value valueFits, fits.2⟩

namespace Thread.Fits

variable {kind : ρ → Prop} {thread next : Thread ρ} {store after : Store} {self : Nat}

theorem of_context {context : Context ρ α} (fits : (context.thread code).Fits allowance kind)
    (continues : ∀ results : α → Prop,
      code.Obeys (.loose allowance) results → rest.Obeys (.loose allowance) results) :
    (context.thread rest).Fits allowance kind := by
  cases context with
  | top => exact continues _ fits
  | link chain stack => exact ⟨continues _ fits.1, fits.2⟩

theorem code_obeys {context : Context ρ α} (fits : (context.thread code).Fits allowance kind) :
    ∃ results : α → Prop, code.Obeys (.loose allowance) results := by
  cases context with
  | top => exact ⟨_, fits⟩
  | link chain stack => exact ⟨_, fits.1⟩

theorem of_asks {chain : List Link} (fits : thread.Fits allowance kind)
    (asks : thread.Asks thunk answered chain stack) :
    (∀ value, value.Fits allowance → (answered value).Fits allowance kind) ∧
      stack.Fits allowance kind := by
  cases asks with
  | follow thunk chain stack => exact ⟨fun _ valueFits => ⟨valueFits, fits.2⟩, fits.2⟩
  | evaluate context thunk next =>
    refine ⟨fun value valueFits => fits.of_context fun _ obeys => obeys value valueFits, ?_⟩
    cases context with
    | top | link => exact fits

/-- A step of a thread keeps everything fitting. -/
theorem of_moved (fits : thread.Fits allowance kind) (storeFits : store.Fits allowance)
    (moved : thread.step self store = (.moved next, after)) :
    next.Fits allowance kind ∧ after.Fits allowance := by
  cases steps_of_step moved with
  | act context performed =>
    obtain ⟨results, obeys⟩ := fits.code_obeys
    have afterFits := storeFits.perform obeys.1.1
    rw [performed] at afterFits
    exact ⟨fits.of_context fun _ obeys => obeys.2 _ (storeFits.tells performed), afterFits⟩
  | answer asks evaluated =>
    exact ⟨(fits.of_asks asks).1 _ (storeFits.of_slot evaluated), storeFits⟩
  | cycle asks =>
    exact ⟨(fits.of_asks asks).1 _ (Value.fits_fault (by simp [Fault.kind])), storeFits⟩
  | claim asks suspended =>
    exact ⟨⟨(storeFits.suspended suspended).loose, (fits.of_asks asks).2⟩,
      storeFits.setSlot (fun _ same => by cases same) (fun _ same => by cases same) _⟩
  | call context =>
    exact ⟨fits.of_context fun _ obeys => Code.Obeys.bind obeys.1.body obeys.2, storeFits⟩
  | breakOff => exact ⟨⟨.error (allowance.broken _ fits.1), fits.2⟩, storeFits⟩
  | settled => exact ⟨fits.2.resume fits.1, storeFits⟩
  | publish value link chain stack =>
    have throughFits := fits.1.through link.site
    exact ⟨⟨throughFits, fits.2⟩, storeFits.publish throughFits link.thunk⟩

theorem of_finished (fits : thread.Fits allowance kind)
    (finished : thread.step self store = (.finished (.ok result), after)) : kind result := by
  obtain ⟨rfl, -⟩ := eq_of_finished finished
  exact fits

end Thread.Fits

/-! ## Services -/

namespace Store

/-- Installing a function changes what its name refers to. -/
theorem global?_install (store : Store) (entry : PreludeEntry) (name : String) :
    (store.install entry).global? name = if name = entry.name then
        some (.plain store.nextIdentity entry.name entry.signature false entry.body)
      else store.global? name := by
  have others : ∀ globals : List (String × Function), name ≠ entry.name →
      (globals.filter fun other => other.1 != entry.name).lookup name = globals.lookup name := by
    intro globals ne
    induction globals with
    | nil => rfl
    | cons other globals ih =>
      rw [filter_cons]
      split
      · rw [lookup_cons, lookup_cons, ih]
      · rename_i removed
        have unlike : (name == other.1) = false := by
          simp only [bne_iff_ne, ne_eq, not_not, beq_eq_false_iff_ne] at removed ⊢
          rwa [removed]
        rw [ih, lookup_cons, unlike]
  simp only [install, takeIdentity, defineGlobal, Function.name, global?, lookup_cons]
  split
  · rename_i same
    rw [if_pos (beq_iff_eq.mp same)]
  · rename_i ne
    have ne := beq_eq_false_iff_ne.mp ne
    rw [if_neg ne, others _ ne]

theorem global?_installAll (entries : List PreludeEntry) (unknown : store.global? name = none) :
    (∀ callee, (entries.foldl install store).global? name = some callee →
      ∃ entry ∈ entries, entry.name = name ∧ ∃ identity,
        callee = .plain identity entry.name entry.signature false entry.body) ∧
    ((entries.foldl install store).global? name = none → ∀ entry ∈ entries, entry.name ≠ name) := by
  induction entries using List.reverseRecOn with
  | nil => exact ⟨fun callee found => by simp [unknown] at found, fun _ _ mem => by cases mem⟩
  | append_singleton entries last ih =>
    obtain ⟨found, absent⟩ := ih
    rw [foldl_append, foldl_cons, foldl_nil, global?_install]
    split
    · rename_i same
      refine ⟨fun callee isCallee => ?_, fun isNone => by cases isNone⟩
      exact ⟨last, by simp, same.symm, _, (Option.some.inj isCallee).symm⟩
    · rename_i ne
      refine ⟨fun callee isCallee => ?_, fun isNone entry mem => ?_⟩
      · obtain ⟨entry, mem, known⟩ := found callee isCallee
        exact ⟨entry, mem_append_left _ mem, known⟩
      · rcases mem_append.mp mem with mem | mem
        · exact absent isNone entry mem
        · rw [mem_singleton.mp mem]
          exact Ne.symm ne

/-- The store of a service fits at the beginning. -/
theorem fits_installPrelude (digest : List Piece → UInt64) :
    (installPrelude { digest }).Fits allowance := by
  have slots : (installPrelude { digest }).slots = #[] := slots_installAll _ _
  have channels : (installPrelude { digest }).channels = #[] := rfl
  have none_known : ∀ name, Store.global? { prelude := [], digest } name = none := fun _ => rfl
  exact
    { evaluated := fun held => by simp [slot?, slots] at held
      suspended := fun held => by simp [slot?, slots] at held
      globals := fun name => by
        obtain ⟨found, absent⟩ := global?_installAll Prelude.entries (none_known name)
        change Action.Told allowance (.global name) ((Prelude.entries.foldl install _).global? name)
        cases isFound : (Prelude.entries.foldl install _).global? name with
        | none => exact .inr (absent isFound)
        | some callee =>
          obtain ⟨entry, listed, named, made⟩ := found callee isFound
          exact .inr ⟨entry, .inl listed, named, made⟩
      unread := fun isUnread => by simp [Store.channel, channels] at isUnread }

/-- Installing a standard function keeps a store fitting. -/
theorem Fits.install (fits : store.Fits allowance) (standard : entry.IsStandard) :
    (store.install entry).Fits allowance where
  evaluated := fits.evaluated
  suspended := fits.suspended
  globals name := by
    rw [global?_install]
    split
    · rename_i same
      exact .inr ⟨entry, standard, same.symm, _, rfl⟩
    · exact fits.globals name
  unread := fits.unread

end Store

/-- The thread of a task is about to do what fits. -/
def Task.Fits (allowance : Allowance) (task : Task) : Prop :=
  task.thread.Fits allowance (task.request.Told allowance)

/-- Everything in a service fits. -/
structure Service.Fits (allowance : Allowance) (service : Service) : Prop where
  store : service.store.Fits allowance
  tasks : ∀ {number task}, service.tasks number = some task → task.Fits allowance

namespace Service.Fits

variable {service : Service}

section

variable (fits : service.Fits allowance)

include fits

theorem setTask (storeFits : store.Fits allowance)
    (taskFits : ∀ made, task = some made → made.Fits allowance) (number : Nat) :
    ({ service with store }.setTask number task).Fits allowance where
  store := storeFits
  tasks present := by
    simp only [Service.setTask] at present
    split at present
    · exact taskFits _ present
    · exact fits.tasks present

/-- A move keeps everything fitting, if what a thread is asked for fits. -/
theorem move {move : Move}
    (asked : ∀ number request, move = .start number request → request.Fits allowance) :
    (service.move move).Fits allowance := by
  cases move with
  | step number =>
    simp only [Service.move]
    split
    · exact fits
    · rename_i task present
      rcases stepped : task.thread.step number service.store with ⟨result, after⟩
      cases result with
      | moved next =>
        have kept := Thread.Fits.of_moved (fits.tasks present) fits.store stepped
        exact fits.setTask kept.2 (fun made same => by cases same; exact kept.1) number
      | waiting =>
        obtain rfl := Thread.eq_of_waiting stepped
        exact fits
      | finished outcome =>
        obtain ⟨-, rfl⟩ := Thread.eq_of_finished stepped
        exact fits.setTask fits.store (fun made same => by cases same) number
  | start number request =>
    simp only [Service.move]
    split
    · have begun : request.code.Obeys (.loose allowance) (request.Told allowance) :=
        Request.Fits.code (asked number request rfl) trivial fun _ _ => trivial
      exact fits.setTask fits.store (fun made same => by cases same; exact begun) number
    · exact fits
  | newScheduler capacity stackSize =>
    exact ⟨⟨fits.store.evaluated, fits.store.suspended, fits.store.globals, fits.store.unread⟩,
      fits.tasks⟩
  | installRally scheduler =>
    exact ⟨fits.store.install (.inr ⟨scheduler, rfl⟩), fits.tasks⟩

/-- Every run keeps everything fitting. -/
theorem run {moves : List Move}
    (asked : ∀ number request, .start number request ∈ moves → request.Fits allowance) :
    (service.run moves).Fits allowance := by
  induction moves generalizing service with
  | nil => exact fits
  | cons first moves ih =>
    refine ih (fits.move ?_) fun number request mem =>
      asked number request (mem_cons_of_mem _ mem)
    rintro number request rfl
    exact asked number request mem_cons_self

end

end Service.Fits

theorem Service.fits_initial (digest : List Piece → UInt64) : (initial digest).Fits allowance where
  store := Store.fits_installPrelude digest
  tasks present := by cases present

end ByNeed
