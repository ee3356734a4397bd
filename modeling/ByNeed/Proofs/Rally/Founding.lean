import ByNeed.Proofs.Rally.Pristine

/-!
# Founding a rally

A thread makes the channel, launches the walker and makes the first cell of the merged list.  Others
may do anything in between.  When it is done, the ledger of the rally is valid.
-/

namespace ByNeed

open Service

variable {α : Type}

/-! ## Carrying out -/

namespace Service

variable {service : Service} {number : Nat} {shifts : List Shift} {result : α}
variable {action : Action} {next : action.Reply → Code α}

theorem eq_of_carryOut_done (carried : service.carryOut number (.done found) shifts = some result) :
    result = found := by
  cases shifts <;> exact (Option.some.inj carried).symm

theorem exists_performed (carried : service.carryOut number (.act action next) shifts = some result)
    (prompt : ∀ store, (action.perform store).1 ≠ none) (kept : Service → Prop)
    (holds : kept service)
    (others : ∀ service shift, kept service → shift ≠ .make (.step number) →
      kept (service.shift shift)) :
    ∃ before reply after rest, kept before ∧ action.perform before.store = (some reply, after) ∧
      (before.shift (.make (.step number))).carryOut number (next reply) rest = some result ∧
      service.shifts shifts = (before.shift (.make (.step number))).shifts rest := by
  induction shifts generalizing service with
  | nil => cases carried
  | cons first rest ih =>
    rw [carryOut] at carried
    split at carried
    · rename_i own
      obtain rfl := Shift.isStepOf_iff.mp own
      split at carried
      · rename_i reply performed
        exact ⟨service, reply, _, rest, holds, Prod.ext performed rfl, carried, rfl⟩
      · rename_i waits
        exact absurd waits (prompt _)
    · rename_i other
      rw [Shift.isStepOf_iff] at other
      exact ih carried (others service first holds other)

variable {digest : List Piece → UInt64} {request : Request} {context : Context request.Result α}
  {code : Code α}
variable {shift : Shift}

/-- Others leave a thread alone. -/
theorem tasks_shift (present : service.tasks number = some task)
    (ne : shift ≠ .make (.step number)) :
    (service.shift shift).tasks number = some task := by
  have outcome := service.outcome_shift shift
  generalize service.shift shift = next at outcome ⊢
  cases outcome with
  | idle | made => exact present
  | @moved other | @finished other =>
    have elsewhere : number ≠ other := fun same => ne (same ▸ rfl)
    exact (tasks_setTask_of_ne _ elsewhere _).trans present
  | @started other _ _ free | @adopted _ other _ _ _ free =>
    have elsewhere : number ≠ other := by
      rintro rfl
      simp [present] at free
    exact (tasks_setTask_of_ne _ elsewhere _).trans present

/-- In a service that has arisen, the thread under a number runs code in a context. -/
structure Hosts (digest : List Piece → UInt64) (number : Nat) (context : Context request.Result α)
    (code : Code α) (service : Service) : Prop where
  arises : service.Arises digest
  present : service.tasks number = some ⟨request, context.thread code⟩

namespace Hosts

variable {reply : action.Reply} {after : Store}

theorem other (hosts : service.Hosts digest number context code)
    (ne : shift ≠ .make (.step number)) :
    (service.shift shift).Hosts digest number context code where
  arises := hosts.arises.shift shift
  present := tasks_shift hosts.present ne

section

variable (hosts : service.Hosts digest number context (.act action next))
  (performed : action.perform service.store = (some reply, after))

include hosts performed

theorem shift_eq :
    service.shift (.make (.step number)) = { service with store := after }.setTask number
        (some ⟨request, context.thread (next reply)⟩) := by
  simp only [Service.shift, Service.shiftIf, Move.isHonest, if_true, Service.move, hosts.present,
    Context.step_act, performed]
  rfl

theorem act :
    (service.shift (.make (.step number))).Hosts digest number context (next reply) ∧
      (service.shift (.make (.step number))).store = after ∧
      service.Passes number (service.shift (.make (.step number))) := by
  have shift_eq := hosts.shift_eq performed
  obtain ⟨realm, soundIn⟩ := hosts.arises.exists_soundIn
  refine ⟨⟨hosts.arises.shift _, ?_⟩, ?_, soundIn.passes fun other ne => ?_⟩
  · rw [shift_eq, tasks_setTask_self]
  · rw [shift_eq]
    rfl
  · rw [shift_eq, tasks_setTask_of_ne _ ne]

end

end Hosts
end Service

namespace Rally

variable {bound : Nat}

/-! ## The founder -/

namespace Founder

variable (scheduler channel : Nat) (sources : Thunk)

/-- Make the first cell of the merged list. -/
def suspend : Code (Except Error Thunk) :=
  .act (.suspend (.receive channel)) fun merged => .done (.ok merged)

def count : Code (Except Error Thunk) :=
  .act (.countStarted scheduler) fun _ => suspend channel

/-- Launch the walker. -/
def launch (daemon : Daemon) : Code (Except Error Thunk) :=
  .act (.launch scheduler daemon) fun _ => count scheduler channel

def submit : Code (Except Error Thunk) :=
  .act (.submit scheduler (.walk sources channel)) fun
    | some daemon => launch scheduler channel daemon
    | none => suspend channel

def makeChannel (bound : Nat) : Code (Except Error Thunk) :=
  .act (.newChannel bound) fun channel => submit scheduler channel sources

def askCapacity : Code (Except Error Thunk) :=
  .act (.capacity scheduler) fun bound => makeChannel scheduler sources bound

def begin : Code (Except Error Thunk) :=
  .act (.isStarted scheduler) fun
    | true => askCapacity scheduler sources
    | false => .done (.error Fault.idleScheduler.error)

theorem code_eq : (rally scheduler sources).run = begin scheduler sources := by
  refine congrArg (Code.act _) (funext fun started => ?_)
  cases started with
  | false => rfl
  | true =>
    refine congrArg (Code.act _) (funext fun bound => ?_)
    refine congrArg (Code.act _) (funext fun channel => ?_)
    refine congrArg (Code.act _) (funext fun urgent => ?_)
    cases urgent <;> rfl

variable {scheduler channel sources}

/-- What follows the founding of a rally knows a channel only if the founder tells it. -/
theorem following_avoids
    (avoids : ((makeChannel scheduler sources bound).bind following).Avoids channel)
    (merged : Thunk) : (following (.ok merged)).Avoids channel := by
  -- The code would be the same if it had made another channel.
  have submits := avoids.2 (channel + 1) ⟨trivial, by simp [Action.Mentions, Regime.avoiding]⟩
  have suspends := submits.2 none ⟨trivial, fun _ urgent => by cases urgent⟩
  exact suspends.2 merged ⟨trivial, trivial⟩

end Founder

variable {digest : List Piece → UInt64} {number : Nat} {request : Request}
  {context : Context request.Result α} {following : Except Error Thunk → Code α}
  {code : Code (Except Error Thunk)} {plan : Plan} {ledger : Ledger} {service : Service}
variable {shift : Shift}
variable {daemonNumber : Nat} {merged : Thunk}

/-- The ledger of a rally whose channel was just made. -/
def Ledger.opening (number : Nat) (sources : Thunk) : Ledger where
  founder := some number
  walk := .unborn
  cursor := sources
  hands := []
  log := []
  taken := 0
  first := sources
  items := []
  last := sources
  token := .unmade

theorem Ledger.Books.opening (number : Nat) (sources : Thunk) (bound : Nat) :
    (opening number sources).Books { capacity := bound } where
  tape := .opening sources rfl rfl rfl bound
  nodup := List.nodup_nil
  position_lt _ mem := by cases mem
  silent _ _ found := by cases found
  heard _ _ _ found := by cases found

/-- A thread is founding a rally: what it is about to do, and where it will go on. -/
structure Founding (digest : List Piece → UInt64) (number : Nat)
    (context : Context request.Result α) (following : Except Error Thunk → Code α) (plan : Plan)
    (ledger : Ledger) (code : Code (Except Error Thunk)) (service : Service) : Prop where
  hosts : service.Hosts digest number context (code.bind following)
  valid : ledger.Valid plan service
  founder_eq : ledger.founder = some number
  bystands : ∀ merged, (context.thread (following (.ok merged))).Bystands plan.channel service.store

namespace Founding

variable {after : Store}

/-- Others may do anything. -/
theorem other (founding : Founding digest number context following plan ledger code service)
    (ne : shift ≠ .make (.step number)) :
    ∃ later, Founding digest number context following plan later code (service.shift shift) ∧
      ledger.Follows later := by
  obtain ⟨realm, soundIn⟩ := founding.hosts.arises.exists_soundIn
  have others : ∀ founder, ledger.founder = some founder → shift ≠ .make (.step founder) := by
    intro founder isFounder
    rw [founding.founder_eq] at isFounder
    cases isFounder
    exact ne
  obtain ⟨later, valid, follows⟩ := founding.valid.shift soundIn others
  refine ⟨later, ⟨founding.hosts.other ne, valid,
    follows.founder_eq.trans founding.founder_eq, fun merged => ?_⟩, follows⟩
  exact (founding.bystands merged).mono fun _ _ => soundIn.keeps shift

theorem notHolder (founding : Founding digest number context following plan ledger code service) :
    ledger.token.holder? ≠ some number := by
  have unmade := (founding.valid.founding (by simp [founding.founder_eq])).1
  simp [unmade, Handoff.Token.holder?]

section Acts

variable {action : Action} {next : action.Reply → Code (Except Error Thunk)}
  {reply : action.Reply} {after : Store}

theorem quiet
    (founding : Founding digest number context following plan ledger (.act action next) service)
    (performed : action.perform service.store = (some reply, after))
    (undisturbed : service.store.Undisturbed plan.channel after) :
    Founding digest number context following plan ledger (next reply)
      (service.shift (.make (.step number))) := by
  obtain ⟨hosts, store_eq, passes⟩ := founding.hosts.act performed
  refine ⟨hosts, ?_, founding.founder_eq, fun merged => ?_⟩
  · exact founding.valid.quiet passes (store_eq ▸ undisturbed) (fun holds => absurd holds
      founding.notHolder) fun _ _ notFounder => absurd founding.founder_eq notFounder
  · exact (founding.bystands merged).mono passes.keeps

end Acts

/-- The channel is made. -/
theorem found
    (hosts : service.Hosts digest number context
      ((Founder.makeChannel scheduler sources bound).bind following))
    (started : (service.store.scheduler scheduler).isStarted = true)
    (performed : (Action.newChannel bound).perform service.store = (some channel, after)) :
    ∃ ledger, Founding digest number context following ⟨scheduler, channel, sources⟩ ledger
        (Founder.submit scheduler channel sources) (service.shift (.make (.step number))) ∧
      ledger.walk = .unborn ∧ ledger.cursor = sources := by
  obtain ⟨hostsThen, store_eq, passes⟩ := hosts.act performed
  obtain ⟨channel_eq, after_eq⟩ := Prod.mk.inj performed
  obtain rfl : service.store.channels.size = channel := Option.some.inj channel_eq
  rw [← after_eq] at store_eq
  have pristine := hosts.arises.keepsSecrets _ (Nat.le_refl service.store.channels.size)
  have bystands : ∀ other task, other ≠ number →
      (service.shift (.make (.step number))).tasks other = some task →
        task.thread.Bystands service.store.channels.size
          (service.shift (.make (.step number))).store := by
    intro other task ne present
    rw [passes.others other ne] at present
    exact (pristine.bystands other task present).mono passes.keeps
  refine ⟨.opening number sources, ⟨hostsThen, ?_, rfl, fun merged => ?_⟩, rfl, rfl⟩
  · exact
      { held := by simp [store_eq, Store.newChannel]
        started := by rw [store_eq]; exact started
        queues := by rw [store_eq]; exact pristine.queues
        launched := by
          rw [store_eq]
          exact List.Perm.of_eq pristine.launched
        books := by
          have channel_eq : (service.shift (.make (.step number))).store.channel
              service.store.channels.size = { capacity := bound } := by
            simp [store_eq, Store.channel, Store.newChannel]
          rw [channel_eq]
          exact .opening number sources bound
        facts :=
          { cells := .here sources
            backed := fun _ mem => by cases mem
            exhausted := fun isOver => by cases isOver }
        roles := fun other task present notFounder => by
          obtain ⟨⟨code, stands, avoids⟩, -⟩ :=
            bystands other task (fun same => notFounder (congrArg some same.symm)) present
          exact ⟨code, stands, .bystander avoids⟩
        apart := fun other task present notFounder _ =>
          (bystands other task (fun same => notFounder (congrArg some same.symm)) present).2
        readers := fun thunk found => by
          rw [store_eq] at found
          exact absurd found (pristine.unread thunk)
        founding := fun _ => ⟨rfl, rfl⟩
        founded := fun founded => by cases founded
        trail := fun made => absurd rfl made
        lastCell := trivial }
  · refine Thread.Bystands.mono ?_ passes.keeps
    exact (pristine.bystands number _ hosts.present).of_context fun avoids =>
      Founder.following_avoids avoids merged

/-- The walker is launched. -/
theorem launch
    (founding : Founding digest number context following plan ledger
      (Founder.launch plan.scheduler plan.channel
        ⟨daemonNumber, .walk plan.sources plan.channel⟩) service)
    (unborn : ledger.walk = .unborn)
    (cursor_eq : ledger.cursor = plan.sources)
    (performed : (Action.launch plan.scheduler
      ⟨daemonNumber, .walk plan.sources plan.channel⟩).perform service.store = (some (), after)) :
    ∃ later, Founding digest number context following plan later
      (Founder.count plan.scheduler plan.channel) (service.shift (.make (.step number))) := by
  obtain ⟨hosts, store_eq, passes⟩ := founding.hosts.act performed
  have valid := founding.valid
  have after_eq : { service.store with
      launched := service.store.launched ++
        [(plan.scheduler, ⟨daemonNumber, .walk plan.sources plan.channel⟩)] } = after :=
    congrArg Prod.snd performed
  rw [← after_eq] at store_eq
  have launched : ((service.shift (.make (.step number))).store.launchedOn plan.channel).Perm
      (Ledger.waiting plan { ledger with walk := .launched daemonNumber }) := by
    have appended : (service.shift (.make (.step number))).store.launchedOn plan.channel =
        service.store.launchedOn plan.channel ++
          [(plan.scheduler, ⟨daemonNumber, .walk plan.sources plan.channel⟩)] := by
      simp [store_eq, Store.launchedOn, Duty.channel?]
    have waiting_eq : Ledger.waiting plan { ledger with walk := .launched daemonNumber } =
        (plan.scheduler, ⟨daemonNumber, .walk plan.sources plan.channel⟩) ::
          ledger.waiting plan := by
      simp [Ledger.waiting, Ledger.launchedWalk?, unborn, cursor_eq]
    rw [appended, waiting_eq]
    exact (List.perm_append_singleton _ _).trans (valid.launched.cons _)
  have books : Ledger.Books { ledger with walk := .launched daemonNumber }
      ((service.shift (.make (.step number))).store.channel plan.channel) := by
    rw [store_eq]
    exact valid.books.setWalk (by rw [unborn]; rfl)
  have facts : Ledger.Facts plan { ledger with walk := .launched daemonNumber }
      (service.shift (.make (.step number))).store :=
    (valid.facts.mono passes.keeps).setWalk (by simp [unborn, Walk.isOver])
      fun isOver => by cases isOver
  refine ⟨{ ledger with walk := .launched daemonNumber }, hosts, ?_, founding.founder_eq,
    fun merged => (founding.bystands merged).mono passes.keeps⟩
  exact valid.update _ _ _ _ passes (store_eq ▸ service.store.upholds_launched _) launched books
    facts (.setWalk (by simp [unborn, Walk.task?]) fun _ _ found => found) (fun holds => absurd
    holds founding.notHolder) fun _ _ notFounder => absurd founding.founder_eq notFounder

/-- The first cell of the merged list is made. -/
theorem finish
    (founding : Founding digest number context following plan ledger
      (Founder.suspend plan.channel) service)
    (performed : (Action.suspend (.receive plan.channel)).perform service.store =
      (some merged, after)) :
    ∃ later : Ledger, later.Valid plan (service.shift (.make (.step number))) ∧
      later.first = merged ∧ later.founder = none := by
  obtain ⟨hosts, store_eq, passes⟩ := founding.hosts.act performed
  obtain ⟨merged_eq, after_eq⟩ := Prod.mk.inj performed
  have valid := founding.valid
  obtain ⟨unmade, empty⟩ := valid.founding (by simp [founding.founder_eq])
  rw [← after_eq] at store_eq
  obtain ⟨⟨code, stands, avoids⟩, apart⟩ := (founding.bystands merged).mono passes.keeps
  have wasOpen : ledger.token.isOpen = true := by rw [unmade]; rfl
  have persists : service.store.Persists plan.channel
      (service.shift (.make (.step number))).store := by
    rw [store_eq]
    exact service.store.persists_slots _ _
  have readsOn : ledger.tape.ReadsOn { ledger.tape with last := merged, token := .idle }
      plan.channel ledger.publishers merged service number
      (context.thread (following (.ok merged))) (service.shift (.make (.step number))) :=
    { passes, persists, wasOpen
      present := hosts.present
      launched_eq := by rw [store_eq]; rfl
      holder := by simp [Ledger.tape, unmade, Handoff.Token.holder?]
      log_eq := rfl
      dropped_eq := rfl
      made := by simp
      apart := fun _ => apart
      kept :=
        { held := Nat.lt_of_lt_of_le valid.held persists.size_le
          books := by
            rw [store_eq]
            refine valid.books.tape.pass wasOpen rfl rfl ?_
            simp [Ledger.tape, unmade, Handoff.Token.pending]
          readers := fun thunk found => by
            rw [store_eq] at found
            rcases service.store.eq_or_of_slot?_allocate found with isCell | formerly
            · exact ⟨rfl, isCell.trans (Option.some.inj merged_eq)⟩
            · have isIdle := (valid.readers thunk formerly).1
              rw [unmade] at isIdle
              cases isIdle
          trail := fun _ => by
            change Service.Trail _ merged ledger.items merged
            rw [empty]
            exact .here merged
          lastCell := by
            change (service.shift (.make (.step number))).store.slot? merged = _
            rw [store_eq, ← Option.some.inj merged_eq]
            exact service.store.slot?_allocated _ } }
  refine ⟨_, valid.renew readsOn (fun other ne isFounder => ?_)
    ⟨code, stands, .bystander avoids⟩, rfl, rfl⟩
  rw [founding.founder_eq] at isFounder
  exact ne (Option.some.inj isFounder).symm

end Founding

/-- The rally is founded, and its merged list begins with a cell. -/
def Founded (plan : Plan) (merged : Thunk) (service : Service) : Prop :=
  ∃ ledger : Ledger, ledger.first = merged ∧ ledger.founder = none ∧ ledger.Valid plan service

theorem Founded.shifts (founded : Founded plan merged service)
    (arises : service.Arises digest) (shifts : List Shift) :
    Founded plan merged (service.shifts shifts) := by
  obtain ⟨ledger, first_eq, founded, valid⟩ := founded
  obtain ⟨realm, soundIn⟩ := arises.exists_soundIn
  obtain ⟨later, same, foundedNow, validNow⟩ := valid.shifts soundIn founded shifts
  exact ⟨later, same.trans first_eq, foundedNow, validNow⟩

/-- The thread is founding the rally.  While it is early, the walker is yet to be launched. -/
def Begins (digest : List Piece → UInt64) (number : Nat) (context : Context request.Result α)
    (following : Except Error Thunk → Code α) (plan : Plan) (early : Bool)
    (code : Code (Except Error Thunk)) (service : Service) : Prop :=
  ∃ ledger, Founding digest number context following plan ledger code service ∧
    (early = true → ledger.walk = .unborn ∧ ledger.cursor = plan.sources)

theorem Begins.other (begins : Begins digest number context following plan early code service)
    (ne : shift ≠ .make (.step number)) :
    Begins digest number context following plan early code (service.shift shift) := by
  obtain ⟨ledger, founding, unborn⟩ := begins
  obtain ⟨later, founding, follows⟩ := founding.other ne
  refine ⟨later, founding, fun isEarly => ?_⟩
  obtain ⟨unborn, cursor_eq⟩ := unborn isEarly
  obtain ⟨stillUnborn, same⟩ := follows.unborn unborn
  exact ⟨stillUnborn, same.trans cursor_eq⟩

/-! ## The whole founding

From the last action back to the first, what is left of the founding leads to its end. -/

section Whole

variable {merged : Thunk} {shifts : List Shift} {early : Bool}

/-- Whoever is founding the rally, and carries out what is left of it, founds the rally. -/
def Leads (digest : List Piece → UInt64) (number : Nat) (context : Context request.Result α)
    (following : Except Error Thunk → Code α) (plan : Plan) (merged : Thunk) (early : Bool)
    (code : Code (Except Error Thunk)) : Prop :=
  ∀ service shifts, Begins digest number context following plan early code service →
    service.carryOut number code shifts = some (.ok merged) →
      Founded plan merged (service.shifts shifts)

/-- One action is performed, and what is left then leads to the end. -/
theorem Leads.act {action : Action} {next : action.Reply → Code (Except Error Thunk)}
    (prompt : ∀ store, (action.perform store).1 ≠ none)
    (acts : ∀ before reply after,
      Begins digest number context following plan early (.act action next) before →
      action.perform before.store = (some reply, after) →
        ∃ still,
          Begins digest number context following plan still (next reply)
            (before.shift (.make (.step number))) ∧
          Leads digest number context following plan merged still (next reply)) :
    Leads digest number context following plan merged early (.act action next) := by
  intro service shifts begins carried
  obtain ⟨before, reply, after, rest, begins, performed, carried, shifts_eq⟩ :=
    exists_performed carried prompt _ begins fun _ _ => Begins.other
  obtain ⟨still, begins, leads⟩ := acts before reply after begins performed
  rw [shifts_eq]
  exact leads _ rest begins carried

theorem leads_suspend : Leads digest number context following plan merged false
    (Founder.suspend plan.channel) := by
  intro service shifts begins carried
  obtain ⟨before, _, _, _, ⟨ledger, founding, -⟩, performed, carried, shifts_eq⟩ :=
    exists_performed carried (fun _ waits => by cases waits) _ begins fun _ _ => Begins.other
  rw [shifts_eq]
  cases eq_of_carryOut_done carried
  obtain ⟨ledger, valid, first_eq, founded⟩ := founding.finish performed
  exact Founded.shifts ⟨ledger, first_eq, founded, valid⟩ (founding.hosts.arises.shift _) _

theorem leads_count : Leads digest number context following plan merged false
    (Founder.count plan.scheduler plan.channel) := by
  refine .act (fun _ waits => by cases waits) fun before reply after begins performed => ?_
  obtain ⟨ledger, founding, -⟩ := begins
  have avoids : (Action.countStarted plan.scheduler).Avoids plan.channel := nofun
  have undisturbed := Action.undisturbed avoids (.inl founding.valid.held) performed
  exact ⟨false, ⟨ledger, founding.quiet performed undisturbed, nofun⟩, leads_suspend⟩

theorem leads_launch : Leads digest number context following plan merged true
    (Founder.launch plan.scheduler plan.channel
      ⟨daemonNumber, .walk plan.sources plan.channel⟩) := by
  refine .act (fun _ waits => by cases waits) fun before reply after begins performed => ?_
  obtain ⟨ledger, founding, unborn⟩ := begins
  obtain ⟨unborn, cursor_eq⟩ := unborn rfl
  obtain ⟨later, founding⟩ := founding.launch unborn cursor_eq performed
  exact ⟨false, ⟨later, founding, nofun⟩, leads_count⟩

theorem leads_submit : Leads digest number context following plan merged true
    (Founder.submit plan.scheduler plan.channel plan.sources) := by
  refine .act (fun _ waits => by cases waits) fun before urgent after begins performed => ?_
  obtain ⟨ledger, founding, unborn⟩ := begins
  obtain ⟨urgent_eq, after_eq⟩ := Prod.mk.inj performed
  obtain ⟨submitted, undisturbed⟩ := before.store.submit_of_isStarted founding.valid.started
    (.walk plan.sources plan.channel)
  obtain rfl := (Option.some.inj urgent_eq).symm.trans submitted
  exact ⟨true, ⟨ledger, founding.quiet performed (after_eq ▸ undisturbed), unborn⟩, leads_launch⟩

variable {scheduler : Nat} {sources : Thunk}

/-- The thread is about to found a rally on a scheduler that is started. -/
def Prepares (digest : List Piece → UInt64) (number : Nat) (context : Context request.Result α)
    (following : Except Error Thunk → Code α) (scheduler : Nat) (code : Code (Except Error Thunk))
    (service : Service) : Prop :=
  service.Hosts digest number context (code.bind following) ∧
    (service.store.scheduler scheduler).isStarted = true

theorem Prepares.other (prepares : Prepares digest number context following scheduler code service)
    (ne : shift ≠ .make (.step number)) :
    Prepares digest number context following scheduler code (service.shift shift) :=
  ⟨prepares.1.other ne, prepares.1.arises.isStarted_shift prepares.2 shift⟩

/-- However others take turns meanwhile, a rally that is begun is founded. -/
theorem exists_founded
    (hosts : service.Hosts digest number context ((rally scheduler sources).run.bind following))
    (carried : service.carryOut number (rally scheduler sources).run shifts = some (.ok merged)) :
    ∃ channel, Founded ⟨scheduler, channel, sources⟩ merged (service.shifts shifts) := by
  rw [Founder.code_eq] at hosts carried
  obtain ⟨asking, started, _, _, hosts, performed, carried, shifts_eq⟩ :=
    exists_performed carried (fun _ waits => by cases waits) _ hosts
      fun _ _ => Service.Hosts.other
  rw [shifts_eq]
  obtain ⟨hosts, store_eq, -⟩ := hosts.act performed
  obtain ⟨isStarted, same⟩ := Prod.mk.inj performed
  rw [← same] at store_eq
  cases started with
  | false => cases eq_of_carryOut_done carried
  | true =>
    have prepares : Prepares digest number context following scheduler
        (Founder.askCapacity scheduler sources) (asking.shift (.make (.step number))) :=
      ⟨hosts, by rw [store_eq]; exact Option.some.inj isStarted⟩
    obtain ⟨before, bound, _, _, ⟨hosts, isStarted⟩, performed, carried, shifts_eq⟩ :=
      exists_performed carried (fun _ waits => by cases waits) _ prepares
        fun _ _ => Prepares.other
    obtain ⟨hostsThen, -⟩ := hosts.act performed
    rw [shifts_eq]
    obtain ⟨before, channel, _, _, ⟨hosts, isStarted⟩, performed, carried, shifts_eq⟩ :=
      exists_performed carried (fun _ waits => by cases waits)
        (Prepares digest number context following scheduler
          (Founder.makeChannel scheduler sources bound))
        ⟨hostsThen, hosts.arises.isStarted_shift isStarted _⟩ fun _ _ => Prepares.other
    obtain ⟨ledger, founding, unborn⟩ := Founding.found hosts isStarted performed
    rw [shifts_eq]
    exact ⟨channel, leads_submit _ _ ⟨ledger, founding, fun _ => unborn⟩ carried⟩

end Whole
end Rally
end ByNeed
