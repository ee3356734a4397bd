import ByNeed.Proofs.Machine.Interleaving
import ByNeed.Proofs.Machine.Questions

/-!
# The own code of a thread

While a thread evaluates, its own code has asked for a thunk and goes on with the value that is
published for it.  So own code takes three kinds of steps, `Code.Advances`, and other steps leave it
where it is.
-/

namespace ByNeed

open Store

variable {ρ : Type}
variable {store : Store} {thunk : Thunk} {thread : Thread ρ} {asked : Asked}

/-- The chain at the bottom of a stack that serves a chain, and how the own code goes on
with its value. -/
def Stack.bottom (chain : List Link) : Stack ρ → List Link × (Value → Code ρ)
  | .base next => (chain, next)
  | .nested _ outer rest => rest.bottom outer

/-- One step of the own code of a thread, from one store to the next. -/
inductive Code.Advances : Code ρ → Store → Code ρ → Store → Prop
  | act {action : Action} {next : action.Reply → Code ρ} {store after : Store}
      {reply : action.Reply}
      (performed : action.perform store = (some reply, after)) :
      Advances (.act action next) store (next reply) after
  | call {routine : Routine} {next : routine.Reply → Code ρ} {store : Store} :
      Advances (.call routine next) store (routine.body.bind next) store
  | answer {thunk : Thunk} {next : Value → Code ρ} {store : Store} {value : Value}
      (evaluated : store.slot thunk = .evaluated value) :
      Advances (.evaluate thunk next) store (next value) store

namespace Thread

variable {thunk : Thunk} {answered : Value → Thread ρ} {chain : List Link} {stack : Stack ρ}
variable {following : Value → Code ρ}

/-- The chain that serves the own code of a thread, while it waits for a value. -/
def bottom? : Thread ρ → Option (List Link × (Value → Code ρ))
  | .running _ => none
  | .driving _ chain stack => some (stack.bottom chain)
  | .settling _ chain stack => some (stack.bottom chain)

/-- Where the own code of a thread stands.  While a value is sought for it, it stands at the
question. -/
inductive Stands (store : Store) : Thread ρ → Code ρ → Prop
  | own (code : Code ρ) : Stands store (.running code) code
  | seeking {thread : Thread ρ} {thunk : Thunk} {next : Value → Code ρ} {chain : List Link}
      (bottom_eq : thread.bottom? = some (chain, next))
      (first : (chainThunks chain).getLast? = some thunk) :
      Stands store thread (.evaluate thunk next)
  | found {thunk : Thunk} {value : Value} {next : Value → Code ρ}
      (evaluated : store.slot? thunk = some (.evaluated value)) :
      Stands store (.settling value [] (.base next)) (.evaluate thunk next)

namespace Stands

variable {self : Nat} {thread next : Thread ρ} {store after : Store} {code rest : Code ρ}

/-- Where a thread stands does not change while evaluated thunks stay so. -/
theorem mono (stands : thread.Stands store code) (keeps : store.Remembers after) :
    thread.Stands after code := by
  cases stands with
  | own code => exact .own code
  | seeking bottom_eq first => exact .seeking bottom_eq first
  | found evaluated => exact .found (keeps _ _ evaluated)

theorem eq_of_running (stands : (running code).Stands store rest) : rest = code := by
  cases stands with
  | own code => rfl
  | seeking bottom_eq first => cases bottom_eq

end Stands

/-! ## Steps -/

theorem Asks.bottom?_answered (asks : thread.Asks thunk answered chain stack)
    (bottom_eq : thread.bottom? = some bottom) (value : Value) :
    (answered value).bottom? = some bottom := by
  cases asks with
  | follow thunk chain stack => exact bottom_eq
  | evaluate context thunk next =>
    cases context with
    | top => cases bottom_eq
    | link chain stack => exact bottom_eq

theorem Asks.exists_bottom_claimed (asks : thread.Asks thunk answered chain stack)
    (bottom_eq : thread.bottom? = some (bottom, following))
    (first : (chainThunks bottom).getLast? = some sought) (link : Link) :
    ∃ extended, stack.bottom (link :: chain) = (extended, following) ∧
      (chainThunks extended).getLast? = some sought := by
  cases asks with
  | evaluate context thunk next =>
    cases context with
    | top => cases bottom_eq
    | link chain stack => exact ⟨bottom, Option.some.inj bottom_eq, first⟩
  | follow thunk chain stack =>
    cases stack with
    | nested next outer rest => exact ⟨bottom, Option.some.inj bottom_eq, first⟩
    | base next =>
      cases bottom_eq
      refine ⟨link :: chain, rfl, ?_⟩
      rw [chainThunks_cons, List.getLast?_cons, first, Option.getD_some]

variable {self : Nat} {thread next : Thread ρ} {store after : Store}
variable {code : Code ρ}

/-- Own code takes a step, or it asks for a thunk and its computation begins. -/
theorem moves_running (owns : (running code).Owns self store)
    (moved : (running code).step self store = (.moved next, after)) :
    (∃ rest, next = .running rest ∧ code.Advances store rest after) ∨
      ∃ thunk following computation, code = .evaluate thunk following ∧
        store.slot? thunk = some (.suspended computation) ∧
        next = .driving computation.resume [⟨thunk, computation.site⟩] (.base following) ∧
        after = store.setSlot thunk (.evaluating self) := by
  cases code with
  | act action following =>
    simp only [step] at moved
    split at moved
    · rename_i performed
      cases moved
      exact .inl ⟨_, rfl, .act performed⟩
    · cases moved
  | call routine following =>
    cases moved
    exact .inl ⟨_, rfl, .call⟩
  | evaluate thunk following =>
    simp only [step, Stack.evaluate] at moved
    cases held : store.slot thunk with
    | evaluated value =>
      rw [claim_of_evaluated held] at moved
      cases moved
      exact .inl ⟨_, rfl, .answer held⟩
    | suspended computation =>
      rw [claim_of_suspended held] at moved
      cases moved
      exact .inr ⟨_, _, _, rfl, slot?_of_suspended held, rfl, rfl⟩
    | evaluating owner =>
      -- The thread has claimed nothing, so it depends on nothing of its own.
      by_cases same : owner = self
      · subst same
        cases (owns.mem_iff thunk).mpr (slot?_of_evaluating held)
      · rw [claim_of_evaluating_other held same] at moved
        cases moved
  | _ => cases moved

/-- While a value is sought, the chain at the bottom stays, or is settled to the end. -/
theorem stands_of_seeking (bottom_eq : thread.bottom? = some (bottom, following))
    (first : (chainThunks bottom).getLast? = some thunk) (owns : thread.Owns self store)
    (moved : thread.step self store = (.moved next, after)) :
    next.Stands after (.evaluate thunk following) := by
  cases steps_of_step moved with
  | act context | call context =>
    cases context with
    | top => cases bottom_eq
    | link chain stack => exact .seeking bottom_eq first
  | answer asks | cycle asks => exact .seeking (asks.bottom?_answered bottom_eq _) first
  | claim asks =>
    obtain ⟨extended, extended_eq, firstThen⟩ :=
      asks.exists_bottom_claimed bottom_eq first _
    exact .seeking (congrArg some extended_eq) firstThen
  | breakOff => exact .seeking bottom_eq first
  | settled value stack =>
    cases stack with
    | base continuation =>
      cases bottom_eq
      cases first
    | nested continuation chain rest => exact .seeking bottom_eq first
  | publish value link chain stack =>
    cases stack with
    | nested continuation outer rest => exact .seeking bottom_eq first
    | base continuation =>
      cases bottom_eq
      cases chain with
      | nil =>
        cases first
        refine .found ?_
        exact slot?_setSlot_self (owns.slot?_head rfl) _
      | cons second chain =>
        rw [chainThunks_cons, chainThunks_cons, List.getLast?_cons_cons] at first
        exact .seeking rfl first

end Thread

/-! ## Where code comes from -/

variable {α : Type} {told later : Thunk → Value → Prop} {rest : Code α}
variable {sought : Thunk} {value : Value} {chain : List Link}

/-- Code goes on as other code, having got answers of a kind. -/
def Code.Arrives (told : Thunk → Value → Prop) (code rest : Code α) : Prop :=
  ∃ asked, code.After asked rest ∧ ∀ question ∈ asked, told question.1 question.2

namespace Code.Arrives

variable {code : Code α}

theorem start (code : Code α) : code.Arrives told code :=
  ⟨[], .start code, fun _ mem => by cases mem⟩

theorem mono (arrives : code.Arrives told rest)
    (keeps : ∀ thunk value, told thunk value → later thunk value) : code.Arrives later rest := by
  obtain ⟨asked, reached, tells⟩ := arrives
  exact ⟨asked, reached, fun question mem => keeps _ _ (tells question mem)⟩

theorem act (arrives : code.Arrives told (.act action onward)) (reply : action.Reply) :
    code.Arrives told (onward reply) := by
  obtain ⟨asked, reached, tells⟩ := arrives
  exact ⟨asked ++ [], reached.trans (.act reply (.start _)), by rwa [List.append_nil]⟩

theorem call (arrives : code.Arrives told (.call routine onward)) :
    code.Arrives told (routine.body.bind onward) := by
  obtain ⟨asked, reached, tells⟩ := arrives
  exact ⟨asked ++ [], reached.trans (.call (.start _)), by rwa [List.append_nil]⟩

theorem answer (arrives : code.Arrives told (.evaluate thunk onward))
    (answer : told thunk value) : code.Arrives told (onward value) := by
  obtain ⟨asked, reached, tells⟩ := arrives
  refine ⟨asked ++ [(thunk, value)], reached.trans (.evaluate value (.start _)), ?_⟩
  exact List.forall_mem_append.mpr ⟨tells, List.forall_mem_singleton.mpr answer⟩

end Code.Arrives

/-! ## Threads -/

/-- Code is that of the computation of the most recent link of a chain. -/
def Drives (told : Thunk → Value → Prop) (began : Thunk → Suspension → Prop)
    (chain : List Link) (code : Code Thunk) : Prop :=
  ∃ link computation, chain.head? = some link ∧ began link.thunk computation ∧
    computation.resume.Arrives told code

/-- What waits on a stack has asked for the thunk that is sought. -/
def Stack.Stems (told : Thunk → Value → Prop) (began : Thunk → Suspension → Prop)
    (own : Code ρ) : Stack ρ → Thunk → Prop
  | .base next, sought => own.Arrives told (.evaluate sought next)
  | .nested next chain rest, sought =>
    Drives told began chain (.evaluate sought next) ∧
      ∃ first, (chainThunks chain).getLast? = some first ∧ rest.Stems told began own first

/-- All that a thread runs is its own code and that of computations that began. -/
def Thread.Stems (told : Thunk → Value → Prop) (began : Thunk → Suspension → Prop)
    (own : Code ρ) : Thread ρ → Prop
  | .running code => own.Arrives told code
  | .driving code chain stack =>
    Drives told began chain code ∧
      ∃ first, (chainThunks chain).getLast? = some first ∧ stack.Stems told began own first
  | .settling value chain stack =>
    ∃ first, (chain = [] → told first value) ∧
      (chain ≠ [] → (chainThunks chain).getLast? = some first) ∧ stack.Stems told began own first

section Mono

variable {began begun : Thunk → Suspension → Prop} {own : Code ρ}
  (keeps : ∀ thunk value, told thunk value → later thunk value)
  (grown : ∀ thunk computation, began thunk computation → begun thunk computation)

include keeps grown

theorem Drives.mono (drives : Drives told began chain code) : Drives later begun chain code := by
  obtain ⟨link, computation, isHead, origin, arrives⟩ := drives
  exact ⟨link, computation, isHead, grown _ _ origin, arrives.mono keeps⟩

theorem Stack.Stems.mono {stack : Stack ρ} (stems : stack.Stems told began own sought) :
    stack.Stems later begun own sought := by
  induction stack generalizing sought with
  | base next => exact Code.Arrives.mono stems keeps
  | nested next chain rest ih =>
    obtain ⟨drives, first, isFirst, rest⟩ := stems
    exact ⟨drives.mono keeps grown, first, isFirst, ih rest⟩

theorem Thread.Stems.mono {thread : Thread ρ} (stems : thread.Stems told began own) :
    thread.Stems later begun own := by
  cases thread with
  | running code => exact Code.Arrives.mono stems keeps
  | driving code chain stack =>
    obtain ⟨drives, first, isFirst, rest⟩ := stems
    exact ⟨drives.mono keeps grown, first, isFirst, rest.mono keeps grown⟩
  | settling value chain stack =>
    obtain ⟨first, evaluated, isFirst, rest⟩ := stems
    exact ⟨first, fun empty => keeps _ _ (evaluated empty), isFirst, rest.mono keeps grown⟩

end Mono

namespace Thread.Stems

variable {began begun : Thunk → Suspension → Prop} {own : Code ρ} {thread next : Thread ρ}
  {self : Nat}
variable {stack : Stack ρ}

theorem of_context {context : Context ρ α} (stems : (context.thread code).Stems told began own)
    (continues : ∀ origin : Code α, origin.Arrives told code → origin.Arrives told rest) :
    (context.thread rest).Stems told began own := by
  cases context with
  | top => exact continues own stems
  | link chain stack =>
    obtain ⟨⟨link, computation, isHead, origin, arrives⟩, waits⟩ := stems
    exact ⟨⟨link, computation, isHead, origin, continues _ arrives⟩, waits⟩

theorem of_asks {answered : Value → Thread ρ}
    (stems : thread.Stems told began own) (asks : thread.Asks thunk answered chain stack) :
    (∀ value, told thunk value → (answered value).Stems told began own) ∧
      ∃ first, (thunk :: chainThunks chain).getLast? = some first ∧
        stack.Stems told began own first := by
  cases asks with
  | follow thunk chain stack =>
    obtain ⟨-, first, isFirst, waits⟩ := stems
    have nonempty : chain ≠ [] := by
      rintro rfl
      cases isFirst
    refine ⟨fun value _ => ⟨first, fun empty => absurd empty nonempty, fun _ => isFirst, waits⟩,
      first, ?_, waits⟩
    rw [List.getLast?_cons, isFirst, Option.getD_some]
  | evaluate context thunk next =>
    refine ⟨fun value answer => stems.of_context fun _ arrives => arrives.answer answer,
      thunk, rfl, ?_⟩
    cases context with
    | top | link => exact stems

theorem of_resume (stems : stack.Stems told began own sought)
    (answer : told sought value) : (stack.resume value).Stems told began own := by
  cases stack with
  | base next => exact Code.Arrives.answer stems answer
  | nested next chain rest =>
    obtain ⟨⟨link, computation, isHead, origin, arrives⟩, waits⟩ := stems
    exact ⟨⟨link, computation, isHead, origin, arrives.answer answer⟩, waits⟩

/-- A step of a thread runs on in the code it ran, or begins with that of a computation. -/
theorem of_moved (stems : thread.Stems (store.Tells excused) began own)
    (owns : thread.Owns self store)
    (tells : ∀ thunk value, thread.access? = some (.claim thunk) →
      store.slot thunk = .evaluated value → store.Tells excused thunk value)
    (cycles : ∀ thunk, excused thunk (.fault .selfDependence))
    (grown : ∀ thunk computation, began thunk computation → begun thunk computation)
    (begins : ∀ thunk computation, thread.access? = some (.claim thunk) →
      (store.claim self thunk).1 = .owned computation → begun thunk computation)
    (moved : thread.step self store = (.moved next, after)) :
    next.Stems (after.Tells excused) begun own := by
  have remembers : store.Remembers after := by
    intro thunk value held
    obtain ⟨slot, found, moves⟩ := owns.slot_moves (progress_of_moved moved) held
    cases moves
    exact found
  have keeps : ∀ thunk value, store.Tells excused thunk value → after.Tells excused thunk value :=
    fun _ _ tells => tells.mono remembers
  cases steps_of_step moved with
  | act context =>
    exact (stems.of_context fun _ arrives => arrives.act _).mono keeps grown
  | answer asks evaluated =>
    exact ((stems.of_asks asks).1 _ (tells _ _ asks.access?_eq evaluated)).mono keeps grown
  | cycle asks => exact ((stems.of_asks asks).1 _ (.inr (cycles _))).mono keeps grown
  | claim asks suspended =>
    obtain ⟨-, first, isFirst, waits⟩ := stems.of_asks asks
    have owned := Store.claim_of_suspended (Store.slot_eq_of_slot? suspended) self
    have origin := begins _ _ asks.access?_eq (congrArg Prod.fst owned)
    exact ⟨⟨_, _, rfl, origin, .start _⟩, first, isFirst, waits.mono keeps grown⟩
  | call context => exact (stems.of_context fun _ arrives => arrives.call).mono keeps grown
  | breakOff =>
    obtain ⟨-, first, isFirst, waits⟩ := stems
    refine ⟨first, fun empty => ?_, fun _ => isFirst, waits.mono keeps grown⟩
    subst empty
    cases isFirst
  | settled =>
    obtain ⟨first, answer, -, waits⟩ := stems
    exact (of_resume waits (answer rfl)).mono keeps grown
  | publish =>
    obtain ⟨first, -, isFirst, waits⟩ := stems
    refine ⟨first, fun empty => ?_, fun nonempty => ?_, waits.mono keeps grown⟩
    · subst empty
      cases isFirst (by simp)
      exact .inl (Store.slot?_setSlot_self (owns.slot?_head rfl) _)
    · obtain ⟨second, rest, rfl⟩ := List.exists_cons_of_ne_nil nonempty
      have last := isFirst (by simp)
      rwa [chainThunks_cons, chainThunks_cons, List.getLast?_cons_cons] at last

end Thread.Stems

/-! ## In company -/

/-- A turn begins no thread under a number. -/
def Turn.Spares (number : Nat) : Turn → Prop
  | .start other _ => other ≠ number
  | _ => True

namespace Pool

variable {pool : Pool} {number : Nat} {code rest : Code ρ}

/-- The answer of a thunk that nobody has made, or that depends on itself. -/
def Excused (_ : Thunk) (value : Value) : Prop :=
  value = .nil ∨ value = .fault .selfDependence

/-- The thread under a number, if it has not ended, has followed code so far. -/
def Follows (pool : Pool) (number : Nat) (code : Code ρ) : Prop :=
  pool.threads number = none ∨
    ∃ thread : Thread ρ, pool.threads number = some ⟨thread⟩ ∧
      thread.Stems (pool.store.Tells Excused) (fun _ _ => True) code

/-- A thread changes only in turns of its own. -/
theorem threads_turn_of_ne {turn : Turn} (spares : turn.Spares number)
    (other : ∀ stepping, turn = .step stepping → stepping ≠ number) :
    (pool.turn turn).threads number = pool.threads number := by
  cases turn with
  | step stepping =>
    have ne := (other stepping rfl).symm
    simp only [Pool.turn]
    split
    · rfl
    · unfold afterStep
      split
      · exact threads_setThread_of_ne _ ne _
      · rfl
      · exact threads_setThread_of_ne _ ne _
  | start beginning code =>
    simp only [Pool.turn]
    split
    · exact threads_setThread_of_ne _ (Ne.symm spares) _
    · rfl
  | change update keeps => rfl

section

variable (follows : pool.Follows number code)

include follows

theorem Follows.step (owned : pool.Owned) : (pool.turn (.step number)).Follows number code := by
  rcases follows with ended | ⟨thread, present, follows⟩
  · exact .inl (by simp [turn, ended])
  · have owns := owned.owns number ⟨thread⟩ present
    have keeps : ∀ thunk value, pool.store.slot? thunk = some (.evaluated value) →
        (pool.turn (.step number)).store.slot? thunk = some (.evaluated value) :=
      fun _ _ => owned.evaluated_run [.step number]
    have turn_eq : pool.turn (.step number) =
        pool.afterStep number (thread.step number pool.store) := by
      simp only [Pool.turn, present]
    rcases stepped : thread.step number pool.store with ⟨result, after⟩
    rw [stepped] at turn_eq
    rw [turn_eq] at keeps ⊢
    cases result with
    | moved next =>
      refine .inr ⟨next, threads_setThread_self _ number _, follows.of_moved owns ?_
        (fun _ => .inr rfl) (fun _ _ began => began) (fun _ _ _ _ => trivial) stepped⟩
      exact fun _ _ _ evaluated => (slot?_or_nil_of_evaluated evaluated).imp_right .inl
    | waiting => exact .inr ⟨thread, present, 
        follows.mono (fun _ _ tells => tells.mono keeps) fun _ _ began => began⟩
    | finished outcome => exact .inl (threads_setThread_self _ number none)

/-- Every turn in company leaves a thread following its code. -/
theorem Follows.turn (owned : pool.Owned) {turn : Turn}
    (spares : turn.Spares number) : (pool.turn turn).Follows number code := by
  by_cases own : turn = .step number
  · subst own
    exact follows.step owned
  · have same : (pool.turn turn).threads number = pool.threads number := by
      refine threads_turn_of_ne spares fun stepping isStep => ?_
      rintro rfl
      exact own isStep
    rcases follows with ended | ⟨thread, present, follows⟩
    · exact .inl (same.trans ended)
    · exact .inr ⟨thread, same.trans present,
        follows.mono (fun _ _ tells => tells.mono fun _ _ => owned.evaluated_run [turn])
          fun _ _ began => began⟩

/-- Every schedule leaves a thread following its code. -/
theorem Follows.run (owned : pool.Owned) {turns : List Turn}
    (spares : ∀ turn ∈ turns, turn.Spares number) : (pool.run turns).Follows number code := by
  induction turns generalizing pool with
  | nil => exact follows
  | cons first turns ih =>
    obtain ⟨firstSpares, restSpare⟩ := List.forall_mem_cons.mp spares
    exact ih (follows.turn owned firstSpares) (owned.turn first) restSpare

/-- A thread that is back at its own code has come there by the answers it was given. -/
theorem Follows.exists_after (present : pool.threads number = some ⟨.running rest⟩) :
    ∃ asked, code.After asked rest ∧
      ∀ question ∈ asked, pool.store.Tells Excused question.1 question.2 := by
  rcases follows with ended | ⟨thread, found, stems⟩
  · rw [ended] at present
    cases present
  · rw [found] at present
    cases present
    exact stems

end

end Pool
end ByNeed
