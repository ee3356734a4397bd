import ByNeed.Proofs.Rally.Crew
import ByNeed.Proofs.Handoff.Readers

/-!
# The accounts of a rally

The ledger of a rally is valid if the whole company is as it says: the channel, the launched
daemons, the threads at work for the rally, the cells of the merged list, and what others leave
alone.
-/

namespace ByNeed

namespace Rally

open Handoff (Token Tape LastCell)

/-- A rally: its scheduler, its channel, and the list of its sources. -/
structure Plan where
  scheduler : Nat
  channel : Nat
  sources : Thunk

/-- The number of the thread that a worker runs under. -/
def Post.task? : Post → Option Nat
  | .working task | .spoken task => some task
  | _ => none

/-- The number of the thread that the walker runs under. -/
def Walk.task? : Walk → Option Nat
  | .walking task | .meeting task _ _ | .leaving task => some task
  | _ => none

/-- The entry of a worker among the daemons that are launched. -/
def Hand.launched? (channel : Nat) (hand : Hand) : Option (Nat × Daemon) :=
  match hand.post with
  | .launched scheduler number backlog =>
    some (scheduler, ⟨number, .source hand.source channel backlog⟩)
  | _ => none

namespace Ledger

variable {plan : Plan} {ledger later : Ledger} {service next : Service} {store after : Store}
variable {number taken : Nat} {last first : Thunk} {token : Token} {items : List Thunk}
variable {founder : Option Nat}
variable {request : Request} {code : Code request.Result} {other : Nat} {task : Task}
variable {hands : List Hand} {log : List Entry}

/-- The entry of the walker among the daemons that are launched. -/
def launchedWalk? (plan : Plan) (ledger : Ledger) : Option (Nat × Daemon) :=
  match ledger.walk with
  | .launched number => some (plan.scheduler, ⟨number, .walk ledger.cursor plan.channel⟩)
  | _ => none

/-- The daemons that are launched for the rally. -/
def waiting (plan : Plan) (ledger : Ledger) : List (Nat × Daemon) :=
  (ledger.launchedWalk? plan).toList ++ ledger.hands.filterMap (Hand.launched? plan.channel)

/-- The sources that were met. -/
def sources (ledger : Ledger) : List Thunk :=
  ledger.hands.map Hand.source

/-- A message says what is so. -/
def Backed (ledger : Ledger) (store : Store) : Entry → Prop
  | .listed position source =>
    ledger.sources[position]? = some source ∧
      ∃ value, store.slot? source = some (.evaluated value) ∧
        ∀ error, value.purely ≠ .error error
  | .failed position error =>
    ∃ source value, ledger.sources[position]? = some source ∧
      store.slot? source = some (.evaluated value) ∧ value.purely = .error error
  | .broken error =>
    ledger.walk.isOver = true ∧
      ∃ value, store.slot? ledger.cursor = some (.evaluated value) ∧
        value.purely.toList = .error error

/-- What the ledger says of the sources. -/
structure Facts (plan : Plan) (ledger : Ledger) (store : Store) : Prop where
  cells : store.Cells plan.sources ledger.sources ledger.cursor
  backed : ∀ entry ∈ ledger.log, ledger.Backed store entry
  exhausted : ledger.walk.isOver = true → ledger.token.isFailed = false →
    store.slot? ledger.cursor = some (.evaluated (.list .empty)) ∨
      ∃ error, .broken error ∈ ledger.log

/-- What the own code of the thread under a number has to do with the rally. -/
inductive Role (plan : Plan) (ledger : Ledger) (store : Store) (number : Nat) :
    (request : Request) → Code request.Result → Prop
  | bystander {request : Request} {code : Code request.Result}
      (avoids : code.Avoids plan.channel) :
      Role plan ledger store number request code
  | walking {scheduler : Nat} {daemon : Daemon} {code : Code Unit}
      (walk_eq : ledger.walk = .walking number)
      (ahead : Walker.Ahead plan.scheduler plan.channel store ledger.hands ledger.cursor code) :
      Role plan ledger store number (.serve scheduler daemon) code
  | meeting {scheduler : Nat} {daemon : Daemon} {source rest : Thunk} (backlog bound : Nat)
      (walk_eq : ledger.walk = .meeting number source rest)
      (evaluated : store.slot? ledger.cursor =
        some (.evaluated (.list (.cons source rest)))) :
      Role plan ledger store number (.serve scheduler daemon)
        (Walker.submit plan.scheduler plan.channel backlog bound source rest)
  | leaving {scheduler : Nat} {daemon : Daemon}
      (walk_eq : ledger.walk = .leaving number) :
      Role plan ledger store number (.serve scheduler daemon)
        (release plan.scheduler plan.channel)
  | working {scheduler position : Nat} {daemon : Daemon} {code : Code Unit} {source : Thunk}
      (hired : ledger.hands[position]? = some ⟨source, .working number⟩)
      (silent : Worker.Silent plan.channel source store code) :
      Role plan ledger store number (.serve scheduler daemon) code
  | spoken {scheduler position : Nat} {daemon : Daemon} {code : Code Unit} {source : Thunk}
      (hired : ledger.hands[position]? = some ⟨source, .spoken number⟩)
      (spoken : Worker.Spoken plan.channel code) :
      Role plan ledger store number (.serve scheduler daemon) code

/-- Another ledger says the same of everybody but the thread under a number. -/
structure Spares (number : Nat) (ledger later : Ledger) : Prop where
  walk : ∀ task, task ≠ number → ledger.walk.task? = some task →
    later.walk = ledger.walk ∧ later.cursor = ledger.cursor ∧
      ∀ (position : Nat) (source : Thunk), ledger.hands[position]? = some ⟨source, .unborn⟩ →
        later.hands[position]? = some ⟨source, .unborn⟩
  hands : ∀ (position task : Nat) (hand : Hand), task ≠ number →
    ledger.hands[position]? = some hand → hand.post.task? = some task →
      later.hands[position]? = some hand

/-- What the ledger says of the merged list has nothing to do with the crew. -/
theorem Spares.same :
    Spares number ledger { ledger with founder, taken, first, items, last, token } where
  walk _ _ _ := ⟨rfl, rfl, fun _ _ hired => hired⟩
  hands _ _ _ _ found _ := found

section

variable (role : ledger.Role plan store number request code) (keeps : store.Remembers after)

include role keeps

/-- The role of a thread does not change by what others do. -/
theorem Role.mono (spares : Spares other ledger later)
    (ne : number ≠ other) : later.Role plan after number request code := by
  cases role with
  | bystander avoids => exact .bystander avoids
  | walking walk_eq ahead =>
    obtain ⟨same, cursor_eq, hired⟩ :=
      spares.walk number ne (congrArg Walk.task? walk_eq)
    refine .walking (same.trans walk_eq) ?_
    rw [cursor_eq]
    exact ahead.mono keeps hired
  | meeting backlog bound walk_eq evaluated =>
    obtain ⟨same, cursor_eq, -⟩ := spares.walk number ne (congrArg Walk.task? walk_eq)
    refine .meeting backlog bound (same.trans walk_eq) ?_
    rw [cursor_eq]
    exact keeps _ _ evaluated
  | leaving walk_eq =>
    obtain ⟨same, -⟩ := spares.walk number ne (congrArg Walk.task? walk_eq)
    exact .leaving (same.trans walk_eq)
  | working hired silent =>
    exact .working (spares.hands _ number _ ne hired rfl) (silent.mono keeps)
  | spoken hired spoken =>
    exact .spoken (spares.hands _ number _ ne hired rfl) spoken

theorem Role.keep :
    Role plan { ledger with founder, taken, first, items, last, token } after number request code :=
  role.mono keeps .same (Nat.ne_of_lt number.lt_succ_self)

end

/-- The own code of a task has its role. -/
def Employs (plan : Plan) (ledger : Ledger) (store : Store) (number : Nat) (task : Task) : Prop :=
  ∃ code, task.thread.Stands store code ∧ ledger.Role plan store number task.request code

section

variable (employs : ledger.Employs plan store number task) (keeps : store.Remembers after)

include employs keeps

theorem Employs.mono (spares : Spares other ledger later)
    (ne : number ≠ other) : later.Employs plan after number task := by
  obtain ⟨code, stands, role⟩ := employs
  exact ⟨code, stands.mono keeps, role.mono keeps spares ne⟩

theorem Employs.keep :
    Employs plan { ledger with founder, taken, first, items, last, token } after number task :=
  employs.mono keeps .same (Nat.ne_of_lt number.lt_succ_self)

end

/-- Everything is as the ledger says. -/
structure Valid (plan : Plan) (ledger : Ledger) (service : Service) : Prop where
  held : plan.channel < service.store.channels.size
  started : (service.store.scheduler plan.scheduler).isStarted = true
  queues : service.store.QueuesAvoid plan.channel
  launched : (service.store.launchedOn plan.channel).Perm (ledger.waiting plan)
  books : ledger.Books (service.store.channel plan.channel)
  facts : ledger.Facts plan service.store
  roles : ∀ number task, service.tasks number = some task → ledger.founder ≠ some number →
    ledger.Employs plan service.store number task
  apart : ∀ number task, service.tasks number = some task → ledger.founder ≠ some number →
    ledger.token.holder? ≠ some number → task.thread.Apart plan.channel
  readers : ∀ thunk, service.store.slot? thunk = some (.suspended (.receive plan.channel)) →
    ledger.token = .idle ∧ thunk = ledger.last
  founding : ledger.founder ≠ none → ledger.token = .unmade ∧ ledger.items = []
  founded : ledger.founder = none → ledger.token ≠ .unmade
  trail : ledger.token ≠ .unmade → service.Trail ledger.first ledger.items ledger.last
  lastCell : LastCell plan.channel ledger.last service ledger.token

theorem Facts.mono (facts : ledger.Facts plan store) (keeps : store.Remembers after) :
    ledger.Facts plan after where
  cells := facts.cells.mono keeps
  backed entry mem := by
    have backed := facts.backed entry mem
    cases entry with
    | listed position source =>
      obtain ⟨found, value, evaluated, noError⟩ := backed
      exact ⟨found, value, keeps _ _ evaluated, noError⟩
    | failed position error =>
      obtain ⟨source, value, found, evaluated, isError⟩ := backed
      exact ⟨source, value, found, keeps _ _ evaluated, isError⟩
    | broken error =>
      obtain ⟨isOver, value, evaluated, isError⟩ := backed
      exact ⟨isOver, value, keeps _ _ evaluated, isError⟩
  exhausted isOver notFailed := (facts.exhausted isOver notFailed).imp_left (keeps _ _)

theorem Valid.kept (valid : ledger.Valid plan service) :
    ledger.tape.Kept plan.channel ledger.publishers ledger.first service where
  held := valid.held
  books := valid.books.tape
  readers := valid.readers
  trail := valid.trail
  lastCell := valid.lastCell

/-- The ledger stays valid if it is brought up to date for the thread that took a step, and
nothing else changes. -/
theorem Valid.update (valid : ledger.Valid plan service) (walk : Walk) (cursor : Thunk)
    (hands : List Hand) (log : List Entry) (passes : service.Passes number next)
    (upholds : service.store.Upholds plan.channel next.store)
    (launched : (next.store.launchedOn plan.channel).Perm
      (waiting plan { ledger with walk, cursor, hands, log }))
    (books : Books { ledger with walk, cursor, hands, log } (next.store.channel plan.channel))
    (facts : Facts plan { ledger with walk, cursor, hands, log } next.store)
    (spares : Spares number ledger { ledger with walk, cursor, hands, log })
    (holder : ledger.token.holder? = some number → next.tasks number = service.tasks number)
    (employs : ∀ task, next.tasks number = some task → ledger.founder ≠ some number →
      Employs plan { ledger with walk, cursor, hands, log } next.store number task ∧
        (ledger.token.holder? ≠ some number → task.thread.Apart plan.channel)) :
    Valid plan { ledger with walk, cursor, hands, log } next where
  held := Nat.lt_of_lt_of_le valid.held upholds.size_le
  started := upholds.started _ valid.started
  queues := upholds.queues valid.queues
  launched := launched
  books := books
  facts := facts
  roles other task present notFounder := by
    by_cases same : other = number
    · subst same
      exact (employs task present notFounder).1
    · rw [passes.others other same] at present
      exact (valid.roles other task present notFounder).mono passes.keeps spares same
  apart other task present notFounder notHolder := by
    by_cases same : other = number
    · subst same
      exact (employs task present notFounder).2 notHolder
    · rw [passes.others other same] at present
      exact valid.apart other task present notFounder notHolder
  readers thunk found := valid.readers thunk ((upholds.readers thunk).mp found)
  founding := valid.founding
  founded := valid.founded
  trail made := (valid.trail made).mono passes.delivers
  lastCell := valid.lastCell.keep passes holder upholds.readers

/-- Nothing is done to the channel. -/
theorem Valid.quiet (valid : ledger.Valid plan service) (passes : service.Passes number next)
    (undisturbed : service.store.Undisturbed plan.channel next.store)
    (holder : ledger.token.holder? = some number → next.tasks number = service.tasks number)
    (employs : ∀ task, next.tasks number = some task → ledger.founder ≠ some number →
      ledger.Employs plan next.store number task ∧
        (ledger.token.holder? ≠ some number → task.thread.Apart plan.channel)) :
    ledger.Valid plan next :=
  valid.update ledger.walk ledger.cursor ledger.hands ledger.log passes undisturbed.toUpholds
    (by rw [undisturbed.launched_eq]; exact valid.launched)
    (by rw [undisturbed.channel_eq]; exact valid.books)
    (valid.facts.mono passes.keeps) .same holder employs

/-- A later ledger of the same rally. -/
structure Follows (ledger later : Ledger) : Prop where
  first_eq : later.first = ledger.first
  founder_eq : later.founder = ledger.founder
  unborn : ledger.walk = .unborn → later.walk = .unborn ∧ later.cursor = ledger.cursor

/-- The walker stays where it is. -/
theorem Follows.stay : Follows ledger { ledger with hands, log, taken, items, last, token } where
  first_eq := rfl
  founder_eq := rfl
  unborn unborn := ⟨unborn, rfl⟩

/-- The walker goes on. -/
theorem Follows.stride {walk : Walk} {cursor : Thunk} (born : ledger.walk ≠ .unborn) :
    Follows ledger { ledger with walk, cursor, hands, log } where
  first_eq := rfl
  founder_eq := rfl
  unborn unborn := absurd unborn born

/-- The ledger can be brought up to date. -/
def Continues (plan : Plan) (ledger : Ledger) (next : Service) : Prop :=
  ∃ later : Ledger, later.Valid plan next ∧ ledger.Follows later

end Ledger
end Rally
end ByNeed
