import ByNeed.Proofs.Machine.Effects

/-!
# Thunks that data mentions

Functions, arguments and suspended computations hold thunks, and lists and functions are values that
mention thunks directly; the entries of a dictionary and the payload of an effect are reached in
other ways.  A store mentions thunks in recursive groups, free names, unread messages and waiting
daemons.
-/

namespace ByNeed

open List

variable {thunk : Thunk} {scope : Scope}

/-- The thunks of the first cell of a list. -/
def LazyList.thunks : LazyList → List Thunk
  | .empty => []
  | .cons head tail => [head, tail]

/-- The thunks a call passes. -/
def Arguments.thunks (arguments : Arguments) : List Thunk :=
  arguments.positionals.map Positional.thunk ++ arguments.keywords.map Keyword.thunk

/-- The thunks in sight. -/
def Scope.thunks (scope : Scope) : List Thunk :=
  scope.map Prod.snd

/-- The thunks a default mentions. -/
def Default.thunks : Default → List Thunk
  | .fixed value => [value]
  | .computed scope _ => scope.thunks

/-- The thunks the defaults of a signature mention. -/
def Signature.thunks (signature : Signature) : List Thunk :=
  signature.optionals.flatMap fun optional => optional.default.thunks

/-- The thunks a body mentions. -/
def Body.thunks : Body → List Thunk
  | .lazyPrimitive _ => []
  | .strictPrimitive _ => []
  | .lazyExpr scope _ => scope.thunks
  | .strictExpr scope _ => scope.thunks

/-- The thunks a function mentions. -/
def Function.thunks : Function → List Thunk
  | .plain _ _ signature _ body => signature.thunks ++ body.thunks
  | .fixing _ target fixed => target.thunks ++ fixed.thunks

/-- The thunks a suspended computation mentions. -/
def Suspension.thunks : Suspension → List Thunk
  | .apply function arguments _ => function :: arguments.thunks
  | .append list tail => [list, tail]
  | .concatenate lists => [lists]
  | .invoke body _ bound => body.thunks ++ bound
  | .cell .. => []
  | .receive _ => []
  | .build scope _ => scope.thunks
  | .probe _ scope _ => scope.thunks
  | .dictionary entries => entries.map Prod.fst ++ entries.map Prod.snd
  | .forced thunk => [thunk]
  | .outline thunk => [thunk]
  | .breakOff _ => []

/-- The thunks a message carries. -/
def Message.thunks : Message → List Thunk
  | .item element => [element]
  | .failure _ => []

/-- The thunks a duty mentions. -/
def Duty.thunks : Duty → List Thunk
  | .feed elements _ _ => elements
  | .walk spine _ => [spine]
  | .source element _ _ => [element]
  | .tally _ => []

/-- The thunks an action hands over to the store or looks at. -/
def Action.thunks : Action → List Thunk
  | .look thunk => [thunk]
  | .define _ _ definition => [definition]
  | .send _ message => message.thunks
  | .submit _ duty => duty.thunks
  | .launch _ daemon => daemon.duty.thunks
  | _ => []

@[simp] theorem Scope.thunks_cons (binding : String × Thunk) (scope : Scope) :
    Scope.thunks (binding :: scope) = binding.2 :: scope.thunks := rfl

theorem Scope.mem_thunks_bindAll {names : List String} {bound : List Thunk}
    (mentioned : thunk ∈ (scope.bindAll names bound).thunks) :
    thunk ∈ scope.thunks ∨ thunk ∈ bound := by
  have pushed : ∀ (bindings : List (String × Thunk)) (scope : Scope),
      bindings.foldl (fun inner binding => binding :: inner) scope =
        bindings.reverse ++ scope := by
    intro bindings
    induction bindings with
    | nil => simp
    | cons binding rest ih => simp [ih]
  rw [Scope.bindAll, pushed] at mentioned
  simp only [Scope.thunks, map_append, mem_append, map_reverse,
    mem_reverse, List.mem_map] at mentioned ⊢
  rcases mentioned with ⟨binding, bindingMember, rfl⟩ | kept
  · exact .inr (of_mem_zip bindingMember).2
  · exact .inl kept

theorem Scope.mem_thunks_of_find? (found : scope.find? name = some thunk) :
    thunk ∈ scope.thunks := by
  induction scope with
  | nil => simp [Scope.find?] at found
  | cons binding rest ih =>
    obtain ⟨bound, value⟩ := binding
    simp only [Scope.find?, lookup_cons] at found
    split at found
    · cases found
      simp
    · exact mem_cons_of_mem _ (ih found)

theorem Arguments.mem_thunks_merge {first second : Arguments} :
    thunk ∈ (first.merge second).thunks ↔ thunk ∈ first.thunks ∨ thunk ∈ second.thunks := by
  simp only [Arguments.thunks, Arguments.positionals_merge, Arguments.keywords_merge,
    map_append, mem_append]
  grind

/-! ## The store -/

namespace Store

/-- The store mentions a thunk outside its slots. -/
inductive Mentions (store : Store) : Thunk → Prop
  | cell {group index : Nat} {thunk : Thunk}
      (defined : store.cell? group index = some thunk) : Mentions store thunk
  | global {name : String} {function : Function} {thunk : Thunk}
      (refers : store.global? name = some function)
      (mentioned : thunk ∈ function.thunks) : Mentions store thunk
  | unread {channel : Nat} {thunk : Thunk}
      (sent : .item thunk ∈ (store.channel channel).unread) : Mentions store thunk
  | queued {scheduler : Nat} {queue : List Daemon} {daemon : Daemon} {thunk : Thunk}
      (waiting : (store.scheduler scheduler).queue = some queue)
      (mem : daemon ∈ queue)
      (mentioned : thunk ∈ daemon.duty.thunks) : Mentions store thunk
  | launched {entry : Nat × Daemon} {thunk : Thunk}
      (mem : entry ∈ store.launched)
      (mentioned : thunk ∈ entry.2.duty.thunks) : Mentions store thunk

namespace Mentions

variable {store : Store} {thunk : Thunk}

/-- The slots, the log and the counters mention nothing. -/
theorem congr {other : Store} (mentions : store.Mentions thunk)
    (groups : store.groups = other.groups) (globals : store.prelude = other.prelude)
    (channels : store.channels = other.channels) (schedulers : store.schedulers = other.schedulers)
    (daemons : store.launched = other.launched) : other.Mentions thunk := by
  cases mentions with
  | cell defined => exact .cell (by rw [← defined, cell?, cell?, group, group, groups])
  | global refers mentioned => exact .global (by rw [← refers, global?, global?, globals]) mentioned
  | @unread channel _ sent => exact .unread (by rwa [Store.channel, ← channels])
  | @queued scheduler _ _ _ waiting mem mentioned =>
    exact .queued (by rwa [Store.scheduler, ← schedulers]) mem mentioned
  | launched mem mentioned => exact .launched (daemons ▸ mem) mentioned

/-- A new scheduler has no daemon queued. -/
theorem of_newScheduler (mentions : (store.newScheduler capacity stackSize).2.Mentions thunk) :
    store.Mentions thunk := by
  cases mentions with
  | cell defined => exact .cell defined
  | global refers mentioned => exact .global refers mentioned
  | unread sent => exact .unread sent
  | @queued scheduler queue daemon _ waiting mem mentioned =>
    simp only [Store.newScheduler, Store.scheduler, Array.getD_eq_getD_getElem?,
      Array.getElem?_push] at waiting
    split at waiting
    · cases waiting
      cases mem
    · have found : (store.scheduler scheduler).queue = some queue := by
        rwa [Store.scheduler, Array.getD_eq_getD_getElem?]
      exact .queued found mem mentioned
  | launched mem mentioned => exact .launched mem mentioned

end Mentions

/-- An action mentions nothing new except what it is given. -/
theorem mentions_perform {action : Action} (mentions : (action.perform store).2.Mentions thunk) :
    store.Mentions thunk ∨ thunk ∈ action.thunks := by
  have effect := action.effect_perform store
  generalize (action.perform store).2 = after at mentions effect
  cases mentions with
  | cell defined =>
    refine (effect.cell?_cases defined).imp .cell ?_
    rintro ⟨group, index, rfl⟩
    exact mem_singleton_self thunk
  | @global name _ _ refers mentioned =>
    rw [global?, effect.prelude_eq] at refers
    exact .inl (.global refers mentioned)
  | unread sent =>
    refine (effect.mem_unread sent).imp .unread ?_
    rintro ⟨channel, rfl⟩
    exact mem_singleton_self thunk
  | queued waiting mem mentioned =>
    obtain ⟨former, formerly, daemons⟩ := effect.queue_cases waiting
    rcases daemons _ mem with before | rfl
    · exact .inl (.queued formerly before mentioned)
    · exact .inr mentioned
  | launched mem mentioned =>
    rcases effect.launched_cases mem with before | rfl
    · exact .inl (.launched before mentioned)
    · exact .inr mentioned

end Store
end ByNeed
