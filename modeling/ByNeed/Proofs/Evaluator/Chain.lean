import ByNeed.Proofs.Evaluator.Agreement

/-!
# Chains

The machine claims a chain of thunks and publishes one value to all of them in reverse.  Every link
ends up with the value it has by recursion, and an error with the sites from the link on.
-/

namespace ByNeed

open Thread List

variable {ρ α : Type} {self : Nat}

/-- The call sites of a chain of links. -/
def callSites (links : List Link) : List Site :=
  links.filterMap Link.site

theorem callSites_cons (link : Link) (links : List Link) :
    callSites (link :: links) = link.site.toList ++ callSites links := by
  cases site_eq : link.site <;> simp [callSites, site_eq]

namespace Value

/-- The value after passing through calls, of which the first is the outermost: an error
has their sites before its own trace, and is otherwise the same. -/
def traced (value : Value) (sites : List Site) : Value :=
  match value with
  | .error failure => .error { failure with trace := sites ++ failure.trace }
  | other => other

@[simp] theorem traced_nil (value : Value) : value.traced [] = value := by
  cases value <;> rfl

theorem through_traced (value : Value) (sites : List Site) (site : Option Site) :
    (value.traced sites).through site = value.traced (site.toList ++ sites) := by
  cases value <;> cases site <;> rfl

end Value

/-- From a point of a run on, the links that the loop claims on top of a chain, and the
value at their end.  The value settles them all.  Each of them was suspended when the loop
came to it, and is left with the value that it has by recursion. -/
structure Thread.ChainRun (number : Nat) (start : Thread ρ × Store) (chain : List Link)
    (stack : Stack ρ) (links : List Link) (terminal : Value) (after : Store) : Prop where
  settles : ∃ last prior settled,
    Reaches number start (.driving last (links.reverse ++ chain) stack, prior) ∧
    Moves number
      (.driving last (links.reverse ++ chain) stack, prior)
      (.settling terminal (links.reverse ++ chain) stack, settled) ∧
    Reaches number
      (.settling terminal (links.reverse ++ chain) stack, settled)
      (.settling (terminal.traced (callSites links)) chain stack, after)
  memoizes : ∀ earlier link later,
    links = earlier ++ link :: later →
    after.slot? link.thunk =
        some (.evaluated (terminal.traced (callSites (link :: later)))) ∧
      ∃ computation entry left,
        entry.slot? link.thunk = some (.suspended computation) ∧
        link.site = computation.site ∧
        Reaches number start
          (.driving computation.resume (link :: (earlier.reverse ++ chain)) stack,
            entry.setSlot link.thunk (.evaluating number)) ∧
        link.thunk.Evaluates number entry (terminal.traced (callSites (link :: later))) left

namespace Thread.ChainRun

variable {start : Thread ρ × Store} {chain links : List Link} {stack : Stack ρ}
  {terminal : Value} {store after : Store}

/-- The loop ends without another claim. -/
theorem nil
    (ends : Moves self (.driving last chain stack, store) (.settling terminal chain stack, after)) :
    ChainRun self (.driving last chain stack, store) chain stack [] terminal after where
  settles := by
    refine ⟨last, store, after, .refl, ends, ?_⟩
    rw [callSites, filterMap_nil, Value.traced_nil]
    exact .refl
  memoizes earlier link later split := by simp at split

/-- What happens before does not matter. -/
theorem of_reaches (reaches : Reaches self former start)
    (run : ChainRun self start chain stack links terminal after) :
    ChainRun self former chain stack links terminal after where
  settles := by
    obtain ⟨last, prior, settled, drives, rest⟩ := run.settles
    exact ⟨last, prior, settled, reaches.trans drives, rest⟩
  memoizes earlier link later split := by
    obtain ⟨memoized, computation, entry, left, suspended, site_eq, drives, evaluates⟩ :=
      run.memoizes earlier link later split
    have drivesFromFormer := reaches.trans drives
    exact ⟨memoized, computation, entry, left, suspended, site_eq, drivesFromFormer, evaluates⟩

theorem cons (suspended : store.slot thunk = .suspended computation)
    (claimed : after.slot? thunk = some (.evaluating self))
    (evaluates : thunk.Evaluates self store
      (terminal.traced (callSites (⟨thunk, computation.site⟩ :: links)))
      (after.publish thunk (terminal.traced (callSites (⟨thunk, computation.site⟩ :: links)))))
    (run : ChainRun self (.driving computation.resume (⟨thunk, computation.site⟩ :: chain) stack,
        store.setSlot thunk (.evaluating self))
      (⟨thunk, computation.site⟩ :: chain) stack links terminal after) :
    ChainRun self (.driving computation.resume (⟨thunk, computation.site⟩ :: chain) stack,
        store.setSlot thunk (.evaluating self))
      chain stack (⟨thunk, computation.site⟩ :: links) terminal
      (after.publish thunk (terminal.traced (callSites (⟨thunk, computation.site⟩ :: links)))) where
  settles := by
    obtain ⟨last, prior, settled, drives, ends, rest⟩ := run.settles
    have publishes := rest.tail (moves_publish _ ⟨thunk, computation.site⟩ chain stack after)
    rw [Value.through_traced, ← callSites_cons ⟨thunk, computation.site⟩] at publishes
    rw [reverse_cons, append_assoc, singleton_append]
    exact ⟨last, prior, settled, drives, ends, publishes⟩
  memoizes earlier link later split := by
    cases earlier with
    | nil =>
      obtain ⟨rfl, rfl⟩ := List.cons.inj split
      exact ⟨Store.slot?_setSlot_self claimed _, computation, store, _,
        Store.slot?_of_suspended suspended, rfl, .refl, evaluates⟩
    | cons first earlier =>
      rw [cons_append] at split
      obtain ⟨rfl, linksSplit⟩ := List.cons.inj split
      obtain ⟨memoized, pending, entry, left, found, site_eq, drives, evaluatesThere⟩ :=
        run.memoizes earlier link later linksSplit
      -- The later link has been published by now, and this thunk is still claimed.
      have ne : link.thunk ≠ thunk := by
        intro same
        rw [same, claimed] at memoized
        cases memoized
      refine ⟨?_, pending, entry, left, found, site_eq, ?_, evaluatesThere⟩
      · rw [Store.publish, Store.slot?_setSlot_of_ne after ne, memoized]
      · rwa [reverse_cons, append_assoc, singleton_append]

end Thread.ChainRun

namespace Thunk

/-- Once claimed on top of any chain, a thunk is the first of the links that one value
settles. -/
def Chained (self : Nat) (thunk : Thunk) (store : Store) (value : Value) (after : Store) : Prop :=
  ∀ computation, store.slot thunk = .suspended computation →
    ∀ {ρ : Type} (chain : List Link) (stack : Stack ρ), ∃ later terminal,
      value = terminal.traced (callSites (⟨thunk, computation.site⟩ :: later)) ∧
      ChainRun self (.driving computation.resume (⟨thunk, computation.site⟩ :: chain) stack,
          store.setSlot thunk (.evaluating self))
        chain stack (⟨thunk, computation.site⟩ :: later) terminal after

/-- A chain that comes to a thunk goes on with the links claimed from there. -/
theorem Evaluates.chainRun_of_chained (evaluates : thunk.Evaluates self store value final)
    (chained : thunk.Chained self store value final) (chain : List Link) (stack : Stack ρ) :
    ∃ links terminal, value = terminal.traced (callSites links) ∧
      ChainRun self (.driving (.done thunk) chain stack, store)
        chain stack links terminal final := by
  have asks := Asks.follow thunk chain stack
  rcases evaluates.suspended_or_answers with ⟨computation, suspended⟩ | ⟨rfl, answers⟩
  · obtain ⟨later, terminal, value_eq, run⟩ := chained computation suspended chain stack
    exact ⟨_, terminal, value_eq, run.of_reaches (.single (asks.moves_claim suspended))⟩
  · refine ⟨[], value, ?_, .nil (asks.moves_answered answers)⟩
    rw [callSites, filterMap_nil, Value.traced_nil]

namespace Chained

variable {thunk next : Thunk} {store between after : Store} {value : Value}
  {computation : Suspension}

theorem of_not_suspended (settled : ∀ pending, store.slot thunk ≠ .suspended pending) :
    thunk.Chained self store value after :=
  fun pending suspended => absurd suspended (settled pending)

theorem of_suspended (suspended : store.slot thunk = .suspended computation)
    (claimed : after.slot? thunk = some (.evaluating self))
    (evaluates : thunk.Evaluates self store (value.through computation.site)
      (after.publish thunk (value.through computation.site)))
    (runs : ∀ {ρ : Type} (chain : List Link) (stack : Stack ρ), ∃ links terminal,
      value = terminal.traced (callSites links) ∧
      ChainRun self
        (.driving computation.resume chain stack, store.setSlot thunk (.evaluating self))
        chain stack links terminal after) :
    thunk.Chained self store (value.through computation.site)
      (after.publish thunk (value.through computation.site)) := by
  intro pending suspendedToo ρ chain stack
  obtain rfl := Slot.suspended.inj (suspended.symm.trans suspendedToo)
  obtain ⟨links, terminal, rfl, run⟩ := runs (⟨thunk, computation.site⟩ :: chain) stack
  rw [Value.through_traced, ← callSites_cons ⟨thunk, computation.site⟩] at evaluates ⊢
  exact ⟨links, terminal, rfl, .cons suspended claimed evaluates run⟩

end Chained

theorem Evaluates.chained {thunk : Thunk} (evaluates : thunk.Evaluates self store value final) :
    thunk.Chained self store value final := by
  induction evaluates using Evaluates.followInduction with
  | memoized evaluated => exact .of_not_suspended (by simp [evaluated])
  | cycle evaluating => exact .of_not_suspended (by simp [evaluating])
  | computed suspended runs continues ih =>
    have claimed := (runs.keeps.trans continues.keeps).claimed suspended
    apply Chained.of_suspended suspended claimed (.computed suspended runs continues)
    intro ρ chain stack
    obtain ⟨links, terminal, value_eq, run⟩ :=
      continues.chainRun_of_chained ih chain stack
    exact ⟨links, terminal, value_eq, run.of_reaches (runs.reaches (.link chain stack))⟩
  | brokenOff suspended runs =>
    have claimed := runs.keeps.claimed suspended
    apply Chained.of_suspended suspended claimed (.brokenOff suspended runs)
    intro ρ chain stack
    have run := (ChainRun.nil (moves_breakOff _ chain stack _)).of_reaches
      (runs.reaches (.link chain stack))
    exact ⟨[], _, (Value.traced_nil _).symm, run⟩

end Thunk

/-- The machine evaluates a suspended thunk exactly as the recursive evaluator does, to the
same value and the same store.  In every context, code that asks for the thunk is handed
this value.  The machine gets there by claiming a chain of links that starts with the
thunk, and each link is left with the value it has by recursion at the point where it was
claimed: the value at the end of the chain, or the error at the end of the chain with the
sites from the link on before its own trace. -/
theorem evaluation_agrees_with_recursion (self : Nat) {store : Store} {thunk : Thunk}
    {computation : Suspension} (suspended : store.slot? thunk = some (.suspended computation)) :
    (∀ outcome after,
      (Code.evaluated thunk).Ends self store outcome after ↔
        ∃ value, outcome = .ok value ∧ thunk.Evaluates self store value after) ∧
    ∀ value after,
      thunk.Evaluates self store value after →
      (∀ other left, thunk.Evaluates self store other left → value = other ∧ after = left) ∧
      ∀ {ρ α : Type} (context : Context ρ α) (next : Value → Code α),
        Reaches self
          (context.thread (.evaluate thunk next), store)
          (context.thread (next value), after) ∧
        ∃ later terminal,
          value = terminal.traced (callSites (⟨thunk, computation.site⟩ :: later)) ∧
          ChainRun self (context.thread (.evaluate thunk next), store)
            [] (context.stack next) (⟨thunk, computation.site⟩ :: later) terminal after := by
  refine ⟨fun outcome after => Code.ends_evaluated_iff, ?_⟩
  intro value after evaluates
  refine ⟨fun other left evaluatesToo => evaluates.unique evaluatesToo, ?_⟩
  intro ρ α context next
  have pending := Store.slot_eq_of_slot? suspended
  obtain ⟨later, terminal, value_eq, run⟩ :=
    evaluates.chained computation pending [] (context.stack next)
  have asks := Asks.evaluate context thunk next
  exact ⟨evaluates.reaches_of_driven evaluates.driven asks,
    later, terminal, value_eq, run.of_reaches (.single (asks.moves_claim pending))⟩

/-- A cell of a recursive group that is defined by a call of what is no function. -/
def failedTailCall : Store where
  slots := #[.suspended (.cell 0 0), .suspended (.apply ⟨2⟩ {} (some .host)), .evaluated .nil]
  groups := #[#[some ⟨1⟩]]
  digest := Digest.multiplicative

theorem failedTailCall_agrees :
    failedTailCall.slot? ⟨0⟩ = some (.suspended (.cell 0 0)) ∧ ∃ after,
        Thunk.Evaluates 0 ⟨0⟩ failedTailCall
          ((Value.fault (.notApplicable .nil)).traced [.host]) after ∧
        ∃ later terminal, ChainRun 0 (.running (Code.evaluated ⟨0⟩), failedTailCall)
            [] (.base .done) (⟨⟨0⟩, none⟩ :: later) terminal after := by
  let failure := (Value.fault (.notApplicable .nil)).traced [.host]
  let after : Store :=
    { failedTailCall with
      slots := #[.evaluated failure, .evaluated failure, .evaluated .nil,
        .evaluated (.fault (.notApplicable .nil))] }
  have ends : (Code.evaluated ⟨0⟩).Ends 0 failedTailCall (.ok failure) after :=
    ⟨.running (.done failure), reaches_of_advance 9 rfl, rfl⟩
  have suspended : failedTailCall.slot? ⟨0⟩ = some (.suspended (.cell 0 0)) := rfl
  obtain ⟨agrees, chains⟩ := evaluation_agrees_with_recursion 0 suspended
  obtain ⟨value, value_eq, evaluates⟩ := (agrees (.ok failure) after).mp ends
  cases value_eq
  obtain ⟨-, inContext⟩ := chains failure after evaluates
  obtain ⟨-, later, terminal, -, run⟩ := inContext .top .done
  exact ⟨suspended, after, evaluates, later, terminal, run⟩

end ByNeed
