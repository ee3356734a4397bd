import ByNeed.Proofs.Evaluator.Agreement
import ByNeed.Proofs.Safety.Actions
import ByNeed.Proofs.Safety.Calls

/-!
# Threads that are safe

A thread is safe in a realm when the code it runs is, in the frame of the thunks it is evaluating,
and when whatever waits on its stack is safe once it is answered.  The invariant speaks of all later
realms, so only the step of the thread itself has to be looked at.
-/

namespace ByNeed

open Store Realm List

variable {ρ α : Type} {base : Frame} {realm later : Realm}
variable {self : Nat} {thread : Thread ρ} {store : Store}

/-- The frame of a computation that a thread runs on top of chains of its own. -/
def Frame.claiming (base : Frame) (claims : List Thunk) : Frame where
  self := base.self
  held thunk := base.held thunk ∨ thunk ∈ claims
  runs := none

/-! ## Safety -/

/-- Whatever waits on a stack for the value of a thunk is safe once it is answered. -/
def Stack.Safe (post : Stage base → ρ → Prop) : Stack ρ → Thunk → Realm → Prop
  | .base next, asked, realm =>
    ∀ stage : Stage base, realm ≤ stage.toRealm →
      ∀ value, base.Answers stage.toRealm asked value → (next value).Safe post stage
  | .nested next chain rest, asked, realm =>
    (∀ stage : Stage (base.claiming (chainThunks chain ++ rest.claims)),
      realm ≤ stage.toRealm →
      ∀ value,
        (base.claiming (chainThunks chain ++ rest.claims)).Answers stage.toRealm asked value →
      (next value).Safe (fun final thunk => final.store.Sees thunk) stage) ∧
    ∃ first, (chainThunks chain).getLast? = some first ∧ rest.Safe post first realm

namespace Context

/-- The frame in which a context runs its code. -/
def frame (base : Frame) : Context ρ α → Frame
  | .top => base
  | .link chain stack => base.claiming (chainThunks chain ++ stack.claims)

/-- What a context wants of the result of its code. -/
def wants (post : Stage base → ρ → Prop) :
    (context : Context ρ α) → Stage (context.frame base) → α → Prop
  | .top => post
  | .link .. => fun stage thunk => stage.store.Sees thunk

/-- What waits below a context is safe. -/
def Waits (post : Stage base → ρ → Prop) (realm : Realm) : Context ρ α → Prop
  | .top => True
  | .link chain stack =>
    ∃ first, (chainThunks chain).getLast? = some first ∧ stack.Safe post first realm

theorem safe_stack_iff (context : Context ρ α) (next : Value → Code α) (asked : Thunk) :
    (context.stack next).Safe post asked realm ↔
      (∀ stage : Stage (context.frame base), realm ≤ stage.toRealm →
        ∀ value, (context.frame base).Answers stage.toRealm asked value →
          (next value).Safe (context.wants post) stage) ∧
      context.Waits post realm := by
  cases context with
  | top => exact (and_iff_left trivial).symm
  | link chain stack => exact Iff.rfl

end Context

/-- The code of a thread is safe, and so is what waits on its stack. -/
def Thread.Safe (post : Stage base → ρ → Prop) : Thread ρ → Realm → Prop
  | .running code, realm =>
    ∀ stage : Stage base, realm ≤ stage.toRealm → code.Safe post stage
  | .driving code chain stack, realm =>
    (∀ stage : Stage (base.claiming (chainThunks chain ++ stack.claims)),
      realm ≤ stage.toRealm →
      code.Safe (fun final thunk => final.store.Sees thunk) stage) ∧
    ∃ first, (chainThunks chain).getLast? = some first ∧ stack.Safe post first realm
  | .settling value chain stack, realm =>
    realm.Admits value ∧
    ∃ first, (chain = [] → realm.store.slot? first = some (.evaluated value)) ∧
      (chain ≠ [] → (chainThunks chain).getLast? = some first) ∧
      stack.Safe post first realm

variable {post : Stage base → ρ → Prop}
variable {thunk : Thunk}

theorem Context.safe_thread_iff (context : Context ρ α) (code : Code α) :
    (context.thread code).Safe post realm ↔
      (∀ stage : Stage (context.frame base), realm ≤ stage.toRealm →
        code.Safe (context.wants post) stage) ∧
      context.Waits post realm := by
  cases context with
  | top => exact (and_iff_left trivial).symm
  | link chain stack => exact Iff.rfl

section Mono

theorem Stack.Safe.mono {stack : Stack ρ} (safe : stack.Safe post asked realm)
    (le : realm ≤ later) : stack.Safe post asked later := by
  induction stack generalizing asked with
  | base next => exact fun stage leStage => safe stage (le.trans leStage)
  | nested next chain rest ih =>
    obtain ⟨nextSafe, first, ends, restSafe⟩ := safe
    exact ⟨fun stage leStage => nextSafe stage (le.trans leStage), first, ends,
      ih restSafe⟩

theorem Context.Waits.mono {context : Context ρ α} (waits : context.Waits post realm)
    (le : realm ≤ later) : context.Waits post later := by
  cases context with
  | top => trivial
  | link chain stack =>
    obtain ⟨first, ends, safe⟩ := waits
    exact ⟨first, ends, safe.mono le⟩

theorem Thread.Safe.mono (safe : thread.Safe post realm) (le : realm ≤ later) :
    thread.Safe post later := by
  cases thread with
  | running code => exact fun stage leStage => safe stage (le.trans leStage)
  | driving code chain stack =>
    obtain ⟨codeSafe, first, ends, stackSafe⟩ := safe
    exact ⟨fun stage leStage => codeSafe stage (le.trans leStage), first, ends,
      stackSafe.mono le⟩
  | settling value chain stack =>
    obtain ⟨admits, first, evaluated, ends, stackSafe⟩ := safe
    exact ⟨admits.mono le, first, fun empty => slot?_of_le le (evaluated empty), ends,
      stackSafe.mono le⟩

end Mono

/-! ## Steps -/

/-- A thread that has moved is safe in a later sound realm. -/
def Thread.SafeAfter (post : Stage base → ρ → Prop) (realm : Realm) (next : Thread ρ)
    (after : Store) : Prop :=
  ∃ later : Realm, later.store = after ∧ realm ≤ later ∧ later.Sound ∧ next.Safe post later

namespace Context

variable {context : Context ρ α}

theorem slot?_iff_held (bears : (context.thread code).Bears base.held base.self realm.store)
    (thunk : Thunk) :
    realm.store.slot? thunk = some (.evaluating base.self) ↔ (context.frame base).held thunk := by
  rw [bears.marked_iff]
  cases context with
  | top => simp [thread, frame]
  | link chain stack => exact Iff.rfl

@[simp] theorem self_frame (context : Context ρ α) : (context.frame base).self = base.self := by
  cases context <;> rfl

/-- The stage at which a context runs its code. -/
def stage {code : Code α} (bears : (context.thread code).Bears base.held base.self realm.store)
    (sound : realm.Sound) : Stage (context.frame base) where
  toRealm := realm
  sound := sound
  fits thunk held := by
    rw [self_frame]
    exact (slot?_iff_held bears thunk).mpr held

variable (stable : ∀ (earlier later : Stage base) (result : ρ), earlier ≤ later →
  post earlier result → post later result)

include stable in
theorem wants_mono {earlier later : Stage (context.frame base)} (le : earlier ≤ later)
    (wanted : context.wants post earlier result) : context.wants post later result := by
  cases context with
  | top => exact stable earlier later result le wanted
  | link chain stack => exact Store.Sees.mono wanted le

include stable in
theorem safe_thread {code : Code α} {stage : Stage (context.frame base)}
    (safe : code.Safe (context.wants post) stage) (waits : context.Waits post stage.toRealm) :
    (context.thread code).Safe post stage.toRealm := by
  rw [safe_thread_iff]
  exact ⟨fun later le => safe.mono le fun {_ _ _} => wants_mono stable, waits⟩

include stable in
theorem safeAfter_act {next : action.Reply → Code α}
    (safe : (context.thread (.act action next)).Safe post realm) (sound : realm.Sound)
    (bears : (context.thread (.act action next)).Bears base.held base.self realm.store)
    {reply : action.Reply} {after : Store}
    (performed : action.perform realm.store = (some reply, after)) :
    (context.thread (next reply)).SafeAfter post realm after := by
  rw [safe_thread_iff] at safe
  have leads := safe.1 (stage bears sound) le_rfl
  obtain ⟨later, same, le, nextSafe⟩ := Action.Leads.perform leads performed
  exact ⟨later.toRealm, same, le, later.sound, safe_thread stable nextSafe (safe.2.mono le)⟩

include stable in
theorem safeAfter_call {next : routine.Reply → Code α}
    (safe : (context.thread (.call routine next)).Safe post realm) (sound : realm.Sound)
    (bears : (context.thread (.call routine next)).Bears base.held base.self realm.store) :
    (context.thread (routine.body.bind next)).SafeAfter post realm realm.store := by
  rw [safe_thread_iff] at safe
  obtain ⟨allowed, nextSafe⟩ := safe.1 (stage bears sound) le_rfl
  have bodySafe := (Routine.body_safe allowed).bind nextSafe
  exact ⟨realm, rfl, le_rfl, sound, safe_thread stable bodySafe safe.2⟩

end Context

theorem Realm.Sound.claim (sound : realm.Sound)
    (suspended : realm.store.slot? thunk = some (.suspended computation)) (self : Nat) :
    ∃ later : Realm, later.store = realm.store.setSlot thunk (.evaluating self) ∧
      realm ≤ later ∧ later.Sound ∧ later.SeesAll computation.thunks := by
  have becomes := Slot.Becomes.claimed computation self
  have le := le_setSlot suspended becomes
  refine ⟨_, rfl, le, sound.setSlot suspended becomes ?_ ?_, (sound.suspended suspended).mono le⟩
  · intro value impossible
    cases impossible
  · intro other impossible
    cases impossible

theorem Frame.MayEvaluate.holds {frame : Frame} (may : frame.MayEvaluate realm thunk)
    (sound : realm.Sound) : realm.store.Holds thunk := by
  rcases may with sees | ⟨source, identity, -, evaluated⟩
  · exact sees.holds
  · exact sound.evaluated evaluated

namespace Thread

/-- What a thread that asks for a thunk can rely on. -/
structure Asking (post : Stage base → ρ → Prop) (realm : Realm) (thunk : Thunk)
    (answered : Value → Thread ρ) (chain : List Link) (stack : Stack ρ) : Prop where
  holds : realm.store.Holds thunk
  ready : ∀ value, realm.store.slot? thunk = some (.evaluated value) →
    (answered value).Safe post realm
  cycle : realm.store.slot? thunk = some (.evaluating base.self) →
    (answered (.fault .selfDependence)).Safe post realm
  waits : ∃ first, (thunk :: chainThunks chain).getLast? = some first ∧
    stack.Safe post first realm

variable {thread next : Thread ρ} {thunk : Thunk} {answered : Value → Thread ρ}
  {chain : List Link} {stack : Stack ρ} {after : Store}
  (stable : ∀ (earlier later : Stage base) (result : ρ), earlier ≤ later →
    post earlier result → post later result)

include stable in
theorem Asks.asking (asks : thread.Asks thunk answered chain stack) (safe : thread.Safe post realm)
    (sound : realm.Sound) (bears : thread.Bears base.held base.self realm.store) :
    Asking post realm thunk answered chain stack := by
  cases asks with
  | evaluate context thunk next =>
    rw [Context.safe_thread_iff] at safe
    obtain ⟨codeSafe, waits⟩ := safe
    obtain ⟨may, nextSafe⟩ := codeSafe (Context.stage bears sound) le_rfl
    have goesOn := fun value answers =>
      Context.safe_thread stable (nextSafe (Context.stage bears sound) le_rfl value answers) waits
    exact
      { holds := may.holds sound
        ready := fun value evaluated =>
          goesOn value ⟨sound.evaluated evaluated, .inl evaluated⟩
        cycle := fun marked =>
          goesOn _ ⟨trivial, .inr ⟨(Context.slot?_iff_held bears thunk).mp marked, rfl⟩⟩
        waits := ⟨thunk, rfl, (context.safe_stack_iff next thunk).mpr ⟨nextSafe, waits⟩⟩ }
  | follow thunk chain stack =>
    obtain ⟨codeSafe, first, ends, stackSafe⟩ := safe
    have sees := codeSafe (@Context.stage _ _ _ _ (.link chain stack) _ bears sound) le_rfl
    have nonempty : chain ≠ [] := by
      rintro rfl
      cases ends
    have settles : ∀ value, realm.Admits value →
        (settling value chain stack).Safe post realm := fun value admits =>
      ⟨admits, first, fun empty => absurd empty nonempty, fun _ => ends, stackSafe⟩
    exact
      { holds := Store.Sees.holds sees
        ready := fun value evaluated => settles value (sound.evaluated evaluated)
        cycle := fun _ => settles _ trivial
        waits := ⟨first, by rw [getLast?_cons, ends]; rfl, stackSafe⟩ }

theorem safe_resume (admits : realm.Admits value)
    (evaluated : realm.store.slot? thunk = some (.evaluated value))
    (safe : stack.Safe post thunk realm) : (stack.resume value).Safe post realm := by
  cases stack with
  | base next =>
    exact fun stage le =>
      safe stage le value ⟨admits.mono le, .inl (slot?_of_le le evaluated)⟩
  | nested next chain rest =>
    exact ⟨fun stage le =>
      safe.1 stage le value ⟨admits.mono le, .inl (slot?_of_le le evaluated)⟩, safe.2⟩

theorem safeAfter_publish {value : Value}
    (safe : (settling value (link :: chain) stack).Safe post realm) (sound : realm.Sound)
    (bears : (settling value (link :: chain) stack).Bears base.held base.self realm.store) :
    (settling (value.through link.site) chain stack).SafeAfter post realm
      (realm.store.publish link.thunk (value.through link.site)) := by
  obtain ⟨admits, first, -, ends, stackSafe⟩ := safe
  have marked := bears.slot?_head rfl
  have becomes := Slot.Becomes.published base.self (value.through link.site)
  have le := le_setSlot marked becomes
  have laterSound := sound.setSlot marked becomes
    (fun published same => by cases same; exact admits.through link.site)
    (fun computation impossible => by cases impossible)
  have firstEnds := ends (cons_ne_nil link chain)
  refine ⟨_, rfl, le, laterSound, (admits.through link.site).mono le, first, ?_, ?_,
    stackSafe.mono le⟩
  · rintro rfl
    cases firstEnds
    exact slot?_setSlot_self marked _
  · intro nonempty
    rwa [chainThunks_cons, getLast?_cons_of_ne_nil (by simpa [chainThunks] using nonempty)]
      at firstEnds

include stable in
theorem Safe.of_moved (safe : thread.Safe post realm) (sound : realm.Sound)
    (bears : thread.Bears base.held base.self realm.store)
    (moved : thread.step base.self realm.store = (.moved next, after)) :
    next.SafeAfter post realm after := by
  cases steps_of_step moved with
  | act context performed => exact Context.safeAfter_act stable safe sound bears performed
  | answer asks evaluated =>
    have asking := asks.asking stable safe sound bears
    obtain ⟨slot, held⟩ := asking.holds
    rw [slot_eq_of_slot? held] at evaluated
    exact ⟨realm, rfl, le_rfl, sound, asking.ready _ (evaluated ▸ held)⟩
  | cycle asks marked =>
    have asking := asks.asking stable safe sound bears
    exact ⟨realm, rfl, le_rfl, sound, asking.cycle (slot?_of_evaluating marked)⟩
  | claim asks suspended =>
    obtain ⟨later, same, le, laterSound, sees⟩ := sound.claim suspended base.self
    obtain ⟨first, ends, stackSafe⟩ := (asks.asking stable safe sound bears).waits
    exact ⟨later, same, le, laterSound,
      fun stage leStage => Suspension.resume_safe (sees.mono leStage),
      first, ends, stackSafe.mono le⟩
  | call context => exact Context.safeAfter_call stable safe sound bears
  | breakOff message chain stack =>
    obtain ⟨-, first, ends, stackSafe⟩ := safe
    have nonempty : chain ≠ [] := by
      rintro rfl
      cases ends
    exact ⟨realm, rfl, le_rfl, sound, trivial, first, fun empty => absurd empty nonempty,
      fun _ => ends, stackSafe⟩
  | settled =>
    obtain ⟨admits, first, evaluated, -, stackSafe⟩ := safe
    exact ⟨realm, rfl, le_rfl, sound, safe_resume admits (evaluated rfl) stackSafe⟩
  | publish => exact safeAfter_publish safe sound bears

theorem eq_of_waiting (waits : thread.step self store = (.waiting, after)) : after = store := by
  cases steps_of_step waits with
  | block context performed => exact Action.perform_of_waiting performed
  | busy => rfl

theorem Safe.of_finished (safe : thread.Safe post realm)
    (finished : thread.step self store = (.finished (.ok result), after))
    (le : realm ≤ stage.toRealm) : post stage result := by
  obtain ⟨rfl, -⟩ := eq_of_finished finished
  exact safe stage le

end Thread

/-- A safe thread asks only for what its own frame allows. -/
theorem Thread.Safe.mayEvaluate (safe : thread.Safe post realm) (sound : realm.Sound)
    (bears : thread.Bears base.held base.self realm.store)
    (access_eq : thread.access? = some (.claim thunk)) : base.MayEvaluate realm thunk := by
  cases thread using stepCases with
  | act | call => simp at access_eq
  | ask asks =>
    rw [asks.access?_eq] at access_eq
    cases access_eq
    cases asks with
    | evaluate context thunk next =>
      rw [Context.safe_thread_iff] at safe
      have may := (safe.1 (Context.stage bears sound) le_rfl).1
      cases context with
      | top => exact may
      | link chain stack =>
        rcases may with sees | ⟨_, _, runs, _⟩
        · exact .inl sees
        · cases runs
    | follow =>
      rename_i chain stack
      exact .inl (safe.1 (@Context.stage _ _ _ _ (.link chain stack) _ bears sound) le_rfl)
  | _ => cases access_eq

/-! ## Whole runs of a lone thread -/

/-- No thunk bears the mark of the thread but those it holds. -/
def Stage.Exact (stage : Stage base) : Prop :=
  ∀ thunk, stage.store.slot? thunk = some (.evaluating base.self) → base.held thunk

theorem Stage.Exact.bears {stage : Stage base} (exact : stage.Exact) (code : Code ρ) :
    (Thread.running code).Bears base.held base.self stage.store where
  nodup := nodup_nil
  apart _ mem := absurd mem not_mem_nil
  marked_iff thunk := ⟨fun marked => .inl (exact thunk marked), fun held =>
    stage.fits thunk (held.resolve_right not_mem_nil)⟩

section Ends

variable (stable : ∀ (earlier later : Stage base) (result : ρ), earlier ≤ later →
  post earlier result → post later result)

include stable in
theorem Thread.Safe.of_reaches (reaches : Thread.Reaches base.self before reached)
    (safe : before.1.Safe post realm) (same : realm.store = before.2) (sound : realm.Sound)
    (bears : before.1.Bears base.held base.self before.2) :
    reached.1.SafeAfter post realm reached.2 ∧ reached.1.Bears base.held base.self reached.2 := by
  induction reaches with
  | refl => exact ⟨⟨realm, same, le_rfl, sound, safe⟩, bears⟩
  | tail run moved ih =>
    obtain ⟨⟨between, sameThen, le, soundThen, safeThen⟩, bearsThen⟩ := ih
    rw [Thread.Moves, ← sameThen] at moved
    rw [← sameThen] at bearsThen
    obtain ⟨later, sameNow, leNow, soundNow, safeNow⟩ :=
      safeThen.of_moved stable soundThen bearsThen moved
    exact ⟨⟨later, sameNow, le.trans leNow, soundNow, safeNow⟩, bearsThen.of_moved moved⟩

end Ends

/-- Safe code that ends has kept the realm sound, and its result is as wanted. -/
theorem Code.Safe.of_ends {code : Code ρ} (safe : code.Safe post stage)
    (stable : ∀ (earlier later : Stage base) (result : ρ), earlier ≤ later →
      post earlier result → post later result) (exact : stage.Exact) {after : Store}
    (ends : code.Ends base.self stage.store outcome after) :
    ∃ later : Stage base, stage ≤ later ∧ later.store = after ∧ later.Exact ∧
      ∀ result, outcome = .ok result → post later result := by
  obtain ⟨thread, reaches, finished⟩ := ends
  have threadSafe : (Thread.running code).Safe post stage.toRealm :=
    @Context.safe_thread _ _ _ _ .top stable _ _ safe trivial
  obtain ⟨⟨later, rfl, le, sound, safeThen⟩, bears⟩ :=
    threadSafe.of_reaches stable reaches rfl stage.sound (exact.bears code)
  obtain ⟨rfl, -⟩ := Thread.eq_of_finished finished
  let final : Stage base :=
    { toRealm := later
      sound := sound
      fits := fun thunk held => (bears.marked_iff thunk).mpr (.inl held) }
  refine ⟨final, le, rfl, ?_, ?_⟩
  · intro thunk marked
    exact ((bears.marked_iff thunk).mp marked).resolve_right not_mem_nil
  · rintro result rfl
    exact safeThen.of_finished finished le_rfl

end ByNeed
