import Mathlib.Algebra.Group.Nat.Defs
import Mathlib.Data.List.Nodup
import ByNeed.Session.Daemons

/-!
# Symbols are fresh

Threads ask generators for symbols, by name or through runtimes that may share a generator.  To ask
moves the counter on; the symbol is handed over later, and meanwhile others may ask.  No symbol is
handed over twice, and none is left out.
-/

namespace ByNeed

/-! ## Operations on generators -/

namespace Host

variable {α β : Type} {place : Nat} {symbols : Symbols} {session : Session}

/-- How an operation ends, with the session and the world it leaves. -/
def performed (operation : Host α) (session : Session) (world : World) :
    (Except Refusal α × Session) × World :=
  ((ExceptT.run operation).run session).run world

theorem performed_bind (operation : Host α) (following : α → Host β) (session : Session)
    (world : World) : performed (operation >>= following) session world =
      match performed operation session world with
      | ((.ok result, session), world) => performed (following result) session world
      | ((.error refusal, session), world) => ((.error refusal, session), world) := by
  simp only [performed, ExceptT.run_bind, StateT.run_bind]
  generalize ((ExceptT.run operation).run session).run world = ended
  rcases ended with ⟨⟨_ | _, _⟩, _⟩ <;> rfl

/-- An operation leaves the generator at a place as it is. -/
def Spares (place : Nat) (operation : Host α) : Prop :=
  ∀ (session : Session) world symbols, session.generators[place]? = some symbols →
    (performed operation session world).1.2.generators[place]? = some symbols

theorem Spares.bind {operation : Host α} {following : α → Host β} (spares : Spares place operation)
    (rest : ∀ result, Spares place (following result)) :
    Spares place (operation >>= following) := by
  intro session world symbols found
  have between := spares session world symbols found
  rw [performed_bind]
  split
  · rename_i result next later ended
    rw [ended] at between
    exact rest result next later symbols between
  · rename_i refusal next later ended
    rw [ended] at between
    exact between

theorem spares_pure (result : α) : Spares place (pure result) :=
  fun _ _ _ found => found

theorem spares_get : Spares place get :=
  fun _ _ _ found => found

theorem spares_change (update : Store → α × Store) : Spares place (change update) :=
  fun _ _ _ found => found

theorem spares_push (update : Session → Session) (symbols : Session → Symbols)
    (pushes : ∀ session, (update session).generators = session.generators.push (symbols session)) :
    Spares place (modify update) := by
  intro session world found present
  obtain ⟨bound, rfl⟩ := Array.getElem?_eq_some_iff.mp present
  change (update session).generators[place]? = _
  rw [pushes]
  exact Array.getElem?_push_lt bound

theorem spares_find (select : Session → Names α) (name : String) :
    Spares place (find select name) := by
  refine spares_get.bind fun session => ?_
  cases (select session).lookup name with
  | none => exact fun _ _ _ found => found
  | some value => exact spares_pure value

theorem spares_setRuntime (runtime : Runtime) :
    Spares place (modify fun session => { session with runtime := some runtime }) :=
  fun _ _ _ found => found

theorem spares_newRuntime (document generator : Option String) :
    Spares place (newRuntime document generator) := by
  unfold newRuntime
  dsimp only
  split
  · exact spares_pure _
  · cases generator
    on_goal 1 =>
      refine spares_get.bind fun session => (spares_push _ _ fun _ => rfl).bind fun _ =>
        (spares_pure session.generators.size).bind fun chosen => ?_
    on_goal 2 => refine (spares_find _ _).bind fun chosen => ?_
    -- The runtime is set up in the same way, whichever generator it has.
    all_goals
      refine (spares_change _).bind fun scheduler => (spares_change _).bind fun _ =>
        spares_get.bind fun session => ?_
      cases session.runtime with
      | none => exact (spares_setRuntime _).bind fun _ => spares_pure _
      | some former =>
        exact (spares_change _).bind fun _ => (spares_setRuntime _).bind fun _ => spares_pure _

theorem performed_get_bind (following : Session → Host β) (session : Session) (world : World) :
    performed (get >>= following) session world = performed (following session) session world :=
  performed_bind get following session world

theorem performed_takeSymbol (place : Nat) (session : Session) (world : World) :
    performed (takeSymbol place) session world = match session.generators[place]? with
      | none => ((.error .unfit, session), world)
      | some symbols => ((.ok symbols.take.1, { session with
          generators := session.generators.setIfInBounds place symbols.take.2 }), world) := by
  rw [takeSymbol, performed_get_bind]
  cases session.generators[place]? with
  | _ => rfl

end Host

/-! ## Threads that ask -/

/-- Whom a thread asks for a symbol: a generator known by name, or the runtime. -/
inductive Dispenser where
  | named (name : String)
  | runtime

namespace Dispenser

/-- The place of the generator that is asked. -/
def place? (session : Session) : Dispenser → Option Nat
  | .named name => session.generatorNames.lookup name
  | .runtime => session.runtime.map Runtime.symbols

/-- Ask for a symbol. -/
def ask : Dispenser → Host String
  | .named name => Host.nextSymbol name
  | .runtime => Host.runtimeSymbol

theorem performed_ask (dispenser : Dispenser) (session : Session) (world : World) :
    (∃ place, dispenser.place? session = some place ∧ Host.performed dispenser.ask session world =
        Host.performed (Host.takeSymbol place) session world) ∨
    ∃ refusal, Host.performed dispenser.ask session world = ((.error refusal, session), world) := by
  cases dispenser with
  | named name =>
    rw [ask, Host.nextSymbol, Host.find, bind_assoc, Host.performed_get_bind, place?]
    cases session.generatorNames.lookup name with
    | none => exact .inr ⟨_, rfl⟩
    | some place => exact .inl ⟨place, rfl, rfl⟩
  | runtime =>
    rw [ask, Host.runtimeSymbol, Host.runtime, bind_assoc, Host.performed_get_bind, place?]
    cases session.runtime with
    | none => exact .inr ⟨_, rfl⟩
    | some runtime => exact .inl ⟨runtime.symbols, rfl, rfl⟩

end Dispenser

/-- A symbol that a thread was given by the generator at a place. -/
structure Draw where
  thread : Nat
  place : Nat
  symbol : String
deriving DecidableEq

/-- Threads that ask for symbols, in the session and the world of a host. -/
structure Bureau where
  session : Session
  world : World
  /-- The calls under way: the counter has moved on, and the symbol is not yet returned. -/
  pending : List Draw := []
  /-- The calls that have returned, the latest last. -/
  returned : List Draw := []

namespace Bureau

/-- What can happen. -/
inductive Move where
  /-- A thread that is not waiting for a symbol asks for one. -/
  | ask (thread : Nat) (dispenser : Dispenser)
  /-- The call of a thread returns. -/
  | finish (thread : Nat)
  | newSymbols (name : String) (start : Option String)
  | newRuntime (document generator : Option String)

/-- The host performs an operation. -/
def perform (bureau : Bureau) (operation : Host α) : Bureau :=
  { bureau with
    session := (Host.performed operation bureau.session bureau.world).1.2
    world := (Host.performed operation bureau.session bureau.world).2 }

/-- What a thread is given when it asks. -/
def draw? (bureau : Bureau) (thread : Nat) (dispenser : Dispenser) : Option Draw := do
  let place ← dispenser.place? bureau.session
  let symbol ← (Host.performed dispenser.ask bureau.session bureau.world).1.1.toOption
  return ⟨thread, place, symbol⟩

def move (bureau : Bureau) : Move → Bureau
  | .ask thread dispenser =>
    if bureau.pending.any (·.thread == thread) then bureau
    else
      { bureau with pending := bureau.pending ++ (bureau.draw? thread dispenser).toList }.perform
        dispenser.ask
  | .finish thread =>
    { bureau with
      pending := bureau.pending.eraseP (·.thread == thread)
      returned := bureau.returned ++ (bureau.pending.find? (·.thread == thread)).toList }
  | .newSymbols name start => bureau.perform (Host.newSymbols name start)
  | .newRuntime document generator => bureau.perform (Host.newRuntime document generator)

def run (bureau : Bureau) (moves : List Move) : Bureau :=
  moves.foldl move bureau

/-- The calls on the generator at a place, returned or under way. -/
def calls (bureau : Bureau) (place : Nat) : List Draw :=
  (bureau.returned ++ bureau.pending).filter (·.place == place)

/-! ## What was drawn -/

/-- Whether a draw is one of a thread at a place. -/
def isOf (place thread : Nat) (draw : Draw) : Bool :=
  draw.place == place && draw.thread == thread

/-- All draws from the generator at a place, in the order in which its counter moved on.  A thread
gets its symbols in that order. -/
structure Records (place : Nat) (start : String) (bureau : Bureau) (drawn : List Draw) :
    Prop where
  generator : bureau.session.generators[place]? = some { start, next := .ofNat drawn.length }
  symbols : drawn.map Draw.symbol =
    (List.range drawn.length).map fun i => start ++ toString (UInt64.ofNat i).toNat
  place_eq : ∀ draw ∈ drawn, draw.place = place
  order : ∀ thread, (bureau.returned ++ bureau.pending).filter (isOf place thread) =
    drawn.filter (·.thread == thread)

variable {place : Nat} {start : String} {bureau : Bureau} {drawn : List Draw}

section

variable (records : Records place start bureau drawn)

include records

/-- Symbols are drawn elsewhere. -/
theorem Records.pass {session : Session} {world : World}
    (spares : session.generators[place]? = bureau.session.generators[place]?)
    (elsewhere : ∀ draw ∈ more, draw.place ≠ place) :
    Records place start { bureau with session, world, pending := bureau.pending ++ more }
      drawn := by
  refine { records with generator := spares.trans records.generator, order := fun thread => ?_ }
  have none : more.filter (isOf place thread) = [] := by
    rw [List.filter_eq_nil_iff]
    intro draw mem isOf
    exact elsewhere draw mem (by simpa using (Bool.and_eq_true_iff.mp isOf).1)
  rw [← List.append_assoc, List.filter_append, none, List.append_nil, records.order]

theorem Records.perform {operation : Host α}
    (spares : Host.Spares place operation) : Records place start (bureau.perform operation) drawn :=
  { records with generator := spares _ bureau.world _ records.generator }

theorem Records.finish (thread : Nat) :
    Records place start (bureau.move (.finish thread)) drawn := by
  refine { records with order := fun other => ?_ }
  rw [← records.order other]
  simp only [move]
  cases found : bureau.pending.find? (·.thread == thread) with
  | none =>
    rw [List.eraseP_of_forall_not (by simpa using found)]
    simp
  | some draw =>
    obtain ⟨mine, before, behind, pending_eq, others⟩ := List.find?_eq_some_iff_append.mp found
    have erased : bureau.pending.eraseP (·.thread == thread) = before ++ behind := by
      rw [pending_eq, List.eraseP_append_right _ (by simpa using others),
        List.eraseP_cons_of_pos (by exact mine)]
    rw [erased, pending_eq]
    simp only [List.filter_append, List.filter_cons, Option.toList_some, List.filter_nil]
    by_cases same : isOf place other draw = true
    · have none_before : before.filter (isOf place other) = [] := by
        rw [List.filter_eq_nil_iff]
        intro earlier mem isOf
        simp only [Bureau.isOf, Bool.and_eq_true, beq_iff_eq] at isOf same mine
        simp_all
      simp [same, none_before]
    · simp [same]

/-- A symbol is drawn, the one of the next number. -/
theorem Records.draw (thread : Nat) (world : World) : Records place start { bureau with
        session := { bureau.session with
          generators := bureau.session.generators.setIfInBounds place
            { start, next := .ofNat drawn.length + 1 } }
        world
        pending := bureau.pending ++
          [⟨thread, place, start ++ toString (UInt64.ofNat drawn.length).toNat⟩] }
      (drawn ++ [⟨thread, place, start ++ toString (UInt64.ofNat drawn.length).toNat⟩]) where
  generator := by
    obtain ⟨bound, -⟩ := Array.getElem?_eq_some_iff.mp records.generator
    rw [Array.getElem?_setIfInBounds_self_of_lt bound, List.length_append, UInt64.ofNat_add]
    rfl
  symbols := by
    rw [List.map_append, records.symbols, List.length_append, List.length_singleton,
      List.range_succ, List.map_append]
    rfl
  place_eq := by
    intro draw mem
    rcases List.mem_append.mp mem with earlier | new
    · exact records.place_eq draw earlier
    · rw [List.mem_singleton.mp new]
  order other := by
    rw [← List.append_assoc, List.filter_append, records.order, List.filter_append]
    simp [List.filter_cons, isOf]

theorem Records.ask (thread : Nat) (dispenser : Dispenser) :
    ∃ drawn, Records place start (bureau.move (.ask thread dispenser)) drawn := by
  rw [move]
  split
  · exact ⟨drawn, records⟩
  dsimp only [Bureau.perform, draw?]
  rcases dispenser.performed_ask bureau.session bureau.world with
    ⟨chosen, chosen_eq, performed⟩ | ⟨refusal, performed⟩
  · rw [performed, Host.performed_takeSymbol, chosen_eq]
    cases found : bureau.session.generators[chosen]? with
    | none => exact ⟨drawn, records.pass rfl (by simp [Except.toOption])⟩
    | some symbols =>
      by_cases same : chosen = place
      · subst same
        obtain rfl := Option.some.inj (found.symm.trans records.generator)
        exact ⟨_, records.draw thread bureau.world⟩
      · exact ⟨drawn, records.pass (Array.getElem?_setIfInBounds_ne same)
          (by simp [Except.toOption, same])⟩
  · rw [performed]
    exact ⟨drawn, records.pass rfl (by simp [Except.toOption])⟩

theorem Records.run (moves : List Move) :
    ∃ drawn, Records place start (bureau.run moves) drawn := by
  induction moves generalizing bureau drawn with
  | nil => exact ⟨drawn, records⟩
  | cons first rest ih =>
    cases first with
    | ask thread dispenser =>
      obtain ⟨later, records⟩ := records.ask thread dispenser
      exact ih records
    | finish thread => exact ih (records.finish thread)
    | newSymbols name start => exact ih (records.perform (Host.spares_push _ _ fun _ => rfl))
    | newRuntime document generator =>
      exact ih (records.perform (Host.spares_newRuntime document generator))

theorem Records.perm : (bureau.calls place).Perm drawn := by
  rw [calls, List.perm_iff_count]
  intro draw
  by_cases here : draw.place = place
  · have mine : isOf place draw.thread draw = true := by simp [isOf, here]
    rw [List.count_filter (by simpa using here), ← List.count_filter mine, records.order,
      List.count_filter (by simp)]
  · rw [List.count_eq_zero.mpr (by simp [here]),
      List.count_eq_zero.mpr fun mem => here (records.place_eq draw mem)]

theorem Records.symbols_of_le (few : drawn.length ≤ 2 ^ 64) : drawn.map Draw.symbol =
      (List.range drawn.length).map fun number => start ++ toString number := by
  rw [records.symbols]
  refine List.map_congr_left fun number mem => ?_
  rw [UInt64.toNat_ofNat_of_lt' (Nat.lt_of_lt_of_le (List.mem_range.mp mem) few)]

end

end Bureau

/-- Different numbers make different symbols, whatever they begin with. -/
theorem Symbols.nodup (start : String) (count : Nat) :
    ((List.range count).map fun number => start ++ toString number).Nodup := by
  refine List.nodup_range.map fun left right same => ?_
  have digits : Nat.toDigits 10 left = Nat.toDigits 10 right :=
    String.ofList_injective ((String.append_right_inj start).mp same)
  rw [← @Nat.ofDigitChars_ten_toDigits left, digits, Nat.ofDigitChars_ten_toDigits]

/-- Symbols are fresh.  Threads ask for symbols in any order, by the name of a generator and by any
runtimes that share it, while generators and runtimes are made.  As long as the counter has not gone
round, the calls on a generator are given its beginning followed by the numerals from zero on, each
once; no two that have returned have returned the same; and every thread gets its own in increasing
order. -/
theorem symbols_are_fresh {session : Session} {place : Nat} {start : String}
    (fresh : session.generators[place]? = some { start })
    (world : World) (moves : List Bureau.Move)
    (runs : Bureau.run { session, world } moves = after)
    (few : (after.calls place).length ≤ 2 ^ 64) :
    ((after.calls place).map Draw.symbol).Perm
      ((List.range (after.calls place).length).map fun number => start ++ toString number) ∧
    ((after.returned.filter (·.place == place)).map Draw.symbol).Nodup ∧
    ∀ thread, ∃ numbers : List Nat,
      numbers.Pairwise (· < ·) ∧
      (after.returned.filter (Bureau.isOf place thread)).map Draw.symbol =
        numbers.map fun number => start ++ toString number := by
  have initial : Bureau.Records place start { session, world } [] :=
    { generator := fresh
      symbols := rfl
      place_eq := by simp
      order := fun _ => rfl }
  obtain ⟨drawn, records⟩ := initial.run moves
  rw [runs] at records
  have perm := records.perm
  rw [perm.length_eq] at few ⊢
  have symbols := records.symbols_of_le few
  have symbolsPerm := perm.map Draw.symbol
  rw [symbols] at symbolsPerm
  refine ⟨symbolsPerm, ?_, fun thread => ?_⟩
  · refine List.Nodup.sublist ?_ (symbolsPerm.nodup_iff.mpr (Symbols.nodup start drawn.length))
    exact ((List.sublist_append_left _ _).filter _).map _
  · have sublist : List.Sublist ((after.returned.filter (Bureau.isOf place thread)).map Draw.symbol)
        (drawn.map Draw.symbol) := by
      refine List.Sublist.trans (((List.sublist_append_left _ after.pending).filter _).map _) ?_
      rw [records.order thread]
      exact List.filter_sublist.map _
    rw [symbols, List.sublist_map_iff] at sublist
    obtain ⟨numbers, inRange, same⟩ := sublist
    exact ⟨numbers, List.pairwise_lt_range.sublist inRange, same⟩

/-- A session with a generator whose symbols begin with a numeral. -/
def numberedSession : Session where
  generators := #[{ start := "a1" }]
  generatorNames := [("g", 0)]

/-- Two threads ask the generator, one of them by a runtime that was made meanwhile, and the
second to ask is the first to return. -/
def overtakingCalls : List Bureau.Move :=
  [.ask 1 (.named "g"), .newRuntime none (some "g"), .ask 2 .runtime, .finish 2, .finish 1,
    .ask 2 (.named "g")]

theorem overtakingCalls_are_fresh :
    ∃ after, Bureau.run ⟨numberedSession, Session.newWorld, [], []⟩ overtakingCalls = after ∧
      after.returned.map Draw.symbol = ["a11", "a10"] ∧
      ((after.returned.filter (·.place == 0)).map Draw.symbol).Nodup := by
  refine ⟨_, rfl, by decide +kernel, ?_⟩
  exact (symbols_are_fresh (by rfl) _ _ rfl (by decide +kernel)).2.1

end ByNeed
