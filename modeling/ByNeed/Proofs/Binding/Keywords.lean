import ByNeed.Proofs.Binding.Passing
import ByNeed.Proofs.Dictionary.Settled
import ByNeed.Proofs.Safety.Veil

/-!
# Keywords and optional parameters

Of keywords with one name the last counts.  Each optional parameter takes the keyword of its name,
if none before it did, and else its default.  What is left goes into a dictionary.
-/

namespace ByNeed

open Attempt List

variable {self : Nat} {store start between after later : Store} {spreads : List Thunk}
variable {names : List String} {known : String → Option Thunk} {earlier : Store}

/-- What is known of names, apart from certain ones. -/
def without (known : String → Option Thunk) (names : List String) : String → Option Thunk :=
  fun name => if name ∈ names then none else known name

theorem without_nil (known : String → Option Thunk) : without known [] = known := by
  funext name
  simp [without]

theorem without_cons (known : String → Option Thunk) (name : String) (names : List String) :
    without known (name :: names) = without (without known [name]) names := by
  funext other
  by_cases mem : other ∈ names <;> by_cases same : other = name <;>
    simp [without, mem, same]

namespace Keywords

theorem mem_toList_iff (keywords : Keywords) (entry : String × Thunk) :
    entry ∈ keywords.toList ↔ keywords.get? entry.1 = some entry.2 := by
  rw [Std.TreeMap.get?_eq_getElem?]
  exact Std.TreeMap.mem_toList_iff_getElem?_eq_some

theorem toList_eq_nil_iff (keywords : Keywords) :
    keywords.toList = [] ↔ ∀ name, keywords.get? name = none := by
  rw [eq_nil_iff_forall_not_mem]
  constructor
  · intro noEntry name
    cases found : keywords.get? name with
    | none => rfl
    | some value => exact absurd ((mem_toList_iff keywords (name, value)).mpr found) (noEntry _)
  · intro unknown entry mem
    have found := (mem_toList_iff keywords entry).mp mem
    rw [unknown] at found
    contradiction

end Keywords

/-! ## Collecting -/

/-- A thunk is that of a default.  A computed default is a new thunk, in sight of exactly
the parameters bound before it. -/
def Default.Fills (default : Default) (start store : Store) (names : List String)
    (before : List Thunk) (thunk : Thunk) : Prop :=
  match default with
  | .fixed value => thunk = value
  | .computed scope body => start.Makes store thunk ∧
      store.slot? thunk = some (.suspended (.build (scope.bindAll names before) body))

/-- Values fill optional parameters in order.  Each is the keyword of its name, unless an
earlier one has the name too, or else its default. -/
structure FillsOptionals (start store : Store) (names : List String) (known : String → Option Thunk)
    (optionals : List Optional) (before values : List Thunk) : Prop where
  length_eq : values.length = optionals.length
  fills : ∀ earlier optional later, optionals = earlier ++ optional :: later →
    ∃ value, values[earlier.length]? = some value ∧
      match without known (earlier.map Optional.name) optional.name with
      | some passed => value = passed
      | none =>
        optional.default.Fills start store names (before ++ values.take earlier.length) value

theorem Default.Fills.mono {default : Default} {thunk : Thunk}
    (fills : default.Fills start store names before thunk)
    (holds : ∀ thunk, earlier.Holds thunk → start.Holds thunk)
    (spares : store.Spares (start.Makes store) later) :
    default.Fills earlier later names before thunk := by
  cases default with
  | fixed value => exact fills
  | computed scope body =>
    obtain ⟨made, suspended⟩ := fills
    have suspendedLater := (spares thunk made).trans suspended
    exact ⟨⟨fun held => made.1 (holds thunk held), ⟨_, suspendedLater⟩⟩, suspendedLater⟩

namespace FillsOptionals

variable {names : List String} {known : String → Option Thunk} {optionals rest : List Optional}
  {optional : Optional} {before values : List Thunk} {value : Thunk}

theorem mono (fills : FillsOptionals start store names known optionals before values)
    (holds : ∀ thunk, earlier.Holds thunk → start.Holds thunk)
    (spares : store.Spares (start.Makes store) later) :
    FillsOptionals earlier later names known optionals before values where
  length_eq := fills.length_eq
  fills := by
    intro former optional latter split
    obtain ⟨value, found, filled⟩ := fills.fills former optional latter split
    refine ⟨value, found, ?_⟩
    generalize without known (former.map Optional.name) optional.name = passed at filled ⊢
    cases passed with
    | some passed => exact filled
    | none => exact filled.mono holds spares

theorem nil : FillsOptionals start store names known [] before [] where
  length_eq := rfl
  fills := by
    intro earlier optional later split
    simp at split

/-- The first optional parameter takes its keyword from the others. -/
theorem cons
    (first : match known optional.name with
      | some passed => value = passed
      | none => optional.default.Fills start store names before value)
    (others : FillsOptionals start store names (without known [optional.name]) rest
      (before ++ [value]) values) :
    FillsOptionals start store names known (optional :: rest) before (value :: values) where
  length_eq := by rw [length_cons, length_cons, others.length_eq]
  fills := by
    intro earlier other later split
    cases earlier with
    | nil =>
      obtain ⟨rfl, rfl⟩ := List.cons.inj split
      refine ⟨value, rfl, ?_⟩
      simpa [without_nil] using first
    | cons former earlier =>
      obtain ⟨rfl, isRest⟩ := List.cons.inj split
      obtain ⟨found, isFound, filled⟩ := others.fills earlier other later isRest
      refine ⟨found, isFound, ?_⟩
      rw [map_cons, without_cons]
      simpa using filled

end FillsOptionals

theorem Store.Adds.gains (adds : store.Adds after) : store.Gains after := by
  refine ⟨adds.grows, ?_⟩
  induction adds with
  | refl => rfl
  | make _ slot unclaimed ih => exact ih

theorem Store.Gains.trans (first : store.Gains between) (second : between.Gains after) :
    store.Gains after :=
  ⟨first.grows.trans second.grows, second.channels_eq.trans first.channels_eq⟩

/-- Names are keys that answer at once, so nothing changes but the identities handed out. -/
noncomputable def Store.nameKeys (number : Nat) (base : Store) : Keys number where
  toKeySpace := (base.settledKeys number).toKeySpace
  Hashable key := ∃ name, key = .string name
  Usable store := ∃ count, store = { base with nextIdentity := count }
  hashes usable hashable := by
    obtain ⟨count, rfl⟩ := usable
    obtain ⟨name, rfl⟩ := hashable
    refine ⟨_, ⟨count, rfl⟩, ?_⟩
    simp only [settledKeys, shape?_eq_some (.string name), Option.map_some, Option.getD_some]
    exact returns_hashValue (Value.Has.string name).hash_returns.1
  equals usable leftHashable rightHashable := by
    obtain ⟨count, rfl⟩ := usable
    obtain ⟨left, rfl⟩ := leftHashable
    obtain ⟨right, rfl⟩ := rightHashable
    refine ⟨_, ⟨count, rfl⟩, ?_⟩
    simp only [settledKeys, shape?_eq_some (.string left), shape?_eq_some (.string right)]
    simpa using (Value.Has.string left).equalValues_returns (Value.Has.string right)
  stamps usable := by
    obtain ⟨count, rfl⟩ := usable
    exact ⟨_, rfl⟩

/-- A dictionary has one entry for each name that is known, and no others. -/
structure Dictionary.Collects (dict : Dict) (known : String → Option Thunk) : Prop where
  mem_toList_iff : ∀ entry, entry ∈ dict.toList ↔
    ∃ name value, entry = (.string name, value) ∧ known name = some value
  nodup : (dict.toList.map Prod.fst).Nodup
  size_eq : dict.size = dict.toList.length

namespace Keywords

/-- Keywords as entries of a dictionary. -/
def entries (keywords : Keywords) : List (Value × Thunk) :=
  keywords.toList.map fun (name, value) => (.string name, value)

theorem mem_entries_iff (keywords : Keywords) (entry : Value × Thunk) :
    entry ∈ keywords.entries ↔
      ∃ name value, entry = (.string name, value) ∧ keywords.get? name = some value := by
  simp only [entries, List.mem_map, Prod.exists, mem_toList_iff]
  grind

theorem equal_string (store : Store) (left right : String) :
    (store.settledKeys self).equal (.string left) (.string right) = decide (left = right) := by
  simp [Store.settledKeys, Store.shape?_eq_some (.string left),
    Store.shape?_eq_some (.string right)]

theorem apart_entries (keywords : Keywords) (store : Store) :
    (store.settledKeys self).toKeySpace.Apart keywords.entries := by
  rw [KeySpace.Apart, entries, pairwise_map]
  refine Std.TreeMap.distinct_keys_toList.imp fun ne => ?_
  rw [Std.compare_eq_iff_eq] at ne
  rw [equal_string, decide_eq_false ne]

theorem lookup_writeAll_entries (keywords : Keywords) (store : Store) (key : Value) :
    (History.empty.writeAll keywords.entries).lookup (store.settledKeys self).toKeySpace key =
      (keywords.entries.filter ((store.settledKeys self).toKeySpace.isFor key)).head? := by
  rw [History.lookup_writeAll (keywords.apart_entries store)]
  cases (keywords.entries.filter _).head? <;> rfl

theorem lookup_writeAll_string (keywords : Keywords) (store : Store) (name : String) :
    (History.empty.writeAll keywords.entries).lookup (store.settledKeys self).toKeySpace
        (.string name) =
      (keywords.get? name).map fun value => (.string name, value) := by
  rw [lookup_writeAll_entries]
  -- Only the keyword of the name can be found under it.
  have found_iff : ∀ entry, entry ∈ keywords.entries.filter
      ((store.settledKeys self).toKeySpace.isFor (.string name)) ↔
        ∃ value, entry = (.string name, value) ∧ keywords.get? name = some value := by
    intro entry
    rw [mem_filter, mem_entries_iff]
    constructor
    · rintro ⟨⟨other, value, rfl, known⟩, isFor⟩
      rw [KeySpace.isFor, equal_string, decide_eq_true_iff] at isFor
      subst isFor
      exact ⟨value, rfl, known⟩
    · rintro ⟨value, rfl, known⟩
      exact ⟨⟨name, value, rfl, known⟩, KeySpace.isFor_self _⟩
  generalize keywords.entries.filter _ = found at found_iff
  cases known : keywords.get? name with
  | none =>
    have nothing : found = [] := by
      rw [eq_nil_iff_forall_not_mem]
      intro entry mem
      obtain ⟨value, -, isKnown⟩ := (found_iff entry).mp mem
      rw [known] at isKnown
      contradiction
    rw [nothing]
    rfl
  | some value =>
    have isThere := (found_iff (.string name, value)).mpr ⟨value, rfl, known⟩
    cases found with
    | nil => contradiction
    | cons entry rest =>
      obtain ⟨other, rfl, isKnown⟩ := (found_iff entry).mp mem_cons_self
      rw [known] at isKnown
      cases isKnown
      rfl

end Keywords

/-- Keywords are put into a dictionary, and names can be looked up there from then on. -/
theorem exists_ofEntries (self : Nat) (keywords : Keywords) (store : Store) :
    ∃ dict after,
      (Dictionary.ofEntries keywords.entries).Returns self store dict after ∧
      after.digest = store.digest ∧
      store.Gains after ∧
      dict.Collects keywords.get? ∧
      ∀ later, store.Keeps later → later.digest = store.digest → ∀ name,
        ∃ left, (dict.get? (.string name)).Returns self later (keywords.get? name) left := by
  have entriesHashable : ∀ entry ∈ keywords.entries, (store.nameKeys self).Hashable entry.1 := by
    intro entry mem
    obtain ⟨name, value, rfl, -⟩ := (keywords.mem_entries_iff entry).mp mem
    exact ⟨name, rfl⟩
  have usable : (store.nameKeys self).Usable store := ⟨store.nextIdentity, rfl⟩
  obtain ⟨dict, _, ⟨count, rfl⟩, returns, namesHold, -⟩ :=
    Keys.Holds.yields_ofEntries usable entriesHashable
  -- Names are keys wherever what is settled is kept.
  have holds : (store.settledKeys self).Holds dict (History.empty.writeAll keywords.entries) := by
    refine ⟨namesHold.represents, History.All.writeAll trivial fun entry mem => ?_⟩
    obtain ⟨name, same⟩ := entriesHashable entry mem
    exact same ▸ ⟨_, .string name⟩
  have represents := holds.represents
  refine ⟨dict, _, returns, rfl, ⟨.of_slots_eq rfl, rfl⟩,
    ⟨fun entry => ?_, ?_, represents.valid.size_eq⟩, fun later keeps digest_eq name => ?_⟩
  · rw [represents.mem_toList_iff]
    constructor
    · intro found
      rw [Keywords.lookup_writeAll_entries] at found
      have mem := (mem_filter.mp (mem_of_head? found)).1
      exact (keywords.mem_entries_iff entry).mp mem
    · rintro ⟨name, value, rfl, known⟩
      rw [Keywords.lookup_writeAll_string, known]
      rfl
  · rw [List.Nodup, pairwise_map]
    refine represents.apart.imp fun {left right} ne same => ?_
    rw [same, (store.settledKeys self).equal_refl] at ne
    contradiction
  · obtain ⟨result, left, -, found, rfl⟩ :=
      holds.yields_get? ⟨keeps, digest_eq⟩ ⟨_, .string name⟩
    refine ⟨left, ?_⟩
    rw [Keywords.lookup_writeAll_string, Option.map_map] at found
    simpa using found

end ByNeed
