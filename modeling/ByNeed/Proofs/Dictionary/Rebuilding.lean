import ByNeed.Proofs.Binding.Passing
import ByNeed.Proofs.Dictionary.Laws
import ByNeed.Proofs.Dictionary.Union
import ByNeed.Proofs.Safety.Veil

/-!
# Dictionaries forget how they were built

In what order entries are assigned decides how buckets are filled, but entries are sorted before
they are compared or written, and their hashes are added up.  So no question shows it.
-/

namespace ByNeed

open Attempt Store Dictionary LazyList List

variable {self : Nat} {store after : Store}

/-! ## Questions -/

/-- Once a value was hashed, another has the same hash, or has none either. -/
def Value.HashesLike (self : Nat) (store : Store) (left right : Value) : Prop :=
  ∀ outcome between, (hashValue left).run.Ends self store (.ok outcome) between →
    (∀ word, outcome = .ok word → (hashValue right).Returns self between word between) ∧
    ∀ failure, outcome = .error failure →
      ∀ word last, ¬(hashValue right).Returns self between word last

/-- To write one dictionary is to write the other. -/
def Dictionary.RendersLike (self : Nat) (store : Store) (left right : Dict) : Prop :=
  ∀ outcome after, (render (.dictionary left)).run.Ends self store outcome after ↔
    (render (.dictionary right)).run.Ends self store outcome after

theorem ends_render_iff : (render value).run.Ends self store outcome after ↔
      value.render.run.Ends self store outcome after :=
  Code.ends_call_done_iff

theorem Dictionary.rendersLike_of_sortedEntries {left right : Dict}
    (leftSorts : left.sortedEntries.Returns self store sorted store)
    (rightSorts : right.sortedEntries.Returns self store sorted store) :
    left.RendersLike self store right := by
  intro outcome after
  rw [ends_render_iff, ends_render_iff, Value.render, Value.render, leftSorts.ends_bind_iff,
    rightSorts.ends_bind_iff]

/-! ## Permuted entries -/

theorem Dictionary.Represents.toList_perm {space : KeySpace κ} {dictionary : Dictionary κ ν}
    {entries : List (κ × ν)}
    (represents : dictionary.Represents space (History.empty.writeAll entries))
    (apart : space.Apart entries) : dictionary.toList.Perm entries := by
  have nodup : ∀ {entries : List (κ × ν)}, space.Apart entries → entries.Nodup := by
    refine fun apart => apart.imp ?_
    rintro left _ unequal rfl
    rw [space.equal_refl] at unequal
    contradiction
  refine (perm_ext_iff_of_nodup (nodup represents.apart) (nodup apart)).mpr fun entry => ?_
  rw [represents.mem_toList_iff, ← Option.mem_toList, History.toList_lookup_writeAll apart,
    mem_filter]
  exact ⟨And.left, fun mem => ⟨mem, KeySpace.isFor_self entry⟩⟩

section Stage

variable {frame : Frame} {stage : Stage frame} {left right : Dict}
variable {entries : List (Value × Thunk)}

theorem Stage.exists_keyed (exact : stage.Exact) (admits : ∀ entry ∈ entries, stage.Admits entry.1)
    (returns : Attempt.Returns frame.self (entries.mapM fun entry => hashValue entry.1)
      stage.store words hashed) :
    ∃ later : Stage frame, stage ≤ later ∧ later.store = hashed ∧ later.Exact ∧
      ∀ entry ∈ entries, later.Keyed entry.1 := by
  induction entries generalizing stage words with
  | nil =>
    rw [mapM_nil] at returns
    exact ⟨stage, le_rfl, ((returns_pure _ _).unique returns).2, exact, by simp⟩
  | cons entry rest ih =>
    obtain ⟨entryAdmits, restAdmits⟩ := forall_mem_cons.mp admits
    rw [mapM_cons] at returns
    obtain ⟨word, between, hashes, others⟩ := returns.of_bind
    obtain ⟨restWords, _, restHashes, ends⟩ := others.of_bind
    obtain ⟨-, rfl⟩ := (returns_pure _ _).unique ends
    obtain ⟨next, le, rfl, exactNext, known⟩ :=
      exists_hashed exact entryAdmits hashes
    obtain ⟨later, leLater, same, exactLater, keyed⟩ :=
      ih exactNext (fun other mem => (restAdmits other mem).mono le) restHashes
    have entryKeyed : next.Keyed entry.1 := ⟨entryAdmits.mono le, known.choose, word,
      known.choose_spec⟩
    exact ⟨later, le.trans leLater, same, exactLater,
      forall_mem_cons.mpr ⟨entryKeyed.mono leLater, keyed⟩⟩

theorem Stage.exists_ofEntries {base : Stage frame}
    (le : base ≤ stage) (exact : stage.Exact) (keyed : ∀ entry ∈ entries, base.Keyed entry.1)
    (sees : ∀ entry ∈ entries, base.store.Sees entry.2) (apart : base.keySpace.Apart entries) :
    ∃ made, ∃ later : Stage frame, stage ≤ later ∧ later.Exact ∧
      (Dictionary.ofEntries entries).Returns frame.self stage.store made later.store ∧
      later.AdmitsDictionary made ∧ made.toList.Perm entries := by
  have usable : (keys (le_refl base)).Usable stage.store := Stage.recalls le
  obtain ⟨made, later, leLater, exactLater, returns, admits, holds⟩ :=
    Stage.exists_later (Keys.Holds.yields_ofEntries usable keyed) (ofEntries_safe fun entry mem =>
      ⟨(keyed entry mem).1.mono le, (sees entry mem).mono le⟩) exact
  exact ⟨made, later, leLater, exactLater, returns, admits, holds.represents.toList_perm apart⟩

section

variable (leftAdmits : stage.AdmitsDictionary left) (rightAdmits : stage.AdmitsDictionary right)
  (perm : left.toList.Perm right.toList)

include leftAdmits rightAdmits perm

/-- Dictionaries with the same entries are equal. -/
theorem Dictionary.matches_of_perm :
    stage.store.Matches (.dictionary left) (.dictionary right) := by
  have sameSize : left.size = right.size := by
    rw [leftAdmits.1, rightAdmits.1, perm.length_eq]
  refine matches_of_counterparts leftAdmits rightAdmits sameSize fun entry mem => ?_
  exact ⟨entry, perm.mem_iff.mp mem, matches_self (leftAdmits.entries stage.sound mem).1
    (hashable_key leftAdmits mem), .inl rfl⟩

theorem Dictionary.exists_sortedEntries_eq (self : Nat) :
    ∃ sorted, ∀ later, stage.store.Recalls later →
      left.sortedEntries.Returns self later sorted later ∧
        right.sortedEntries.Returns self later sorted later := by
  obtain ⟨bound, hashes⟩ := exists_bound_keys leftAdmits
  have leftAt : ∀ entry ∈ left.toList, HashesAt stage bound entry.1 := fun entry mem =>
    ⟨(leftAdmits.entries stage.sound mem).1, hashes entry mem⟩
  have rightAt : ∀ entry ∈ right.toList, HashesAt stage bound entry.1 := fun entry mem =>
    leftAt entry (perm.mem_iff.mpr mem)
  obtain ⟨sorted, leftSorts, leftPerm, leftBefore⟩ := exists_sorted leftAdmits leftAt
  obtain ⟨other, rightSorts, rightPerm, rightBefore⟩ := exists_sorted rightAdmits rightAt
  obtain rfl : sorted = other := by
    refine List.Perm.eq_of_pairwise ?_ leftBefore rightBefore
      ((leftPerm.trans perm).trans rightPerm.symm)
    intro first second firstMember secondMember before behind
    have turned := (lawful_hashesAt bound).swap (leftAt _ (leftPerm.mem_iff.mp firstMember))
      (rightAt _ (rightPerm.mem_iff.mp secondMember)) before
    rw [behind] at turned
    cases turned
  refine ⟨sorted, fun later recalls => ?_⟩
  have refines := sortEntries?_refines (order?_refines recalls (Nat.le_refl bound)) []
  have sorts := fun {dictionary : Dict} (known : Store.sortEntries? (stage.store.order? bound) []
      dictionary.toList = some sorted) =>
    sortEntries_returns (returns_of_order? self later bound).1 (refines _ _ known)
  exact ⟨sorts leftSorts, sorts rightSorts⟩

end

/-- Of two equal values, the second has the hash that was found for the first, and it has none
if the first was found to have none. -/
theorem Stage.hashesLike {left right : Value} (exact : stage.Exact) (leftAdmits : stage.Admits left)
    (rightAdmits : stage.Admits right) (isEqual : stage.store.Matches left right) :
    left.HashesLike frame.self stage.store right := by
  obtain ⟨depth, equal⟩ := isEqual
  intro outcome between ends
  obtain ⟨middle, le, rfl, exactMiddle, agrees⟩ :=
    (hashValue_reads leftAdmits).of_ends exact ends
  have still := fun {later : Stage frame} (le : stage ≤ later) =>
    order?_refines (Stage.recalls le) (Nat.le_refl depth) left right _ equal
  constructor
  · rintro word rfl
    obtain ⟨bound, known⟩ := agrees.known
    exact (returns_of_hash? frame.self middle.store bound).1 ((hash?_of_order? middle depth bound).1
      (leftAdmits.mono le) (rightAdmits.mono le) (still le) known)
  · rintro failure rfl word last returns
    obtain ⟨final, leFinal, rfl, -, bound, known⟩ :=
      exists_hashed exactMiddle (rightAdmits.mono le) returns
    have turned := (order?_lawful final depth).swap (leftAdmits.mono (le.trans leFinal))
      (rightAdmits.mono (le.trans leFinal)) (still (le.trans leFinal))
    have carried := (hash?_of_order? final depth bound).1 (rightAdmits.mono (le.trans leFinal))
      (leftAdmits.mono (le.trans leFinal)) turned known
    cases agrees.eq_of_known (.hash left) leFinal carried

end Stage

/-! ## Taking a dictionary apart -/

namespace Store

variable {cells : LazyList} {elements : List Thunk}

/-- Cells consist of certain elements, and their tails are memoised. -/
def Consists (store : Store) : LazyList → List Thunk → Prop
  | .empty, elements => elements = []
  | .cons head tail, elements => ∃ rest, elements = head :: rest ∧ store.Spine tail rest

/-- A pair of key and value is memoised. -/
def Pairs (store : Store) (pair : Thunk) (entry : Value × Thunk) : Prop :=
  ∃ key, store.slot? key = some (.evaluated entry.1) ∧ store.Spine pair [key, entry.2]

section

variable (shows : store.Consists cells elements)

include shows

theorem Consists.spine (held : store.slot? list = some (.evaluated (.list cells))) :
    store.Spine list elements := by
  cases cells with
  | empty =>
    obtain rfl : elements = [] := shows
    exact held
  | cons head tail =>
    obtain ⟨rest, rfl, spine⟩ := shows
    exact ⟨tail, held, spine⟩

theorem Consists.of_grows (grows : store.Grows after) : after.Consists cells elements := by
  cases cells with
  | empty => exact shows
  | cons head tail =>
    obtain ⟨rest, same, spine⟩ := shows
    exact ⟨rest, same, spine.mono fun thunk value held => grows.keeps thunk _ held⟩

theorem Consists.returns (self : Nat) : cells.elements.Returns self store elements store := by
  cases cells with
  | empty =>
    obtain rfl : elements = [] := shows
    exact returns_elements (returns_pure [] store)
  | cons head tail =>
    obtain ⟨rest, rfl, spine⟩ := shows
    refine returns_elements ?_
    rw [elementsStep_cons]
    exact (spine.returns self).map (head :: ·)

end

theorem Pairs.mono (pairs : store.Pairs pair entry)
    (evaluated : ∀ thunk value, store.slot? thunk = some (.evaluated value) →
      after.slot? thunk = some (.evaluated value)) : after.Pairs pair entry := by
  obtain ⟨key, held, spine⟩ := pairs
  exact ⟨key, evaluated key _ held, spine.mono evaluated⟩

end Store

/-- Elements are put in front of cells. -/
theorem LazyList.exists_consEach (shows : store.Consists cells others) (elements : List Thunk) :
    ∃ made after, (consEach elements cells).Runs self store (.ok made) after ∧
      store.Grows after ∧ after.Consists made (elements.reverse ++ others) := by
  induction elements generalizing cells others store with
  | nil => exact ⟨cells, store, .done cells store, .of_slots_eq rfl, shows⟩
  | cons element rest ih =>
    have grows := store.grows_allocate (.evaluated (.list cells)) (by simp)
    have spine := (shows.of_grows grows).spine (store.slot?_allocated _)
    have showsCell : (store.allocate (.evaluated (.list cells))).2.Consists
        (.cons element (store.allocate (.evaluated (.list cells))).1) (element :: others) :=
      ⟨others, rfl, spine⟩
    obtain ⟨made, after, runs, growsLater, showsLater⟩ := ih showsCell
    refine ⟨made, after, .act rfl runs, grows.trans growsLater, ?_⟩
    rwa [reverse_cons, append_assoc]

theorem LazyList.exists_ofThunks (self : Nat) (store : Store) (elements : List Thunk) :
    ∃ made after, (ofThunks elements).Runs self store (.ok made) after ∧
      store.Grows after ∧ after.Consists made elements := by
  have nothing : store.Consists .empty [] := rfl
  obtain ⟨made, after, runs, grows, shows⟩ := exists_consEach nothing elements.reverse
  rw [reverse_reverse, append_nil] at shows
  exact ⟨made, after, runs, grows, shows⟩

/-- The code that makes a pair of key and value. -/
def Dictionary.pair (entry : Value × Thunk) : Code Thunk := do
  let keyThunk ← newValue entry.1
  newValue (.list (← LazyList.ofThunks [keyThunk, entry.2]))

theorem Dictionary.exists_pair (self : Nat) (store : Store) (entry : Value × Thunk) :
    ∃ pair after, (Dictionary.pair entry).Runs self store (.ok pair) after ∧
      store.Grows after ∧ after.Pairs pair entry := by
  have keyGrows := store.grows_allocate (.evaluated entry.1) (by simp)
  let key := store.allocate (.evaluated entry.1)
  obtain ⟨cells, between, runs, grows, shows⟩ :=
    exists_ofThunks self key.2 [key.1, entry.2]
  have pairGrows := between.grows_allocate (.evaluated (.list cells)) (by simp)
  refine ⟨_, _, .act rfl (runs.bind rfl (.act rfl (.done _ _))),
    (keyGrows.trans grows).trans pairGrows, key.1, ?_, ?_⟩
  · exact (grows.trans pairGrows).keeps _ _ (store.slot?_allocated _)
  · exact (shows.of_grows pairGrows).spine (between.slot?_allocated _)

/-- A dictionary is taken apart. -/
theorem Dictionary.exists_pairs (self : Nat) (store : Store) (dictionary : Dict) :
    ∃ pairs thunks after, dictionary.pairs.Runs self store (.ok pairs) after ∧
      after.Consists pairs thunks ∧ List.Forall₂ after.Pairs thunks dictionary.toList := by
  have each : ∀ (entries : List (Value × Thunk)) (store : Store), ∃ thunks after,
      (entries.mapM Dictionary.pair).Runs self store (.ok thunks) after ∧
        store.Grows after ∧ List.Forall₂ after.Pairs thunks entries := by
    intro entries
    induction entries with
    | nil => exact fun store => ⟨[], store, .done [] store, .of_slots_eq rfl, .nil⟩
    | cons entry rest ih =>
      intro store
      obtain ⟨pair, between, runs, grows, isPair⟩ := exists_pair self store entry
      obtain ⟨thunks, after, restRuns, restGrows, aligned⟩ := ih between
      rw [mapM_cons]
      refine ⟨pair :: thunks, after, runs.bind rfl (restRuns.bind rfl (.done _ _)),
        grows.trans restGrows, .cons ?_ aligned⟩
      exact isPair.mono fun thunk value held => restGrows.keeps thunk _ held
  obtain ⟨thunks, between, runs, -, aligned⟩ := each dictionary.toList store
  obtain ⟨pairs, after, runsLater, grows, shows⟩ := exists_ofThunks self between thunks
  refine ⟨pairs, thunks, after, runs.bind rfl runsLater, shows, aligned.imp fun _ _ isPair => ?_⟩
  exact isPair.mono fun thunk value held => grows.keeps thunk _ held

/-! ## Putting it together again -/

/-- Assign pairs of key and value one after the other, with the keys that they evaluate to. -/
def Dictionary.insertPairs : Dict → List Thunk → Attempt Dict
  | dictionary, [] => return dictionary
  | dictionary, pair :: rest => do
      match ← listElements pair with
      | [key, value] => insertPairs (← dictionary.insert (← force key) value) rest
      | _ => .fault .unpairedKey

/-- Take a dictionary apart and assign the pairs to the empty one. -/
def Dictionary.rebuilt (dictionary : Dict) : Attempt Dict := do
  let pairs ← dictionary.pairs
  insertPairs .empty (← pairs.elements)

/-- Pairs are assigned as the entries are, unless a key is an effect. -/
theorem Dictionary.insertPairs_returns {pairs : List Thunk}
    (aligned : List.Forall₂ store.Pairs pairs entries)
    (pure : ∀ entry ∈ entries, entry.1.purely = entry.1) {dictionary next : Dict}
    (returns : (dictionary.insertAll entries).Returns self store next after) :
    (dictionary.insertPairs pairs).Returns self store next after := by
  induction entries generalizing pairs dictionary store with
  | nil =>
    cases aligned
    exact returns
  | cons entry entries ih =>
    obtain _ | ⟨isPair, aligned⟩ := aligned
    obtain ⟨entryPure, restPure⟩ := forall_mem_cons.mp pure
    obtain ⟨key, held, spine⟩ := isPair
    obtain ⟨made, between, inserts, others⟩ := returns.of_bind
    have forces : Attempt.Returns self (ExceptT.lift (force key)) store entry.1 store :=
      entryPure ▸ returns_force (slot_eq_of_slot? held)
    refine (spine.returns self).bind (forces.bind (inserts.bind (ih ?_ restPure others)))
    exact aligned.imp fun _ _ isPair => isPair.mono (Store.Evolves.of_ends inserts).evaluated

section Forgets

variable {digest : List Piece → UInt64} {moves : List Move} {made : List Dict}
  {asked : List Consultation}

/-- Dictionaries forget how they were built.  If the keys of entries have been hashed and no
two of them are equal, the dictionaries of the entries in any two orders compare as equal,
have the same hash if they have one, and are written in the same way.  A dictionary without
effects among its keys is equal to what its pairs are put together to. -/
theorem dictionaries_forget_how_they_were_built
    (workshop : Workshop self ((Service.initial digest).run moves).store made asked store) :
    (∀ (entries order : List (Value × Thunk)) (words : List UInt64) (hashed : Store),
      (∀ entry ∈ entries, entry.1.Offered store made ∧ store.Sees entry.2) →
      Attempt.Returns self (entries.mapM fun entry => hashValue entry.1) store words hashed →
      (entries.Pairwise fun left right =>
        (equalValues left.1 right.1).Returns self hashed false hashed) →
      order.Perm entries →
      ∃ left between right after,
        (Dictionary.ofEntries entries).Returns self hashed left between ∧
        (Dictionary.ofEntries order).Returns self between right after ∧
        (compareValues (.dictionary left) (.dictionary right)).Returns self after .eq after ∧
        Value.HashesLike self after (.dictionary left) (.dictionary right) ∧
        Value.HashesLike self after (.dictionary right) (.dictionary left) ∧
        ∀ later, after.Recalls later → left.RendersLike self later right) ∧
    ∀ dictionary ∈ made,
      (∀ entry ∈ dictionary.toList, entry.1.purely = entry.1) →
      ∃ rebuilt after,
        dictionary.rebuilt.Returns self store rebuilt after ∧
        rebuilt.size = dictionary.size ∧
        (compareValues (.dictionary rebuilt) (.dictionary dictionary)).Returns self after .eq
          after := by
  obtain ⟨held, stage, rfl, exact, admits, -⟩ := workshop.exists_stage
  constructor
  · intro entries order words hashed offered hashes unequal perm
    have holds : ∀ entry ∈ entries, stage.Admits entry.1 ∧ stage.store.Sees entry.2 :=
      fun entry mem => ⟨(offered entry mem).1.admits admits, (offered entry mem).2⟩
    obtain ⟨base, leBase, rfl, exactBase, keyed⟩ :=
      Stage.exists_keyed exact (fun entry mem => (holds entry mem).1) hashes
    have apart : base.keySpace.Apart entries := by
      refine unequal.imp_of_mem fun {left right} leftMember rightMember returns => ?_
      have leftKeyed := keyed left leftMember
      have rightKeyed := keyed right rightMember
      rw [leftKeyed.equal_eq_false_iff rightKeyed, ← Store.exists_equal?_false_iff]
      exact (equalValues_returns_iff exactBase leftKeyed.1 rightKeyed.1 false).mp returns
    have sees := fun entry mem => (holds entry mem).2.mono leBase
    obtain ⟨left, middle, leMiddle, exactMiddle, leftReturns, leftAdmits, leftPerm⟩ :=
      Stage.exists_ofEntries le_rfl exactBase keyed sees apart
    obtain ⟨right, last, leLast, exactLast, rightReturns, rightAdmits, rightPerm⟩ :=
      Stage.exists_ofEntries leMiddle exactMiddle (fun entry mem => keyed entry (perm.mem_iff.mp
        mem)) (fun entry mem => sees entry (perm.mem_iff.mp mem)) (apart.perm perm)
    have samePerm := leftPerm.trans (rightPerm.trans perm).symm
    have leftAdmitsLast := leftAdmits.mono leLast
    have isEqual := Dictionary.matches_of_perm leftAdmitsLast rightAdmits samePerm
    obtain ⟨sorted, sorts⟩ :=
      Dictionary.exists_sortedEntries_eq leftAdmitsLast rightAdmits samePerm self
    refine ⟨left, middle.store, right, last.store, leftReturns, rightReturns,
      Stage.returns_compare_of_matches self isEqual, Stage.hashesLike exactLast leftAdmitsLast
      rightAdmits isEqual, Stage.hashesLike exactLast rightAdmits leftAdmitsLast
        (Dictionary.matches_of_perm rightAdmits leftAdmitsLast samePerm.symm), ?_⟩
    exact fun later recalls =>
      Dictionary.rendersLike_of_sortedEntries (sorts later recalls).1 (sorts later recalls).2
  · intro dictionary isMade pure
    have dictionaryAdmits := admits dictionary isMade
    have holds := Stage.holds_of_admits (le_refl stage) dictionaryAdmits
    obtain ⟨pairs, thunks, between, takes, shows, aligned⟩ :=
      Dictionary.exists_pairs self stage.store dictionary
    obtain ⟨middle, leMiddle, rfl, exactMiddle, -⟩ :=
      Code.Safe.of_ends (Dictionary.pairs_safe dictionaryAdmits)
        (fun _ _ _ le sees => sees.mono le) exact (Code.ends_iff_runs.mpr takes)
    obtain ⟨rebuilt, last, leLast, -, returns, rebuiltAdmits, perm⟩ :=
      Stage.exists_ofEntries leMiddle exactMiddle (fun entry mem => holds.hashable_toList mem)
        (fun entry mem => (dictionaryAdmits.entries stage.sound mem).2) holds.represents.apart
    have admitsLast := dictionaryAdmits.mono (leMiddle.trans leLast)
    refine ⟨rebuilt, last.store, (Attempt.returns_lift takes).bind ((shows.returns self).bind
      (Dictionary.insertPairs_returns aligned pure returns)), ?_, ?_⟩
    · rw [rebuiltAdmits.1, admitsLast.1, perm.length_eq]
    · exact Stage.returns_compare_of_matches self
        (Dictionary.matches_of_perm rebuiltAdmits admitsLast perm)

end Forgets

theorem Dictionary.toList_single (stamp : Nat) (hash : UInt64) (key : Value) (value : Thunk) :
    (single stamp hash key value).toList = [(key, value)] :=
  rfl

theorem dictionaries_forget_how_they_were_built_of_lists :
    (∃ left between right after,
      (Dictionary.ofEntries [(listAt 0, ⟨0⟩), (.nil, ⟨5⟩)]).Returns 7 (listedStore 2) left between ∧
      (Dictionary.ofEntries [(.nil, ⟨5⟩), (listAt 0, ⟨0⟩)]).Returns 7 between right after ∧
      (compareValues (.dictionary left) (.dictionary right)).Returns 7 after .eq after) ∧
    ∃ rebuilt after, (listed 0).rebuilt.Returns 7 (listedStore 2) rebuilt after ∧
      rebuilt.size = (listed 0).size := by
  obtain ⟨permuted, rebuilding⟩ := dictionaries_forget_how_they_were_built workshop_listed
  constructor
  · have sees : [⟨0⟩, ⟨3⟩, ⟨5⟩].all (listedStore 2).canSee = true := by decide +kernel
    simp only [List.all_cons, List.all_nil, Bool.and_true, Bool.and_eq_true,
      Store.canSee_iff] at sees
    obtain ⟨word, known⟩ : ∃ word, (listedStore 2).hash? 4 (listAt 0) = some word :=
      Option.isSome_iff_exists.mp (by decide +kernel)
    obtain ⟨nilWord, nilKnown⟩ : ∃ word, (listedStore 2).hash? 1 .nil = some word :=
      Option.isSome_iff_exists.mp (by decide +kernel)
    have hashes : Attempt.Returns 7 ([(listAt 0, (⟨0⟩ : Thunk)), (.nil, ⟨5⟩)].mapM fun entry =>
        hashValue entry.1) (listedStore 2) [word, nilWord] (listedStore 2) := by
      rw [List.mapM_cons, List.mapM_cons, List.mapM_nil]
      exact ((returns_of_hash? 7 _ 4).1 known).bind ((((returns_of_hash? 7 _ 1).1 nilKnown).bind
        ((Attempt.returns_pure _ _).map (nilWord :: ·))).map (word :: ·))
    have unequal : (listedStore 2).equal? 1 (listAt 0) .nil = some false := by decide +kernel
    obtain ⟨left, between, right, after, builds, buildsToo, equal, -⟩ :=
      permuted _ [(.nil, ⟨5⟩), (listAt 0, ⟨0⟩)] _ _ (by simp [Value.Offered, listAt,
        LazyList.thunks, sees]) hashes (by simp [Store.returns_of_equal? 7 unequal]) (.swap _ _ _)
    exact ⟨left, between, right, after, builds, buildsToo, equal⟩
  · obtain ⟨rebuilt, after, returns, sameSize, -⟩ := rebuilding (listed 0) (by simp) (by
      simp [listed, Dictionary.toList_single, listAt, Value.purely])
    exact ⟨rebuilt, after, returns, sameSize⟩

/-! ## Effects among the keys -/

/-- Forcing a key that is an effect gives an error, which is no key. -/
theorem Dictionary.insertPairs_fails {pair value payload : Thunk}
    (isPair : store.Pairs pair (.effect identity payload, value)) (dictionary : Dict)
    (rest : List Thunk) :
    (dictionary.insertPairs (pair :: rest)).Fails self store Fault.impureEffect.error store := by
  obtain ⟨key, held, spine⟩ := isPair
  have hashFails : (hashValue (.fault .impureEffect)).Fails self store Fault.impureEffect.error
      store :=
    Code.ends_iff_runs.mpr (.call_done (.done _ store))
  have insertFails : (dictionary.insert (.fault .impureEffect) value).Fails self store
      Fault.impureEffect.error store := hashFails.bind _
  exact (spine.returns self).bind_fails
    ((returns_force (slot_eq_of_slot? held)).bind_fails (insertFails.bind _))

/-- An effect is built. -/
def effectStore : Store :=
  ((Service.initial Digest.multiplicative).run
    (.start 0 (.build (.effect (.literal .nil)) []) :: List.replicate 4 (.step 0))).store

/-- A dictionary whose only key is the effect. -/
def keyedByEffect : Dict :=
  single effectStore.nextIdentity ((effectStore.hash? 1 (.effect 34 ⟨0⟩)).getD 0)
    (.effect 34 ⟨0⟩) ⟨0⟩

/-- A dictionary with an effect as key can be made and taken apart, but its pairs are not put
together again. -/
theorem rebuilding_fails_at_an_effect :
    effectStore.slot? ⟨1⟩ = some (.evaluated (.effect 34 ⟨0⟩)) ∧
      ∃ between, Workshop 7 effectStore [keyedByEffect, .empty] [] between ∧
        ∃ after, keyedByEffect.rebuilt.Fails 7 between Fault.impureEffect.error after := by
  refine ⟨rfl, { effectStore with nextIdentity := effectStore.nextIdentity + 1 }, ?_, ?_⟩
  · have newAllowed : Making.new.Allowed effectStore [] := trivial
    have new : Workshop 7 effectStore [.empty] [] effectStore :=
      Workshop.start.make newAllowed (Attempt.returns_pure Dictionary.empty effectStore)
    obtain ⟨word, known⟩ : ∃ word, effectStore.hash? 1 (.effect 34 ⟨0⟩) = some word :=
      Option.isSome_iff_exists.mp (by decide +kernel)
    have inserts := Dictionary.returns_insert_empty 7 known ⟨0⟩
    have same : keyedByEffect = single effectStore.nextIdentity word (.effect 34 ⟨0⟩) ⟨0⟩ := by
      rw [keyedByEffect, known, Option.getD_some]
    rw [← same] at inserts
    have allowed : (Making.insert .empty (.effect 34 ⟨0⟩) ⟨0⟩).Allowed effectStore [.empty] :=
      ⟨by simp, Store.holds_iff_lt.mpr (by decide +kernel), Store.canSee_iff.mp (by decide +kernel)⟩
    exact new.make allowed inserts
  · obtain ⟨pairs, thunks, between, takes, shows, aligned⟩ :=
      Dictionary.exists_pairs 7
        { effectStore with nextIdentity := effectStore.nextIdentity + 1 } keyedByEffect
    rw [keyedByEffect, Dictionary.toList_single] at aligned
    obtain _ | ⟨isPair, ⟨⟩⟩ := aligned
    exact ⟨between, (Attempt.returns_lift takes).bind_fails ((shows.returns 7).bind_fails
      (Dictionary.insertPairs_fails isPair .empty []))⟩

end ByNeed
