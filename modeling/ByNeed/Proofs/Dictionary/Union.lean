import ByNeed.Proofs.Dictionary.Workshop

/-!
# Merging is a union

Values that have been hashed are keys that answer.  So merging is a union in which the other
dictionary wins, in whatever order its entries are assigned and however merges are bracketed.
-/

namespace ByNeed

open Dictionary List Option Attempt

variable {self : Nat}

/-! ## Histories that leave the same -/

namespace KeySpace

variable {κ ν : Type} {space : KeySpace κ} {entries order : List (κ × ν)}

theorem Apart.perm (apart : space.Apart entries) (perm : order.Perm entries) : space.Apart order :=
  (perm.pairwise_iff fun unequal => by
    rw [← Bool.not_eq_true] at unequal ⊢
    exact fun equal => unequal (space.equal_symm equal)).mpr apart

/-- Among entries with different keys, those of a key are the first of them, if there is one. -/
theorem Apart.filter_isFor_eq (apart : space.Apart entries) (key : κ) :
    entries.filter (space.isFor key) = (entries.filter (space.isFor key)).head?.toList := by
  cases found : entries.filter (space.isFor key) with
  | nil => rfl
  | cons entry rest =>
    have isFor : ∀ other ∈ entry :: rest, space.equal other.1 key = true := by
      rw [← found]
      exact fun other mem => (mem_filter.mp mem).2
    have apartFound : space.Apart (entry :: rest) := found ▸ apart.filter _
    cases rest with
    | nil => rfl
    | cons other rest =>
      have equal := space.equal_trans (isFor entry mem_cons_self)
        (space.equal_symm (isFor other (by simp)))
      rw [(pairwise_cons.mp apartFound).1 other mem_cons_self] at equal
      contradiction

end KeySpace

namespace History

variable {κ ν : Type} {space : KeySpace κ} {history : History κ ν}
variable {entries : List (κ × ν)} {condition : κ → Prop}

theorem value_merge (history other : History κ ν) (key : κ) :
    ((history.merge other).lookup space key).map Prod.snd =
      ((other.lookup space key).map Prod.snd).or ((history.lookup space key).map Prod.snd) := by
  rw [lookup]
  cases other.lookup space key <;> rfl

/-- In what order entries with different keys are written is of no consequence. -/
theorem lookup_writeAll_perm (apart : space.Apart entries) (perm : order.Perm entries)
    (history : History κ ν) (key : κ) :
    (history.writeAll order).lookup space key = (history.writeAll entries).lookup space key := by
  have filtered := perm.filter (space.isFor key)
  rw [(apart.perm perm).filter_isFor_eq, apart.filter_isFor_eq] at filtered
  rw [lookup_writeAll (apart.perm perm), lookup_writeAll apart]
  cases entriesFound : (entries.filter (space.isFor key)).head? with
  | none =>
    rw [entriesFound, toList_none, perm_nil, Option.toList_eq_nil_iff] at filtered
    rw [filtered]
  | some entry =>
    rw [entriesFound, toList_some, perm_singleton,
      toList_eq_singleton_iff] at filtered
    rw [filtered]

theorem toList_lookup_writeAll (apart : space.Apart entries) (key : κ) :
    ((History.empty.writeAll entries).lookup space key).toList =
      entries.filter (space.isFor key) := by
  rw [lookup_writeAll apart, apart.filter_isFor_eq key]
  cases (entries.filter (space.isFor key)).head? <;> rfl

end History

namespace Dictionary.Represents

variable {κ ν : Type} {space : KeySpace κ} {left right : Dictionary κ ν}
  {history other : History κ ν}

section

variable (represents : left.Represents space history)

include represents

theorem exists_of_lookup (leaves : history.lookup space key = some entry) :
    entry ∈ left.toList ∧ space.equal entry.1 key = true := by
  have isEntry : entry ∈ left.entriesFor space key := by
    rw [represents.entriesFor_eq key, leaves]
    exact mem_singleton_self entry
  exact mem_filter.mp isEntry

theorem isSome_lookup_iff (key : κ) :
    (history.lookup space key).isSome = true ↔
      ∃ present ∈ left.toList.map Prod.fst, space.equal present key = true := by
  rw [isSome_iff_exists]
  constructor
  · rintro ⟨entry, leaves⟩
    obtain ⟨mem, equal⟩ := represents.exists_of_lookup leaves
    exact ⟨entry.1, List.mem_map_of_mem mem, equal⟩
  · rintro ⟨present, isPresent, equal⟩
    obtain ⟨entry, mem, rfl⟩ := List.mem_map.mp isPresent
    rw [← History.lookup_congr equal]
    exact ⟨entry, (represents.mem_toList_iff entry).mp mem⟩

/-- Dictionaries that hold the same values are of one size, and each entry of one has its
value in the other. -/
theorem exists_same (otherRepresents : right.Represents space other)
    (same : ∀ key, (history.lookup space key).map Prod.snd =
      (other.lookup space key).map Prod.snd) :
    left.size = right.size ∧ ∀ entry ∈ left.toList, ∃ found ∈ right.toList,
      space.equal found.1 entry.1 = true ∧ found.2 = entry.2 := by
  constructor
  · have sizes := otherRepresents.size_eq_length (pairwise_map.mpr represents.apart)
      fun key => by
        rw [← represents.isSome_lookup_iff, ← isSome_map, ← same, isSome_map]
    rw [sizes, length_map, represents.valid.size_eq]
  · intro entry mem
    have leaves := same entry.1
    rw [(represents.mem_toList_iff entry).mp mem] at leaves
    obtain ⟨found, leavesToo, sameValue⟩ := map_eq_some_iff.mp leaves.symm
    obtain ⟨foundMember, equal⟩ := otherRepresents.exists_of_lookup leavesToo
    exact ⟨found, foundMember, equal, sameValue⟩

/-- A merge adds the keys that were not there. -/
theorem size_merge {merged : Dictionary κ ν} (otherRepresents : right.Represents space other)
    (mergedRepresents : merged.Represents space (history.merge other)) :
    merged.size = left.size +
      (right.toList.filter fun entry => (history.lookup space entry.1).isNone).length := by
  let fresh := right.toList.filter fun entry => (history.lookup space entry.1).isNone
  have isFresh : ∀ {entry}, entry ∈ fresh ↔
      entry ∈ right.toList ∧ history.lookup space entry.1 = none := by
    simp [fresh, mem_filter]
  have distinct : (left.toList ++ fresh).Pairwise fun first second =>
      space.equal first.1 second.1 = false := by
    refine pairwise_append.mpr
      ⟨represents.apart, otherRepresents.apart.filter _, fun first mem second isNew => ?_⟩
    rw [← Bool.not_eq_true]
    intro equal
    have absent := (isFresh.mp isNew).2
    rw [← History.lookup_congr equal, (represents.mem_toList_iff first).mp mem] at absent
    contradiction
  have sizes := mergedRepresents.size_eq_length (pairwise_map.mpr distinct) fun key => by
    rw [← isSome_map, History.value_merge, isSome_or, Bool.or_eq_true,
      isSome_map, isSome_map, represents.isSome_lookup_iff, map_append]
    constructor
    · rintro (otherLeaves | ⟨present, mem, equal⟩)
      · obtain ⟨entry, leaves⟩ := isSome_iff_exists.mp otherLeaves
        obtain ⟨mem, equal⟩ := otherRepresents.exists_of_lookup leaves
        cases found : history.lookup space key with
        | none =>
          rw [← History.lookup_congr equal] at found
          exact ⟨entry.1, mem_append_right _
            (List.mem_map_of_mem (isFresh.mpr ⟨mem, found⟩)), equal⟩
        | some former =>
          obtain ⟨formerMember, formerEqual⟩ := represents.exists_of_lookup found
          exact ⟨former.1, mem_append_left _ (List.mem_map_of_mem formerMember), formerEqual⟩
      · exact ⟨present, mem_append_left _ mem, equal⟩
    · rintro ⟨present, mem, equal⟩
      rcases mem_append.mp mem with mem | mem
      · exact .inr ⟨present, mem, equal⟩
      · obtain ⟨entry, isNew, rfl⟩ := List.mem_map.mp mem
        exact .inl ((otherRepresents.isSome_lookup_iff key).mpr
          ⟨entry.1, List.mem_map_of_mem (isFresh.mp isNew).1, equal⟩)
  rw [sizes, length_map, length_append, represents.valid.size_eq]

end

end Dictionary.Represents

/-! ## The keys of a stage -/

namespace Stage

variable {frame : Frame} {stage : Stage frame} {left right : Value}
variable {value : Value}

/-- A value is admitted and has a hash. -/
def Keyed (stage : Stage frame) (value : Value) : Prop :=
  stage.Admits value ∧ stage.store.Hashable value

/-- Two values are the same, or they are keys and known to be equal. -/
def Alike (stage : Stage frame) (left right : Value) : Prop :=
  left = right ∨ stage.Keyed left ∧ stage.Keyed right ∧ stage.store.Matches left right

theorem Keyed.mono (keyed : stage.Keyed value) (le : stage ≤ later) : later.Keyed value :=
  ⟨keyed.1.mono le, keyed.2.mono (Stage.recalls le)⟩

theorem Keyed.alike_iff (leftKeyed : stage.Keyed left) (rightKeyed : stage.Keyed right) :
    stage.Alike left right ↔ stage.store.Matches left right := by
  refine ⟨?_, fun isEqual => .inr ⟨leftKeyed, rightKeyed, isEqual⟩⟩
  rintro (rfl | ⟨-, -, isEqual⟩)
  · exact matches_self leftKeyed.1 leftKeyed.2
  · exact isEqual

theorem Alike.symm (alike : stage.Alike left right) : stage.Alike right left := by
  rcases alike with rfl | ⟨leftKeyed, rightKeyed, isEqual⟩
  · exact .inl rfl
  · exact .inr ⟨rightKeyed, leftKeyed, matches_symm leftKeyed.1 rightKeyed.1 isEqual⟩

theorem Alike.trans (near : stage.Alike left middle) (far : stage.Alike middle right) :
    stage.Alike left right := by
  rcases near with rfl | ⟨leftKeyed, middleKeyed, nearEqual⟩
  · exact far
  · rcases far with rfl | ⟨-, rightKeyed, farEqual⟩
    · exact .inr ⟨leftKeyed, middleKeyed, nearEqual⟩
    · exact .inr ⟨leftKeyed, rightKeyed, matches_trans leftKeyed.1 middleKeyed.1
        rightKeyed.1 nearEqual farEqual (leftKeyed.2.compares rightKeyed.2)⟩

theorem Alike.hash_iff (alike : stage.Alike left right) (word : UInt64) :
    (∃ bound, stage.store.hash? bound left = some word) ↔
      ∃ bound, stage.store.hash? bound right = some word := by
  have carry : ∀ {first second}, stage.Alike first second →
      (∃ bound, stage.store.hash? bound first = some word) →
        ∃ bound, stage.store.hash? bound second = some word := by
    rintro first second (rfl | ⟨firstKeyed, secondKeyed, depth, equal⟩) ⟨bound, known⟩
    · exact ⟨bound, known⟩
    · exact ⟨bound, (hash?_of_order? stage depth bound).1 firstKeyed.1 secondKeyed.1 equal known⟩
  exact ⟨carry alike, carry alike.symm⟩

open Classical in
/-- The hash and the equality that can be read at a stage. -/
noncomputable def keySpace (stage : Stage frame) : KeySpace Value where
  hash value := epsilon fun word => ∃ bound, stage.store.hash? bound value = some word
  equal left right := decide (stage.Alike left right)
  equal_refl _ := decide_eq_true (.inl rfl)
  equal_symm equal := decide_eq_true (of_decide_eq_true equal).symm
  equal_trans near far := decide_eq_true ((of_decide_eq_true near).trans (of_decide_eq_true far))
  hash_eq equal := congrArg epsilon (funext fun word =>
    propext ((of_decide_eq_true equal).hash_iff word))

theorem equal_iff : stage.keySpace.equal left right = true ↔ stage.Alike left right := by
  classical exact decide_eq_true_iff

theorem Keyed.equal_eq_false_iff (leftKeyed : stage.Keyed left) (rightKeyed : stage.Keyed right) :
    stage.keySpace.equal left right = false ↔ stage.store.Differ left right := by
  rw [← Bool.not_eq_true, equal_iff, leftKeyed.alike_iff rightKeyed]
  exact ⟨(leftKeyed.2.matches_or_differ rightKeyed.2).resolve_left,
    fun differ isEqual => isEqual.not_differ differ⟩

theorem hash_eq_of_known (known : stage.store.hash? bound value = some word) :
    stage.keySpace.hash value = word := by
  obtain ⟨depth, found⟩ := Classical.epsilon_spec
    (⟨word, bound, known⟩ : ∃ word, ∃ bound, stage.store.hash? bound value = some word)
  exact Store.hash?_unique found known

/-- The keys of one stage, with what a later one knows of them. -/
noncomputable def keys {base final : Stage frame} (le : base ≤ final) : Keys frame.self where
  toKeySpace := final.keySpace
  Hashable := base.Keyed
  Usable store := base.store.Recalls store
  hashes := by
    intro store key usable keyed
    obtain ⟨-, bound, word, known⟩ := keyed
    have refined := fun {later} (recalls : base.store.Recalls later) =>
      (Store.hash?_refines recalls (Nat.le_refl bound)).1 key word known
    rw [hash_eq_of_known (refined (Stage.recalls le))]
    exact ⟨store, usable, (returns_of_hash? frame.self store bound).1 (refined usable)⟩
  equals := by
    intro store left right usable leftKeyed rightKeyed
    refine ⟨store, usable, ?_⟩
    have recalls := Stage.recalls le
    rcases leftKeyed.2.matches_or_differ rightKeyed.2 with isEqual | differ
    · have equal : final.keySpace.equal left right = true :=
        equal_iff.mpr (.inr ⟨leftKeyed.mono le, rightKeyed.mono le, isEqual.mono recalls⟩)
      rw [equal]
      exact (isEqual.mono usable).returns
    · rw [((leftKeyed.mono le).equal_eq_false_iff (rightKeyed.mono le)).mpr (differ.mono recalls)]
      exact (differ.mono usable).returns
  stamps usable := ⟨usable.evaluated, usable.digest⟩

variable {base final : Stage frame} {le : base ≤ final} {dictionary : Dict}
variable {history : History Value Thunk}

theorem holds_of_admits (le : base ≤ final) (admits : base.AdmitsDictionary dictionary) :
    (keys le).Holds dictionary (History.empty.writeAll dictionary.toList) := by
  have later := admits.mono le
  have keyed : ∀ entry ∈ dictionary.toList, base.Keyed entry.1 := fun entry mem =>
    ⟨(admits.entries base.sound mem).1, hashable_key admits mem⟩
  have apart : ∀ {entries : List (Value × Thunk)}, (∀ entry ∈ entries, entry ∈ dictionary.toList) →
      entries.Pairwise (fun left right => final.store.Differ left.1 right.1) →
      final.keySpace.Apart entries := by
    intro entries members differ
    refine differ.imp_of_mem fun leftMember rightMember ne => ?_
    exact (((keyed _ (members _ leftMember)).mono le).equal_eq_false_iff
      ((keyed _ (members _ rightMember)).mono le)).mpr ne
  have valid : dictionary.Valid final.keySpace :=
    { wellFormed := later.wellFormed final.sound
      hash_eq := fun hash entry mem => by
        obtain ⟨bound, known⟩ := (later.files final.sound hash).hashes entry mem
        exact hash_eq_of_known known
      apart := fun hash => apart (fun entry mem => later.mem_toList_of_mem_bucket final.sound
        mem) (later.files final.sound hash).apart
      size_eq := later.1 }
  have nothing : (History.empty : History Value Thunk).All base.Keyed := trivial
  refine ⟨⟨valid, fun key => ?_⟩, nothing.writeAll keyed⟩
  exact (History.toList_lookup_writeAll
    (apart (fun _ mem => mem) (pairwise_differ later)) key).symm

theorem Holds.later (holds : (keys le).Holds dictionary history) :
    (keys (le_refl final)).Holds dictionary history :=
  ⟨holds.represents, holds.hashable.imp fun _ keyed => keyed.mono le⟩

theorem exists_later {further : Store → Dict → Prop}
    (yields : (keys le).Yields stage.store attempt fun after next =>
      (keys le).Holds next history ∧ further after next)
    (safe : attempt.Safe Stage.Admitted stage) (exact : stage.Exact) :
    ∃ next, ∃ later : Stage frame, stage ≤ later ∧ later.Exact ∧
      attempt.Returns frame.self stage.store next later.store ∧
      later.AdmitsDictionary next ∧ (keys le).Holds next history := by
  obtain ⟨next, after, -, returns, holds, -⟩ := yields
  obtain ⟨later, leLater, rfl, exactLater, makes⟩ :=
    Code.Safe.of_ends safe (fun _ _ _ le reached result isOk => (reached result isOk).mono le)
      exact returns
  exact ⟨next, later, leLater, exactLater, returns, makes _ rfl next rfl, holds⟩

theorem matches_of_values_eq {left right : Dict} (leFinal : final ≤ stage)
    (leftAdmits : stage.AdmitsDictionary left) (rightAdmits : stage.AdmitsDictionary right)
    (leftHolds : (keys le).Holds left history) (rightHolds : (keys le).Holds right other)
    (same : ∀ key, (history.lookup final.keySpace key).map Prod.snd =
      (other.lookup final.keySpace key).map Prod.snd) :
    stage.store.Matches (.dictionary left) (.dictionary right) := by
  obtain ⟨sameSize, found⟩ := leftHolds.represents.exists_same rightHolds.represents same
  refine matches_of_counterparts leftAdmits rightAdmits sameSize fun entry mem => ?_
  obtain ⟨other, otherMember, equal, sameValue⟩ := found entry mem
  have keyed := (leftHolds.hashable_toList mem).mono le
  have otherKeyed := (rightHolds.hashable_toList otherMember).mono le
  refine ⟨other, otherMember, ?_, .inl sameValue.symm⟩
  exact ((keyed.alike_iff otherKeyed).mp (equal_iff.mp equal).symm).mono (Stage.recalls leFinal)

/-- A key is looked up in what a history leaves. -/
theorem returns_get? (admits : stage.AdmitsDictionary dictionary)
    (holds : (keys (le_refl stage)).Holds dictionary history) (keyed : stage.Keyed key) :
    (dictionary.get? key).Returns frame.self stage.store
      ((history.lookup stage.keySpace key).map Prod.snd) stage.store := by
  obtain ⟨found, returns, -⟩ := exists_get? admits frame.self keyed.1 keyed.2
  obtain ⟨-, rfl⟩ := (holds.yields_get? (Stage.recalls le_rfl) keyed).of_returns returns
  exact returns

theorem returns_compare_of_matches (self : Nat) (isEqual : stage.store.Matches left right) :
    (compareValues left right).Returns self stage.store .eq stage.store := by
  obtain ⟨bound, known⟩ := isEqual
  exact (returns_of_order? self stage.store bound).1 known

end Stage

/-! ## Merging -/

theorem Dictionary.eq_empty_of_isEmpty {stage : Stage frame}
    (admits : stage.AdmitsDictionary dictionary) (isEmpty : dictionary.isEmpty = true) :
    dictionary = .empty := by
  obtain ⟨size, root⟩ := dictionary
  obtain rfl : size = 0 := by simpa [Dictionary.isEmpty] using isEmpty
  cases root with
  | none => rfl
  | some trie =>
    rw [(isEmpty_eq_false_iff admits).mpr ⟨trie, rfl⟩] at isEmpty
    contradiction

/-- Merging is a union in which the other dictionary wins.  A key is found in a merged
dictionary where the other one has it, and else where the first has it, and the size is
that of the first and of the keys that it lacks.  A merge is equal to assigning the entries
of the other dictionary in any order, it does not matter how merges are bracketed, and
merging with the empty dictionary, on either side, gives the dictionary itself. -/
theorem merging_is_a_union {digest : List Piece → UInt64} {moves : List Move} {made : List Dict}
    {asked : List Consultation} {store : Store}
    (workshop : Workshop self ((Service.initial digest).run moves).store made asked store)
    {first second third : Dict}
    (firstMade : first ∈ made)
    (secondMade : second ∈ made)
    (thirdMade : third ∈ made) :
    (∃ merged after,
      (first.merge second).Returns self store merged after ∧
      (∀ key word later,
        key.Offered after (merged :: made) →
        (hashValue key).Returns self after word later →
        ∃ former other,
          (first.get? key).Returns self later former later ∧
          (second.get? key).Returns self later other later ∧
          (merged.get? key).Returns self later (other.or former) later) ∧
      ∃ fresh : List (Value × Thunk),
        fresh.Sublist second.toList ∧
        (∀ entry ∈ second.toList, entry ∈ fresh ↔
          (first.get? entry.1).Returns self store none store) ∧
        merged.size = first.size + fresh.length) ∧
    (∀ order : List (Value × Thunk), order.Perm second.toList → ∃ after, Attempt.Returns self (do
      let merged ← first.merge second
      let assigned ← first.insertAll order
      compareValues (.dictionary merged) (.dictionary assigned)) store .eq after) ∧
    (∃ after, Attempt.Returns self (do
      let left ← (← first.merge second).merge third
      let right ← first.merge (← second.merge third)
      compareValues (.dictionary left) (.dictionary right)) store .eq after) ∧
    (Dictionary.empty.merge first).Returns self store first store ∧
    (first.merge .empty).Returns self store first store := by
  obtain ⟨held, stage, rfl, exact, admits, -⟩ := workshop.exists_stage
  have firstAdmits := admits first firstMade
  have secondAdmits := admits second secondMade
  have thirdAdmits := admits third thirdMade
  have firstHolds := fun {final} (le : stage ≤ final) => Stage.holds_of_admits le firstAdmits
  have secondHolds := fun {final} (le : stage ≤ final) => Stage.holds_of_admits le secondAdmits
  have thirdHolds := Stage.holds_of_admits le_rfl thirdAdmits
  obtain ⟨merged, between, leBetween, exactBetween, merges, mergedAdmits, mergedHolds⟩ :=
    Stage.exists_later
      ((firstHolds le_rfl).yields_merge (Stage.recalls le_rfl) (secondHolds le_rfl))
      (Dictionary.merge_safe firstAdmits secondAdmits) exact
  refine ⟨⟨merged, between.store, merges, ?_, ?_⟩, ?_, ?_, ?_, ?_⟩
  · intro key word later offered hashes
    have madeAdmits : ∀ dictionary ∈ merged :: made, between.AdmitsDictionary dictionary :=
      List.forall_mem_cons.mpr ⟨mergedAdmits, fun other mem => (admits other mem).mono
      leBetween⟩
    have keyAdmits := offered.admits madeAdmits
    obtain ⟨last, leLast, rfl, -, bound, known⟩ :=
      Dictionary.exists_hashed exactBetween keyAdmits hashes
    have le := leBetween.trans leLast
    have keyed : last.Keyed key := ⟨keyAdmits.mono leLast, bound, word, known⟩
    obtain ⟨-, holds, -⟩ :=
      ((firstHolds le).yields_merge (Stage.recalls le_rfl) (secondHolds le)).of_returns merges
    have found := Stage.returns_get? (mergedAdmits.mono leLast) (Stage.Holds.later holds) keyed
    rw [History.value_merge] at found
    exact ⟨_, _, Stage.returns_get? (firstAdmits.mono le) (Stage.Holds.later (firstHolds le)) keyed,
      Stage.returns_get? (secondAdmits.mono le) (Stage.Holds.later (secondHolds le)) keyed, found⟩
  · refine ⟨_, List.filter_sublist, fun entry mem => ?_,
      (firstHolds le_rfl).represents.size_merge
      (secondHolds le_rfl).represents mergedHolds.represents⟩
    have found := Stage.returns_get? firstAdmits (firstHolds le_rfl)
      ((secondHolds le_rfl).hashable_toList mem)
    rw [List.mem_filter, Option.isNone_iff_eq_none]
    constructor
    · rintro ⟨-, absent⟩
      rwa [show History.lookup stage.keySpace entry.1 _ = none from absent] at found
    · intro returns
      exact ⟨mem, Option.map_eq_none_iff.mp (returns.unique found).1.symm⟩
  · intro order perm
    have orderHolds : ∀ entry ∈ order, stage.Keyed entry.1 ∧ stage.store.Sees entry.2 :=
      fun entry mem =>
        ⟨(secondHolds le_rfl).hashable_toList (perm.mem_iff.mp mem),
          (secondAdmits.entries stage.sound (perm.mem_iff.mp mem)).2⟩
    obtain ⟨assigned, last, leLast, -, assigns, assignedAdmits, assignedHolds⟩ :=
      Stage.exists_later ((firstHolds le_rfl).yields_insertAll (Stage.recalls leBetween)
        fun entry mem => (orderHolds entry mem).1)
        (Dictionary.insertAll_safe (firstAdmits.mono leBetween) fun entry mem =>
          ⟨(orderHolds entry mem).1.1.mono leBetween,
            (orderHolds entry mem).2.mono leBetween⟩) exactBetween
    refine ⟨last.store, merges.bind (assigns.bind (Stage.returns_compare_of_matches self
      (Stage.matches_of_values_eq (leBetween.trans leLast) (mergedAdmits.mono leLast)
        assignedAdmits mergedHolds assignedHolds fun key => congrArg (Option.map Prod.snd) ?_)))⟩
    exact ((History.lookup_writeAll_perm (secondHolds le_rfl).represents.apart perm _ key).trans
      ((secondHolds le_rfl).represents.lookup_writeAll_toList _ key)).symm
  · obtain ⟨left, leftStage, leLeft, exactLeft, leftMerges, leftAdmits, leftHolds⟩ :=
      Stage.exists_later (mergedHolds.yields_merge (Stage.recalls leBetween) thirdHolds)
        (Dictionary.merge_safe mergedAdmits (thirdAdmits.mono leBetween)) exactBetween
    have le := leBetween.trans leLeft
    obtain ⟨other, otherStage, leOther, exactOther, otherMerges, otherAdmits, otherHolds⟩ :=
      Stage.exists_later ((secondHolds le_rfl).yields_merge (Stage.recalls le) thirdHolds)
        (Dictionary.merge_safe (secondAdmits.mono le) (thirdAdmits.mono le)) exactLeft
    obtain ⟨right, last, leLast, -, rightMerges, rightAdmits, rightHolds⟩ :=
      Stage.exists_later
        ((firstHolds le_rfl).yields_merge (Stage.recalls (le.trans leOther)) otherHolds)
        (Dictionary.merge_safe (firstAdmits.mono (le.trans leOther)) otherAdmits) exactOther
    refine ⟨last.store, merges.bind (leftMerges.bind (otherMerges.bind (rightMerges.bind
      (Stage.returns_compare_of_matches self (Stage.matches_of_values_eq
        ((le.trans leOther).trans leLast) (leftAdmits.mono (leOther.trans leLast)) rightAdmits
        leftHolds rightHolds fun key => ?_)))))⟩
    simp only [History.value_merge, Option.or_assoc]
  · exact Attempt.returns_pure first stage.store
  · unfold Dictionary.merge
    split
    · rename_i isEmpty
      rw [Dictionary.eq_empty_of_isEmpty firstAdmits isEmpty]
      exact Attempt.returns_pure _ _
    · exact Attempt.returns_pure first stage.store

theorem merging_is_a_union_of_lists :
    Workshop 7 listStore [listed 1, listed 0, .empty] [] (listedStore 2) ∧
    (∃ after, Attempt.Returns 7 (do
      let left ← (← (listed 0).merge (listed 1)).merge (listed 0)
      let right ← (listed 0).merge (← (listed 1).merge (listed 0))
      compareValues (.dictionary left) (.dictionary right)) (listedStore 2) .eq after) ∧
    ((listed 0).merge .empty).Returns 7 (listedStore 2) (listed 0) (listedStore 2) := by
  have zeroMade : listed 0 ∈ [listed 1, listed 0, .empty] := by simp
  have oneMade : listed 1 ∈ [listed 1, listed 0, .empty] := by simp
  obtain ⟨-, -, associates, -, isIdentity⟩ :=
    merging_is_a_union workshop_listed zeroMade oneMade zeroMade
  exact ⟨workshop_listed, associates, isIdentity⟩

end ByNeed
