import ByNeed.Proofs.Dictionary.Entries

/-!
# Histories

A history says how a dictionary came about, and so what it should hold: for each key the value
written last, unless erased since, under the key that was written when there was none.
-/

namespace ByNeed

open List Option

/-- Writes and erasures, and histories that were merged in. -/
inductive History (κ ν : Type) where
  | empty
  | write (history : History κ ν) (key : κ) (value : ν)
  | erase (history : History κ ν) (key : κ)
  | merge (history other : History κ ν)

namespace History

variable {κ ν : Type}

/-- The entry of a key that is assigned a value.  A key that is there is kept. -/
def assigned (found : Option (κ × ν)) (key : κ) (value : ν) : κ × ν :=
  ((found.map Prod.fst).getD key, value)

/-- What a history leaves under a key. -/
def lookup (space : KeySpace κ) (key : κ) : History κ ν → Option (κ × ν)
  | .empty => none
  | .write history written value =>
    if space.equal written key then some (assigned (history.lookup space key) written value)
    else history.lookup space key
  | .erase history erased =>
    if space.equal erased key then none else history.lookup space key
  | .merge history other =>
    match other.lookup space key with
    | none => history.lookup space key
    | some entry => some (assigned (history.lookup space key) entry.1 entry.2)

/-- Write entries one after the other. -/
def writeAll : History κ ν → List (κ × ν) → History κ ν
  | history, [] => history
  | history, entry :: rest => (history.write entry.1 entry.2).writeAll rest

/-- All keys of a history meet a condition. -/
def All (condition : κ → Prop) : History κ ν → Prop
  | .empty => True
  | .write history key _ => condition key ∧ history.All condition
  | .erase history key => condition key ∧ history.All condition
  | .merge history other => history.All condition ∧ other.All condition

variable {space : KeySpace κ}

theorem assigned_meets {condition : κ → Prop} (keyMeets : condition key)
    (foundMeets : ∀ entry, found = some entry → condition entry.1) (value : ν) :
    condition (assigned found key value).1 := by
  cases found with
  | none => exact keyMeets
  | some entry => exact foundMeets entry rfl

theorem All.imp {history : History κ ν} (all : history.All condition)
    (implies : ∀ key, condition key → weaker key) : history.All weaker := by
  induction history with
  | empty => trivial
  | write _ _ _ ih => exact ⟨implies _ all.1, ih all.2⟩
  | erase _ _ ih => exact ⟨implies _ all.1, ih all.2⟩
  | merge _ _ ih otherHypothesis => exact ⟨ih all.1, otherHypothesis all.2⟩

theorem All.writeAll {history : History κ ν} (all : history.All condition)
    (holds : ∀ entry ∈ entries, condition entry.1) :
    (history.writeAll entries).All condition := by
  induction entries generalizing history with
  | nil => exact all
  | cons entry rest ih =>
    obtain ⟨here, there⟩ := forall_mem_cons.mp holds
    exact ih ⟨here, all⟩ there

/-- A key that a history leaves was written in it. -/
theorem All.of_lookup {history : History κ ν} (all : history.All condition)
    (found : history.lookup space key = some entry) : condition entry.1 := by
  induction history generalizing entry with
  | empty => contradiction
  | write history written value ih =>
    rw [lookup] at found
    split at found
    · cases found
      exact assigned_meets all.1 (fun former found => ih all.2 found) value
    · exact ih all.2 found
  | erase history erased ih =>
    rw [lookup] at found
    split at found
    · contradiction
    · exact ih all.2 found
  | merge history other ih otherHypothesis =>
    rw [lookup] at found
    split at found
    · exact ih all.1 found
    · rename_i former otherFound
      cases found
      have formerMeets := otherHypothesis all.2 otherFound
      exact assigned_meets formerMeets (fun _ found => ih all.1 found) _

theorem lookup_congr (same : space.equal left right = true) (history : History κ ν) :
    history.lookup space left = history.lookup space right := by
  induction history with
  | empty => rfl
  | write history written value ih | erase history erased ih =>
    rw [lookup, lookup, space.equal_congr_right same, ih]
  | merge history other ih otherHypothesis =>
    rw [lookup, lookup, ih, otherHypothesis]

/-- Of entries with different keys, the one of a key is what was written last. -/
theorem lookup_writeAll (apart : space.Apart entries) (history : History κ ν) (key : κ) :
    (history.writeAll entries).lookup space key =
      match (entries.filter (space.isFor key)).head? with
      | none => history.lookup space key
      | some entry => some (assigned (history.lookup space key) entry.1 entry.2) := by
  induction entries generalizing history with
  | nil => rfl
  | cons entry rest ih =>
    obtain ⟨entryApart, restApart⟩ := pairwise_cons.mp apart
    rw [writeAll, ih restApart, lookup]
    by_cases same : space.equal entry.1 key = true
    · have split : space.Apart ([] ++ entry :: rest) := apart
      obtain ⟨-, noneLater⟩ := KeySpace.filter_isFor_of_split split same
      rw [noneLater, if_pos same, filter_cons_of_pos (by exact same)]
      rfl
    · rw [if_neg same, filter_cons_of_neg (by exact same)]

end History

theorem KeySpace.apart_of_length_filter_le {space : KeySpace κ} {entries : List (κ × ν)}
    (single : ∀ key, (entries.filter (space.isFor key)).length ≤ 1) : space.Apart entries := by
  induction entries with
  | nil => exact List.Pairwise.nil
  | cons entry rest ih =>
    rw [Apart, pairwise_cons]
    constructor
    · intro other mem
      have one := single entry.1
      rw [filter_cons_of_pos (isFor_self entry), length_cons] at one
      have none : rest.filter (space.isFor entry.1) = [] :=
        length_eq_zero_iff.mp (by omega)
      have ne := filter_eq_nil_iff.mp none other mem
      rw [← Bool.not_eq_true]
      exact fun same => ne (space.equal_symm same)
    · apply ih
      intro key
      have sublist := (sublist_cons_self entry rest).filter (space.isFor key)
      exact Nat.le_trans sublist.length_le (single key)

theorem KeySpace.length_le_of_covered (space : KeySpace κ) {left right : List κ}
    (distinct : left.Pairwise fun key other => space.equal key other = false)
    (covered : ∀ key ∈ left, ∃ other ∈ right, space.equal key other = true) :
    left.length ≤ right.length := by
  induction left generalizing right with
  | nil => exact Nat.zero_le _
  | cons key rest ih =>
    obtain ⟨keyDistinct, restDistinct⟩ := pairwise_cons.mp distinct
    obtain ⟨partner, mem, same⟩ := covered key mem_cons_self
    obtain ⟨before, later, rfl⟩ := append_of_mem mem
    -- The partner of the first key is no partner of another.
    have restCovered : ∀ other ∈ rest, ∃ found ∈ before ++ later,
        space.equal other found = true := by
      intro other isOther
      obtain ⟨found, isFound, sameToo⟩ := covered other (mem_cons_of_mem key isOther)
      rw [mem_append, mem_cons] at isFound
      rcases isFound with isFound | rfl | isFound
      · exact ⟨found, mem_append_left later isFound, sameToo⟩
      · have equal := space.equal_trans same (space.equal_symm sameToo)
        rw [keyDistinct other isOther] at equal
        contradiction
      · exact ⟨found, mem_append_right before isFound, sameToo⟩
    have length_le := ih restDistinct restCovered
    rw [length_append] at length_le
    rw [length_cons, length_append, length_cons]
    omega

/-- A dictionary holds what a history leaves. -/
structure Dictionary.Represents {κ ν : Type} (space : KeySpace κ) (dict : Dictionary κ ν)
    (history : History κ ν) : Prop where
  valid : dict.Valid space
  entriesFor_eq : ∀ key, dict.entriesFor space key = (history.lookup space key).toList

namespace Dictionary.Represents

variable {κ ν : Type} {space : KeySpace κ} {dict later : Dictionary κ ν}
  {history : History κ ν} {key : κ}

theorem empty (space : KeySpace κ) :
    (Dictionary.empty : Dictionary κ ν).Represents space .empty where
  valid := valid_empty space
  entriesFor_eq _ := rfl

section

variable (represents : dict.Represents space history)

include represents

theorem of_lookup_eq (same : ∀ key, history.lookup space key = other.lookup space key) :
    dict.Represents space other where
  valid := represents.valid
  entriesFor_eq key := by rw [represents.entriesFor_eq, same]

theorem write (updates : dict.Updates space key
      [History.assigned (history.lookup space key) key value] later) :
    later.Represents space (history.write key value) where
  valid := updates.valid
  entriesFor_eq other := by
    rw [updates.entriesFor_eq, History.lookup]
    by_cases same : space.equal key other = true
    · rw [if_pos same, if_pos same, History.lookup_congr same]
      rfl
    · rw [if_neg same, if_neg same, represents.entriesFor_eq]

theorem erase (updates : dict.Updates space key [] later) :
    later.Represents space (history.erase key) where
  valid := updates.valid
  entriesFor_eq other := by
    rw [updates.entriesFor_eq, History.lookup]
    by_cases same : space.equal key other = true
    · rw [if_pos same, if_pos same]
      rfl
    · rw [if_neg same, if_neg same, represents.entriesFor_eq]

/-- Erasing a key that is not there changes nothing. -/
theorem erase_absent (absent : history.lookup space key = none) :
    dict.Represents space (history.erase key) where
  valid := represents.valid
  entriesFor_eq other := by
    rw [represents.entriesFor_eq, History.lookup]
    by_cases same : space.equal key other = true
    · rw [if_pos same, ← History.lookup_congr same, absent]
    · rw [if_neg same]

/-- A dictionary lists an entry exactly when the history leaves it under its key. -/
theorem mem_toList_iff (entry : κ × ν) :
    entry ∈ dict.toList ↔ history.lookup space entry.1 = some entry := by
  have entries := represents.entriesFor_eq entry.1
  rw [← Option.mem_toList, ← entries, entriesFor, mem_filter]
  exact ⟨fun mem => ⟨mem, KeySpace.isFor_self entry⟩, And.left⟩

/-- No two entries of a dictionary have equal keys. -/
theorem apart : space.Apart dict.toList := by
  apply KeySpace.apart_of_length_filter_le
  intro key
  have entries := represents.entriesFor_eq key
  rw [entriesFor] at entries
  rw [entries, length_toList]
  split <;> omega

end

theorem lookup_writeAll_toList {other : Dictionary κ ν}
    (otherRepresents : other.Represents space otherHistory) (history : History κ ν) (key : κ) :
    (history.writeAll other.toList).lookup space key =
      (history.merge otherHistory).lookup space key := by
  have entries := otherRepresents.entriesFor_eq key
  rw [entriesFor] at entries
  rw [History.lookup_writeAll otherRepresents.apart, History.lookup, entries]
  cases otherHistory.lookup space key <;> rfl

section

variable (represents : dict.Represents space history)

include represents

/-- A dictionary is empty exactly when the history leaves nothing. -/
theorem isEmpty_iff : dict.isEmpty = true ↔ ∀ key, history.lookup space key = none := by
  rw [isEmpty, beq_iff_eq, represents.valid.size_eq, length_eq_zero_iff]
  constructor
  · intro noEntries key
    have entries := represents.entriesFor_eq key
    rw [entriesFor, noEntries, filter_nil] at entries
    exact Option.toList_eq_nil_iff.mp entries.symm
  · intro nothing
    rw [eq_nil_iff_forall_not_mem]
    intro entry mem
    rw [represents.mem_toList_iff, nothing] at mem
    contradiction

/-- The size of a dictionary is the number of keys present: whatever names each of them
once has this length. -/
theorem size_eq_length {present : List κ}
    (distinct : present.Pairwise fun left right => space.equal left right = false)
    (present_iff : ∀ key, (history.lookup space key).isSome = true ↔
      ∃ other ∈ present, space.equal other key = true) : dict.size = present.length := by
  have keysDistinct : (dict.toList.map Prod.fst).Pairwise
      fun left right => space.equal left right = false :=
    pairwise_map.mpr represents.apart
  rw [represents.valid.size_eq, ← length_map Prod.fst]
  apply Nat.le_antisymm
  · apply space.length_le_of_covered keysDistinct
    intro key mem
    obtain ⟨entry, isEntry, rfl⟩ := List.mem_map.mp mem
    rw [represents.mem_toList_iff] at isEntry
    obtain ⟨other, isPresent, same⟩ := (present_iff entry.1).mp (by rw [isEntry]; rfl)
    exact ⟨other, isPresent, space.equal_symm same⟩
  · apply space.length_le_of_covered distinct
    intro key mem
    have isSome := (present_iff key).mpr ⟨key, mem, space.equal_refl key⟩
    obtain ⟨entry, found⟩ := isSome_iff_exists.mp isSome
    have entries := represents.entriesFor_eq key
    rw [found] at entries
    have isEntry : entry ∈ dict.entriesFor space key := by simp [entries]
    obtain ⟨inList, isFor⟩ := mem_filter.mp isEntry
    exact ⟨entry.1, List.mem_map_of_mem inList, space.equal_symm isFor⟩

/-! ## Finding a key -/

theorem lookup_eq_none (absent : (dict.bucket (space.hash key)).findIdx? (space.isFor key) = none) :
    history.lookup space key = none := by
  have entries := represents.entriesFor_eq key
  rw [findIdx?_eq_none_iff] at absent
  have none : (dict.bucket (space.hash key)).filter (space.isFor key) = [] := by
    rw [filter_eq_nil_iff]
    intro entry mem
    simp [absent entry mem]
  rw [represents.valid.entriesFor_eq, none] at entries
  exact Option.toList_eq_nil_iff.mp entries.symm

theorem lookup_eq_some
    (found : (dict.bucket (space.hash key)).findIdx? (space.isFor key) = some position) :
    ∃ before entry later,
      dict.bucket (space.hash key) = before ++ entry :: later ∧
      before.length = position ∧
      space.equal entry.1 key = true ∧
      history.lookup space key = some entry := by
  obtain ⟨bound, isFor, -⟩ := findIdx?_eq_some_iff_getElem.mp found
  have split := take_append_drop position (dict.bucket (space.hash key))
  rw [drop_eq_getElem_cons bound] at split
  refine ⟨_, _, _, split.symm, ?_, isFor, ?_⟩
  · rw [length_take, Nat.min_eq_left (Nat.le_of_lt bound)]
  · have apart := represents.valid.apart (space.hash key)
    have entries := represents.entriesFor_eq key
    rw [← split] at apart
    obtain ⟨noneBefore, noneLater⟩ := KeySpace.filter_isFor_of_split apart isFor
    rw [represents.valid.entriesFor_eq, ← split, filter_append,
      filter_cons_of_pos isFor, noneBefore, noneLater, nil_append] at entries
    exact toList_eq_singleton_iff.mp entries.symm

end

end Dictionary.Represents

namespace Dictionary

variable {κ ν : Type} (space : KeySpace κ) (dict : Dictionary κ ν)

/-- A later dictionary is this one with a key assigned a value. -/
structure Assigns (key : κ) (value : ν) (later : Dictionary κ ν) : Prop where
  sets : dict.SetsBucket (space.hash key) (assignAt key value (dict.bucket (space.hash key))
    ((dict.bucket (space.hash key)).findIdx? (space.isFor key))) later
  size_eq : later.size = dict.size +
    ((dict.bucket (space.hash key)).findIdx? (space.isFor key)).isNone.toNat

/-- A later dictionary is this one without a key, and another one only if the key was there. -/
def Discards (key : κ) (later : Dictionary κ ν) : Prop :=
  match (dict.bucket (space.hash key)).findIdx? (space.isFor key) with
  | none => later = dict
  | some position =>
    dict.SetsBucket (space.hash key) ((dict.bucket (space.hash key)).eraseIdx position) later ∧
      later.size + 1 = dict.size ∧ later.isSame dict = false

/-- The value of a key. -/
def findKey? (key : κ) : Option ν :=
  let bucket := dict.bucket (space.hash key)
  (bucket.findIdx? (space.isFor key)).bind fun position => bucket[position]?.map Prod.snd

namespace Represents

variable {space dict} {history : History κ ν}

section

variable (represents : dict.Represents space history)

include represents

theorem assigns (assigns : dict.Assigns space key value later) :
    later.Represents space (history.write key value) := by
  obtain ⟨sets, size_eq⟩ := assigns
  apply represents.write
  cases found : (dict.bucket (space.hash key)).findIdx? (space.isFor key) with
  | none =>
    have absent := represents.lookup_eq_none found
    have noEntries := represents.entriesFor_eq key
    rw [absent] at noEntries ⊢
    rw [found] at sets size_eq
    exact represents.valid.append noEntries sets size_eq
  | some position =>
    obtain ⟨before, entry, behind, split, rfl, same, lookup_eq⟩ := represents.lookup_eq_some found
    rw [found, split, assignAt_append] at sets
    rw [found] at size_eq
    rw [lookup_eq]
    exact represents.valid.replace split same sets size_eq

theorem discards (discards : dict.Discards space key later) :
    later.Represents space (history.erase key) := by
  rw [Discards] at discards
  cases found : (dict.bucket (space.hash key)).findIdx? (space.isFor key) with
  | none =>
    rw [found] at discards
    obtain rfl : later = dict := discards
    exact represents.erase_absent (represents.lookup_eq_none found)
  | some position =>
    rw [found] at discards
    obtain ⟨sets, size_eq, -⟩ := discards
    obtain ⟨before, entry, behind, split, rfl, same, -⟩ := represents.lookup_eq_some found
    rw [split, eraseIdx_append_of_length_le (Nat.le_refl _), Nat.sub_self, eraseIdx_zero,
      tail_cons] at sets
    exact represents.erase (represents.valid.erase split same sets size_eq)

theorem findKey?_eq (key : κ) :
    dict.findKey? space key = (history.lookup space key).map Prod.snd := by
  rw [findKey?]
  cases found : (dict.bucket (space.hash key)).findIdx? (space.isFor key) with
  | none => rw [represents.lookup_eq_none found, bind_none, map_none]
  | some position =>
    obtain ⟨before, entry, later, split, rfl, -, lookup_eq⟩ := represents.lookup_eq_some found
    rw [lookup_eq, bind_some, split, getElem?_append_right (Nat.le_refl _),
      Nat.sub_self, getElem?_cons_zero]

end

end Represents
end Dictionary
end ByNeed
