import ByNeed.Proofs.Binding.Laziness
import ByNeed.Proofs.Calls.Regimes

/-!
# Operations on values do only what fits

Comparing, hashing, showing, looking up and walking lists raise ordinary faults and pass errors on,
break off nowhere, and make only values that fit.
-/

namespace ByNeed

open Attempt List

variable {α β : Type} {regime : Regime}
variable {value : Value} {cause : Fault}

/-! ## Thunks -/

namespace Value

variable {value : Value} {allowance : Allowance}

/-- A fault that is not internal may occur everywhere. -/
theorem fits_fault (ordinary : cause.kind ≠ .internal) : (fault cause).Fits allowance :=
  .error (allowance.ordinary cause ordinary)

/-- Evaluated purely, an effect is an ordinary fault. -/
theorem Fits.purely (fits : value.Fits allowance) : value.purely.Fits allowance := by
  cases value with
  | effect identity payload => exact fits_fault (by decide)
  | _ => exact fits

/-- A value that is not of the kind wanted gives an error that may occur. -/
theorem Fits.unexpected (fits : value.Fits allowance) (wanted : Kind) :
    allowance.Admits (value.unexpected wanted) := by
  cases value with
  | error failure => exact fits_error.mp fits
  | _ => exact allowance.ordinary (.expected wanted _) (by simp [Fault.kind])

section

variable (fits : value.Fits regime)

include fits

/-- A number is wanted, and any other value is an error that may occur. -/
theorem Fits.toNumber : (Attempt.ofExcept value.toNumber).Keeps regime := by
  cases value with
  | number result => trivial
  | _ => exact fits.unexpected .number

theorem Fits.toBoolean : (Attempt.ofExcept value.toBoolean).Keeps regime := by
  cases value with
  | boolean truth => trivial
  | _ => exact fits.unexpected .boolean

theorem Fits.toText : (Attempt.ofExcept value.toText).Keeps regime := by
  cases value with
  | string text => trivial
  | _ => exact fits.unexpected .string

theorem Fits.toList : (Attempt.ofExcept value.toList).Keeps regime := by
  cases value with
  | list cells => trivial
  | _ => exact fits.unexpected .list

/-- A dictionary that fits has keys that fit. -/
theorem Fits.toDictionary :
    (Attempt.ofExcept value.toDictionary).Obeys regime (Dictionary.Fits regime) := by
  cases value with
  | dictionary entries => exact fits_dictionary.mp fits
  | _ => exact fits.unexpected .dictionary

/-- A function that fits may be called. -/
theorem Fits.toFunction :
    (Attempt.ofExcept value.toFunction).Obeys regime (Function.Fits regime) := by
  cases value with
  | function callee => exact fits_function.mp fits
  | _ => exact fits.unexpected .function

/-- A value that is no error is passed on as it is. -/
theorem Fits.check : (Attempt.ofExcept value.check).Obeys regime (Value.Fits regime) := by
  cases value with
  | error failure => exact fits_error.mp fits
  | _ => exact fits

end

end Value

attribute [grind ←] Value.Fits.toNumber Value.Fits.toBoolean Value.Fits.toText Value.Fits.toList

/-- What an evaluation gives fits. -/
theorem force_obeys (thunk : Thunk) : (force thunk).Obeys regime (Value.Fits regime) :=
  fun _ fits => fits.purely

/-- What follows an evaluation may rely on the value. -/
@[grind ←]
theorem Attempt.keeps_force_bind {following : Value → Attempt β}
    (rest : ∀ value, value.Fits regime → (following value).Keeps regime) :
    Attempt.Keeps regime ((monadLift (force thunk) : Attempt Value) >>= following) :=
  (obeys_lift (force_obeys thunk)).bind rest

/-- An impure evaluation runs an effect by evaluating its payload. -/
theorem forceImpure_obeys (thunk : Thunk) :
    (forceImpure thunk).Obeys regime (Value.Fits regime) := by
  intro value fits
  cases value with
  | effect identity payload => exact force_obeys payload
  | error failure => exact fits
  | _ => exact Value.fits_fault (by simp [Fault.kind])

@[grind ←]
theorem forceList_keeps (thunk : Thunk) : (forceList thunk).Keeps regime := by
  unfold forceList
  grind

theorem forceDictionary_obeys (thunk : Thunk) :
    (forceDictionary thunk).Obeys regime (Dictionary.Fits regime) :=
  (obeys_lift (force_obeys thunk)).bind fun _ fits => fits.toDictionary

@[grind ←]
theorem forceNumber_keeps (thunk : Thunk) : (forceNumber thunk).Keeps regime := by
  unfold forceNumber
  grind

/-- Only values that fit are stored. -/
@[grind ←]
theorem newValue_keeps (fits : value.Fits regime) : (newValue value).Keeps regime :=
  Code.keeps_perform ⟨fits, trivial⟩

/-- A computation is suspended if it fits and uses only what may be used. -/
@[grind ←]
theorem suspend_keeps (fits : computation.Fits regime)
    (respects : computation.Respects regime.mayUse) : (suspend computation).Keeps regime :=
  Code.keeps_perform ⟨fits, respects⟩

/-! ## Order and hash -/

section Comparing

variable {left right value : Value}

/-- Comparing is a routine, which may be called on values that fit. -/
@[grind ←]
theorem compareValues_keeps (leftFits : left.Fits regime) (rightFits : right.Fits regime) :
    (compareValues left right).Keeps regime :=
  ⟨⟨⟨leftFits, rightFits⟩, trivial⟩, fun _ grants => grants⟩

@[grind ←]
theorem equalValues_keeps (leftFits : left.Fits regime) (rightFits : right.Fits regime) :
    (equalValues left right).Keeps regime := by
  unfold equalValues
  grind

@[grind ←]
theorem compareThunks_keeps (left right : Thunk) : (compareThunks left right).Keeps regime := by
  unfold compareThunks
  grind

/-- Lists are compared cell by cell, and the tails by the routine. -/
@[grind ←]
theorem LazyList.compare_keeps (left right : LazyList) : (left.compare right).Keeps regime := by
  have further : ∀ left right : LazyList,
      Attempt.Keeps regime (.ofCode (.call (.compareLists left right) .done)) :=
    fun _ _ => ⟨⟨trivial, trivial⟩, fun _ grants => grants⟩
  fun_cases LazyList.compare left right <;> grind

@[grind ←]
theorem hashValue_keeps (fits : value.Fits regime) : (hashValue value).Keeps regime :=
  ⟨⟨fits, trivial⟩, fun _ grants => grants⟩

@[grind ←]
theorem digest_keeps (pieces : List Piece) : (digest pieces).Keeps regime :=
  keeps_lift (Code.keeps_perform ⟨trivial, trivial⟩)

@[grind ←]
theorem digestWords_keeps (words : List UInt64) : (digestWords words).Keeps regime :=
  digest_keeps _

/-- Elements are hashed one by one, and the tails by the routine. -/
@[grind ←]
theorem LazyList.hashes_keeps (list : LazyList) : list.hashes.Keeps regime := by
  have further : ∀ list : LazyList,
      Attempt.Keeps regime (.ofCode (.call (.hashElements list) .done)) :=
    fun _ => ⟨⟨trivial, trivial⟩, fun _ grants => grants⟩
  fun_cases LazyList.hashes list <;> grind

end Comparing

/-- The keys of entries fit. -/
def KeysFit (allowance : Allowance) (entries : List (Value × Thunk)) : Prop :=
  ∀ entry ∈ entries, entry.1.Fits allowance

section Entries

variable {entry : Value × Thunk} {entries passed sorted left right : List (Value × Thunk)}

/-- The keys of entries fit if the first one and the others do. -/
@[simp, grind =]
theorem keysFit_cons :
    KeysFit regime (entry :: entries) ↔ entry.1.Fits regime ∧ KeysFit regime entries :=
  forall_mem_cons

theorem keysFit_nil : KeysFit regime [] :=
  fun _ mem => by cases mem

theorem KeysFit.reverseAux (passedFit : KeysFit regime passed)
    (entriesFit : KeysFit regime entries) : KeysFit regime (passed.reverseAux entries) := by
  rw [reverseAux_eq]
  exact forall_mem_append.mpr
    ⟨fun entry mem => passedFit entry (mem_reverse.mp mem), entriesFit⟩

namespace Dictionary

/-- Sorting in one entry compares its key with those before it. -/
theorem insertSorted_obeys (entryFits : entry.1.Fits regime) (passedFit : KeysFit regime passed)
    (entriesFit : KeysFit regime entries) :
    (insertSorted entry passed entries).Obeys regime (KeysFit regime) := by
  induction entries generalizing passed with
  | nil =>
    exact obeys_pure (passedFit.reverseAux (keysFit_cons.mpr ⟨entryFits, keysFit_nil⟩))
  | cons other rest ih =>
    obtain ⟨otherFits, restFit⟩ := keysFit_cons.mp entriesFit
    refine Attempt.Obeys.bind (compareValues_keeps otherFits entryFits) fun outcome _ => ?_
    cases outcome with
    | gt =>
      exact obeys_pure (passedFit.reverseAux (keysFit_cons.mpr ⟨entryFits, entriesFit⟩))
    | _ => exact ih (keysFit_cons.mpr ⟨otherFits, passedFit⟩) restFit

/-- Sorting keeps the keys that it is given. -/
theorem sortEntries_obeys (sortedFit : KeysFit regime sorted)
    (entriesFit : KeysFit regime entries) :
    (sortEntries sorted entries).Obeys regime (KeysFit regime) := by
  induction entries generalizing sorted with
  | nil => exact obeys_pure sortedFit
  | cons entry rest ih =>
    obtain ⟨entryFits, restFit⟩ := keysFit_cons.mp entriesFit
    exact (insertSorted_obeys entryFits keysFit_nil sortedFit).bind
      fun _ insertedFit => ih insertedFit restFit

theorem Fits.sortedEntries {dict : Dict} (fits : dict.Fits regime) :
    dict.sortedEntries.Obeys regime (KeysFit regime) :=
  sortEntries_obeys keysFit_nil fits

/-- Entries are compared pair by pair, keys before values. -/
theorem compareEntries_keeps (leftFit : KeysFit regime left) (rightFit : KeysFit regime right) :
    (compareEntries left right).Keeps regime := by
  fun_induction compareEntries left right <;> grind

/-- Dictionaries of one size are compared by their sorted entries. -/
@[grind ←]
theorem Fits.compare {left right : Dict} (leftFits : left.Fits regime)
    (rightFits : right.Fits regime) : (left.compare right).Keeps regime := by
  unfold Dictionary.compare
  split
  · split
    · exact keeps_pure _
    · exact leftFits.sortedEntries.bind fun _ leftFit =>
        rightFits.sortedEntries.bind fun _ rightFit => compareEntries_keeps leftFit rightFit
  · exact keeps_pure _

theorem hashEntries_keeps (entriesFit : KeysFit regime entries) (sum : UInt64) :
    (hashEntries entries sum).Keeps regime := by
  induction entries generalizing sum with
  | nil => exact keeps_pure sum
  | cons entry rest ih =>
    unfold hashEntries
    grind

end Dictionary
end Entries

/-- Comparing values that fit fails only with errors that may occur. -/
theorem Value.Fits.compare {left right : Value} (leftFits : left.Fits regime)
    (rightFits : right.Fits regime) : (left.compare right).Keeps regime := by
  fun_cases Value.compare left right <;> grind

/-- Hashing a value that fits fails only with errors that may occur. -/
theorem Value.Fits.hash (fits : value.Fits regime) : value.hash.Keeps regime := by
  cases value with
  | dictionary entries =>
    refine (Dictionary.hashEntries_keeps (fits_dictionary.mp fits) 0).bind fun _ => ?_
    exact digestWords_keeps _
  | _ =>
    unfold Value.hash
    grind

/-! ## Dictionaries -/

namespace Dictionary

variable {dict other : Dict} {key : Value} {entries : List (Value × Thunk)}

/-- A key is compared with those of its bucket until one of them is equal. -/
@[grind ←]
theorem position?_keeps (keyFits : key.Fits regime) (entriesFit : KeysFit regime entries) :
    (position? key entries).Keeps regime := by
  induction entries with
  | nil => exact keeps_pure none
  | cons entry rest ih =>
    unfold position?
    grind

/-- The keys of a bucket are keys of the dictionary. -/
@[grind ←]
theorem Fits.bucket (fits : dict.Fits regime) (hash : UInt64) : KeysFit regime (dict.bucket hash) :=
  fun entry mem => fits entry (dict.bucket_subset hash mem)

section

variable (fits : dict.Fits regime) (keyFits : key.Fits regime)

include fits keyFits

@[grind ←]
theorem Fits.get? : (dict.get? key).Keeps regime := by
  have bucketFits := fits.bucket
  unfold Dictionary.get? Dictionary.bucket at *
  grind

/-- A key that is missing is an ordinary fault. -/
@[grind ←]
theorem Fits.index : (dict.index key).Keeps regime := by
  unfold Dictionary.index
  grind [Fault.kind]

@[grind ←]
theorem Fits.contains : (dict.contains key).Keeps regime := by
  unfold Dictionary.contains
  grind

end

end Dictionary

namespace Trie

open Dictionary

variable {trie : Trie Value Thunk} {key : Value}

/-- A new node has the keys it is made of. -/
theorem make_obeys {node : Nat → Trie Value Thunk}
    (fit : ∀ stamp, KeysFit regime (node stamp).toList) :
    (make node).Obeys regime fun made => KeysFit regime made.toList :=
  obeys_lift_bind Code.keeps_identity fun stamp _ => obeys_pure (fit stamp)

section

variable (fit : KeysFit regime trie.toList) (keyFits : key.Fits regime)

include fit keyFits

/-- A tip with a new key is joined to a node whose keys fit. -/
theorem join_tip_obeys (hash stem : UInt64) (value : Thunk) :
    Attempt.Obeys regime (fun result => KeysFit regime result.1.toList) (do
      let added ← make (.tip · hash [(key, value)])
      return (← make (join · hash added stem trie), true)) := by
  refine (make_obeys fun _ => keysFit_cons.mpr ⟨keyFits, keysFit_nil⟩).bind
    fun added addedFit => ?_
  exact (make_obeys fun _ => forall_mem_branch.mpr ⟨addedFit, fit⟩).bind
    fun _ joinedFit => obeys_pure joinedFit

/-- A walk that assigns makes nodes whose keys fit. -/
theorem insert_obeys (hash : UInt64) (value : Thunk) :
    (trie.insert hash key value).Obeys regime fun result => KeysFit regime result.1.toList := by
  induction trie using walk_induction hash with
  | tip former found bucket =>
    rw [insert]
    split
    · refine Attempt.Obeys.bind (position?_keeps keyFits fit) fun position _ => ?_
      refine (make_obeys fun _ entry mem => ?_).bind fun _ madeFits => obeys_pure madeFits
      rcases mem_assignAt mem with old | ⟨-, isKey | ⟨former, held, same⟩⟩
      · exact fit entry old
      · exact isKey ▸ keyFits
      · exact same ▸ fit former held
    · exact join_tip_obeys fit keyFits hash found value
  | branch former stem mask near far shares ih =>
    obtain ⟨nearFit, farFit⟩ := forall_mem_branch.mp fit
    rw [insert_branch shares]
    refine (ih nearFit).bind fun result newFit => ?_
    exact (make_obeys fun _ => forall_mem_branch.mpr ⟨newFit, farFit⟩).bind
      fun _ madeFits => obeys_pure madeFits
  | apart former stem mask low high differs =>
    rw [insert, if_neg differs]
    exact join_tip_obeys fit keyFits hash stem value

omit keyFits in
/-- A branch with one side replaced has keys of its new side and of the other one. -/
theorem replaceSide_obeys {rest : Option (Trie Value Thunk)}
    (otherFit : KeysFit regime other.toList) (restFit : ∀ node ∈ rest, KeysFit regime node.toList)
    (aroundFit : ∀ node stamp, KeysFit regime node.toList →
      KeysFit regime (around node stamp).toList) :
    (replaceSide trie side other around rest).Obeys regime
      fun made => KeysFit regime made.toList := by
  cases rest with
  | none => exact obeys_pure otherFit
  | some node =>
    rw [replaceSide]
    split
    · exact obeys_pure fit
    · exact make_obeys fun stamp => aroundFit node stamp (restFit node rfl)

/-- A walk that removes makes nodes whose keys fit. -/
theorem remove_obeys (hash : UInt64) :
    (trie.remove hash key).Obeys regime fun rest => ∀ node ∈ rest, KeysFit regime node.toList := by
  induction trie using walk_induction hash with
  | tip former found bucket =>
    have unchanged : ∀ node ∈ some (tip former found bucket), KeysFit regime node.toList := by
      simpa using fit
    rw [remove]
    split
    · refine Attempt.Obeys.bind (position?_keeps keyFits fit) fun position _ => ?_
      cases position with
      | none => exact obeys_pure unchanged
      | some position =>
        simp only
        split
        · exact obeys_pure (by simp)
        · refine Attempt.Obeys.bind
            (make_obeys fun _ entry mem => fit entry (mem_of_mem_eraseIdx mem))
            fun _ madeFits => obeys_pure (by simpa using madeFits)
    · exact obeys_pure unchanged
  | branch former stem mask near far shares ih =>
    obtain ⟨nearFit, farFit⟩ := forall_mem_branch.mp fit
    rw [remove_branch shares]
    refine (ih nearFit).bind fun rest restFit => ?_
    exact Attempt.Obeys.bind (replaceSide_obeys fit farFit restFit fun _ _ newFit =>
      forall_mem_branch.mpr ⟨newFit, farFit⟩) fun _ madeFits => obeys_pure (by simpa using madeFits)
  | apart former stem mask low high differs =>
    rw [remove, if_neg differs]
    exact obeys_pure (by simpa using fit)

end

end Trie

namespace Dictionary

variable {dict other : Dict} {key : Value} {entries : List (Value × Thunk)}

theorem fits_empty : Dictionary.empty.Fits regime :=
  fun _ mem => by cases mem

section

variable (fits : dict.Fits regime)

include fits

/-- Assigning adds at most the key that is assigned to. -/
theorem Fits.insert (keyFits : key.Fits regime) (value : Thunk) :
    (dict.insert key value).Obeys regime (Dictionary.Fits regime) := by
  refine Attempt.Obeys.bind (hashValue_keeps keyFits) fun hash _ => ?_
  unfold Dictionary.Fits Dictionary.toList at fits
  split
  · exact (Trie.make_obeys fun _ => keysFit_cons.mpr ⟨keyFits, keysFit_nil⟩).bind
      fun _ madeFits => obeys_pure madeFits
  · rename_i trie root
    rw [root] at fits
    exact (Trie.insert_obeys fits keyFits hash value).bind fun _ madeFits => obeys_pure madeFits

/-- Removing adds no keys. -/
theorem Fits.remove (keyFits : key.Fits regime) :
    (dict.remove key).Obeys regime (Dictionary.Fits regime) := by
  unfold Dictionary.remove
  split
  · exact obeys_pure fits
  · rename_i trie root
    refine Attempt.Obeys.bind (hashValue_keeps keyFits) fun hash _ => ?_
    unfold Dictionary.Fits Dictionary.toList at fits
    rw [root] at fits
    refine (Trie.remove_obeys fits keyFits hash).bind fun rest restFit => obeys_pure ?_
    cases rest with
    | none => exact keysFit_nil
    | some node => exact restFit node rfl

theorem Fits.insertAll (entriesFit : KeysFit regime entries) :
    (dict.insertAll entries).Obeys regime (Dictionary.Fits regime) := by
  induction entries generalizing dict with
  | nil => exact obeys_pure fits
  | cons entry rest ih =>
    obtain ⟨entryFits, restFit⟩ := keysFit_cons.mp entriesFit
    exact (fits.insert entryFits entry.2).bind fun _ madeFits =>
      ih madeFits restFit

end

theorem ofEntries_obeys (entriesFit : KeysFit regime entries) :
    (ofEntries entries).Obeys regime (Dictionary.Fits regime) :=
  fits_empty.insertAll entriesFit

/-- The keys of a union are those of its parts. -/
theorem Fits.merge (fits : dict.Fits regime) (otherFits : other.Fits regime) :
    (dict.merge other).Obeys regime (Dictionary.Fits regime) := by
  unfold Dictionary.merge
  split
  · exact obeys_pure otherFits
  · exact fits.insertAll otherFits

end Dictionary

/-! ## Lists -/

namespace LazyList

variable (list : LazyList)

/-- An empty list has no first element, which is an ordinary fault. -/
@[grind ←]
theorem first_keeps : list.first.Keeps regime := by
  unfold first
  grind [Fault.kind]

@[grind ←]
theorem rest_keeps : list.rest.Keeps regime := by
  unfold rest
  grind [Fault.kind]

@[grind ←]
theorem elements_keeps : list.elements.Keeps regime :=
  ⟨⟨trivial, trivial⟩, fun _ grants => grants⟩

/-- Each step of gathering elements opens one tail. -/
theorem elementsStep_keeps : list.elementsStep.Keeps regime := by
  fun_cases elementsStep list <;> grind

@[grind ←]
theorem size_keeps : list.size.Keeps regime := by
  unfold size
  grind

@[grind ←]
theorem contains_keeps (fits : value.Fits regime) : (list.contains value).Keeps regime :=
  ⟨⟨fits, trivial⟩, fun _ grants => grants⟩

/-- Each step of a search compares one element. -/
theorem containsStep_keeps (fits : value.Fits regime) : (list.containsStep value).Keeps regime := by
  fun_cases containsStep list value <;> grind

@[grind ←]
theorem nth_keeps (skipped : Nat) : (list.nth skipped).Keeps regime :=
  ⟨⟨trivial, trivial⟩, fun _ grants => grants⟩

/-- A broken tail gives its error in the place of the next element, and nothing further on. -/
theorem nthStep_keeps (skipped : Nat) : (list.nthStep skipped).Keeps regime := by
  fun_cases nthStep list skipped with
  | case1 => exact keeps_pure none
  | case2 head => exact keeps_pure (some head)
  | case3 head tail skipped =>
    refine keeps_force_bind fun value fits => ?_
    have found := fits.toList
    cases outcome : value.toList with
    | ok rest => exact rest.nth_keeps skipped
    | error failure =>
      rw [outcome] at found
      simp only
      split
      · exact found
      · exact keeps_pure none

/-- A position out of range is an ordinary fault. -/
@[grind ←]
theorem index_keeps (position : Nat) : (list.index position).Keeps regime := by
  unfold index
  grind [Fault.kind]

@[grind ←]
theorem cut_keeps (position : Nat) : (list.cut position).Keeps regime :=
  ⟨⟨trivial, trivial⟩, fun _ grants => grants⟩

/-- Each step of cutting moves one element before the cut. -/
theorem cutStep_keeps (position : Nat) : (list.cutStep position).Keeps regime := by
  fun_cases cutStep list position <;> grind

section

variable (elements : List Thunk)

@[grind ←]
theorem prependEach_keeps (tail : Thunk) : (prependEach elements tail).Keeps regime := by
  induction elements generalizing tail with
  | nil => exact Code.keeps_pure tail
  | cons element rest ih =>
    exact (newValue_keeps (.list _)).bind ih

@[grind ←]
theorem prepend_keeps (tail : Thunk) : (prepend elements tail).Keeps regime :=
  prependEach_keeps _ tail

/-- Elements are put before a list one by one, and every cell is a new value. -/
@[grind ←]
theorem consEach_keeps : (consEach elements list).Keeps regime := by
  induction elements generalizing list with
  | nil => exact Code.keeps_pure list
  | cons element rest ih =>
    exact (newValue_keeps (.list _)).bind fun _ => ih _

@[grind ←]
theorem ofThunks_keeps : (ofThunks elements).Keeps regime :=
  consEach_keeps .empty _

end

theorem ofValues_keeps (fit : ∀ value ∈ values, value.Fits regime) :
    (ofValues values).Keeps regime :=
  (Code.keeps_mapM fun value mem => newValue_keeps (fit value mem)).bind ofThunks_keeps

/-- Deleting cuts a list and puts its parts together. -/
@[grind ←]
theorem delete_keeps (position : Nat) : (list.delete position).Keeps regime := by
  unfold delete
  grind [Fault.kind]

@[grind ←]
theorem append_keeps (front tail : Thunk) : (append front tail).Keeps regime :=
  suspend_keeps trivial trivial

/-- One step of appending opens the front list for one cell. -/
theorem appendStep_keeps (front tail : Thunk) : (appendStep front tail).Keeps regime := by
  unfold appendStep
  grind

/-- The concatenation of the other lists is suspended. -/
theorem concatenateStep_keeps (lists : Thunk) : (concatenateStep lists).Keeps regime := by
  have others : ∀ rest, (suspend (.concatenate rest)).Keeps regime := fun _ =>
    suspend_keeps trivial trivial
  unfold concatenateStep
  grind

end LazyList

/-- Every pair is made of a key that fits and the value that was there. -/
theorem Dictionary.Fits.pairs {dict : Dict} (fits : dict.Fits regime) :
    dict.pairs.Keeps regime := by
  refine (Code.keeps_mapM fun entry mem => ?_).bind LazyList.ofThunks_keeps
  exact (newValue_keeps (fits entry mem)).bind fun _ =>
    (LazyList.ofThunks_keeps _).bind fun _ => newValue_keeps (.list _)

/-! ## Texts and views -/

@[grind ←]
theorem render_keeps (fits : value.Fits regime) : (render value).Keeps regime :=
  ⟨⟨fits, trivial⟩, fun _ grants => grants⟩

@[grind ←]
theorem LazyList.renderElements_keeps (list : LazyList) : list.renderElements.Keeps regime := by
  have further : ∀ list : LazyList,
      Attempt.Keeps regime (.ofCode (.call (.renderElements list) .done)) :=
    fun _ => ⟨⟨trivial, trivial⟩, fun _ grants => grants⟩
  fun_cases renderElements list <;> grind

theorem Dictionary.renderEntry_keeps {entry : Value × Thunk} (fits : entry.1.Fits regime) :
    (renderEntry entry).Keeps regime := by
  unfold renderEntry
  grind

/-- Rendering passes on the errors that it meets. -/
theorem Value.Fits.render (fits : value.Fits regime) : value.render.Keeps regime := by
  cases value with
  | list cells =>
    exact Attempt.Obeys.bind cells.renderElements_keeps fun _ _ => keeps_pure _
  | dictionary entries =>
    exact Attempt.Obeys.bind (fits_dictionary.mp fits).sortedEntries fun _ sortedFit =>
      Attempt.Obeys.bind (obeys_mapM fun entry mem =>
        Dictionary.renderEntry_keeps (sortedFit entry mem)) fun _ _ => keeps_pure _
  | error failure => exact fits_error.mp fits
  | _ => exact keeps_pure _

/-- A string is displayed as it is, and all else is rendered. -/
@[grind ←]
theorem Value.Fits.display (fits : value.Fits regime) : value.display.Keeps regime := by
  cases value with
  | string text => exact keeps_pure text
  | _ => exact render_keeps fits

@[grind ←]
theorem viewValue_keeps (fits : value.Fits regime) (limit : Nat) :
    (viewValue value limit).Keeps regime :=
  ⟨⟨fits, trivial⟩, fun _ _ => trivial⟩

/-- A view evaluates heads and tails and shows what they are, errors too. -/
theorem viewList_keeps (list : LazyList) (limit room : Nat) :
    (viewList list limit room).Keeps regime := by
  fun_cases viewList list limit room with
  | case1 | case2 => exact Code.keeps_pure _
  | case3 head tail room =>
    refine (force_obeys head).bind fun _ headFits => ?_
    refine Code.Obeys.bind (viewValue_keeps headFits limit) fun element _ => ?_
    refine (force_obeys tail).bind fun rest restFits => ?_
    split
    · exact Code.Obeys.bind ⟨⟨trivial, trivial⟩, fun _ _ => trivial⟩
        fun _ (_ : True) => Code.keeps_pure _
    · exact Code.Obeys.bind (viewValue_keeps restFits limit) fun _ _ => Code.keeps_pure _

theorem viewEntry_keeps (limit : Nat) (fits : entry.1.Fits regime) :
    (viewEntry limit entry).Keeps regime :=
  (viewValue_keeps fits limit).bind fun _ =>
    (force_obeys entry.2).bind fun _ valueFits =>
      (viewValue_keeps valueFits limit).bind fun _ => Code.keeps_pure _

/-- Viewing a value that fits breaks off nowhere. -/
theorem Value.Fits.view (fits : value.Fits regime) (limit : Nat) :
    (value.view limit).Keeps regime := by
  cases value with
  | list cells => exact viewList_keeps cells limit limit
  | dictionary entries =>
    refine Code.Obeys.bind (fits_dictionary.mp fits).sortedEntries fun outcome grants => ?_
    cases outcome with
    | ok sorted =>
      exact (Code.keeps_mapM fun entry mem =>
        viewEntry_keeps limit (grants entry mem)).bind fun _ => Code.keeps_pure _
    | error failure => exact Code.keeps_pure _
  | _ => exact Code.keeps_pure _

end ByNeed
