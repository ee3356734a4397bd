import ByNeed.Proofs.Machine.Effects

/-!
# Reading order and hash off a store

A reading follows comparing or hashing, looks only into thunks that are evaluated, and has no answer
where the routine would fail or has something left to evaluate.  It goes down so many levels at
most.  An answer stays the same in later stores and at greater bounds.
-/

namespace ByNeed

open List

variable {entry : Value × Thunk} {sorted : List (Value × Thunk)}
namespace Store

/-- What a store knows is known to a later one. -/
structure Recalls (earlier later : Store) : Prop where
  evaluated : ∀ thunk value, earlier.slot? thunk = some (.evaluated value) →
    later.slot? thunk = some (.evaluated value)
  digest : later.digest = earlier.digest

/-- What forcing a thunk gives, if that is known. -/
def forced? (store : Store) (thunk : Thunk) : Option Value :=
  match store.slot? thunk with
  | some (.evaluated value) => some value.purely
  | _ => none

/-- The list that forcing a thunk gives, if that is known. -/
def forcedList? (store : Store) (thunk : Thunk) : Option LazyList :=
  match store.forced? thunk with
  | some (.list cells) => some cells
  | _ => none

section Order

variable (store : Store) (order : Value → Value → Option Ordering)

/-- The order of what two thunks evaluate to. -/
def thunkOrder? (left right : Thunk) : Option Ordering :=
  if left = right then some .eq
  else do
    let leftValue ← store.forced? left
    let rightValue ← store.forced? right
    order leftValue rightValue

/-- The order of the tails of two lists. -/
def tailOrder? (left right : Thunk) : Option Ordering :=
  if left = right then some .eq
  else do
    let leftList ← store.forcedList? left
    let rightList ← store.forcedList? right
    order (.list leftList) (.list rightList)

/-- The order of two lists. -/
def listOrder? : LazyList → LazyList → Option Ordering
  | .empty, .empty => some .eq
  | .empty, .cons .. => some .lt
  | .cons .., .empty => some .gt
  | .cons leftHead leftTail, .cons rightHead rightTail => do
      match ← store.thunkOrder? order leftHead rightHead with
      | .eq => store.tailOrder? order leftTail rightTail
      | unequal => some unequal

/-- Entries sorted by key, with one more inserted behind those passed. -/
def insertSorted? (entry : Value × Thunk) (passed : List (Value × Thunk)) :
    List (Value × Thunk) → Option (List (Value × Thunk))
  | [] => some (passed.reverseAux [entry])
  | other :: rest => do
      match ← order other.1 entry.1 with
      | .gt => some (passed.reverseAux (entry :: other :: rest))
      | _ => insertSorted? entry (other :: passed) rest

/-- Entries sorted by key, with more sorted in. -/
def sortEntries? : List (Value × Thunk) → List (Value × Thunk) → Option (List (Value × Thunk))
  | sorted, [] => some sorted
  | sorted, entry :: rest => do sortEntries? (← insertSorted? order entry [] sorted) rest

/-- The order of entries pair by pair. -/
def entriesOrder? : List (Value × Thunk) → List (Value × Thunk) → Option Ordering
  | (leftKey, leftValue) :: left, (rightKey, rightValue) :: right => do
      match ← order leftKey rightKey with
      | .eq =>
        match ← store.thunkOrder? order leftValue rightValue with
        | .eq => entriesOrder? left right
        | unequal => some unequal
      | unequal => some unequal
  | _, _ => some .eq

/-- The order of two dictionaries. -/
def dictionaryOrder? (left right : Dict) : Option Ordering :=
  match Ord.compare left.size right.size with
  | .eq =>
    if left.isSame right then some .eq
    else do
      let leftEntries ← sortEntries? order [] left.toList
      let rightEntries ← sortEntries? order [] right.toList
      store.entriesOrder? order leftEntries rightEntries
  | unequal => some unequal

/-- The order of two values, one level down. -/
def valueOrder? : Value → Value → Option Ordering
  | .error _, _ => none
  | _, .error _ => none
  | .nil, .nil => some .eq
  | .boolean left, .boolean right => some (Ord.compare left right)
  | .number left, .number right => some (Number.order left right)
  | .string left, .string right => some (Ord.compare left right)
  | .list left, .list right => store.listOrder? order left right
  | .dictionary left, .dictionary right => store.dictionaryOrder? order left right
  | .function left, .function right => some (Ord.compare left.identity right.identity)
  | .effect left _, .effect right _ => some (Ord.compare left right)
  | left, right => some (Ord.compare left.kind.rank right.kind.rank)

end Order

/-- The order of two values, so many levels down. -/
def order? (store : Store) : Nat → Value → Value → Option Ordering
  | 0, _, _ => none
  | bound + 1, left, right => store.valueOrder? (store.order? bound) left right

section Hash

variable (store : Store) (hash : Value → Option UInt64)
  (hashes : LazyList → Option (List UInt64))

/-- The hash of what a thunk evaluates to. -/
def thunkHash? (thunk : Thunk) : Option UInt64 := do
  hash (← store.forced? thunk)

/-- The hashes of the elements of a list, one level down. -/
def listHashes? : LazyList → Option (List UInt64)
  | .empty => some []
  | .cons head tail => do
      let headHash ← store.thunkHash? hash head
      let rest ← store.forcedList? tail
      return headHash :: (← hashes rest)

/-- The digest of an entry. -/
def entryHash? (entry : Value × Thunk) : Option UInt64 := do
  let keyHash ← hash entry.1
  let valueHash ← store.thunkHash? hash entry.2
  return store.digest ([keyHash, valueHash].map Piece.word)

/-- The sum of the digests of entries. -/
def entriesHash? : List (Value × Thunk) → UInt64 → Option UInt64
  | [], sum => some sum
  | entry :: rest, sum => do entriesHash? rest (sum + (← store.entryHash? hash entry))

/-- The hash of a value, one level down. -/
def valueHash? : Value → Option UInt64
  | .nil => some (store.digest [.word 0])
  | .boolean truth => some (store.digest [.word 1, .word (if truth then 1 else 0)])
  | .number x => some (store.digest [.word 2, .word (Number.word x)])
  | .string text => some (store.digest [.word 3, .text text])
  | .list cells => do
      return store.digest (((4 : UInt64) :: (← store.listHashes? hash hashes cells)).map .word)
  | .dictionary entries => do
      let sum ← store.entriesHash? hash entries.toList 0
      return store.digest [.word 5, .word (UInt64.ofNat entries.size), .word sum]
  | .function callee => some (store.digest [.word 6, .word (UInt64.ofNat callee.identity)])
  | .effect identity _ => some (store.digest [.word 7, .word (UInt64.ofNat identity)])
  | .error _ => none

end Hash

mutual

/-- The hash of a value, so many levels down. -/
def hash? (store : Store) : Nat → Value → Option UInt64
  | 0, _ => none
  | bound + 1, value => store.valueHash? (store.hash? bound) (store.hashes? bound) value

/-- The hashes of the elements of a list, so many levels down. -/
def hashes? (store : Store) : Nat → LazyList → Option (List UInt64)
  | 0, _ => none
  | bound + 1, list => store.listHashes? (store.hash? bound) (store.hashes? bound) list

end

end Store

/-! ## Sorting rearranges -/

namespace Store

variable {order : Value → Value → Option Ordering}
variable {entries result : List (Value × Thunk)}

theorem insertSorted?_perm (inserted : insertSorted? order entry passed entries = some result) :
    result.Perm (entry :: (passed ++ entries)) := by
  induction entries generalizing passed with
  | nil =>
    cases inserted
    rw [reverseAux_eq, append_nil]
    exact (perm_append_singleton entry _).trans ((reverse_perm passed).cons entry)
  | cons other rest ih =>
    obtain ⟨outcome, -, chosen⟩ := Option.bind_eq_some_iff.mp inserted
    have later : insertSorted? order entry (other :: passed) rest = some result →
        result.Perm (entry :: (passed ++ other :: rest)) := fun inserted =>
      (ih inserted).trans (perm_middle.symm.cons entry)
    cases outcome with
    | gt =>
      cases chosen
      rw [reverseAux_eq]
      exact perm_middle.trans
        (((reverse_perm passed).append_right (other :: rest)).cons entry)
    | lt | eq => exact later chosen

theorem sortEntries?_perm (sorts : sortEntries? order sorted entries = some result) :
    result.Perm (sorted ++ entries) := by
  induction entries generalizing sorted with
  | nil =>
    cases sorts
    rw [append_nil]
  | cons entry rest ih =>
    obtain ⟨between, inserted, restSorts⟩ := Option.bind_eq_some_iff.mp sorts
    have insertedPerm : between.Perm (entry :: sorted) := insertSorted?_perm inserted
    exact (ih restSorts).trans ((insertedPerm.append_right rest).trans perm_middle.symm)

end Store

/-! ## Answers stay -/

/-- Whatever one reading answers, another answers too. -/
def Refines {α : Type} (answer further : Option α) : Prop :=
  ∀ result, answer = some result → further = some result

namespace Refines

variable {α β : Type}
variable {answer further : Option α} {next nextFurther : α → Option β}

theorem refl (answer : Option α) : Refines answer answer :=
  fun _ known => known

theorem none (further : Option α) : Refines .none further :=
  fun _ known => by cases known

section

variable (refines : Refines answer further)

include refines

theorem bind_of_known
    (rest : ∀ result, answer = some result → Refines (next result) (nextFurther result)) :
    Refines (answer.bind next) (further.bind nextFurther) := by
  intro result known
  obtain ⟨between, first, second⟩ := Option.bind_eq_some_iff.mp known
  exact Option.bind_eq_some_iff.mpr
    ⟨between, refines between first, rest between first result second⟩

theorem bind (rest : ∀ result, Refines (next result) (nextFurther result)) :
    Refines (answer.bind next) (further.bind nextFurther) :=
  refines.bind_of_known fun result _ => rest result

/-- Two answers that a third one refines to are the same. -/
theorem unique (refinesToo : Refines other further)
    (known : answer = some first) (knownToo : other = some second) : first = second := by
  have same := (refines first known).symm.trans (refinesToo second knownToo)
  exact Option.some.inj same

end

end Refines

namespace Store

section Sorting

variable {order further : Value → Value → Option Ordering} {among : Value → Prop}
  (refines : ∀ left right, among left → among right →
    Refines (order left right) (further left right))
variable {entries : List (Value × Thunk)}

include refines

theorem insertSorted?_refines_among
    (entryAmong : among entry.1) (entriesAmong : ∀ other ∈ entries, among other.1)
    (passed : List (Value × Thunk)) : Refines (insertSorted? order entry passed entries)
      (insertSorted? further entry passed entries) := by
  induction entries generalizing passed with
  | nil => exact .refl _
  | cons other rest ih =>
    obtain ⟨otherAmong, restAmong⟩ := forall_mem_cons.mp entriesAmong
    refine (refines _ _ otherAmong entryAmong).bind fun outcome => ?_
    cases outcome with
    | gt => exact .refl _
    | lt | eq => exact ih restAmong _

theorem sortEntries?_refines_among (entriesAmong : ∀ entry ∈ sorted ++ entries, among entry.1) :
    Refines (sortEntries? order sorted entries) (sortEntries? further sorted entries) := by
  induction entries generalizing sorted with
  | nil => exact .refl _
  | cons entry rest ih =>
    obtain ⟨sortedAmong, restAmong⟩ := forall_mem_append.mp entriesAmong
    obtain ⟨entryAmong, restAmong⟩ := forall_mem_cons.mp restAmong
    refine (insertSorted?_refines_among refines entryAmong sortedAmong []).bind_of_known
      fun between inserted => ?_
    have allAmong : ∀ other ∈ entry :: sorted, among other.1 :=
      forall_mem_cons.mpr ⟨entryAmong, sortedAmong⟩
    exact ih (forall_mem_append.mpr
      ⟨fun other mem => allAmong other ((insertSorted?_perm inserted).subset mem),
        restAmong⟩)

end Sorting

section Recalls

variable {earlier later : Store}
variable {bound greater : Nat}

theorem forced?_refines (recalls : earlier.Recalls later) (thunk : Thunk) :
    Refines (earlier.forced? thunk) (later.forced? thunk) := by
  intro value known
  unfold forced? at known ⊢
  split at known
  · rename_i held
    rw [recalls.evaluated thunk _ held]
    exact known
  · contradiction

theorem forcedList?_refines (recalls : earlier.Recalls later) (thunk : Thunk) :
    Refines (earlier.forcedList? thunk) (later.forcedList? thunk) := by
  intro cells known
  unfold forcedList? at known ⊢
  split at known
  · rename_i held
    rw [forced?_refines recalls thunk _ held]
    exact known
  · contradiction

section Order

variable {order further : Value → Value → Option Ordering}
  (recalls : earlier.Recalls later)
  (refines : ∀ left right, Refines (order left right) (further left right))

include recalls refines

theorem thunkOrder?_refines (left right : Thunk) :
    Refines (earlier.thunkOrder? order left right) (later.thunkOrder? further left right) := by
  unfold thunkOrder?
  split
  · exact .refl _
  · exact (forced?_refines recalls left).bind fun leftValue =>
      (forced?_refines recalls right).bind fun rightValue => refines leftValue rightValue

theorem tailOrder?_refines (left right : Thunk) :
    Refines (earlier.tailOrder? order left right) (later.tailOrder? further left right) := by
  unfold tailOrder?
  split
  · exact .refl _
  · exact (forcedList?_refines recalls left).bind fun leftList =>
      (forcedList?_refines recalls right).bind fun rightList => refines _ _

theorem listOrder?_refines (left right : LazyList) :
    Refines (earlier.listOrder? order left right) (later.listOrder? further left right) := by
  unfold listOrder?
  split
  · exact .refl _
  · exact .refl _
  · exact .refl _
  · refine (thunkOrder?_refines recalls refines _ _).bind fun outcome => ?_
    cases outcome with
    | eq => exact tailOrder?_refines recalls refines _ _
    | lt | gt => exact .refl _

omit recalls in
theorem sortEntries?_refines (sorted entries : List (Value × Thunk)) :
    Refines (sortEntries? order sorted entries) (sortEntries? further sorted entries) :=
  sortEntries?_refines_among (fun left right (_ : True) _ => refines left right) fun _ _ => trivial

theorem entriesOrder?_refines (left right : List (Value × Thunk)) :
    Refines (earlier.entriesOrder? order left right) (later.entriesOrder? further left right) := by
  induction left generalizing right with
  | nil => exact .refl _
  | cons leftEntry left ih =>
    cases right with
    | nil => exact .refl _
    | cons rightEntry right =>
      refine (refines leftEntry.1 rightEntry.1).bind fun keys => ?_
      cases keys with
      | eq =>
        refine (thunkOrder?_refines recalls refines _ _).bind fun values => ?_
        cases values with
        | eq => exact ih right
        | lt | gt => exact .refl _
      | lt | gt => exact .refl _

theorem dictionaryOrder?_refines (left right : Dict) :
    Refines (earlier.dictionaryOrder? order left right)
      (later.dictionaryOrder? further left right) := by
  unfold dictionaryOrder?
  split
  · split
    · exact .refl _
    · exact (sortEntries?_refines refines [] left.toList).bind fun leftEntries =>
        (sortEntries?_refines refines [] right.toList).bind fun rightEntries =>
          entriesOrder?_refines recalls refines leftEntries rightEntries
  · exact .refl _

theorem valueOrder?_refines (left right : Value) :
    Refines (earlier.valueOrder? order left right) (later.valueOrder? further left right) := by
  unfold valueOrder?
  split
  case h_7 => exact listOrder?_refines recalls refines _ _
  case h_8 => exact dictionaryOrder?_refines recalls refines _ _
  all_goals exact .refl _

end Order

/-- The order that can be read off a store stays the same. -/
theorem order?_refines (recalls : earlier.Recalls later)
    (le : bound ≤ greater) (left right : Value) :
    Refines (earlier.order? bound left right) (later.order? greater left right) := by
  induction bound generalizing greater left right with
  | zero => exact .none _
  | succ bound ih =>
    cases greater with
    | zero => omega
    | succ greater =>
      exact valueOrder?_refines recalls (fun left right => ih (Nat.le_of_succ_le_succ le) left
        right) left right

section Hash

variable {hash furtherHash : Value → Option UInt64}
  {hashes furtherHashes : LazyList → Option (List UInt64)}
  (recalls : earlier.Recalls later)
  (refines : ∀ value, Refines (hash value) (furtherHash value))

include recalls refines

theorem thunkHash?_refines (thunk : Thunk) :
    Refines (earlier.thunkHash? hash thunk) (later.thunkHash? furtherHash thunk) :=
  (forced?_refines recalls thunk).bind refines

theorem listHashes?_refines (listRefines : ∀ list, Refines (hashes list) (furtherHashes list))
    (list : LazyList) : Refines (earlier.listHashes? hash hashes list)
      (later.listHashes? furtherHash furtherHashes list) := by
  cases list with
  | empty => exact .refl _
  | cons head tail =>
    exact (thunkHash?_refines recalls refines head).bind fun headHash =>
      (forcedList?_refines recalls tail).bind fun rest =>
        (listRefines rest).bind fun tailHashes => .refl _

theorem entryHash?_refines (entry : Value × Thunk) :
    Refines (earlier.entryHash? hash entry) (later.entryHash? furtherHash entry) := by
  unfold entryHash?
  rw [recalls.digest]
  exact (refines entry.1).bind fun keyHash =>
    (thunkHash?_refines recalls refines entry.2).bind fun valueHash => .refl _

theorem entriesHash?_refines (entries : List (Value × Thunk)) (sum : UInt64) :
    Refines (earlier.entriesHash? hash entries sum)
      (later.entriesHash? furtherHash entries sum) := by
  induction entries generalizing sum with
  | nil => exact .refl _
  | cons entry rest ih =>
    exact (entryHash?_refines recalls refines entry).bind fun _ => ih _

theorem valueHash?_refines (listRefines : ∀ list, Refines (hashes list) (furtherHashes list))
    (value : Value) : Refines (earlier.valueHash? hash hashes value)
      (later.valueHash? furtherHash furtherHashes value) := by
  unfold valueHash?
  rw [recalls.digest]
  cases value with
  | list cells =>
    exact (listHashes?_refines recalls refines listRefines cells).bind fun _ => .refl _
  | dictionary entries =>
    exact (entriesHash?_refines recalls refines _ 0).bind fun _ => .refl _
  | _ => exact .refl _

end Hash

/-- The hashes that can be read off a store stay the same. -/
theorem hash?_refines (recalls : earlier.Recalls later) (le : bound ≤ greater) :
    (∀ value, Refines (earlier.hash? bound value) (later.hash? greater value)) ∧
      ∀ list, Refines (earlier.hashes? bound list) (later.hashes? greater list) := by
  induction bound generalizing greater with
  | zero => exact ⟨fun value => .none _, fun list => .none _⟩
  | succ bound ih =>
    cases greater with
    | zero => omega
    | succ greater =>
      obtain ⟨values, lists⟩ := ih (Nat.le_of_succ_le_succ le)
      exact ⟨valueHash?_refines recalls values lists, listHashes?_refines recalls values lists⟩

end Recalls
end Store
end ByNeed
