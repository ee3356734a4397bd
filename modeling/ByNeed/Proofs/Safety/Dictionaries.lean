import ByNeed.Proofs.Dictionary.Entries
import ByNeed.Proofs.Safety.Comparing

/-!
# Operations on dictionaries are safe

Every node that an update makes has a stamp that no other bears, so nodes that pass for the very
same are equal.  A key that is put into a bucket has been hashed and compared with all others there.
-/

namespace ByNeed

open Attempt List
open Stage (Admitted Any recalls)

variable {frame : Frame} {stage : Stage frame}
variable {dict : Dict} {hash : UInt64} {value : Thunk}
variable {trie : Trie Value Thunk} {entries : List (Value × Thunk)} {key : Value}

/-! ## New nodes -/

namespace Realm

variable {realm : Realm} {stamp : Nat}

theorem isNode_tip (less : stamp < realm.store.nextIdentity) (nonempty : entries ≠ [])
    (holds : ∀ entry ∈ entries, realm.AdmitsEntry entry) (files : realm.store.Files hash entries) :
    realm.IsNode (.tip stamp hash entries) where
  stamp_lt := less
  wellFormed := .tip stamp hash nonempty
  admits_key entry mem := (holds entry mem).1
  sees_value entry mem := (holds entry mem).2
  files other := by
    rw [Trie.bucket_tip]
    split
    · rename_i same
      exact same ▸ files
    · exact ⟨fun _ mem => absurd mem not_mem_nil, .nil⟩
  sides isBin := by contradiction

theorem isNode_bin (sound : realm.Sound) (less : stamp < realm.store.nextIdentity)
    (formed : (Trie.bin stamp stem mask low high).WellFormed) (lowKnown : realm.nodes low)
    (highKnown : realm.nodes high) : realm.IsNode (.bin stamp stem mask low high) where
  stamp_lt := less
  wellFormed := formed
  admits_key entry mem := (mem_append.mp mem).elim ((sound.isNode lowKnown).admits_key entry)
    ((sound.isNode highKnown).admits_key entry)
  sees_value entry mem := (mem_append.mp mem).elim ((sound.isNode lowKnown).sees_value entry)
    ((sound.isNode highKnown).sees_value entry)
  files other := by
    rw [Trie.bucket]
    split
    · split
      · exact (sound.isNode highKnown).files other
      · exact (sound.isNode lowKnown).files other
    · exact ⟨fun _ mem => absurd mem not_mem_nil, .nil⟩
  sides isBin := by
    cases isBin
    exact ⟨lowKnown, highKnown⟩

section Branch

open Trie (branch)

variable {side : Bool}

theorem isNode_branch (sound : realm.Sound) (less : stamp < realm.store.nextIdentity)
    (formed : (branch stamp stem mask side near far).WellFormed) (nearKnown : realm.nodes near)
    (farKnown : realm.nodes far) : realm.IsNode (branch stamp stem mask side near far) := by
  cases side
  · exact isNode_bin sound less formed nearKnown farKnown
  · exact isNode_bin sound less formed farKnown nearKnown

theorem IsNode.sides_branch (isNode : realm.IsNode (branch stamp stem mask side near far)) :
    realm.nodes near ∧ realm.nodes far := by
  cases side
  · exact isNode.sides rfl
  · exact (isNode.sides rfl).symm

end Branch

end Realm

/-- A node with a stamp that no other bears may be added. -/
theorem Stage.exists_node (unused : stage.Unused trie.stamp) (isNode : stage.IsNode trie) :
    ∃ richer, stage ≤ richer ∧ richer.store = stage.store ∧ richer.nodes trie := by
  let richer : Realm :=
    { store := stage.store
      nodes := fun node => stage.nodes node ∨ node = trie }
  have le : stage.toRealm ≤ richer :=
    { slots := fun _ slot held => ⟨slot, held, .stay slot⟩
      digest := rfl
      nodes := fun _ known => .inl known }
  have carries : ∀ {node}, stage.IsNode node → richer.IsNode node := fun isNode =>
    { stamp_lt := isNode.stamp_lt
      wellFormed := isNode.wellFormed
      admits_key := fun entry mem => (isNode.admits_key entry mem).mono le
      sees_value := isNode.sees_value
      files := isNode.files
      sides := fun isBin => (isNode.sides isBin).imp .inl .inl }
  have sound : richer.Sound :=
    { evaluated := fun evaluated => (stage.sound.evaluated evaluated).mono le
      suspended := fun suspended => stage.sound.suspended suspended
      mentioned := fun mentions => stage.sound.mentioned mentions
      isNode := by
        rintro node (known | rfl)
        · exact carries (stage.sound.isNode known)
        · exact carries isNode
      alike := by
        rintro left right (leftKnown | rfl) (rightKnown | rfl) sameStamp
        · exact stage.sound.alike leftKnown rightKnown sameStamp
        · exact absurd sameStamp (unused.2 left leftKnown)
        · exact absurd sameStamp.symm (unused.2 right rightKnown)
        · rfl }
  exact ⟨{ richer with sound, fits := stage.fits }, le, rfl, .inr rfl⟩

theorem Trie.make_safe {node : Nat → Trie Value Thunk}
    (stamp_eq : ∀ stamp, (node stamp).stamp = stamp)
    (isNode : ∀ later, stage ≤ later → ∀ stamp < later.store.nextIdentity,
      later.IsNode (node stamp)) :
    (Trie.make node).Safe (fun later made => later.nodes made ∧ ∃ stamp, made = node stamp)
      stage := by
  intro later le stamp unused
  have unusedHere : later.Unused (node stamp).stamp := (stamp_eq stamp).symm ▸ unused
  obtain ⟨richer, leRicher, same, known⟩ :=
    Stage.exists_node unusedHere (isNode later le stamp unused.1)
  refine ⟨richer, leRicher, same, ?_⟩
  rintro _ ⟨⟩
  exact ⟨known, stamp, rfl⟩

theorem Store.Files.assignAt {store : Store} (files : store.Files hash entries)
    (known : store.hash? bound key = some hash)
    (finds : position = none → ∀ entry ∈ entries, store.Differ entry.1 key) :
    store.Files hash (Dictionary.assignAt key value entries position) := by
  cases position with
  | none => exact files.append known (finds rfl)
  | some position =>
    refine files.congr (List.ext_getElem? fun place => ?_)
    simp only [Dictionary.assignAt, getElem?_map, getElem?_modify]
    split <;> simp [Function.comp_def]

/-! ## Operations -/

section Values

variable {left right : Value} (leftAdmits : stage.Admits left) (rightAdmits : stage.Admits right)

include leftAdmits rightAdmits

theorem compareValues_safe : (compareValues left right).Safe Any stage :=
  (compareValues_reads leftAdmits rightAdmits).safe.weaken fun _ _ _ _ => trivial

theorem equalValues_safe : (equalValues left right).Safe
      (fun later equal => equal = false → later.store.Differ left right) stage := by
  refine (compareValues_reads leftAdmits rightAdmits).safe.bind fun later _ outcome known => ?_
  obtain ⟨bound, known⟩ := known
  exact safe_pure fun unequal => ⟨bound, outcome, known, by simpa using unequal⟩

end Values

theorem hashValue_safe {value : Value} (admits : stage.Admits value) :
    (hashValue value).Safe Any stage :=
  (hashValue_reads admits).safe.weaken fun _ _ _ _ => trivial

namespace Dictionary

variable {entries : List (Value × Thunk)}

/-- A position that is found lies among the entries, and where none is found all keys are
known to differ. -/
def Finds (stage : Stage frame) (key : Value) (entries : List (Value × Thunk)) :
    Option Nat → Prop
  | some position => position < entries.length
  | none => ∀ entry ∈ entries, stage.store.Differ entry.1 key

theorem position?_safe (keyAdmits : stage.Admits key)
    (admits : ∀ entry ∈ entries, stage.Admits entry.1) :
    (position? key entries).Safe (fun later found => Finds later key entries found) stage := by
  induction entries generalizing stage with
  | nil => exact safe_pure fun _ mem => absurd mem not_mem_nil
  | cons entry rest ih =>
    refine (equalValues_safe (admits entry mem_cons_self) keyAdmits).bind
      fun later le equal unequal => ?_
    cases equal with
    | true => exact safe_pure (Nat.zero_lt_succ rest.length)
    | false =>
      have restSafe := ih (keyAdmits.mono le) fun other mem =>
        (admits other (mem_cons_of_mem _ mem)).mono le
      refine restSafe.bind fun final leFinal found finds => safe_pure ?_
      cases found with
      | some position => exact Nat.succ_lt_succ finds
      | none =>
        have differ := (unequal rfl).mono (recalls leFinal)
        exact forall_mem_cons.mpr ⟨differ, finds⟩

end Dictionary

/-! ## Walks -/

namespace Trie

open Dictionary (Finds assignAt position?_safe)

theorem tip_known (known : stage.nodes (.tip former hash entries)) :
    entries ≠ [] ∧ (∀ entry ∈ entries, stage.AdmitsEntry entry) ∧
      stage.store.Files hash entries := by
  have isNode := stage.sound.isNode known
  have files := isNode.files hash
  rw [bucket_tip, if_pos rfl] at files
  cases isNode.wellFormed with
  | tip _ _ nonempty =>
    exact ⟨nonempty, fun entry mem => ⟨isNode.admits_key entry mem, isNode.sees_value entry mem⟩,
      files⟩

theorem make_tip_safe (nonempty : entries ≠ [])
    (holds : ∀ entry ∈ entries, stage.AdmitsEntry entry) (files : stage.store.Files hash entries) :
    (make (.tip · hash entries)).Safe
      (fun later made => later.nodes made ∧ ∃ stamp, made = .tip stamp hash entries) stage :=
  make_safe (fun _ => rfl) fun _ le _ less => Realm.isNode_tip less nonempty
    (fun entry mem => (holds entry mem).mono le) (files.mono (recalls le))

theorem make_branch_safe {side : Bool} (nearKnown : stage.nodes near) (farKnown : stage.nodes far)
    (formed : ∀ stamp, (branch stamp stem mask side near far).WellFormed) :
    (make (branch · stem mask side near far)).Safe (fun later made => later.nodes made ∧
      ∃ stamp, made = branch stamp stem mask side near far) stage :=
  make_safe (fun _ => stamp_branch) fun later le stamp less => Realm.isNode_branch later.sound less
    (formed stamp) (le.nodes near nearKnown) (le.nodes far farKnown)

/-- A new tip is joined to a known node. -/
theorem join_tip_safe (known : stage.nodes trie) (admits : stage.AdmitsEntry (key, value))
    (hashKnown : stage.store.hash? bound key = some hash) (absent : trie.bucket hash = [])
    (sets : ∀ new stamp, trie.SetsBucket hash [(key, value)]
      (join stamp hash (.tip new hash [(key, value)]) stem trie)) :
    Attempt.Safe (fun later result => later.nodes result.1 ∧ ∃ entries,
      trie.SetsBucket hash entries result.1 ∧
        entries.length = (trie.bucket hash).length + result.2.toNat) (do
      let added ← make (.tip · hash [(key, value)])
      return (← make (join · hash added stem trie), true)) stage := by
  have files : stage.store.Files hash [(key, value)] :=
    ⟨by simpa using ⟨bound, hashKnown⟩, pairwise_singleton _ _⟩
  refine (make_tip_safe (by simp) (by simpa using admits) files).bind fun later le new isNew => ?_
  obtain ⟨newKnown, stamp, rfl⟩ := isNew
  refine (make_branch_safe newKnown (le.nodes _ known) fun made =>
    (sets stamp made).wellFormed).bind fun final _ made isMade => ?_
  obtain ⟨madeKnown, made, rfl⟩ := isMade
  exact safe_pure ⟨madeKnown, _, sets stamp made, by rw [absent]; rfl⟩

/-- A walk that assigns ends at a known node, with one more entry if it says so. -/
theorem insert_safe (known : stage.nodes trie) (keyAdmits : stage.Admits key)
    (valueSees : stage.store.Sees value) (hashKnown : stage.store.hash? bound key = some hash) :
    (trie.insert hash key value).Safe (fun later result => later.nodes result.1 ∧ ∃ entries,
      trie.SetsBucket hash entries result.1 ∧
        entries.length = (trie.bucket hash).length + result.2.toNat) stage := by
  induction trie using walk_induction hash with
  | tip former found bucket =>
    obtain ⟨nonempty, admits, files⟩ := tip_known known
    rw [insert]
    split
    · rename_i same
      subst same
      refine (position?_safe keyAdmits fun entry mem => (admits entry mem).1).bind
        fun later le position finds => ?_
      have holds : ∀ entry ∈ assignAt key value bucket position, later.AdmitsEntry entry := by
        intro entry mem
        rcases Dictionary.mem_assignAt mem with mem | ⟨sameValue, isKey⟩
        · exact (admits entry mem).mono le
        · refine ⟨?_, sameValue ▸ valueSees.mono le⟩
          rcases isKey with rfl | ⟨entry, mem, same⟩
          · exact keyAdmits.mono le
          · exact same ▸ (admits entry mem).1.mono le
      have knownLater :=
        (Store.hash?_refines (recalls le) (Nat.le_refl bound)).1 key found hashKnown
      have absent : position = none →
          ∀ entry ∈ bucket, later.store.Differ entry.1 key := by
        rintro rfl
        exact finds
      have filed : later.store.Files found (assignAt key value bucket position) :=
        (files.mono (recalls le)).assignAt knownLater absent
      refine (make_tip_safe (by simp [nonempty]) holds filed).bind fun final _ made isMade => ?_
      obtain ⟨madeKnown, stamp, rfl⟩ := isMade
      refine safe_pure ⟨madeKnown, _, setsBucket_tip _ _ _ _ (by simp [nonempty]), ?_⟩
      rw [Dictionary.length_assignAt, bucket_tip, if_pos rfl]
    · rename_i ne
      exact join_tip_safe known ⟨keyAdmits, valueSees⟩ hashKnown (if_neg ne)
        fun new stamp => .of_join_tip former stamp nonempty (by simp) ne
  | branch former stem mask near far shares ih =>
    have isNode := stage.sound.isNode known
    obtain ⟨nearKnown, farKnown⟩ := isNode.sides_branch
    rw [insert_branch shares, bucket_branch shares]
    refine (ih nearKnown).bind fun later le result walked => ?_
    obtain ⟨newKnown, entries, sets, length_eq⟩ := walked
    refine (make_branch_safe newKnown (le.nodes far farKnown) fun stamp =>
      (sets.of_near isNode.wellFormed shares).wellFormed).bind fun final _ made isMade => ?_
    obtain ⟨madeKnown, stamp, rfl⟩ := isMade
    exact safe_pure ⟨madeKnown, entries, sets.of_near isNode.wellFormed shares, length_eq⟩
  | apart former stem mask low high differs =>
    rw [insert, if_neg differs]
    exact join_tip_safe known ⟨keyAdmits, valueSees⟩ hashKnown (if_neg differs)
      fun new stamp => .of_join_bin (stage.sound.isNode known).wellFormed (by simp) differs

/-- What is left of a node after a walk that removes: the node itself, or one entry less. -/
def LeftOf (trie : Trie Value Thunk) (hash : UInt64) (rest : Option (Trie Value Thunk)) : Prop :=
  rest = some trie ∨ ∃ entries, trie.Leaves hash entries rest ∧
    entries.length + 1 = (trie.bucket hash).length

/-- Nodes that pass for the very same have as many entries. -/
theorem isSame_eq_false_of_sets (known : stage.nodes trie) (newKnown : stage.nodes new)
    (sets : trie.SetsBucket hash entries new)
    (fewer : entries.length + 1 = (trie.bucket hash).length) : new.isSame trie = false := by
  rw [isSame, beq_eq_false_iff_ne]
  intro same
  have length_eq := sets.length_eq
  rw [stage.sound.alike newKnown known same] at length_eq
  omega

theorem replaceSide_safe (known : stage.nodes (branch former stem mask (hasBit hash mask) near far))
    (shares : above hash mask = stem) (restKnown : ∀ node ∈ rest, stage.nodes node)
    (leftOf : near.LeftOf hash rest) :
    (replaceSide (branch former stem mask (hasBit hash mask) near far) near far
        (fun node stamp => branch stamp stem mask (hasBit hash mask) node far) rest).Safe
      (fun later node => later.nodes node ∧
        (branch former stem mask (hasBit hash mask) near far).LeftOf hash (some node)) stage := by
  have isNode := stage.sound.isNode known
  obtain ⟨nearKnown, farKnown⟩ := isNode.sides_branch
  rcases leftOf with rfl | ⟨entries, leaves, fewer⟩
  · rw [replaceSide, isSame_self, if_pos rfl]
    exact safe_pure ⟨known, .inl rfl⟩
  · have sets := leaves.of_near isNode.wellFormed shares
    have fewerBelow := fewer
    rw [← bucket_branch shares] at fewer
    cases rest with
    | none => exact safe_pure ⟨farKnown, .inr ⟨entries, sets 0, fewer⟩⟩
    | some node =>
      have newKnown := restKnown node rfl
      rw [replaceSide, isSame_eq_false_of_sets nearKnown newKnown leaves fewerBelow,
        if_neg Bool.false_ne_true]
      refine (make_branch_safe newKnown farKnown fun stamp => (sets stamp).wellFormed).weaken ?_
      rintro later le _ ⟨madeKnown, stamp, rfl⟩
      exact ⟨madeKnown, .inr ⟨entries, sets stamp, fewer⟩⟩

theorem unchanged_safe (known : stage.nodes trie) (le : stage ≤ later) :
    Attempt.Safe (fun later rest => (∀ node ∈ rest, later.nodes node) ∧ trie.LeftOf hash rest)
      (pure (some trie)) later :=
  safe_pure ⟨by simpa using le.nodes trie known, .inl rfl⟩

/-- A walk that removes ends at a known node, if any. -/
theorem remove_safe (known : stage.nodes trie) (keyAdmits : stage.Admits key) :
    (trie.remove hash key).Safe (fun later rest => (∀ node ∈ rest, later.nodes node) ∧
      trie.LeftOf hash rest) stage := by
  induction trie using walk_induction hash with
  | tip former found bucket =>
    obtain ⟨nonempty, admits, files⟩ := tip_known known
    rw [remove]
    split
    · rename_i same
      subst same
      refine (position?_safe keyAdmits fun entry mem => (admits entry mem).1).bind
        fun later le position finds => ?_
      cases position with
      | none => exact unchanged_safe known le
      | some position =>
        have length_eq := length_eraseIdx_of_lt finds
        have fewer : (bucket.eraseIdx position).length + 1 =
            ((tip former found bucket).bucket found).length := by
          rw [length_eq, bucket_tip, if_pos rfl]
          exact Nat.sub_add_cancel (length_pos_iff.mpr nonempty)
        simp only
        split
        · rename_i single
          rw [single] at length_eq
          exact safe_pure ⟨by simp, .inr ⟨_,
            ⟨length_eq_zero_iff.mp length_eq, former, bucket, rfl⟩, fewer⟩⟩
        · rename_i several
          have something : bucket.eraseIdx position ≠ [] := by
            rw [Ne, ← length_eq_zero_iff]
            rw [bucket_tip, if_pos rfl] at fewer
            omega
          refine (make_tip_safe something (fun entry mem =>
            (admits entry (mem_of_mem_eraseIdx mem)).mono le)
              ((files.mono (recalls le)).sublist (eraseIdx_sublist _ _))).bind
                fun final _ made isMade => ?_
          obtain ⟨madeKnown, stamp, rfl⟩ := isMade
          exact safe_pure ⟨by simpa using madeKnown,
            .inr ⟨_, setsBucket_tip _ _ _ _ something, fewer⟩⟩
    · exact unchanged_safe known le_rfl
  | branch former stem mask near far shares ih =>
    rw [remove_branch shares]
    refine (ih (stage.sound.isNode known).sides_branch.1).bind fun later le rest walked => ?_
    refine (replaceSide_safe (le.nodes _ known) shares walked.1 walked.2).bind
      fun final _ node made => ?_
    exact safe_pure ⟨by simpa using made.1, made.2⟩
  | apart former stem mask low high differs =>
    rw [remove, if_neg differs]
    exact unchanged_safe known le_rfl

end Trie

namespace Dictionary

section Admits

variable {dict : Dict} (admits : stage.AdmitsDictionary dict)
  {key : Value} (keyAdmits : stage.Admits key)

include admits

include keyAdmits

theorem get?_safe : (dict.get? key).Safe
      (fun later found => ∀ value, found = some value → later.store.Sees value) stage := by
  unfold get?
  cases isRoot : dict.root with
  | none => exact safe_pure fun _ found => by cases found
  | some trie =>
    have bucket_eq : ∀ hash, trie.bucket hash = dict.bucket hash := by
      intro hash
      simp [bucket, isRoot]
    refine (hashValue_safe keyAdmits).bind fun first leFirst hash _ => ?_
    rw [bucket_eq]
    have firstAdmits := admits.mono leFirst
    refine (position?_safe (keyAdmits.mono leFirst) fun entry mem =>
      (firstAdmits.bucketEntries first.sound mem).1).bind fun later le found _ => ?_
    refine safe_pure fun value isFound => ?_
    obtain ⟨position, -, inBucket⟩ := Option.bind_eq_some_iff.mp isFound
    obtain ⟨entry, atPosition, rfl⟩ := Option.map_eq_some_iff.mp inBucket
    exact ((firstAdmits.mono le).bucketEntries later.sound (mem_of_getElem? atPosition)).2

theorem index_safe : (dict.index key).Safe Stage.Seen stage := by
  refine (get?_safe admits keyAdmits).bind fun later _ found sees => ?_
  cases found with
  | none => exact safe_fault _
  | some value => exact safe_pure (sees value rfl)

theorem contains_safe : (dict.contains key).Safe Any stage :=
  (get?_safe admits keyAdmits).bind fun _ _ _ _ => safe_pure trivial

theorem insert_safe (valueSees : stage.store.Sees value) :
    (dict.insert key value).Safe Admitted stage := by
  refine (hashValue_reads keyAdmits).safe.bind fun first le hash known => ?_
  obtain ⟨bound, known⟩ := known
  have entryAdmits : first.AdmitsEntry (key, value) := ⟨keyAdmits.mono le, valueSees.mono le⟩
  cases isRoot : dict.root with
  | none =>
    have files : first.store.Files hash [(key, value)] :=
      ⟨by simpa using ⟨bound, known⟩, pairwise_singleton _ _⟩
    refine (Trie.make_tip_safe (by simp) (by simpa using entryAdmits) files).bind
      fun later _ made isMade => ?_
    obtain ⟨madeKnown, stamp, rfl⟩ := isMade
    exact safe_pure ⟨rfl, by simpa using madeKnown⟩
  | some trie =>
    refine (Trie.insert_safe (le.nodes trie (admits.2 trie isRoot)) entryAdmits.1 entryAdmits.2
      known).bind fun later _ result walked => ?_
    obtain ⟨node, added⟩ := result
    obtain ⟨nodeKnown, entries, sets, length_eq⟩ := walked
    have size_eq := admits.1
    have listed := sets.length_eq
    simp only [toList, isRoot] at size_eq listed length_eq
    refine safe_pure ⟨?_, by simpa using nodeKnown⟩
    simp only [toList]
    omega

theorem remove_safe : (dict.remove key).Safe Admitted stage := by
  unfold remove
  cases isRoot : dict.root with
  | none => exact safe_pure admits
  | some trie =>
    refine (hashValue_safe keyAdmits).bind fun first le hash _ => ?_
    have known := admits.2 trie isRoot
    refine (Trie.remove_safe (le.nodes trie known) (keyAdmits.mono le)).bind
      fun later leLater rest walked => ?_
    obtain ⟨restKnown, leftOf⟩ := walked
    refine safe_pure ⟨?_, restKnown⟩
    have size_eq := admits.1
    simp only [toList, isRoot] at size_eq
    rcases leftOf with rfl | ⟨entries, leaves, fewer⟩
    · simpa [toList] using size_eq
    · cases rest with
      | none =>
        obtain ⟨rfl, stamp, bucket, rfl⟩ := leaves
        rw [Trie.bucket_tip, if_pos rfl] at fewer
        rw [Trie.toList_tip] at size_eq
        simp [toList, size_eq, ← fewer]
      | some node =>
        have listed := Trie.SetsBucket.length_eq leaves
        have differs := Trie.isSame_eq_false_of_sets ((le.trans leLater).nodes trie known)
          (restKnown node rfl) leaves fewer
        simp only [toList, Option.any_some, differs, Bool.not_false, Bool.toNat_true]
        omega

end Admits

theorem insertAll_safe (admits : stage.AdmitsDictionary dict)
    (holds : ∀ entry ∈ entries, stage.AdmitsEntry entry) :
    (dict.insertAll entries).Safe Admitted stage := by
  induction entries generalizing dict stage with
  | nil => exact safe_pure admits
  | cons entry rest ih =>
    obtain ⟨keyAdmits, valueSees⟩ := holds entry mem_cons_self
    refine (insert_safe admits keyAdmits valueSees).bind fun later le next nextAdmits => ?_
    exact ih nextAdmits fun other mem => (holds other (mem_cons_of_mem _ mem)).mono le

theorem ofEntries_safe (holds : ∀ entry ∈ entries, stage.AdmitsEntry entry) :
    (ofEntries entries).Safe Admitted stage :=
  insertAll_safe Realm.admitsDictionary_empty holds

theorem merge_safe (admits : stage.AdmitsDictionary dict)
    (otherAdmits : stage.AdmitsDictionary other) :
    (dict.merge other).Safe Admitted stage := by
  unfold merge
  split
  · exact safe_pure otherAdmits
  · exact insertAll_safe admits fun _ mem => otherAdmits.entries stage.sound mem

end Dictionary
end ByNeed
