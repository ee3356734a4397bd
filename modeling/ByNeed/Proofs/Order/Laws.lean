import Mathlib.Order.Defs.LinearOrder
import ByNeed.Proofs.Safety.Comparing

/-!
# The order is lawful wherever it answers

A comparison that need not answer is lawful when turning it round turns its answer round, and when
its answers chain.  The order that is read off a store is put together from lawful parts, level by
level.
-/

namespace ByNeed

open Option

variable {α β : Type}

/-- A comparison is lawful among some wherever it answers. -/
structure LawfulOrder (among : α → Prop) (order : α → α → Option Ordering) : Prop where
  swap : ∀ {left right outcome}, among left → among right →
    order left right = some outcome → order right left = some outcome.swap
  chain : ∀ {first second third near far outer}, among first → among second → among third → order
    first second = some near → order second third = some far → order first third = some outer → near
    ≠ .gt → far ≠ .gt → outer = near.then far

namespace LawfulOrder

variable {among : α → Prop} {order : α → α → Option Ordering}

theorem of_compare [Ord β] [Std.TransOrd β] (key : α → β) :
    LawfulOrder among fun left right => some (compare (key left) (key right)) where
  swap _ _ known := by
    cases known
    rw [Std.OrientedOrd.eq_swap]
  chain _ _ _ nearKnown farKnown outerKnown nearNe farNe := by
    rename_i first second third near far outer _ _ _
    cases outerKnown
    rw [Option.some.injEq] at nearKnown farKnown
    cases near with
    | gt => exact absurd rfl nearNe
    | lt =>
      cases far with
      | gt => exact absurd rfl farNe
      | lt => exact Std.TransCmp.lt_trans nearKnown farKnown
      | eq => exact Std.TransCmp.lt_of_lt_of_eq nearKnown farKnown
    | eq =>
      cases far with
      | gt => exact absurd rfl farNe
      | lt => exact Std.TransCmp.lt_of_eq_of_lt nearKnown farKnown
      | eq => exact Std.TransCmp.eq_trans nearKnown farKnown

theorem of_equal (equal : ∀ {left right}, among left → among right → order left right = some .eq) :
    LawfulOrder among order where
  swap leftAmong rightAmong known := by
    rw [equal leftAmong rightAmong] at known
    cases known
    exact equal rightAmong leftAmong
  chain firstAmong secondAmong thirdAmong nearKnown farKnown outerKnown _ _ := by
    rw [equal firstAmong secondAmong] at nearKnown
    rw [equal secondAmong thirdAmong] at farKnown
    rw [equal firstAmong thirdAmong] at outerKnown
    cases nearKnown
    cases farKnown
    cases outerKnown
    rfl

theorem of_answers {inner : α → Prop}
    (lawful : LawfulOrder (fun value => among value ∧ inner value) order)
    (answers : ∀ {left right outcome}, order left right = some outcome → inner left ∧ inner right) :
    LawfulOrder among order where
  swap leftAmong rightAmong known :=
    lawful.swap ⟨leftAmong, (answers known).1⟩ ⟨rightAmong, (answers known).2⟩ known
  chain firstAmong secondAmong thirdAmong nearKnown farKnown outerKnown nearNe farNe :=
    lawful.chain ⟨firstAmong, (answers nearKnown).1⟩ ⟨secondAmong, (answers farKnown).1⟩
      ⟨thirdAmong, (answers farKnown).2⟩ nearKnown farKnown outerKnown nearNe farNe

/-- Comparing what is looked up. -/
theorem of_lookup {inner : β → Prop} {orderInner : β → β → Option Ordering} (lookup : α → Option β)
    (lawful : LawfulOrder inner orderInner)
    (found : ∀ {value result}, among value → lookup value = some result → inner result) :
    LawfulOrder among fun left right => do
      let leftResult ← lookup left
      let rightResult ← lookup right
      orderInner leftResult rightResult where
  swap leftAmong rightAmong known := by
    simp only [bind_eq_bind, bind_eq_some_iff] at known ⊢
    obtain ⟨leftResult, leftFound, rightResult, rightFound, known⟩ := known
    exact ⟨rightResult, rightFound, leftResult, leftFound,
      lawful.swap (found leftAmong leftFound) (found rightAmong rightFound) known⟩
  chain firstAmong secondAmong thirdAmong nearKnown farKnown outerKnown nearNe farNe := by
    simp only [bind_eq_bind, bind_eq_some_iff] at nearKnown farKnown outerKnown
    obtain ⟨firstResult, firstFound, secondResult, secondFound, nearKnown⟩ := nearKnown
    obtain ⟨_, secondFoundToo, thirdResult, thirdFound, farKnown⟩ := farKnown
    obtain ⟨_, firstFoundToo, _, thirdFoundToo, outerKnown⟩ := outerKnown
    cases secondFound.symm.trans secondFoundToo
    cases firstFound.symm.trans firstFoundToo
    cases thirdFound.symm.trans thirdFoundToo
    exact lawful.chain (found firstAmong firstFound) (found secondAmong secondFound)
      (found thirdAmong thirdFound) nearKnown farKnown outerKnown nearNe farNe

/-- Comparing by a part. -/
theorem comap {inner : β → Prop} (lawful : LawfulOrder among order) (part : β → α)
    (found : ∀ {value}, inner value → among (part value)) :
    LawfulOrder inner fun left right => order (part left) (part right) where
  swap leftInner rightInner known := lawful.swap (found leftInner) (found rightInner) known
  chain firstInner secondInner thirdInner :=
    lawful.chain (found firstInner) (found secondInner) (found thirdInner)

theorem congr (lawful : LawfulOrder among order)
    (same : ∀ {left right}, among left → among right → other left right = order left right) :
    LawfulOrder among other where
  swap leftAmong rightAmong known := by
    rw [same leftAmong rightAmong] at known
    rw [same rightAmong leftAmong]
    exact lawful.swap leftAmong rightAmong known
  chain firstAmong secondAmong thirdAmong nearKnown farKnown outerKnown := by
    rw [same firstAmong secondAmong] at nearKnown
    rw [same secondAmong thirdAmong] at farKnown
    rw [same firstAmong thirdAmong] at outerKnown
    exact lawful.chain firstAmong secondAmong thirdAmong nearKnown farKnown outerKnown

/-- It is enough to look at the parts of which all are made. -/
theorem of_image {inner : β → Prop} (make : β → α)
    (lawful : LawfulOrder inner fun left right => order (make left) (make right))
    (image : ∀ {value}, among value → ∃ part, inner part ∧ make part = value) :
    LawfulOrder among order where
  swap leftAmong rightAmong known := by
    obtain ⟨left, leftInner, rfl⟩ := image leftAmong
    obtain ⟨right, rightInner, rfl⟩ := image rightAmong
    exact lawful.swap leftInner rightInner known
  chain firstAmong secondAmong thirdAmong nearKnown farKnown outerKnown := by
    obtain ⟨first, firstInner, rfl⟩ := image firstAmong
    obtain ⟨second, secondInner, rfl⟩ := image secondAmong
    obtain ⟨third, thirdInner, rfl⟩ := image thirdAmong
    exact lawful.chain firstInner secondInner thirdInner nearKnown farKnown outerKnown

/-- What is the very same is equal without being looked into. -/
theorem of_shortcut (lawful : LawfulOrder among order) (same : α → α → Prop) [DecidableRel same]
    (same_iff : ∀ {left right}, among left → among right → (same left right ↔ left = right)) :
    LawfulOrder among fun left right =>
      if same left right then some .eq else order left right where
  swap {left right outcome} leftAmong rightAmong known := by
    by_cases equal : same left right
    · rw [if_pos equal] at known
      cases known
      rw [same_iff leftAmong rightAmong] at equal
      rw [if_pos ((same_iff rightAmong leftAmong).mpr equal.symm)]
      rfl
    · rw [if_neg equal] at known
      rw [same_iff leftAmong rightAmong] at equal
      rw [if_neg fun back => equal ((same_iff rightAmong leftAmong).mp back).symm]
      exact lawful.swap leftAmong rightAmong known
  chain {first second third near far outer} firstAmong secondAmong thirdAmong
      nearKnown farKnown outerKnown nearNe farNe := by
    by_cases sameNear : same first second
    · rw [if_pos sameNear] at nearKnown
      cases nearKnown
      cases (same_iff firstAmong secondAmong).mp sameNear
      rw [outerKnown] at farKnown
      exact Option.some.inj farKnown
    · rw [if_neg sameNear] at nearKnown
      by_cases sameFar : same second third
      · rw [if_pos sameFar] at farKnown
        cases farKnown
        cases (same_iff secondAmong thirdAmong).mp sameFar
        rw [if_neg sameNear, nearKnown] at outerKnown
        cases outerKnown
        exact near.then_eq.symm
      · rw [if_neg sameFar] at farKnown
        by_cases sameOuter : same first third
        · rw [if_pos sameOuter] at outerKnown
          cases outerKnown
          cases (same_iff firstAmong thirdAmong).mp sameOuter
          -- The answer and its reverse are both at most equal.
          have back := lawful.swap firstAmong secondAmong nearKnown
          rw [farKnown] at back
          cases back
          cases near with
          | eq => rfl
          | lt => exact absurd rfl farNe
          | gt => exact absurd rfl nearNe
        · rw [if_neg sameOuter] at outerKnown
          exact lawful.chain firstAmong secondAmong thirdAmong nearKnown farKnown outerKnown
            nearNe farNe

end LawfulOrder

theorem then_lt_of_ne_gt {outcome : Ordering} (ne : outcome ≠ .gt) : outcome.then .lt = .lt := by
  cases outcome with
  | gt => exact absurd rfl ne
  | lt | eq => rfl

/-- The first answer, or the second one if the first is equality. -/
def lexically (first second : Option Ordering) : Option Ordering := do
  match ← first with
  | .eq => second
  | unequal => some unequal

theorem lexically_eq_some (known : lexically first second = some outcome) :
    ∃ leading, first = some leading ∧
      (leading = .eq ∧ second = some outcome ∨ leading ≠ .eq ∧ leading = outcome) := by
  obtain ⟨leading, firstKnown, rest⟩ := bind_eq_some_iff.mp known
  refine ⟨leading, firstKnown, ?_⟩
  cases leading with
  | eq => exact .inl ⟨rfl, rest⟩
  | _ => exact .inr ⟨by simp, Option.some.inj rest⟩

namespace LawfulOrder

variable {among : α → Prop} {order first second : α → α → Option Ordering}

/-- Comparing one part after the other. -/
theorem of_lexically (lawful : LawfulOrder among first) (lawfulNext : LawfulOrder among second) :
    LawfulOrder among fun left right => lexically (first left right) (second left right) where
  swap leftAmong rightAmong known := by
    obtain ⟨leading, firstKnown, rest⟩ := lexically_eq_some known
    have firstBack := lawful.swap leftAmong rightAmong firstKnown
    rcases rest with ⟨rfl, secondKnown⟩ | ⟨unequal, rfl⟩
    · have secondBack := lawfulNext.swap leftAmong rightAmong secondKnown
      simp [lexically, firstBack, secondBack]
    · cases leading <;> simp_all [lexically]
  chain firstAmong secondAmong thirdAmong nearKnown farKnown outerKnown nearNe farNe := by
    obtain ⟨near, nearFirst, nearRest⟩ := lexically_eq_some nearKnown
    obtain ⟨far, farFirst, farRest⟩ := lexically_eq_some farKnown
    obtain ⟨outer, outerFirst, outerRest⟩ := lexically_eq_some outerKnown
    have nearLe : near ≠ .gt := by
      rintro rfl
      rcases nearRest with ⟨impossible, -⟩ | ⟨-, rfl⟩
      · cases impossible
      · exact nearNe rfl
    have farLe : far ≠ .gt := by
      rintro rfl
      rcases farRest with ⟨impossible, -⟩ | ⟨-, rfl⟩
      · cases impossible
      · exact farNe rfl
    have leading := lawful.chain firstAmong secondAmong thirdAmong nearFirst farFirst outerFirst
      nearLe farLe
    subst leading
    rcases nearRest with ⟨rfl, nearSecond⟩ | ⟨nearUnequal, rfl⟩
    · rcases farRest with ⟨rfl, farSecond⟩ | ⟨farUnequal, rfl⟩
      · rcases outerRest with ⟨-, outerSecond⟩ | ⟨outerUnequal, -⟩
        · exact lawfulNext.chain firstAmong secondAmong thirdAmong nearSecond farSecond
            outerSecond nearNe farNe
        · exact absurd rfl outerUnequal
      · cases far with
        | eq => exact absurd rfl farUnequal
        | gt => exact absurd rfl farNe
        | lt =>
          rcases outerRest with ⟨impossible, -⟩ | ⟨-, rfl⟩
          · cases impossible
          · exact (then_lt_of_ne_gt nearNe).symm
    · cases near with
      | eq => exact absurd rfl nearUnequal
      | gt => exact absurd rfl nearNe
      | lt =>
        rcases outerRest with ⟨impossible, -⟩ | ⟨-, rfl⟩
        · cases impossible
        · rfl

theorem of_rank (rank : α → Nat)
    (differ : ∀ {left right}, among left → among right → rank left ≠ rank right →
      order left right = some (compare (rank left) (rank right)))
    (lawful : ∀ value, among value →
      LawfulOrder (fun other => among other ∧ rank other = rank value) order) :
    LawfulOrder among order where
  swap {left right outcome} leftAmong rightAmong known := by
    by_cases same : rank left = rank right
    · exact (lawful left leftAmong).swap ⟨leftAmong, rfl⟩ ⟨rightAmong, same.symm⟩ known
    · rw [differ leftAmong rightAmong same] at known
      cases known
      rw [differ rightAmong leftAmong (Ne.symm same), Nat.compare_swap]
  chain {first second third near far outer} firstAmong secondAmong thirdAmong
      nearKnown farKnown outerKnown nearNe farNe := by
    have leq : ∀ {left right outcome}, among left → among right → order left right = some outcome →
        outcome ≠ .gt → rank left ≤ rank right ∧ (rank left ≠ rank right → outcome = .lt) := by
      intro left right outcome leftAmong rightAmong known ne
      by_cases same : rank left = rank right
      · exact ⟨same.le, fun differs => absurd same differs⟩
      · rw [differ leftAmong rightAmong same] at known
        cases known
        rw [ne_eq, Nat.compare_eq_gt, not_lt] at ne
        exact ⟨ne, fun _ => Nat.compare_eq_lt.mpr (lt_of_le_of_ne ne same)⟩
    obtain ⟨nearLe, nearLt⟩ := leq firstAmong secondAmong nearKnown nearNe
    obtain ⟨farLe, farLt⟩ := leq secondAmong thirdAmong farKnown farNe
    by_cases same : rank first = rank third
    · exact (lawful first firstAmong).chain ⟨firstAmong, rfl⟩ ⟨secondAmong, by omega⟩
        ⟨thirdAmong, by omega⟩ nearKnown farKnown outerKnown nearNe farNe
    · rw [differ firstAmong thirdAmong same] at outerKnown
      cases outerKnown
      rw [Nat.compare_eq_lt.mpr (by omega : rank first < rank third)]
      by_cases sameNear : rank first = rank second
      · rw [farLt (by omega)]
        exact (then_lt_of_ne_gt nearNe).symm
      · rw [nearLt sameNear]
        rfl

end LawfulOrder

/-! ## What is read off a store -/

section Reading

variable {frame : Frame} (stage : Stage frame) {order : Value → Value → Option Ordering}
  (lawful : LawfulOrder stage.Admits order)

include lawful

theorem thunkOrder?_lawful : LawfulOrder (fun _ => True) (stage.store.thunkOrder? order) :=
  (LawfulOrder.of_lookup stage.store.forced? lawful
    fun _ known => stage.admits_of_forced? known).of_shortcut (· = ·) fun _ _ => Iff.rfl

theorem tailOrder?_lawful : LawfulOrder (fun _ => True) (stage.store.tailOrder? order) := by
  have lists : LawfulOrder (fun cells : LazyList => stage.SeesAll cells.thunks)
      fun left right => order (.list left) (.list right) := lawful.comap .list id
  exact (LawfulOrder.of_lookup stage.store.forcedList? lists
    fun _ known => stage.seesAll_of_forcedList? known).of_shortcut (· = ·) fun _ _ => Iff.rfl

theorem listOrder?_lawful : LawfulOrder (fun _ => True) (stage.store.listOrder? order) := by
  have cells : LawfulOrder (fun _ : Thunk × Thunk => True) fun left right =>
      lexically (stage.store.thunkOrder? order left.1 right.1)
        (stage.store.tailOrder? order left.2 right.2) :=
    ((thunkOrder?_lawful stage lawful).comap Prod.fst id).of_lexically
      ((tailOrder?_lawful stage lawful).comap Prod.snd id)
  refine LawfulOrder.of_rank (fun list => if list.isEmpty then 0 else 1) ?_ fun list _ => ?_
  · rintro (_ | _) (_ | _) - - differ <;> first | rfl | exact absurd rfl differ
  · cases list with
    | empty =>
      refine LawfulOrder.of_equal ?_
      rintro (_ | _) (_ | _) ⟨-, leftEmpty⟩ ⟨-, rightEmpty⟩
      · rfl
      · cases rightEmpty
      · cases leftEmpty
      · cases leftEmpty
    | cons =>
      refine LawfulOrder.of_image (fun cell : Thunk × Thunk => .cons cell.1 cell.2) cells ?_
      rintro (_ | ⟨head, tail⟩) ⟨-, nonempty⟩
      · cases nonempty
      · exact ⟨(head, tail), trivial, rfl⟩

/-- Entries are compared lawfully where there are equally many. -/
theorem entriesOrder?_lawful (length : Nat) :
    LawfulOrder (fun entries => entries.length = length ∧ ∀ entry ∈ entries, stage.Admits entry.1)
      (stage.store.entriesOrder? order) := by
  induction length with
  | zero =>
    refine LawfulOrder.of_equal ?_
    rintro left right ⟨leftEmpty, -⟩ ⟨rightEmpty, -⟩
    rw [List.eq_nil_of_length_eq_zero leftEmpty, List.eq_nil_of_length_eq_zero rightEmpty]
    rfl
  | succ length ih =>
    let inner : ((Value × Thunk) × List (Value × Thunk)) → Prop := fun parts =>
      stage.Admits parts.1.1 ∧ parts.2.length = length ∧ ∀ entry ∈ parts.2, stage.Admits entry.1
    have keys : LawfulOrder inner fun left right => order left.1.1 right.1.1 :=
      lawful.comap (Prod.fst ∘ Prod.fst) fun {_} holds => holds.1
    have values : LawfulOrder inner fun left right =>
        stage.store.thunkOrder? order left.1.2 right.1.2 :=
      (thunkOrder?_lawful stage lawful).comap (Prod.snd ∘ Prod.fst) fun _ => trivial
    have rests : LawfulOrder inner fun left right =>
        stage.store.entriesOrder? order left.2 right.2 :=
      ih.comap Prod.snd fun {_} holds => holds.2
    refine LawfulOrder.of_image (fun parts : (Value × Thunk) × List (Value × Thunk) => parts.1 ::
      parts.2) (keys.of_lexically (values.of_lexically rests)) ?_
    rintro (_ | ⟨entry, entries⟩) ⟨length_eq, admits⟩
    · cases length_eq
    · obtain ⟨admitsFirst, admitsRest⟩ := List.forall_mem_cons.mp admits
      exact ⟨(entry, entries), ⟨admitsFirst, Nat.succ.inj length_eq, admitsRest⟩, rfl⟩

theorem dictionaryOrder?_lawful :
    LawfulOrder stage.AdmitsDictionary (stage.store.dictionaryOrder? order) := by
  refine LawfulOrder.of_rank Dictionary.size ?_ fun dict _ => ?_
  · intro left right _ _ differ
    unfold Store.dictionaryOrder?
    split
    · rename_i same
      exact absurd (Nat.compare_eq_eq.mp same) differ
    · rfl
  · have entries := entriesOrder?_lawful stage lawful dict.size
    have sorted := entries.of_lookup (fun other : Dict => Store.sortEntries? order [] other.toList)
      fun {other sorted} (admits : stage.AdmitsDictionary other ∧ other.size = dict.size)
          sorts => by
        refine ⟨?_, fun entry mem =>
          (Dictionary.holds_of_sortEntries? admits.1 sorts entry mem).1⟩
        rw [(Store.sortEntries?_perm sorts).length_eq, List.nil_append, ← admits.1.1, admits.2]
    refine (sorted.of_shortcut (fun left right => left.isSame right = true) ?_).congr ?_
    · intro left right leftAdmits rightAdmits
      constructor
      · exact Realm.AdmitsDictionary.eq_of_isSame stage.sound leftAdmits.1 rightAdmits.1
          (leftAdmits.2.trans rightAdmits.2.symm)
      · rintro rfl
        exact left.isSame_self
    · intro left right leftAdmits rightAdmits
      unfold Store.dictionaryOrder?
      rw [leftAdmits.2, rightAdmits.2, Nat.compare_eq_eq.mpr rfl]

/-- Values of one kind are compared lawfully. -/
theorem valueOrder?_lawful_of_kind {value : Value} (noError : value.kind ≠ .error) :
    LawfulOrder (fun other => (stage.Admits other ∧ other.kind ≠ .error) ∧
        other.kind.rank = value.kind.rank)
      (stage.store.valueOrder? order) := by
  cases value with
  | nil =>
    refine LawfulOrder.of_equal ?_
    rintro left right ⟨-, leftRank⟩ ⟨-, rightRank⟩
    cases left <;> cases leftRank
    cases right <;> cases rightRank
    rfl
  | boolean =>
    have keys : LawfulOrder (fun _ : Bool => True) fun left right => some (compare left right) :=
      .of_compare id
    refine keys.of_image .boolean ?_
    rintro other ⟨-, rank⟩
    cases other <;> cases rank
    exact ⟨_, trivial, rfl⟩
  | number =>
    have keys : LawfulOrder (fun _ : Float => True) fun left right =>
        some (Number.order left right) := .of_compare Number.key
    refine keys.of_image .number ?_
    rintro other ⟨-, rank⟩
    cases other <;> cases rank
    exact ⟨_, trivial, rfl⟩
  | string =>
    have keys : LawfulOrder (fun _ : String => True) fun left right =>
        some (compare left right) := .of_compare id
    refine keys.of_image .string ?_
    rintro other ⟨-, rank⟩
    cases other <;> cases rank
    exact ⟨_, trivial, rfl⟩
  | list =>
    refine (listOrder?_lawful stage lawful).of_image .list ?_
    rintro other ⟨-, rank⟩
    cases other <;> cases rank
    exact ⟨_, trivial, rfl⟩
  | dictionary =>
    refine (dictionaryOrder?_lawful stage lawful).of_image .dictionary ?_
    rintro other ⟨⟨admits, -⟩, rank⟩
    cases other <;> cases rank
    exact ⟨_, admits, rfl⟩
  | function =>
    have keys : LawfulOrder (fun _ : Function => True) fun left right =>
        some (compare left.identity right.identity) := .of_compare Function.identity
    refine keys.of_image .function ?_
    rintro other ⟨-, rank⟩
    cases other <;> cases rank
    exact ⟨_, trivial, rfl⟩
  | effect =>
    have keys : LawfulOrder (fun _ : Nat × Thunk => True) fun left right =>
        some (compare left.1 right.1) := .of_compare Prod.fst
    refine keys.of_image (fun parts : Nat × Thunk => .effect parts.1 parts.2) ?_
    rintro other ⟨-, rank⟩
    cases other <;> cases rank
    exact ⟨(_, _), trivial, rfl⟩
  | error => exact absurd rfl noError

theorem valueOrder?_lawful : LawfulOrder stage.Admits (stage.store.valueOrder? order) := by
  have sound : LawfulOrder (fun value => stage.Admits value ∧ value.kind ≠ .error)
      (stage.store.valueOrder? order) := by
    refine LawfulOrder.of_rank (fun value => value.kind.rank) ?_ fun value holds =>
      valueOrder?_lawful_of_kind stage lawful holds.2
    rintro left right ⟨-, leftSound⟩ ⟨-, rightSound⟩ differ
    cases left <;> cases right <;> first
      | rfl
      | exact absurd rfl differ
      | exact absurd rfl leftSound
      | exact absurd rfl rightSound
  refine sound.of_answers fun {left right outcome} known => ⟨?_, ?_⟩
  · intro isError
    cases left <;> cases isError
    cases known
  · intro isError
    cases right <;> cases isError
    cases left <;> cases known

end Reading

/-- The order that is read off a store is lawful, however far down it is read. -/
theorem order?_lawful (stage : Stage frame) (bound : Nat) :
    LawfulOrder stage.Admits (stage.store.order? bound) := by
  induction bound with
  | zero =>
    exact
      { swap := fun _ _ known => by cases known
        chain := fun _ _ _ known => by cases known }
  | succ bound ih => exact valueOrder?_lawful stage ih

end ByNeed
