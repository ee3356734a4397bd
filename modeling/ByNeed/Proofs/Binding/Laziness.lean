import ByNeed.Proofs.Binding.Agreement
import ByNeed.Proofs.Binding.Gathering
import ByNeed.Proofs.Machine.OwnCode

/-!
# Binding is lazy

Binding asks for lists that are spread and their tails, as long as positional values are wanted, and
then for dictionaries that are spread.  It asks for no element, no named value, no value of a
dictionary and no default.  So the required parameters depend on nothing but what was walked.
-/

namespace ByNeed

open List

variable {asked : Asked} {thunk : Thunk}
variable {keywords : List Keyword}

/-! ## Names as keys -/

namespace Trie

variable {κ ν : Type}

theorem bucket_subset (hash : UInt64) (trie : Trie κ ν) : trie.bucket hash ⊆ trie.toList := by
  induction trie using walk_induction hash with
  | tip stamp found entries =>
    rw [bucket_tip]
    split <;> simp
  | branch stamp stem mask near far shares ih =>
    rw [bucket_branch shares]
    exact fun entry mem => mem_toList_branch.mpr (.inl (ih mem))
  | apart stamp stem mask low high differs =>
    rw [bucket, if_neg differs]
    exact nil_subset _

end Trie

namespace Dictionary

/-- All keys are names. -/
def HasNames (entries : List (Value × Thunk)) : Prop :=
  ∀ entry ∈ entries, ∃ name, entry.1 = .string name

variable {entries : List (Value × Thunk)}

theorem bucket_subset (dictionary : Dict) (hash : UInt64) :
    dictionary.bucket hash ⊆ dictionary.toList := by
  unfold bucket toList
  cases dictionary.root with
  | none => exact List.Subset.refl _
  | some trie => exact trie.bucket_subset hash

theorem hasNames_singleton (name : String) (value : Thunk) : HasNames [(.string name, value)] := by
  simp [HasNames]

theorem hasNames_assignAt (names : HasNames entries) (name : String) (value : Thunk)
    (position : Option Nat) : HasNames (assignAt (.string name) value entries position) := by
  intro entry mem
  rcases mem_assignAt mem with old | ⟨-, isKey | ⟨former, held, same⟩⟩
  · exact names entry old
  · exact ⟨name, isKey⟩
  · exact same ▸ names former held

theorem compareValues_quiet (left right : String) :
    (compareValues (.string left) (.string right)).Quiet fun _ => True :=
  Code.Quiet.call (.done fun _ _ => trivial)

theorem equalValues_quiet (left right : String) :
    (equalValues (.string left) (.string right)).Quiet fun _ => True :=
  .bind (compareValues_quiet left right) fun _ _ => .pure trivial

theorem hashValue_quiet (name : String) : (hashValue (.string name)).Quiet fun _ => True :=
  Code.Quiet.call (.act fun _ => .done fun _ _ => trivial)

theorem position?_quiet (name : String) (names : HasNames entries) :
    (position? (.string name) entries).Quiet fun _ => True := by
  induction entries with
  | nil => exact .pure trivial
  | cons entry rest ih =>
    obtain ⟨⟨key, key_eq⟩, restNames⟩ := forall_mem_cons.mp names
    rw [position?, key_eq]
    refine .bind (equalValues_quiet key name) fun isEqual _ => ?_
    cases isEqual with
    | true => exact .pure trivial
    | false => exact .bind (ih restNames) fun _ _ => .pure trivial

end Dictionary

namespace Trie

open Dictionary

variable {trie : Trie Value Thunk} {node : Nat → Trie Value Thunk}

theorem make_quiet (names : ∀ stamp, HasNames (node stamp).toList) :
    (make node).Quiet fun made => HasNames made.toList :=
  .bind (.lift (.act fun _ => .done trivial)) fun stamp _ => .pure (names stamp)

theorem join_tip_quiet (names : HasNames trie.toList) (name : String) (value : Thunk)
    (hash stem : UInt64) :
    Attempt.Quiet (fun result => HasNames result.1.toList) (do
      let added ← make (.tip · hash [(.string name, value)])
      return (← make (join · hash added stem trie), true)) := by
  refine .bind (make_quiet fun _ => hasNames_singleton name value) fun added addedNames => ?_
  exact .bind (make_quiet fun _ => forall_mem_branch.mpr ⟨addedNames, names⟩)
    fun _ joinedNames => .pure joinedNames

/-- A walk that assigns to a name asks for nothing. -/
theorem insert_quiet (names : HasNames trie.toList) (hash : UInt64) (name : String)
    (value : Thunk) :
    (trie.insert hash (.string name) value).Quiet fun result => HasNames result.1.toList := by
  induction trie using walk_induction hash with
  | tip former found bucket =>
    rw [insert]
    split
    · refine .bind (position?_quiet name names) fun position _ => ?_
      exact .bind (make_quiet fun _ => hasNames_assignAt names name value position)
        fun _ madeNames => .pure madeNames
    · exact join_tip_quiet names name value hash found
  | branch former stem mask near far shares ih =>
    obtain ⟨nearNames, farNames⟩ := forall_mem_branch.mp names
    rw [insert_branch shares]
    refine .bind (ih nearNames) fun result newNames => ?_
    exact .bind (make_quiet fun _ => forall_mem_branch.mpr ⟨newNames, farNames⟩)
      fun _ madeNames => .pure madeNames
  | apart former stem mask low high differs =>
    rw [insert, if_neg differs]
    exact join_tip_quiet names name value hash stem

end Trie

namespace Dictionary

variable {dictionary : Dict}
variable {entries : List (Value × Thunk)}

/-- Assigning a value to a name asks for nothing. -/
theorem insert_quiet (names : HasNames dictionary.toList) (name : String) (value : Thunk) :
    (dictionary.insert (.string name) value).Quiet fun made => HasNames made.toList := by
  refine .bind (hashValue_quiet name) fun hash _ => ?_
  unfold toList at names
  split
  · exact .bind (Trie.make_quiet fun _ => hasNames_singleton name value)
      fun _ madeNames => .pure madeNames
  · rename_i trie root
    rw [root] at names
    exact .bind (Trie.insert_quiet names hash name value) fun _ madeNames => .pure madeNames

theorem insertAll_quiet (entryNames : HasNames entries) (names : HasNames dictionary.toList) :
    (dictionary.insertAll entries).Quiet fun _ => True := by
  induction entries generalizing dictionary with
  | nil => exact .pure trivial
  | cons entry rest ih =>
    obtain ⟨⟨name, name_eq⟩, restNames⟩ := forall_mem_cons.mp entryNames
    obtain ⟨key, value⟩ := entry
    cases name_eq
    exact .bind (insert_quiet names name value) fun made madeNames =>
      ih restNames madeNames

end Dictionary

/-! ## Keywords -/

theorem forceDictionary_run (dictionary : Thunk) :
    (forceDictionary dictionary).run =
      .evaluate dictionary fun answer => .done answer.purely.toDictionary := by
  refine congrArg (Code.evaluate dictionary) (funext fun answer => ?_)
  change ExceptT.run (Attempt.ofExcept answer.purely.toDictionary) = _
  cases answer.purely.toDictionary <;> rfl

theorem spreadKeywords_quiet (entries : List (Value × Thunk)) (keywords : Keywords) :
    (spreadKeywords entries keywords).Quiet fun _ => True := by
  fun_induction spreadKeywords entries keywords with
  | case1 keywords => exact .pure trivial
  | case2 name value rest keywords ih => exact ih
  | case3 => exact .throw _

theorem collectKeywords_asks (asks : (collectKeywords keywords found).Asks asked thunk) :
    ∃ before after, keywords = before ++ .spread thunk :: after ∧
      asked.map Prod.fst = before.filterMap Keyword.spread? ∧
      ∀ question ∈ asked, ∃ entries, question.2.purely.toDictionary = .ok entries := by
  induction keywords generalizing asked found with
  | nil => exact absurd asks Attempt.not_asks_pure
  | cons keyword rest ih =>
    cases keyword with
    | named name value =>
      obtain ⟨before, after, rfl, same, dictionaries⟩ := ih asks
      exact ⟨.named name value :: before, after, rfl, same, dictionaries⟩
    | spread dictionary =>
      rcases Attempt.Asks.of_bind asks with asks | ⟨first, further, entries, rfl, forces, asksThen⟩
      · rw [Attempt.Asks, forceDictionary_run, Code.asks_evaluate] at asks
        rcases asks with ⟨rfl, rfl⟩ | ⟨answer, _, -, asks⟩
        · exact ⟨[], rest, rfl, rfl, fun _ mem => by cases mem⟩
        · exact absurd asks Code.not_asks_done
      · rw [Attempt.Yields, forceDictionary_run, Code.yields_evaluate] at forces
        obtain ⟨answer, _, rfl, forces⟩ := forces
        obtain ⟨rfl, isDictionary⟩ := Code.yields_done.mp forces
        have quiet := spreadKeywords_quiet (Dictionary.toList entries) found
        rcases Attempt.Asks.of_bind asksThen with asks | ⟨_, last, more, rfl, spreads, asksLast⟩
        · exact absurd asks (quiet.asks _ _)
        · obtain ⟨rfl, -⟩ := quiet.yields _ _ spreads
          obtain ⟨before, after, rfl, same, dictionaries⟩ := ih asksLast
          refine ⟨.spread dictionary :: before, after, rfl, ?_, ?_⟩
          · simpa [Keyword.spread?] using same
          · exact forall_mem_cons.mpr ⟨⟨entries, isDictionary.symm⟩, dictionaries⟩

theorem Default.thunk_quiet (default : Default) (names : List String) (bound : List Thunk) :
    (default.thunk names bound).Quiet fun _ => True := by
  cases default with
  | fixed value => exact .done trivial
  | computed scope body => exact .act fun _ => .done trivial

theorem bindOptionals_quiet (names : List String) (optionals : List Optional) (bound : List Thunk)
    (keywords : Keywords) : (bindOptionals names optionals bound keywords).Quiet fun _ => True := by
  induction optionals generalizing bound keywords with
  | nil => exact .done trivial
  | cons optional rest ih =>
    rw [bindOptionals]
    split
    · exact ih _ _
    · exact .bind (optional.default.thunk_quiet names bound) fun _ _ => ih _ _

theorem bindRestKeywords_quiet (rest : Option String) (keywords : Keywords) :
    (bindRestKeywords rest keywords).Quiet fun _ => True := by
  cases rest with
  | some name =>
    refine .bind (Dictionary.insertAll_quiet ?_ fun _ mem => by cases mem)
      fun dictionary _ => .bind (.lift (.act fun _ => .done trivial)) fun _ _ => .pure trivial
    intro entry mem
    obtain ⟨⟨name, value⟩, -, rfl⟩ := List.mem_map.mp mem
    exact ⟨name, rfl⟩
  | none =>
    rw [bindRestKeywords]
    split
    · exact .pure trivial
    · exact .throw _

/-! ## Binding -/

namespace Signature

variable {signature : Signature}
variable {arguments : Arguments}

theorem bindKeywords_asks (asks : (signature.bindKeywords keywords before).Asks asked thunk) :
    (collectKeywords keywords {}).Asks asked thunk := by
  rcases Attempt.Asks.of_bind asks with asks | ⟨_, _, found, -, -, asks⟩
  · exact asks
  · rcases Attempt.Asks.of_bind asks with asks | ⟨_, _, pair, -, -, asks⟩
    · have quiet := bindOptionals_quiet signature.names signature.optionals before found
      exact absurd asks ((Attempt.Quiet.lift quiet).asks _ _)
    · rcases Attempt.Asks.of_bind asks with asks | ⟨_, _, _, -, -, asks⟩
      · exact absurd asks ((bindRestKeywords_quiet signature.restKeywords pair.2).asks _ _)
      · exact absurd asks Attempt.not_asks_pure

theorem bind_eq_phases (signature : Signature) (arguments : Arguments) :
    signature.bind arguments =
      (signature.bindPositionals arguments.positionals >>= fun (required, rest) =>
        signature.bindKeywords arguments.keywords (required ++ rest)) := by
  simp only [bind_eq, bindPositionals, bind_assoc, pure_bind]

/-- What binding may ask for, having asked for some thunks: a list that is spread, or a tail
of one, while positional values are wanted; and once the required parameters have their
values, the dictionaries that are spread, in order. -/
inductive Wants (signature : Signature) (arguments : Arguments) : Asked → Thunk → Prop
  | positional {asked : Asked} {values : List Thunk} {list : Thunk}
      (gathers : Gathers signature.wanted arguments.positionals asked values (.asking list))
      (few : values.length < signature.wanted) :
      Wants signature arguments asked list
  | keyword {walked answers : Asked} {values required : List Thunk} {ending : Ending}
      {before after : List Keyword} {dictionary : Thunk}
      (gathers : Gathers signature.wanted arguments.positionals walked values ending)
      (bound : signature.required? values ending = some (.ok required))
      (split : arguments.keywords = before ++ .spread dictionary :: after)
      (earlier : answers.map Prod.fst = before.filterMap Keyword.spread?)
      (dictionaries : ∀ question ∈ answers,
        ∃ entries, question.2.purely.toDictionary = .ok entries) :
      Wants signature arguments (walked ++ answers) dictionary

theorem wants_of_asks (asks : (signature.bind arguments).Asks asked thunk) :
    signature.Wants arguments asked thunk := by
  rw [bind_eq_phases] at asks
  rcases Attempt.Asks.of_bind asks with asks | ⟨walked, answers, result, rfl, binds, asks⟩
  · obtain ⟨values, gathers⟩ := bindPositionals_asks asks
    exact .positional gathers gathers.length_lt_of_asking
  · obtain ⟨values, ending, gathers, bound⟩ := bindPositionals_yields binds
    obtain ⟨before, after, split, earlier, dictionaries⟩ :=
      collectKeywords_asks (bindKeywords_asks asks)
    exact .keyword gathers bound split earlier dictionaries

/-- Whatever binding goes on from is a list or a dictionary. -/
theorem Wants.not_excused (wants : signature.Wants arguments asked thunk) :
    ∀ question ∈ asked, ¬Pool.Excused question.1 question.2 := by
  have of_cells : ∀ {cells thunk} {answer : Value}, answer.spreadCells = .ok cells →
      ¬Pool.Excused thunk answer := by
    rintro cells thunk answer isList (rfl | rfl) <;> cases isList
  cases wants with
  | positional gathers few =>
    intro question mem
    obtain ⟨cells, isList⟩ := gathers.exists_spreadCells (fun _ => by simp) question mem
    exact of_cells isList
  | @keyword walked answers _ _ ending _ _ _ gathers bound split earlier dictionaries =>
    intro question mem
    rcases mem_append.mp mem with mem | mem
    · have unbroken : ∀ failure, ending ≠ .broken failure := by
        rintro failure rfl
        cases bound
      obtain ⟨cells, isList⟩ := gathers.exists_spreadCells unbroken question mem
      exact of_cells isList
    · obtain ⟨entries, isDictionary⟩ := dictionaries question mem
      rintro (excused | excused) <;> rw [excused] at isDictionary <;> cases isDictionary

end Signature

/-- Two lists of positionals agree on what is walked to gather so many values: gathering
comes to its end within a front that they share, or they are the same and it meets the
end. -/
def AgreeOnWalked (wanted : Nat) (asked : Asked) (first second : List Positional) : Prop :=
  ∃ front back backToo values ending,
    first = front ++ back ∧
    second = front ++ backToo ∧
    Gathers wanted front asked values ending ∧
    ending.isOver = true ∧
    (ending = .exhausted → back = [] ∧ backToo = [])

theorem Signature.required_eq_of_walked {signature : Signature}
    (gathers : Gathers signature.wanted front asked values ending) (isOver : ending.isOver = true)
    (whole : ending = .exhausted → back = [])
    (yields : (signature.bindPositionals (front ++ back)).Yields askedToo outcome)
    (consistent : asked.Consistent askedToo) :
    askedToo = asked ∧ signature.required? values ending = some (outcome.map Prod.fst) := by
  obtain ⟨others, final, gathersToo, required_eq⟩ := bindPositionals_yields yields
  have overToo : final.isOver = true := by
    cases final with
    | asking list => cases required_eq
    | _ => rfl
  by_cases met : ending = .exhausted
  · rw [whole met, append_nil] at gathersToo
    obtain ⟨rfl, rfl, rfl⟩ := gathers.unique gathersToo consistent isOver overToo
    exact ⟨rfl, required_eq⟩
  · have extended := gathers.append met back
    have extendedOver : (ending.extend back).isOver = true := by
      cases ending <;> first | rfl | exact isOver
    obtain ⟨rfl, rfl, rfl⟩ := extended.unique gathersToo consistent extendedOver overToo
    refine ⟨rfl, ?_⟩
    rw [← required_eq]
    cases ending <;> rfl

/-- Binding is as lazy as the signature allows, whatever the arguments are and however other
threads interfere.  All it asks for are lists that are spread and their tails, while fewer
values were found than there are required parameters, or one more where there is no parameter
for the rest, and after that the dictionaries that are spread; a thread that binds goes on
from what these thunks hold.  The positional phase ends as gathering values ends.  So two
lists of positionals that agree on what is walked have the same thunks for the required
parameters, or the same error, and the same questions are asked. -/
theorem binding_is_as_lazy_as_the_signature (signature : Signature) :
    (∀ arguments asked thunk,
      (signature.bind arguments).Asks asked thunk → signature.Wants arguments asked thunk) ∧
    (∀ (arguments : Arguments) (pool : Pool) (number : Nat) (turns : List Turn)
        (thunk : Thunk) (next : Value → Code (Except Error (List Thunk))),
      pool.Idle →
      pool.threads number = some ⟨.running (signature.bind arguments).run⟩ →
      (∀ turn ∈ turns, turn.Spares number) →
      (pool.run turns).threads number = some ⟨.running (.evaluate thunk next)⟩ →
        ∃ asked, signature.Wants arguments asked thunk ∧
          ∀ question ∈ asked,
            (pool.run turns).store.slot? question.1 = some (.evaluated question.2)) ∧
    (∀ arguments, signature.bind arguments =
      (signature.bindPositionals arguments.positionals >>= fun (required, rest) =>
        signature.bindKeywords arguments.keywords (required ++ rest))) ∧
    (∀ positionals asked outcome,
      (signature.bindPositionals positionals).Yields asked outcome →
        ∃ values ending,
          Gathers signature.wanted positionals asked values ending ∧
          signature.required? values ending = some (outcome.map Prod.fst)) ∧
    (∀ first second walked,
      AgreeOnWalked signature.wanted walked first second →
      ∀ asked outcome askedToo outcomeToo,
        (signature.bindPositionals first).Yields asked outcome →
        walked.Consistent asked →
        (signature.bindPositionals second).Yields askedToo outcomeToo →
        walked.Consistent askedToo →
          asked = walked ∧
          askedToo = walked ∧
          outcome.map Prod.fst = outcomeToo.map Prod.fst) := by
  refine ⟨fun _ _ _ => Signature.wants_of_asks, ?_, signature.bind_eq_phases,
    fun _ _ _ => Signature.bindPositionals_yields, ?_⟩
  · intro arguments pool number turns thunk next idle present spares asking
    have follows : pool.Follows number (signature.bind arguments).run :=
      .inr ⟨_, present, .start _⟩
    obtain ⟨asked, reached, tells⟩ := (follows.run idle.owned spares).exists_after asking
    have wants : signature.Wants arguments asked thunk := Signature.wants_of_asks ⟨next, reached⟩
    exact ⟨asked, wants, fun question mem =>
      (tells question mem).resolve_right (wants.not_excused question mem)⟩
  · rintro first second walked ⟨front, back, backToo, values, ending, rfl, rfl, gathers, isOver,
      whole⟩ asked outcome askedToo outcomeToo yields consistent yieldsToo consistentToo
    obtain ⟨rfl, required_eq⟩ :=
      Signature.required_eq_of_walked gathers isOver (fun met => (whole met).1) yields consistent
    obtain ⟨rfl, requiredToo_eq⟩ :=
      Signature.required_eq_of_walked gathers isOver (fun met => (whole met).2) yieldsToo
        consistentToo
    exact ⟨rfl, rfl, Option.some.inj (required_eq.symm.trans requiredToo_eq)⟩

/-- A list whose tail is the list itself, and whose element breaks off. -/
def endlessStore : Store where
  slots := #[.evaluated (.list (.cons ⟨1⟩ ⟨0⟩)), .suspended (.breakOff "stop")]
  digest := Digest.multiplicative

/-- Two required parameters, and one for the rest. -/
def pairSignature : Signature where
  required := ["first", "second"]
  rest := some "others"

/-- A thread that binds an endless list. -/
def endlessBinder : Pool where
  store := endlessStore
  threads
    | 0 => some ⟨.running (pairSignature.bind { positionals := [.spread ⟨0⟩] }).run⟩
    | _ => none

theorem endlessBinder_idle : endlessBinder.Idle where
  unclaimed := by
    rintro ⟨place⟩ slot held
    match place with
    | 0 | 1 =>
      cases held
      simp [endlessBinder, endlessStore]
    | place + 2 => simp [endlessBinder, endlessStore, Store.slot?] at held
  running number worker present := by
    simp only [endlessBinder] at present
    split at present
    · cases present
      exact ⟨_, rfl⟩
    · contradiction

/-- The two cells that are walked. -/
def endlessWalk : Asked :=
  [(⟨0⟩, .list (.cons ⟨1⟩ ⟨0⟩)), (⟨0⟩, .list (.cons ⟨1⟩ ⟨0⟩))]

theorem binding_is_as_lazy_as_the_signature_of_endless :
    (∃ asked, pairSignature.Wants { positionals := [.spread ⟨0⟩] } asked ⟨0⟩ ∧ ∀ question ∈ asked,
        (endlessBinder.run [.step 0]).store.slot? question.1 = some (.evaluated question.2)) ∧
    AgreeOnWalked 2 endlessWalk [.spread ⟨0⟩] [.spread ⟨0⟩, .spread ⟨1⟩] ∧
    (pairSignature.bindPositionals [.spread ⟨0⟩]).Yields endlessWalk (.ok ([⟨1⟩, ⟨1⟩], [⟨3⟩])) ∧
    ∀ asked outcome,
      (pairSignature.bindPositionals [.spread ⟨0⟩, .spread ⟨1⟩]).Yields asked outcome →
      endlessWalk.Consistent asked →
        outcome.map Prod.fst = .ok [⟨1⟩, ⟨1⟩] := by
  obtain ⟨-, wants, -, -, agree⟩ := binding_is_as_lazy_as_the_signature pairSignature
  have walked : AgreeOnWalked 2 endlessWalk [.spread ⟨0⟩] [.spread ⟨0⟩, .spread ⟨1⟩] :=
    ⟨[.spread ⟨0⟩], [], [.spread ⟨1⟩], _, _, rfl, rfl, .cons _ rfl (.cons _ rfl (.enough _)),
      rfl, fun met => by cases met⟩
  have yields : (pairSignature.bindPositionals [.spread ⟨0⟩]).Yields endlessWalk
      (.ok ([⟨1⟩, ⟨1⟩], [⟨3⟩])) :=
    Code.After.evaluate _ (Code.After.evaluate _
      (Code.After.act ⟨2⟩ (Code.After.act ⟨3⟩ (.start _))))
  refine ⟨?_, walked, yields, ?_⟩
  · exact wants _ endlessBinder 0 [.step 0] ⟨0⟩ _ endlessBinder_idle rfl (fun turn mem => by
        rw [List.mem_singleton] at mem
        subst mem
        trivial) rfl
  · intro asked outcome yieldsToo consistent
    have same : endlessWalk.Consistent endlessWalk := by
      rintro thunk answer other mem memberToo
      simp only [endlessWalk, List.mem_cons, Prod.mk.injEq, List.not_mem_nil, or_false,
        or_self] at mem memberToo
      rw [mem.2, memberToo.2]
    exact (agree _ _ endlessWalk walked _ _ _ _ yields same yieldsToo consistent).2.2.symm

end ByNeed
