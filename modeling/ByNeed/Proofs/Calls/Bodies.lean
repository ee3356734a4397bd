import Mathlib.Data.List.Basic
import ByNeed.Proofs.Calls.Building

/-!
# Bodies do only what fits

A primitive with as many parameters as it takes breaks off nowhere, and neither does an expression
in sight of the parameters it names.  So every computation, routine and request does only what fits.
-/

namespace ByNeed

open Attempt Dictionary LazyList List
open Code (keeps_perform obeys_perform_bind)

variable {allowance : Allowance} {regime : Regime}
variable {value : Value} {α : Type} {dict : Dict} {bound : List Thunk}
variable {computation : Suspension} {routine : Routine}

/-! ## Daemons -/

section

variable {duty : Duty} {daemon : Daemon} (scheduler : Nat)

theorem launch_keeps (may : regime.mayUse daemon.duty.channel?) :
    (launch scheduler daemon).Keeps regime :=
  obeys_perform_bind ⟨trivial, may⟩ fun _ _ => keeps_perform ⟨trivial, regime.general may⟩

theorem launchAll_keeps {daemons : List Daemon}
    (may : ∀ daemon ∈ daemons, regime.mayUse daemon.duty.channel?) :
    (launchAll scheduler daemons).Keeps regime := by
  induction daemons with
  | nil => exact Code.keeps_pure ()
  | cons daemon rest ih =>
    obtain ⟨first, rest⟩ := forall_mem_cons.mp may
    exact (launch_keeps scheduler first).bind fun _ => ih rest

theorem spawn_keeps (may : regime.mayUse duty.channel?) : (spawn scheduler duty).Keeps regime := by
  refine obeys_perform_bind ⟨trivial, may⟩ fun urgent told => ?_
  cases urgent with
  | none => exact Code.keeps_pure ()
  | some daemon => exact launch_keeps scheduler (told.2 daemon rfl)

section

variable (general : regime.mayUse none)

include general

theorem startScheduler_keeps : (startScheduler scheduler).Keeps regime := by
  refine obeys_perform_bind ⟨trivial, general⟩ fun taken told => ?_
  cases taken with
  | none => exact Code.keeps_pure none
  | some queue =>
    exact (launchAll_keeps scheduler (told.2 queue rfl)).bind fun _ => Code.keeps_pure _

/-- A feed makes a channel of its own. -/
theorem feed_keeps (elements : List Thunk) (failure : Option Error) :
    (feed scheduler elements failure).Keeps regime := by
  refine obeys_perform_bind ⟨trivial, general⟩ fun bound _ => ?_
  refine obeys_perform_bind ⟨trivial, general⟩ fun made told => ?_
  exact (spawn_keeps scheduler told.2).bind fun _ => suspend_keeps trivial told.2

/-- A rally makes a channel of its own. -/
theorem rally_keeps (sources : Thunk) (idle : regime.allowance.Admits Fault.idleScheduler.error) :
    (rally scheduler sources).Keeps regime := by
  refine obeys_perform_bind ⟨trivial, general⟩ fun started _ => ?_
  cases started with
  | false => exact idle
  | true =>
    refine obeys_perform_bind ⟨trivial, general⟩ fun bound _ => ?_
    refine obeys_perform_bind ⟨trivial, general⟩ fun made told => ?_
    refine Attempt.Obeys.bind (keeps_lift (spawn_keeps scheduler told.2)) fun _ _ => ?_
    exact keeps_lift (suspend_keeps trivial told.2)

end
end

section

variable {channel : Nat} (may : regime.mayUse (some channel))

include may

theorem receiveStep_keeps : (receiveStep channel).Keeps regime := by
  refine obeys_perform_bind ⟨trivial, may⟩ fun reading told => ?_
  cases reading with
  | item element =>
    have rest : (suspend (.receive channel)).Keeps regime := suspend_keeps trivial may
    exact rest.bind fun _ => newValue_keeps (.list _)
  | failure error =>
    exact obeys_perform_bind ⟨trivial, may⟩ fun _ _ => newValue_keeps (.error told.1)
  | ended => exact obeys_perform_bind ⟨trivial, may⟩ fun _ _ => newValue_keeps (.list _)

theorem publishAll_keeps (elements : List Thunk) : (publishAll channel elements).Keeps regime := by
  induction elements with
  | nil => exact Code.keeps_pure ()
  | cons element rest ih =>
    exact obeys_perform_bind ⟨trivial, may⟩ fun _ _ => ih

theorem feedDuty_keeps (elements : List Thunk) {failure : Option Error}
    (admits : ∀ error, failure = some error → regime.allowance.Admits error) :
    (feedDuty elements failure channel).Keeps regime := by
  refine (publishAll_keeps may elements).bind fun _ => ?_
  cases failure with
  | none => exact keeps_perform ⟨trivial, may⟩
  | some error =>
    exact obeys_perform_bind ⟨admits error rfl, may⟩ fun _ _ => keeps_perform ⟨trivial, may⟩

theorem sourceDuty_keeps (source : Thunk) (backlog : Nat) :
    (sourceDuty source channel backlog).Keeps regime := by
  have general := regime.general may
  refine (force_obeys source).bind fun value fits => ?_
  refine obeys_perform_bind ⟨trivial, general⟩ fun _ _ => ?_
  refine obeys_perform_bind ⟨?_, may⟩ fun _ _ => ?_
  · split
    · exact Value.fits_error.mp fits
    · trivial
  · exact obeys_perform_bind ⟨trivial, general⟩ fun _ _ => keeps_perform ⟨trivial, may⟩

theorem walkStep_keeps (scheduler : Nat) (spine : Thunk) (backlog capacity : Nat) :
    (walkStep scheduler spine channel backlog capacity).Keeps regime := by
  refine obeys_perform_bind ⟨trivial, regime.general may⟩ fun _ _ => ?_
  refine obeys_perform_bind ⟨trivial, may⟩ fun closed _ => ?_
  cases closed with
  | true => exact keeps_perform ⟨trivial, may⟩
  | false =>
    refine (force_obeys spine).bind fun value fits => ?_
    have found := fits.toList
    split
    · rename_i failure outcome
      rw [outcome] at found
      exact obeys_perform_bind ⟨found, may⟩ fun _ _ => keeps_perform ⟨trivial, may⟩
    · exact keeps_perform ⟨trivial, may⟩
    · refine obeys_perform_bind ⟨trivial, may⟩ fun _ _ => ?_
      exact (spawn_keeps scheduler may).bind fun _ => ⟨⟨trivial, may⟩, fun _ _ => trivial⟩

theorem walkDuty_keeps (scheduler : Nat) (spine : Thunk) :
    (walkDuty scheduler spine channel).Keeps regime :=
  obeys_perform_bind ⟨trivial, regime.general may⟩ fun _ _ =>
    obeys_perform_bind ⟨trivial, regime.general may⟩ fun _ _ =>
      ⟨⟨trivial, may⟩, fun _ _ => trivial⟩

end

/-- What a daemon does obeys a regime.  Should its duty break off, this is caught. -/
theorem Duty.attempt_keeps (scheduler : Nat) {duty : Duty} (fits : duty.Fits regime)
    (may : regime.mayUse duty.channel?) : (duty.code scheduler).attempt.Keeps regime := by
  cases duty with
  | feed elements failure channel => exact (feedDuty_keeps may elements fits).attempt
  | walk spine channel => exact (walkDuty_keeps may scheduler spine).attempt
  | source source channel backlog => exact (sourceDuty_keeps may source backlog).attempt
  | tally breaksOff => cases breaksOff <;> exact ⟨⟨trivial, may⟩, fun _ _ => trivial⟩

theorem Daemon.code_keeps (scheduler : Nat) {daemon : Daemon} (fits : daemon.duty.Fits regime)
    (may : regime.mayUse daemon.duty.channel?) : (daemon.code scheduler).Keeps regime :=
  (Duty.attempt_keeps scheduler fits may).bind fun _ =>
    keeps_perform ⟨trivial, regime.general may⟩

/-! ## Primitives -/

namespace Arithmetic

section

variable (operation : Arithmetic) (total : Float)

@[grind ←]
theorem fold_keeps (numbers : LazyList) : (operation.fold total numbers).Keeps regime :=
  ⟨⟨trivial, trivial⟩, fun _ grants => grants⟩

theorem foldStep_keeps (numbers : LazyList) : (operation.foldStep total numbers).Keeps regime := by
  fun_cases foldStep operation total numbers <;> grind

@[grind ←]
theorem accumulate_keeps (numbers : Thunk) : (operation.accumulate total numbers).Keeps regime := by
  unfold accumulate
  grind

end

end Arithmetic

@[grind ←]
theorem notACollection_keeps (fits : value.Fits regime) :
    (notACollection value : Attempt α).Keeps regime := by
  cases value with
  | error failure => exact Value.fits_error.mp fits
  | _ => exact keeps_fault (by simp [Fault.kind])

@[grind ←]
theorem Value.Fits.toPosition (fits : value.Fits regime) : value.toPosition.Keeps regime := by
  refine fits.toNumber.bind fun number => obeys_ofExcept ?_
  unfold Number.position
  split
  · exact regime.allowance.ordinary (.fractionalPosition number) (by simp [Fault.kind])
  · split
    · exact regime.allowance.ordinary (.positionBelowOne number) (by simp [Fault.kind])
    · trivial

namespace Dictionary

variable {dict : Dict}

section

variable (fits : dict.Fits regime) (list : LazyList)

include fits list

theorem Fits.assign : (dict.assign list).Obeys regime (Dictionary.Fits regime) :=
  ⟨⟨fits, trivial⟩, fun _ grants => grants⟩

theorem Fits.assignStep : (dict.assignStep list).Obeys regime (Dictionary.Fits regime) := by
  cases list with
  | empty => exact obeys_pure fits
  | cons head tail =>
    refine obeys_lift_bind (force_obeys head) fun value valueFits => ?_
    refine Attempt.Obeys.bind valueFits.check fun key keyFits => ?_
    refine Attempt.Obeys.bind (forceList_keeps tail) fun cells _ => ?_
    cases cells with
    | empty => exact obeys_fault (by simp [Fault.kind])
    | cons value rest =>
      refine Attempt.Obeys.bind (fits.insert keyFits value) fun assigned assignedFits => ?_
      exact Attempt.Obeys.bind (forceList_keeps rest) fun list _ => assignedFits.assign list

theorem Fits.mergeAll : (dict.mergeAll list).Obeys regime (Dictionary.Fits regime) :=
  ⟨⟨fits, trivial⟩, fun _ grants => grants⟩

theorem Fits.mergeAllStep : (dict.mergeAllStep list).Obeys regime (Dictionary.Fits regime) := by
  cases list with
  | empty => exact obeys_pure fits
  | cons head tail =>
    refine Attempt.Obeys.bind (forceDictionary_obeys head) fun other otherFits => ?_
    refine Attempt.Obeys.bind (fits.merge otherFits) fun merged mergedFits => ?_
    exact Attempt.Obeys.bind (forceList_keeps tail) fun list _ => mergedFits.mergeAll list

end

end Dictionary

namespace Collection

variable {collection key : Value} (fits : collection.Fits regime)

include fits

@[grind ←]
theorem size_keeps : (size collection).Keeps regime := by
  unfold size
  grind

@[grind ←]
theorem index_keeps (keyFits : key.Fits regime) : (index collection key).Keeps regime := by
  unfold index
  grind [Fault.kind]

@[grind ←]
theorem includes_keeps (keyFits : key.Fits regime) : (includes collection key).Keeps regime := by
  unfold includes
  grind

theorem delete_keeps (keyFits : key.Fits regime) : (delete collection key).Keeps regime := by
  cases collection with
  | list cells =>
    exact keyFits.toPosition.bind fun position =>
      (cells.delete_keeps position).bind fun _ => keeps_lift (newValue_keeps (.list _))
  | dictionary entries =>
    exact Attempt.Obeys.bind ((Value.fits_dictionary.mp fits).remove keyFits) fun _ madeFits =>
      keeps_lift (newValue_keeps (.dictionary madeFits))
  | _ =>
    unfold delete
    exact notACollection_keeps fits

theorem toList_keeps : (toList collection).Keeps regime := by
  cases collection with
  | list cells => exact keeps_lift (newValue_keeps (.list _))
  | dictionary entries =>
    exact obeys_lift_bind (Value.fits_dictionary.mp fits).pairs fun _ _ =>
      keeps_lift (newValue_keeps (.list _))
  | string text =>
    refine obeys_lift_bind (ofValues_keeps fun value mem => ?_) fun _ _ =>
      keeps_lift (newValue_keeps (.list _))
    obtain ⟨character, -, rfl⟩ := List.mem_map.mp mem
    exact .string _
  | _ =>
    unfold toList
    exact notACollection_keeps fits

end Collection

namespace Collection

theorem assign_keeps (fits : dict.Fits regime) (pairs : Thunk) : (assign dict pairs).Keeps regime :=
  (forceList_keeps pairs).bind fun list => Attempt.Obeys.bind (fits.assign list) fun _ madeFits =>
    keeps_lift (newValue_keeps (.dictionary madeFits))

theorem merge_keeps (collection others : Thunk) : (merge collection others).Keeps regime := by
  refine keeps_force_bind fun value fits => ?_
  have rest : (suspend (.concatenate others)).Keeps regime := suspend_keeps trivial trivial
  cases value with
  | dictionary entries =>
    exact (forceList_keeps others).bind fun list =>
      Attempt.Obeys.bind ((Value.fits_dictionary.mp fits).mergeAll list) fun _ madeFits =>
        keeps_lift (newValue_keeps (.dictionary madeFits))
  | list cells =>
    exact obeys_lift_bind rest fun _ _ =>
      keeps_lift (append_keeps collection _)
  | _ => exact notACollection_keeps fits

theorem prepend_keeps (elementsAndList : Thunk) : (prepend elementsAndList).Keeps regime := by
  unfold prepend
  grind [Fault.kind]

end Collection

@[grind ←]
theorem choose_keeps (branches : Thunk) : (choose branches).Keeps regime :=
  ⟨⟨trivial, trivial⟩, fun _ grants => grants⟩

theorem chooseStep_keeps (branches : Thunk) : (chooseStep branches).Keeps regime := by
  refine (forceList_keeps branches).bind fun cells => ?_
  cases cells with
  | empty => exact keeps_fault (by simp [Fault.kind])
  | cons condition rest =>
    refine (forceList_keeps rest).bind fun behind => ?_
    cases behind with
    | empty => exact keeps_pure condition
    | cons value next =>
      refine keeps_force_bind fun answer fits => fits.toBoolean.bind fun truth => ?_
      cases truth with
      | true => exact keeps_pure value
      | false => exact choose_keeps next

theorem fixArguments_keeps (function arguments keywords : Thunk) :
    (fixArguments function arguments keywords).Keeps regime := by
  refine keeps_force_bind fun value fits => ?_
  refine Attempt.Obeys.bind fits.toFunction fun callee calleeFits => ?_
  have fixed : ∀ fixed : Arguments, (callee.fix fixed).Obeys regime (Function.Fits regime) :=
    fun _ => ⟨⟨trivial, trivial⟩, fun _ _ => calleeFits⟩
  exact obeys_lift_bind (fixed _) fun _ functionFits =>
    keeps_lift (newValue_keeps (.function functionFits))

theorem catchError_keeps (thunk : Thunk) : (catchError thunk).Keeps regime := by
  refine keeps_force_bind fun value _ => ?_
  cases value with
  | error failure =>
    have described : failure.describe.Obeys regime (Dictionary.Fits regime) := by
      refine obeys_lift_bind (newValue_keeps (.string _)) fun name _ => ?_
      refine obeys_lift_bind (newValue_keeps (.string _)) fun message _ => ?_
      exact ofEntries_obeys (keysFit_cons.mpr
        ⟨.string _, keysFit_cons.mpr ⟨.string _, keysFit_nil⟩⟩)
    exact Attempt.Obeys.bind described fun _ fits =>
      keeps_lift (newValue_keeps (.dictionary fits))
  | _ => exact keeps_pure thunk

theorem raise_keeps (nameFits : name.Fits regime) (messageFits : message.Fits regime)
    (raises : ∀ name message, regime.allowance.admits name message) :
    (raise name message).Keeps regime :=
  nameFits.toText.bind fun name => messageFits.toText.bind fun message =>
    keeps_lift (newValue_keeps (.error (raises name message)))

@[grind ←]
theorem allEqual_keeps (fits : value.Fits regime) (list : LazyList) :
    (allEqual value list).Keeps regime :=
  ⟨⟨fits, trivial⟩, fun _ grants => grants⟩

theorem allEqualStep_keeps (fits : value.Fits regime) (list : LazyList) :
    (allEqualStep value list).Keeps regime := by
  fun_cases allEqualStep value list <;> grind

@[grind ←]
theorem equalAll_keeps (list : LazyList) : (equalAll list).Keeps regime := by
  fun_cases equalAll list <;> grind

namespace Monotone

variable (order : Monotone)
variable {previous : Value}

@[grind ←]
theorem holdsFrom_keeps (fits : previous.Fits regime) (list : LazyList) :
    (order.holdsFrom previous list).Keeps regime :=
  ⟨⟨fits, trivial⟩, fun _ grants => grants⟩

theorem holdsFromStep_keeps (fits : previous.Fits regime) (list : LazyList) :
    (order.holdsFromStep previous list).Keeps regime := by
  fun_cases holdsFromStep order previous list <;> grind

@[grind ←]
theorem holds_keeps (list : LazyList) : (order.holds list).Keeps regime := by
  fun_cases holds order list <;> grind

end Monotone

/-- A primitive that is given as many parameters as it takes does only what fits.  All but the
rally are plain. -/
theorem LazyPrimitive.Fits.run {operation : LazyPrimitive}
    (fits : operation.Fits regime bound.length)
    (general : ∀ scheduler, operation = .rally scheduler → regime.mayUse none) :
    (operation.run bound).Keeps regime := by
  obtain ⟨takes, idle⟩ := fits
  fun_cases LazyPrimitive.run operation bound with
  | case1 elements => exact keeps_pure elements
  | case2 elementsAndList => exact Collection.prepend_keeps elementsAndList
  | case3 keysAndValues => exact Collection.assign_keeps fits_empty keysAndValues
  | case4 target keysAndValues =>
    exact Attempt.Obeys.bind (forceDictionary_obeys target) fun _ fits =>
      Collection.assign_keeps fits keysAndValues
  | case5 collection others => exact Collection.merge_keeps collection others
  | case10 branches => exact choose_keeps branches
  | case11 value => exact keeps_pure value
  | case12 function arguments keywords => exact fixArguments_keeps function arguments keywords
  | case13 value => exact catchError_keeps value
  | case14 value => exact keeps_lift (newEffect_keeps value)
  | case15 scheduler sources =>
    exact rally_keeps scheduler (general scheduler rfl) sources (idle scheduler rfl)
  | case16 =>
    refine takes.elim (fun arity_eq => ?_) fun breaks => breaks
    exfalso
    cases operation <;> simp only [arity, length_eq_one_iff, length_eq_two,
      length_eq_three] at arity_eq <;> grind
  | _ => grind

theorem StrictPrimitive.Fits.run {operation : StrictPrimitive}
    (fits : operation.Fits regime values.length) (valuesFit : ∀ value ∈ values, value.Fits regime) :
    (operation.run values).Keeps regime := by
  obtain ⟨takes, raises⟩ := fits
  fun_cases StrictPrimitive.run operation values with
  | case14 =>
    refine takes.elim (fun arity_eq => ?_) fun breaks => breaks
    exfalso
    cases operation <;> simp only [arity, length_eq_one_iff, length_eq_two]
      at arity_eq <;> grind
  | _ => grind [Collection.delete_keeps, Collection.toList_keeps, raise_keeps]

/-! ## Calls -/

theorem returning_keeps (keeps : result.Keeps regime) : (returning result).Keeps regime := by
  refine Code.Obeys.bind keeps fun outcome grants => ?_
  cases outcome with
  | ok thunk => exact Code.keeps_pure thunk
  | error failure => exact newValue_keeps (.error grants)

theorem forceChecked_obeys (thunk : Thunk) :
    (forceChecked thunk).Obeys regime (Value.Fits regime) :=
  obeys_lift_bind (force_obeys thunk) fun _ fits => fits.check

theorem forceParameters_obeys (thunks : List Thunk) :
    (forceParameters thunks).Obeys regime fun values => ∀ value ∈ values, value.Fits regime :=
  obeys_mapM fun thunk _ => forceChecked_obeys thunk

theorem forceParameters_always (thunks : List Thunk) :
    (forceParameters thunks).Always fun values => values.length = thunks.length := by
  induction thunks with
  | nil => exact always_pure rfl
  | cons thunk rest ih =>
    rw [forceParameters, mapM_cons]
    exact always_bind _ fun _ => ih.bind fun _ length_eq =>
      always_pure (congrArg (· + 1) length_eq)

theorem mapM_newValue_always (values : List Value) :
    (values.mapM newValue).Always fun thunks => thunks.length = values.length := by
  induction values with
  | nil => exact rfl
  | cons value rest ih =>
    rw [mapM_cons]
    exact Code.always_bind _ fun _ => ih.bind fun _ length_eq =>
      congrArg (· + 1) length_eq

/-- A body that can do with its parameters does only what fits. -/
theorem Body.Suits.invoke {body : Body} (suits : body.Suits regime names bound.length)
    (general : ∀ scheduler, body = .lazyPrimitive (.rally scheduler) → regime.mayUse none) :
    (body.invoke names bound).Keeps regime := by
  have forced : (forceParameters bound).Obeys regime fun values =>
      (∀ value ∈ values, value.Fits regime) ∧ values.length = bound.length :=
    (forceParameters_obeys bound).and_always (forceParameters_always bound)
  cases body with
  | lazyPrimitive operation =>
    exact LazyPrimitive.Fits.run suits fun scheduler same => general scheduler (same ▸ rfl)
  | strictPrimitive operation =>
    refine forced.bind fun values known => StrictPrimitive.Fits.run ?_ known.1
    rw [known.2]
    exact suits
  | lazyExpr scope expr =>
    refine keeps_lift (build_keeps expr ?_)
    rw [scope.names_bindAll]
    exact suits
  | strictExpr scope expr =>
    refine forced.bind fun values known => ?_
    have made : (values.mapM newValue).Keeps regime :=
      Code.keeps_mapM fun value mem => newValue_keeps (known.1 value mem)
    refine obeys_lift_bind (made.and_always (mapM_newValue_always values))
      fun thunks length_thunks => keeps_lift (build_keeps expr ?_)
    rw [scope.names_bindAll, length_thunks.2, known.2]
    exact suits

theorem Function.Fits.call {callee : Function} (fits : callee.Fits regime)
    (general : regime.mayUse none) (arguments : Arguments) :
    (callee.call arguments).Keeps regime := by
  induction callee generalizing arguments with
  | fixing identity target fixed ih =>
    exact ih fits (fixed.merge arguments)
  | plain identity name signature effectful body =>
    refine (fits.1.bind arguments).bind fun bound known => ?_
    have length_eq : bound.length = signature.names.length := by
      rw [known.2, signature.length_names]
    cases effectful with
    | true =>
      have suspended : (suspend (.invoke body signature.names bound)).Keeps regime :=
        suspend_keeps ⟨fits.2, length_eq⟩ trivial
      exact obeys_lift_bind suspended fun payload _ =>
        keeps_lift (newEffect_keeps payload)
    | false =>
      refine Body.Suits.invoke ?_ fun _ _ => general
      rw [length_eq]
      exact Body.suits_length.mpr fits.2

/-- A dictionary is given the one key that it takes. -/
theorem Dictionary.Fits.call (fits : dict.Fits regime) (arguments : Arguments) :
    (dict.call arguments).Keeps regime := by
  have signatureFits : keySignature.Fits regime := trivial
  refine (signatureFits.bind arguments).bind fun bound known => ?_
  obtain ⟨argument, rfl⟩ := length_eq_one_iff.mp known.2
  exact (forceChecked_obeys argument).bind fun key keyFits => fits.index keyFits

theorem apply_keeps (general : regime.mayUse none) (function : Thunk) (arguments : Arguments) :
    (apply function arguments).Keeps regime := by
  refine keeps_force_bind fun value fits => ?_
  cases value with
  | function callee => exact (Value.fits_function.mp fits).call general arguments
  | dictionary entries => exact (Value.fits_dictionary.mp fits).call arguments
  | error failure => exact Value.fits_error.mp fits
  | _ => exact keeps_fault (by simp [Fault.kind])

theorem Suspension.makeDictionary_keeps (entries : List (Thunk × Thunk)) :
    (makeDictionary entries).Keeps regime := by
  refine (forceParameters_obeys _).bind fun keys keysFit => ?_
  refine Attempt.Obeys.bind (ofEntries_obeys fun entry mem => ?_) fun _ fits =>
    keeps_lift (newValue_keeps (.dictionary fits))
  exact keysFit entry.1 (of_mem_zip mem).1

/-- Whether a computation calls no function. -/
def Suspension.isPlain : Suspension → Bool
  | .apply .. | .invoke .. => false
  | _ => true

/-- A suspended computation that fits obeys a regime.  Calls may come to a rally. -/
theorem Suspension.Suits.resume (suits : computation.Suits regime)
    (respects : computation.Respects regime.mayUse)
    (general : computation.isPlain = false → regime.mayUse none) :
    computation.resume.Keeps regime := by
  cases computation with
  | apply function arguments site =>
    exact returning_keeps (apply_keeps (general rfl) function arguments)
  | append list tail => exact returning_keeps (appendStep_keeps list tail)
  | concatenate lists => exact returning_keeps (concatenateStep_keeps lists)
  | invoke body names bound =>
    exact returning_keeps (Body.Suits.invoke suits fun _ _ => general rfl)
  | cell group index =>
    refine obeys_perform_bind ⟨trivial, trivial⟩ fun found _ => ?_
    cases found with
    | some definition => exact Code.keeps_pure definition
    | none => exact newValue_keeps (Value.fits_fault (by simp [Fault.kind]))
  | receive channel => exact receiveStep_keeps respects
  | build scope body => exact build_keeps body suits
  | probe note scope body =>
    exact obeys_perform_bind ⟨trivial, trivial⟩ fun _ _ => build_keeps body suits
  | dictionary entries => exact returning_keeps (makeDictionary_keeps entries)
  | forced thunk => exact (force_obeys thunk).bind fun _ valueFits => newValue_keeps valueFits
  | outline thunk =>
    exact obeys_perform_bind ⟨trivial, trivial⟩ fun _ _ =>
      newValue_keeps (.string _)
  | breakOff message => exact suits

theorem Routine.Obeys.body (obeys : routine.Obeys regime) :
    routine.body.Obeys regime (routine.Told regime) := by
  obtain ⟨fits, respects⟩ := obeys
  cases routine with
  | compare left right => exact fits.1.compare fits.2
  | compareLists left right => exact left.compare_keeps right
  | hash value => exact Value.Fits.hash fits
  | hashElements list => exact list.hashes_keeps
  | render value => exact Value.Fits.render fits
  | renderElements list => exact list.renderElements_keeps
  | elements list => exact list.elementsStep_keeps
  | contains list value => exact list.containsStep_keeps fits
  | nth list skipped => exact list.nthStep_keeps skipped
  | cut list position => exact list.cutStep_keeps position
  | fold operation total numbers => exact operation.foldStep_keeps total numbers
  | allEqual value list => exact allEqualStep_keeps fits list
  | monotone order previous list => exact order.holdsFromStep_keeps fits list
  | assign dict list => exact Dictionary.Fits.assignStep fits list
  | mergeAll dict list => exact Dictionary.Fits.mergeAllStep fits list
  | choose branches => exact chooseStep_keeps branches
  | view value limit => exact Value.Fits.view fits limit
  | viewList list limit room => exact viewList_keeps list limit room
  | walk scheduler spine channel backlog bound =>
    exact walkStep_keeps respects scheduler spine backlog bound

/-! ## Requests -/

/-- What a request is about fits. -/
def Request.Fits (allowance : Allowance) : Request → Prop
  | .build expr scope => expr.Fits allowance scope.names
  | .call callee _ => callee.Fits allowance
  | .serve _ daemon => daemon.duty.Fits allowance
  | _ => True

theorem Request.fits_everything (request : Request) : request.Fits .everything := by
  cases request with
  | build expr scope => exact expr.fits_everything _
  | call callee arguments => exact callee.fits_everything
  | serve scheduler daemon => exact daemon.duty.fits_everything
  | _ => trivial

/-- The errors that a request ends with may occur. -/
def Request.Told (allowance : Allowance) : (request : Request) → request.Result → Prop
  | .call .., outcome => allowance.Grants (fun _ => True) outcome
  | .force _, value => value.Fits allowance
  | .forceImpure _, value => value.Fits allowance
  | _, _ => True

/-- The duty that a request brings: to be a daemon, or to submit one. -/
def Request.duty? : Request → Option Duty
  | .serve _ daemon => some daemon.duty
  | .submit _ duty => some duty
  | _ => none

/-- A request obeys a regime, if it brings no duty that does not. -/
theorem Request.Fits.code {request : Request} (fits : request.Fits regime)
    (general : regime.mayUse none)
    (may : ∀ duty, request.duty? = some duty → regime.mayUse duty.channel?) :
    request.code.Obeys regime (request.Told regime) := by
  cases request with
  | build expr scope => exact build_keeps expr fits
  | call callee arguments => exact Function.Fits.call fits general arguments
  | force thunk => exact force_obeys thunk
  | forceImpure thunk => exact forceImpure_obeys thunk
  | startScheduler scheduler => exact startScheduler_keeps scheduler general
  | submit scheduler duty => exact spawn_keeps scheduler (may duty rfl)
  | feed scheduler elements failure => exact feed_keeps scheduler general elements failure
  | serve scheduler daemon => exact Daemon.code_keeps scheduler fits (may daemon.duty rfl)

end ByNeed
