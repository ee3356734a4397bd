import ByNeed.Proofs.Rally.Company

/-!
# Cells on their way

The value of a cell is made, followed to, and published.  From the first of these steps on it is
settled what the cell will hold.  So the cells of a list form a trail: each holds its element and
the next cell, or is about to.
-/

namespace ByNeed

variable {ρ : Type} {store after : Store}

/-- The elements of a list as far as it is evaluated, and the thunk where they end. -/
inductive Store.Cells (store : Store) : Thunk → List Thunk → Thunk → Prop
  | here (list : Thunk) : Cells store list [] list
  | cons {list head tail last : Thunk} {elements : List Thunk}
      (evaluated : store.slot? list = some (.evaluated (.list (.cons head tail))))
      (rest : Cells store tail elements last) :
      Cells store list (head :: elements) last

namespace Store.Cells

variable {list last : Thunk} {elements : List Thunk}

theorem mono (cells : store.Cells list elements last) (keeps : store.Remembers after) :
    after.Cells list elements last := by
  induction cells with
  | here list => exact .here list
  | cons evaluated rest ih => exact .cons (keeps _ _ evaluated) ih

theorem snoc (cells : store.Cells list elements last)
    (evaluated : store.slot? last = some (.evaluated (.list (.cons head tail)))) :
    store.Cells list (elements ++ [head]) tail := by
  induction cells with
  | here list => exact .cons evaluated (.here tail)
  | cons found rest ih => exact .cons found (ih evaluated)

end Store.Cells

/-! ## Threads that deliver -/

/-- The thread will publish a value for the thunk it has claimed last. -/
inductive Thread.Delivering (store : Store) (thunk : Thunk) (value : Value) : Thread ρ → Prop
  | closing (channel : Nat) (chain : List Link) (stack : Stack ρ) :
      Delivering store thunk value
        (.driving (.act (.abandon channel) fun _ => newValue value) (⟨thunk, none⟩ :: chain) stack)
  | making (chain : List Link) (stack : Stack ρ) :
      Delivering store thunk value (.driving (newValue value) (⟨thunk, none⟩ :: chain) stack)
  | made {holder : Thunk} (chain : List Link) (stack : Stack ρ)
      (evaluated : store.slot? holder = some (.evaluated value)) :
      Delivering store thunk value (.driving (.done holder) (⟨thunk, none⟩ :: chain) stack)
  | settling (chain : List Link) (stack : Stack ρ) :
      Delivering store thunk value (.settling value (⟨thunk, none⟩ :: chain) stack)

namespace Thread.Delivering

variable {self : Nat} {thread next : Thread ρ} {thunk : Thunk} {value other : Value}

section

variable (delivering : thread.Delivering store thunk value)

include delivering

theorem mono (keeps : store.Remembers after) : thread.Delivering after thunk value := by
  cases delivering with
  | closing channel chain stack => exact .closing channel chain stack
  | making chain stack => exact .making chain stack
  | made chain stack evaluated => exact .made chain stack (keeps _ _ evaluated)
  | settling chain stack => exact .settling chain stack

theorem mem_claims : thunk ∈ thread.claims := by
  cases delivering <;> exact List.mem_cons_self

theorem of_moved (owns : thread.Owns self store)
    (moved : thread.step self store = (.moved next, after)) :
    next.Delivering after thunk value ∨ after.slot? thunk = some (.evaluated value) := by
  have marked := (owns.mem_iff thunk).mp delivering.mem_claims
  cases delivering with
  | closing channel chain stack =>
    cases moved
    exact .inl (.making chain stack)
  | making chain stack =>
    cases moved
    exact .inl (.made chain stack (store.slot?_allocated _))
  | made chain stack evaluated =>
    rw [(Asks.follow _ _ stack).step_eq,
      Store.claim_of_evaluated (Store.slot_eq_of_slot? evaluated)] at moved
    cases moved
    exact .inl (.settling chain stack)
  | settling chain stack =>
    cases moved
    right
    rw [Store.publish, Value.through_none]
    exact Store.slot?_setSlot_self marked _

theorem unique (delivers : thread.Delivering store thunk other) : value = other := by
  cases delivering with
  | closing channel chain stack =>
    generalize thread_eq : Thread.driving _ _ stack = thread at delivers
    cases delivers with
    | closing =>
      simp only [driving.injEq, Code.act.injEq] at thread_eq
      obtain ⟨⟨-, following_eq⟩, -⟩ := thread_eq
      have same : newValue value = newValue other := congrFun (eq_of_heq following_eq) ()
      cases same
      rfl
    | _ => cases thread_eq
  | made chain stack evaluated =>
    cases delivers with
    | made chain stack found =>
      rw [evaluated] at found
      cases found
      rfl
  | _ =>
    cases delivers
    rfl

end

end Thread.Delivering

namespace Service

variable {service : Service} {realm : Realm} {thunk : Thunk} {value other : Value}

/-- A thunk holds a value, or a thread will publish it. -/
def Delivers (service : Service) (thunk : Thunk) (value : Value) : Prop :=
  service.store.slot? thunk = some (.evaluated value) ∨
    ∃ number task, service.tasks number = some task ∧
      task.thread.Delivering service.store thunk value

theorem SoundIn.owns (soundIn : service.SoundIn realm)
    (present : service.tasks number = some ⟨request, thread⟩) : thread.Owns number service.store :=
  soundIn.owned.owns number ⟨thread⟩ (by simp [pool, present])

section

variable (delivers : service.Delivers thunk value) (soundIn : service.SoundIn realm)

include delivers soundIn

theorem Delivers.eq_of_evaluated (evaluated : service.store.slot? thunk = some (.evaluated found)) :
    found = value := by
  rcases delivers with held | ⟨number, ⟨request, thread⟩, present, delivering⟩
  · rw [held] at evaluated
    cases evaluated
    rfl
  · have marked := ((soundIn.owns present).mem_iff thunk).mp delivering.mem_claims
    rw [marked] at evaluated
    cases evaluated

theorem Delivers.delivering (present : service.tasks number = some task)
    (claimed : thunk ∈ task.thread.claims) : task.thread.Delivering service.store thunk value := by
  have marked := ((soundIn.owns present).mem_iff thunk).mp claimed
  rcases delivers with held | ⟨owner, delivery, found, delivering⟩
  · rw [marked] at held
    cases held
  · have owned := ((soundIn.owns found).mem_iff thunk).mp delivering.mem_claims
    rw [marked] at owned
    cases owned
    rw [present] at found
    cases found
    exact delivering

theorem Delivers.unique (delivered : service.Delivers thunk other) : value = other := by
  rcases delivers with held | ⟨number, task, present, delivering⟩
  · exact delivered.eq_of_evaluated soundIn held
  · exact delivering.unique (delivered.delivering soundIn present delivering.mem_claims)

theorem Delivers.slot?_ne_suspended (computation : Suspension) :
    service.store.slot? thunk ≠ some (.suspended computation) := by
  intro suspended
  rcases delivers with held | ⟨number, task, present, delivering⟩
  · rw [held] at suspended
    cases suspended
  · have marked := ((soundIn.owns present).mem_iff thunk).mp delivering.mem_claims
    rw [marked] at suspended
    cases suspended

/-- Whatever happens, a value on its way stays so until it has arrived. -/
theorem Delivers.shift (shift : Shift) : (service.shift shift).Delivers thunk value := by
  have keeps : ∀ thunk value, service.store.slot? thunk = some (.evaluated value) →
      (service.shift shift).store.slot? thunk = some (.evaluated value) :=
    fun _ _ => soundIn.keeps shift
  have outcome := service.outcome_shift shift
  generalize service.shift shift = later at keeps outcome ⊢
  rcases delivers with held | ⟨number, ⟨request, thread⟩, present, delivering⟩
  · exact .inl (keeps _ _ held)
  have still := delivering.mono keeps
  cases outcome with
  | idle => exact .inr ⟨number, _, present, delivering⟩
  | made => exact .inr ⟨number, _, present, still⟩
  | @moved other _ _ next after found moved =>
    by_cases same : number = other
    · subst same
      rw [present] at found
      cases found
      rcases delivering.of_moved (soundIn.owns present) moved with delivering | evaluated
      · exact .inr ⟨number, _, tasks_setTask_self _ _ _, delivering⟩
      · exact .inl evaluated
    · exact .inr ⟨number, _, (tasks_setTask_of_ne _ same _).trans present, still⟩
  | @finished other _ _ found =>
    have ne : number ≠ other := by
      rintro rfl
      rw [present] at found
      cases found
      cases delivering
    exact .inr ⟨number, _, (tasks_setTask_of_ne _ ne _).trans present, still⟩
  | @started other _ _ free =>
    have ne : number ≠ other := by
      rintro rfl
      simp [present] at free
    exact .inr ⟨number, _, (tasks_setTask_of_ne _ ne _).trans present, still⟩
  | @adopted _ other _ _ _ free =>
    have ne : number ≠ other := by
      rintro rfl
      simp [present] at free
    exact .inr ⟨number, _, (tasks_setTask_of_ne _ ne _).trans present, still⟩

end

/-- The cells of a list that is being made. -/
inductive Trail (service : Service) : Thunk → List Thunk → Thunk → Prop
  | here (list : Thunk) : Trail service list [] list
  | cons {list head tail last : Thunk} {elements : List Thunk}
      (delivers : service.Delivers list (.list (.cons head tail)))
      (rest : Trail service tail elements last) :
      Trail service list (head :: elements) last

namespace Trail

variable {list last : Thunk} {elements : List Thunk}

theorem mono {later : Service} (trail : service.Trail list elements last)
    (keeps : ∀ thunk value, service.Delivers thunk value → later.Delivers thunk value) :
    later.Trail list elements last := by
  induction trail with
  | here list => exact .here list
  | cons delivers rest ih => exact .cons (keeps _ _ delivers) ih

theorem snoc (trail : service.Trail list elements last)
    (delivers : service.Delivers last (.list (.cons head tail))) :
    service.Trail list (elements ++ [head]) tail := by
  induction trail with
  | here list => exact .cons delivers (.here tail)
  | cons found rest ih => exact .cons found (ih delivers)

theorem of_cells (trail : service.Trail list elements last) (soundIn : service.SoundIn realm)
    (cells : service.store.Cells list found end_) (unfinished : ∀ head tail,
      service.store.slot? last ≠ some (.evaluated (.list (.cons head tail)))) :
    ∃ rest, elements = found ++ rest ∧ service.Trail end_ rest last := by
  induction cells generalizing elements with
  | here list => exact ⟨elements, rfl, trail⟩
  | cons evaluated cells ih =>
    cases trail with
    | here => exact absurd evaluated (unfinished _ _)
    | cons delivers trail =>
      cases delivers.eq_of_evaluated soundIn evaluated
      obtain ⟨rest, rfl, further⟩ := ih trail
      exact ⟨rest, rfl, further⟩

/-- A list ends in one error at most. -/
theorem unique_error (trail : service.Trail list elements last)
    (soundIn : service.SoundIn realm) (trailToo : service.Trail list found end_)
    (delivers : service.Delivers end_ (.error error))
    (unfinished : ∀ head tail, ¬service.Delivers last (.list (.cons head tail))) : last = end_ := by
  induction trail generalizing found with
  | here list =>
    cases trailToo with
    | here => rfl
    | cons first rest => exact absurd first (unfinished _ _)
  | cons first rest ih =>
    cases trailToo with
    | here => cases delivers.unique soundIn first
    | cons firstToo restToo =>
      cases first.unique soundIn firstToo
      exact ih restToo unfinished

end Trail
end Service
end ByNeed
