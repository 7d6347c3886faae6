import BankedRing.Host.Registry
import BankedRing.Proofs.Host.Pool

/-! Steps behind a handle. A locked or direct step changes the controller that its handle
names as the step itself does, and dies with the lock when the step traps; a lock that has been
poisoned keeps everything. -/
namespace BankedRing.Registry
variable {handle : Handle} {registry : Registry} {α : Type} {step : Controller.Step α}

/-- The handle names a controller with a property. -/
def Holds (handle : Handle) (P : Controller → Prop) (registry : Registry) : Prop :=
  ∃ shared, registry[handle]? = some shared ∧ P shared.controller

/-- Whether a step has died on the way. -/
def trapped {σ : Type} (outcome : EStateM.Result Error σ α) : Bool :=
  match outcome with
  | .ok _ _ => false
  | .error e _ => e.isTrap

theorem trapped_discard {σ β : Type} {x : EStateM Error σ α} {s : σ} (b : β) :
    trapped ((x >>= fun _ => pure b) s) = trapped (x s) := by
  cases outcome : x s with
  | ok a s' =>
    rw [run_bind_ok outcome]
    rfl
  | error e s' =>
    rw [run_bind_error outcome]
    rfl

section Entry

theorem after_direct {shared : SharedController} (found : registry[handle]? = some shared) :
    after (direct handle step registry) = registry.set handle
      ⟨after (step shared.controller), shared.poisoned || trapped (step shared.controller)⟩ := by
  simp only [direct, found]
  cases step shared.controller <;> rfl

theorem direct_entry {shared : SharedController} (found : registry[handle]? = some shared) :
    (after (direct handle step registry))[handle]? =
      some ⟨after (step shared.controller),
        shared.poisoned || trapped (step shared.controller)⟩ := by
  rw [after_direct found]
  exact List.getElem?_set_self (List.getElem?_eq_some_iff.mp found).1

theorem locked_eq_direct {c : Controller} (found : registry[handle]? = some ⟨c, false⟩) :
    locked handle step registry = direct handle step registry := by
  simp only [locked, found]

theorem after_locked {c : Controller} (found : registry[handle]? = some ⟨c, false⟩) :
    after (locked handle step registry) =
      registry.set handle ⟨after (step c), trapped (step c)⟩ := by
  rw [locked_eq_direct found, after_direct found, Bool.false_or]

theorem locked_entry {c : Controller} (found : registry[handle]? = some ⟨c, false⟩) :
    (after (locked handle step registry))[handle]? = some ⟨after (step c), trapped (step c)⟩ := by
  rw [locked_eq_direct found, direct_entry found, Bool.false_or]

theorem locked_poisoned {c : Controller} (found : registry[handle]? = some ⟨c, true⟩) :
    locked handle step registry = .error .poisoned registry := by
  simp only [locked, found]

theorem direct_inv {value : α} {left : Registry}
    (h : direct handle step registry = .ok value left) :
    ∃ shared reached, registry[handle]? = some shared ∧ step shared.controller = .ok value reached ∧
      left = registry.set handle ⟨reached, shared.poisoned⟩ := by
  unfold direct at h
  cases found : registry[handle]? with
  | none =>
    rw [found] at h
    cases h
  | some shared =>
    simp only [found] at h
    cases outcome : step shared.controller with
    | error e reached =>
      rw [outcome] at h
      cases h
    | ok _ reached =>
      rw [outcome] at h
      cases h
      exact ⟨shared, reached, rfl, outcome, by rw [Bool.or_false]⟩

theorem locked_inv {value : α} {left : Registry}
    (h : locked handle step registry = .ok value left) :
    ∃ c reached, registry[handle]? = some ⟨c, false⟩ ∧ step c = .ok value reached ∧
      left = registry.set handle ⟨reached, false⟩ := by
  unfold locked at h
  split at h
  · cases h
  · rename_i unpoisoned
    obtain ⟨⟨c, poisoned⟩, reached, found, ran, rfl⟩ := direct_inv h
    cases poisoned with
    | true => exact absurd found (unpoisoned c)
    | false => exact ⟨c, reached, found, ran, rfl⟩

theorem locked_error_inv {e : Error} {left : Registry}
    (h : locked handle step registry = .error e left) :
    (∃ c reached, registry[handle]? = some ⟨c, false⟩ ∧ step c = .error e reached) ∨
      e = .poisoned ∨ e = .trapped .outOfRange := by
  cases found : registry[handle]? with
  | none =>
    simp only [locked, direct, found] at h
    cases h
    exact .inr (.inr rfl)
  | some shared =>
    obtain ⟨c, poisoned⟩ := shared
    cases poisoned with
    | true =>
      rw [locked_poisoned found] at h
      cases h
      exact .inr (.inl rfl)
    | false =>
      rw [locked_eq_direct found] at h
      simp only [direct, found] at h
      cases outcome : step c with
      | ok value reached =>
        rw [outcome] at h
        cases h
      | error refusal reached =>
        rw [outcome] at h
        cases h
        exact .inl ⟨c, reached, rfl, outcome⟩

theorem locked_missing (missing : registry[handle]? = none) :
    locked handle step registry = .error (.trapped .outOfRange) registry := by
  simp only [locked, direct, missing]

/-- A locked step changes nothing but what its handle names. -/
theorem locked_elsewhere {other : Handle} (different : other ≠ handle) :
    (after (locked handle step registry))[other]? = registry[other]? := by
  cases found : registry[handle]? with
  | none => rw [locked_missing found, after]
  | some shared =>
    obtain ⟨c, poisoned⟩ := shared
    cases poisoned with
    | true => rw [locked_poisoned found, after]
    | false =>
      rw [after_locked found]
      exact List.getElem?_set_ne different.symm

/-- What a step keeps of any controller, it keeps of the one behind a handle. -/
theorem Holds.locked {P : Controller → Prop} {E : Error → Prop} (h : Holds handle P registry)
    (keeps : Keeps P E step) : Holds handle P (after (locked handle step registry)) := by
  obtain ⟨⟨c, poisoned⟩, found, own⟩ := h
  cases poisoned with
  | true =>
    rw [locked_poisoned found]
    exact ⟨_, found, own⟩
  | false => exact ⟨_, locked_entry found, (keeps c own).1⟩

end Entry

theorem set_entry {shared : SharedController} (here : registry[handle]? = some shared) :
    registry.set handle shared = registry := by
  obtain ⟨known, own⟩ := List.getElem?_eq_some_iff.mp here
  rw [← own, List.set_getElem_self]

section Running
variable {c after : Controller} (found : registry[handle]? = some ⟨c, false⟩)
include found

theorem locked_ok {value : α} (ran : step c = .ok value after) :
    locked handle step registry = .ok value (registry.set handle ⟨after, false⟩) := by
  simp only [locked, direct, found, ran]
  rfl

theorem locked_error {e : Error} (ran : step c = .error e after) :
    locked handle step registry = .error e (registry.set handle ⟨after, e.isTrap⟩) := by
  simp only [locked, direct, found, ran]
  rfl

theorem getElem?_set_handle (shared : SharedController) :
    (registry.set handle shared)[handle]? = some shared :=
  List.getElem?_set_self (List.getElem?_eq_some_iff.mp found).1

end Running
end BankedRing.Registry
