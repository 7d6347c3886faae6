import BankedRing.Word.Checked

/-! Sequences of steps with outcomes: what a bind gives on each outcome of its first
step, and what a successful sequence says about its steps. A step `Keeps` a property
of the state when the property holds after it too, whatever the outcome, and every
failure is of an admitted kind. -/
namespace BankedRing

section Except
variable {ε α β : Type}

@[simp] theorem ok_bind (a : α) (f : α → Except ε β) : (Except.ok a >>= f) = f a := rfl

@[simp] theorem error_bind (e : ε) (f : α → Except ε β) : (Except.error e >>= f) = .error e := rfl

theorem bind_eq_ok {x : Except ε α} {f : α → Except ε β} {b : β} :
    (x >>= f) = .ok b ↔ ∃ a, x = .ok a ∧ f a = .ok b := by
  cases x with
  | ok a => simp
  | error e => simp

theorem exists_ok_of_toOption {x : Except ε α} (accepted : x.toOption.isSome = true) :
    ∃ a, x = .ok a := by
  cases x with
  | ok a => exact ⟨a, rfl⟩
  | error e => cases accepted

theorem exists_ok_of_map_toOption {x : Except ε α} {f : α → β} {b : β}
    (accepted : x.toOption.map f = some b) :
    ∃ a, x = .ok a ∧ f a = b := by
  cases x with
  | ok a => exact ⟨a, rfl, Option.some.inj accepted⟩
  | error e => cases accepted

theorem bind_eq_error {x : Except ε α} {f : α → Except ε β} {e : ε} :
    (x >>= f) = .error e ↔ x = .error e ∨ ∃ a, x = .ok a ∧ f a = .error e := by
  cases x with
  | ok a => simp
  | error e => simp

/-- What comes after a refusal is reached only where nothing is refused. -/
theorem guard_eq_ok {refused : Prop} [Decidable refused] {e : ε} {f : PUnit → Except ε β}
    {rest : Except ε β} {b : β} :
    (if refused then (throw e : Except ε PUnit) >>= f else rest) = .ok b ↔ ¬ refused ∧
    rest = .ok b := by
  by_cases h : refused
  · rw [if_pos h]
    exact ⟨nofun, fun reached => absurd h reached.1⟩
  · rw [if_neg h]
    exact ⟨fun reached => ⟨h, reached⟩, fun reached => reached.2⟩

theorem refusal_eq_ok {refused : Prop} [Decidable refused] {stop : Except ε PUnit}
    {f : PUnit → Except ε β} {rest : Except ε β} {b : β} (stops : ∀ a, stop ≠ .ok a) :
    (if refused then stop >>= f else rest) = .ok b ↔ ¬ refused ∧ rest = .ok b := by
  cases stop with
  | ok a => exact absurd rfl (stops a)
  | error e => exact guard_eq_ok

/-- An outcome that fails in admitted ways only. -/
def Admits (E : ε → Prop) (outcome : Except ε α) : Prop := ∀ e, outcome = .error e → E e

namespace Admits
variable {E : ε → Prop}

theorem ok (a : α) : Admits E (.ok a) := nofun

theorem error {e : ε} (admitted : E e) : Admits E (.error e : Except ε α) :=
  fun _ same => by cases same; exact admitted

theorem mono {E' : ε → Prop} {outcome : Except ε α} (h : Admits E outcome)
    (wider : ∀ e, E e → E' e) :
    Admits E' outcome :=
  fun e failed => wider e (h e failed)

theorem bind {outcome : Except ε α} {next : α → Except ε β} (h : Admits E outcome)
    (hn : ∀ a, outcome = .ok a → Admits E (next a)) : Admits E (outcome >>= next) := by
  intro e failed
  rcases bind_eq_error.mp failed with failed | ⟨a, done, failed⟩
  · exact h e failed
  · exact hn a done e failed

theorem guard {refused : Prop} [Decidable refused] {e : ε} {f : PUnit → Except ε β}
    {rest : Except ε β} (admitted : E e) (h : ¬ refused → Admits E rest) :
    Admits E (if refused then (throw e : Except ε PUnit) >>= f else rest) := by
  split
  · exact .error admitted
  · exact h ‹_›

theorem refusal {refused : Prop} [Decidable refused] {stop : Except ε PUnit}
    {f : PUnit → Except ε β} {rest : Except ε β} (stops : ∀ a, stop ≠ .ok a)
    (admitted : Admits E stop) (h : ¬ refused → Admits E rest) :
    Admits E (if refused then stop >>= f else rest) := by
  split
  · exact admitted.bind fun a went => absurd went (stops a)
  · exact h ‹_›

end Admits

theorem mapM_eq_ok {f : α → Except ε β} {g : α → β} {values : List α}
    (each : ∀ a ∈ values, f a = .ok (g a)) : values.mapM f = .ok (values.map g) := by
  induction values with
  | nil => rfl
  | cons a rest ih =>
    rw [List.mapM_cons, each a (by simp), ok_bind, ih fun b member => each b (by simp [member]),
      ok_bind]
    rfl

theorem mapM_eq_ok_iff {f : α → Except ε β} {values : List α} {results : List β} :
    values.mapM f = .ok results ↔
      results.length = values.length ∧
        ∀ (i : Nat) (a : α) (b : β), values[i]? = some a → results[i]? = some b → f a = .ok b := by
  induction values generalizing results with
  | nil =>
    constructor
    · intro h
      cases h
      exact ⟨rfl, nofun⟩
    · intro h
      rw [List.eq_nil_of_length_eq_zero h.1]
      rfl
  | cons a rest ih =>
    rw [List.mapM_cons]
    constructor
    · intro h
      obtain ⟨b, first, h⟩ := bind_eq_ok.mp h
      obtain ⟨later, tail, h⟩ := bind_eq_ok.mp h
      cases h
      obtain ⟨length, each⟩ := ih.mp tail
      refine ⟨by rw [List.length_cons, length, List.length_cons], ?_⟩
      intro i c d found result
      cases i with
      | zero =>
        cases found
        cases result
        exact first
      | succ i => exact each i c d found result
    · rintro ⟨length, each⟩
      cases results with
      | nil => cases length
      | cons b later =>
        rw [each 0 a b rfl rfl, ok_bind, ih.mpr ⟨Nat.succ.inj length, fun i => each (i + 1)⟩]
        rfl

theorem exists_mapM_eq_ok {f : α → Except ε β} {values : List α}
    (each : ∀ a ∈ values, ∃ b, f a = .ok b) :
    ∃ results, values.mapM f = .ok results := by
  induction values with
  | nil => exact ⟨[], rfl⟩
  | cons a rest ih =>
    obtain ⟨b, first⟩ := each a (by simp)
    obtain ⟨later, tail⟩ := ih fun c member => each c (by simp [member])
    exact ⟨b :: later, by rw [List.mapM_cons, first, ok_bind, tail]; rfl⟩

/-- An outcome that goes through and answers a question. -/
def Decides (outcome : Except ε Bool) (question : Prop) : Prop :=
  ∃ answer, outcome = .ok answer ∧ (answer = true ↔ question)

namespace Decides
variable {outcome rest : Except ε Bool} {question other : Prop}

theorem ok {answer : Bool} (h : answer = true ↔ question) :
    Decides (.ok answer : Except ε Bool) question :=
  ⟨answer, rfl, h⟩

theorem congr (h : Decides outcome question) (same : question ↔ other) : Decides outcome other := by
  obtain ⟨answer, done, iff⟩ := h
  exact ⟨answer, done, iff.trans same⟩

theorem orElse [Decidable question] (h : Decides rest other) :
    Decides (if question then pure true else rest) (question ∨ other) := by
  by_cases settled : question
  · rw [if_pos settled]
    exact .ok (by simp [settled])
  · rw [if_neg settled]
    exact h.congr (by simp [settled])

theorem allM {f : α → Except ε Bool} {P : α → Prop} {values : List α}
    (each : ∀ a ∈ values, Decides (f a) (P a)) :
    Decides (values.allM f) (∀ a ∈ values, P a) := by
  induction values with
  | nil => exact .ok (by simp)
  | cons a rest ih =>
    obtain ⟨answer, done, iff⟩ := each a (by simp)
    rw [List.allM_cons, done, ok_bind]
    cases answer with
    | true =>
      have holds : P a := iff.mp rfl
      exact (ih fun b member => each b (by simp [member])).congr (by simp [holds])
    | false =>
      have fails : ¬ P a := fun holds => absurd (iff.mpr holds) (by decide)
      exact .ok (by simp [fails])

end Decides

theorem of_forM_eq_ok {f : α → Except ε Unit} {values : List α} (h : values.forM f = .ok ()) :
    ∀ a ∈ values, f a = .ok () := by
  induction values with
  | nil => nofun
  | cons a rest ih =>
    obtain ⟨_, first, later⟩ := bind_eq_ok.mp h
    exact List.forall_mem_cons.mpr ⟨first, ih later⟩

theorem exists_of_mapM_error {f : α → Except ε β} {values : List α} {e : ε}
    (h : values.mapM f = .error e) : ∃ a ∈ values, f a = .error e := by
  induction values with
  | nil => cases h
  | cons a rest ih =>
    rw [List.mapM_cons] at h
    rcases bind_eq_error.mp h with failed | ⟨b, _, h⟩
    · exact ⟨a, by simp, failed⟩
    rcases bind_eq_error.mp h with failed | ⟨_, _, h⟩
    · obtain ⟨c, member, failed⟩ := ih failed
      exact ⟨c, by simp [member], failed⟩
    · cases h

end Except

section Lift
variable {ε σ α : Type}

@[simp] theorem lift_checked_ok [HasTrap ε] (a : α) :
    (liftM (Except.ok a : Checked α) : Except ε α) = .ok a := rfl

theorem lift_eq_ok [HasTrap ε] {outcome : Checked α} {a : α}
    (h : (liftM outcome : Except ε α) = .ok a) :
    outcome = .ok a := by
  cases outcome with
  | ok b =>
    cases h
    rfl
  | error trap => cases h

end Lift

section State
variable {ε σ α β : Type} {x : EStateM ε σ α} {f : α → EStateM ε σ β} {s s' : σ}

theorem run_bind_ok {a : α} (h : x s = .ok a s') : (x >>= f) s = f a s' := by
  show EStateM.bind x f s = f a s'
  rw [EStateM.bind, h]

theorem run_bind_error {e : ε} (h : x s = .error e s') : (x >>= f) s = .error e s' := by
  show EStateM.bind x f s = .error e s'
  rw [EStateM.bind, h]

theorem run_bind_eq_ok {b : β} :
    (x >>= f) s = .ok b s' ↔ ∃ a middle, x s = .ok a middle ∧ f a middle = .ok b s' := by
  cases outcome : x s with
  | ok a middle =>
    rw [run_bind_ok outcome]
    constructor
    · intro h
      exact ⟨a, middle, rfl, h⟩
    · rintro ⟨_, _, same, h⟩
      cases same
      exact h
  | error e middle =>
    rw [run_bind_error outcome]
    exact ⟨nofun, nofun⟩

@[simp] theorem run_get (f : σ → EStateM ε σ β) : (get >>= f) s = f s s := rfl

@[simp] theorem run_pure_bind (a : α) : (pure a >>= f) s = f a s := rfl

@[simp] theorem run_throw_bind (e : ε) : ((throw e : EStateM ε σ α) >>= f) s = .error e s := rfl

theorem run_lift {outcome : Except ε α} {a : α} (h : outcome = .ok a) :
    (liftM outcome : EStateM ε σ α) s = .ok a s := by
  rw [h]
  rfl

@[simp] theorem run_lift_ok (a : α) :
    ((liftM (Except.ok a : Except ε α) : EStateM ε σ α) >>= f) s = f a s := rfl

@[simp] theorem run_lift_error (e : ε) :
    ((liftM (Except.error e : Except ε α) : EStateM ε σ α) >>= f) s = .error e s := rfl

@[simp] theorem run_lift_checked_ok [HasTrap ε] (a : α) :
    ((liftM (Except.ok a : Checked α) : EStateM ε σ α) >>= f) s = f a s := rfl

@[simp] theorem run_lift_checked_error [HasTrap ε] (trap : Trap) :
    ((liftM (Except.error trap : Checked α) : EStateM ε σ α) >>= f) s =
      .error (HasTrap.ofTrap trap) s := rfl

theorem run_forM_cons {step : α → EStateM ε σ PUnit} {a : α} {rest : List α}
    (h : step a s = .ok ⟨⟩ s') :
    (a :: rest).forM step s = rest.forM step s' :=
  run_bind_ok h

/-- The state after a step, whatever its outcome. -/
def after (outcome : EStateM.Result ε σ α) : σ :=
  match outcome with
  | .ok _ s | .error _ s => s

/-- The answer of a step, without the state that it leaves. -/
def answer (outcome : EStateM.Result ε σ α) : Except ε α :=
  match outcome with
  | .ok a _ => .ok a
  | .error e _ => .error e

theorem of_answer {outcome : EStateM.Result ε σ α} {a : α} (h : answer outcome = .ok a) :
    ∃ s, outcome = .ok a s := by
  cases outcome with
  | ok b s =>
    cases h
    exact ⟨s, rfl⟩
  | error e s => cases h

theorem of_answer_error {outcome : EStateM.Result ε σ α} {e : ε} (h : answer outcome = .error e) :
    ∃ s, outcome = .error e s := by
  cases outcome with
  | ok a s => cases h
  | error _ s =>
    cases h
    exact ⟨s, rfl⟩

/-- What holds where the first step stops, and after the rest where it goes through. -/
theorem after_bind {P : σ → Prop} (stopped : ∀ e s', x s = .error e s' → P s')
    (went : ∀ a s', x s = .ok a s' → P (after (f a s'))) : P (after ((x >>= f) s)) := by
  cases outcome : x s with
  | ok a s' =>
    rw [run_bind_ok outcome]
    exact went a s' outcome
  | error e s' =>
    rw [run_bind_error outcome]
    exact stopped e s' outcome

theorem after_discard (b : β) : after ((x >>= fun _ => pure b) s) = after (x s) := by
  cases outcome : x s with
  | ok a s' =>
    rw [run_bind_ok outcome]
    rfl
  | error e s' =>
    rw [run_bind_error outcome]
    rfl

/-- The property holds after the step whenever it holds before, and the step fails in
admitted ways only. -/
def Keeps (P : σ → Prop) (E : ε → Prop) (step : EStateM ε σ α) : Prop :=
  ∀ s, P s → P (after (step s)) ∧ ∀ e s', step s = .error e s' → E e

namespace Keeps
variable {P : σ → Prop} {E : ε → Prop}

theorem of_ok {a : α} (h : Keeps P E x) (ran : x s = .ok a s') (hs : P s) : P s' := by
  have kept := (h s hs).1
  rwa [ran] at kept

theorem of_error {e : ε} (h : Keeps P E x) (ran : x s = .error e s') (hs : P s) : P s' ∧ E e := by
  obtain ⟨kept, admitted⟩ := h s hs
  rw [ran] at kept
  exact ⟨kept, admitted e s' ran⟩

theorem mono {E' : ε → Prop} (h : Keeps P E x) (wider : ∀ e, E e → E' e) : Keeps P E' x := by
  intro s hs
  obtain ⟨kept, admitted⟩ := h s hs
  exact ⟨kept, fun e s' failed => wider e (admitted e s' failed)⟩

theorem pure (a : α) : Keeps P E (Pure.pure a) := fun _ h => ⟨h, nofun⟩

theorem throw {e : ε} (admitted : E e) : Keeps P E (MonadExcept.throw e : EStateM ε σ α) :=
  fun _ h => ⟨h, fun _ _ same => by cases same; exact admitted⟩

theorem throw_bind {e : ε} (admitted : E e) :
    Keeps P E ((MonadExcept.throw e : EStateM ε σ α) >>= f) :=
  fun _ h => ⟨h, fun _ _ same => by cases same; exact admitted⟩

theorem bind (hx : Keeps P E x) (hf : ∀ a, Keeps P E (f a)) : Keeps P E (x >>= f) := by
  intro s hs
  obtain ⟨kept, admitted⟩ := hx s hs
  cases outcome : x s with
  | ok a middle =>
    rw [run_bind_ok outcome]
    rw [outcome] at kept
    exact hf a middle kept
  | error e middle =>
    rw [run_bind_error outcome]
    rw [outcome] at kept
    exact ⟨kept, fun _ _ same => by cases same; exact admitted e middle outcome⟩

theorem guard {refused : Prop} [Decidable refused] {e : ε} {rest : EStateM ε σ β}
    {f : PUnit → EStateM ε σ β} (admitted : E e) (h : ¬ refused → Keeps P E rest) :
    Keeps P E (if refused then (MonadExcept.throw e : EStateM ε σ PUnit) >>= f else rest) := by
  split
  · exact .throw_bind admitted
  · exact h ‹_›

theorem get {f : σ → EStateM ε σ β} (hf : ∀ s, P s → Keeps P E (f s)) :
    Keeps P E (MonadState.get >>= f) :=
  fun s hs => hf s hs s hs

theorem set {s : σ} (h : P s) : Keeps P E (MonadState.set s) := fun _ _ => ⟨h, nofun⟩

theorem change {g : σ → σ} (h : ∀ s, P s → P (g s)) :
    Keeps P E (modify g : EStateM ε σ PUnit) :=
  fun s hs => ⟨h s hs, nofun⟩

theorem lift_bind {outcome : Except ε α} (hf : ∀ a, outcome = .ok a → Keeps P E (f a))
    (h : ∀ e, outcome = .error e → E e) :
    Keeps P E ((liftM outcome : EStateM ε σ α) >>= f) := by
  cases outcome with
  | ok a => exact hf a rfl
  | error e => exact fun s hs => ⟨hs, fun _ _ same => by cases same; exact h e rfl⟩

theorem lift {outcome : Except ε α} (h : ∀ e, outcome = .error e → E e) :
    Keeps P E (liftM outcome : EStateM ε σ α) := by
  intro s hs
  cases outcome with
  | ok a => exact ⟨hs, nofun⟩
  | error e => exact ⟨hs, fun _ _ same => by cases same; exact h e rfl⟩

end Keeps
end State
end BankedRing
