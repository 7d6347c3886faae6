import BankedRing.Polynomial.Arithmetic
import BankedRing.Proofs.Host.Towers

/-! Offload is invisible. Whatever state its controller is in, an attached polynomial gives
the answer that it gives unattached: a batch that the controller answers has the host's
result, and every other batch is left to the host. -/
namespace BankedRing.TowerPolynomial
variable {settings : Settings} {family : Family} {x y : TowerPolynomial}

theorem combineTowers_eq_ok {a b : Tower} (supported : Modulus.isSupported a.modulus = true)
    (length : b.values.length = a.values.length) (reducedFirst : ∀ u ∈ a.values, u < a.modulus)
    (reducedSecond : ∀ v ∈ b.values, v < a.modulus) :
    combineTowers family a b = .ok (Tower.combine family a b) := by
  have computed : (Operation.combine family a.modulus (family.constant a.modulus)).kernel
      a.values b.values = _ :=
    Operation.kernel_combine supported length reducedFirst reducedSecond
  cases family with
  | mul =>
    simp only [combineTowers, Modulus.barrettConstant_eq_ok supported, ok_bind]
    exact (congrArg (· >>= _) computed).trans rfl
  | _ => exact (congrArg (· >>= fun values => Except.ok { a with values }) computed).trans rfl

theorem onHost_eq_ok {length : Nat} (conform : Tower.Conform x.towers y.towers length)
    (supported : ∀ tower ∈ x.towers, Modulus.isSupported tower.modulus = true)
    (reducedFirst : ∀ tower ∈ x.towers, tower.Reduced)
    (reducedSecond : ∀ tower ∈ y.towers, tower.Reduced) :
    onHost family x y = .ok { x with towers := List.zipWith (Tower.combine family) x.towers y.towers } := by
  have each : ∀ pair ∈ x.towers.zip y.towers,
      (liftM (combineTowers family pair.1 pair.2) : Except Error Tower) =
        .ok (Tower.combine family pair.1 pair.2) := by
    intro pair member
    obtain ⟨t, found⟩ := List.mem_iff_getElem?.mp member
    obtain ⟨first, second⟩ := List.getElem?_zip_eq_some.mp found
    have inFirst := List.mem_of_getElem? first
    have inSecond := List.mem_of_getElem? second
    have same := conform.modulus_eq first second
    rw [combineTowers_eq_ok (supported _ inFirst)
      ((conform.second _ inSecond).trans (conform.first _ inFirst).symm) (reducedFirst _ inFirst)
      fun v hv => same ▸ reducedSecond _ inSecond v hv]
    rfl
  rw [onHost, mapM_eq_ok each, ok_bind]
  rw [List.zip_eq_zipWith, List.map_zipWith]
  rfl

theorem onHost_attach (family : Family) (x y : TowerPolynomial) (offload : Option Offload) :
    onHost family { x with offload } y = (onHost family x y).map fun z => { z with offload } := by
  have ends : ∀ combined : Except Error (List Tower),
    (do return { x with towers := ← combined, offload }) =
      (do return { x with towers := ← combined }).map fun z : TowerPolynomial =>
        { z with offload } := by
    intro combined
    cases combined with
    | ok towers => rfl
    | error e => rfl
  exact ends _

/-- The checks come first, wherever the towers are combined. -/
theorem answer_combine (family : Family) (x y : TowerPolynomial) (registry : Registry) :
    answer (combine family x y registry) = (do
      checkFormats family x y
      checkOperand x y
      match x.offload with
      | none => onHost family x y
      | some offload => answer (offloaded family x y offload registry)) := by
  unfold combine
  cases checkFormats family x y with
  | error e => rfl
  | ok _ =>
    cases checkOperand x y with
    | error e => rfl
    | ok _ =>
      cases x.offload with
      | none =>
        simp only [run_lift_ok, ok_bind]
        cases onHost family x y <;> rfl
      | some offload => rfl

section Attached
variable (accepted : settings.Accepted) (recorded : settings.shape.Recorded) {c : Controller}
  {poisoned : Bool} {registry : Registry} {offload : Offload}
  (found : registry[offload.handle]? = some ⟨c, poisoned⟩)
  (reachable : Controller.Reachable settings c)
  (reducedFirst : ∀ tower ∈ x.towers, tower.Reduced)
  (reducedSecond : ∀ tower ∈ y.towers, tower.Reduced)
include accepted recorded found reachable reducedFirst reducedSecond

/-- A controller either answers as the host does or returns an error. -/
theorem onPool_cases (family : Family) :
    (∃ towers left, onPool family x y offload registry = .ok towers left ∧
      onHost family x y = .ok { x with towers }) ∨
    ∃ e left, onPool family x y offload registry = .error e left ∧ e.Returned := by
  obtain ⟨count, sound⟩ := Controller.sound_of_reachable accepted recorded reachable
  cases poisoned with
  | true => exact .inr ⟨.poisoned, registry, by simp only [onPool, Registry.locked, found], rfl⟩
  | false =>
    let split := offload.split.getD
      (Partition.defaultSplit c.units x.towers.length x.parameters.ringDimension)
    cases ran : Controller.runTowers x.towers y.towers (.tower family) split c with
    | ok towers after =>
      refine .inl ⟨towers, registry.set offload.handle ⟨after, false⟩, ?_, ?_⟩
      · simp only [onPool, Registry.locked, Registry.direct, found, run_get]
        rw [ran]
        rfl
      · obtain ⟨length, takes⟩ := Controller.takes_of_runTowers accepted sound ran
        rw [Controller.combined_of_runTowers accepted sound recorded reducedFirst reducedSecond ran]
        exact onHost_eq_ok takes.conform takes.supported reducedFirst reducedSecond
    | error e after =>
      have returned := ((Controller.runTowers_keeps accepted recorded _ _ _ _).of_error ran sound).2
      refine .inr ⟨e, registry.set offload.handle ⟨after, false || e.isTrap⟩, ?_, returned⟩
      simp only [onPool, Registry.locked, Registry.direct, found, run_get]
      rw [ran]

theorem answer_offloaded : answer (offloaded family x y offload registry) = onHost family x y := by
  rcases onPool_cases accepted recorded found reachable reducedFirst reducedSecond family with
    ⟨towers, left, ran, same⟩ | ⟨e, left, ran, returned⟩
  · simp only [offloaded, ran, same]
    rfl
  · cases e with
    | trapped trap => cases returned
    | _ =>
      simp only [offloaded, ran]
      cases onHost family x y <;> rfl

end Attached

/-- A polynomial whose controller, where it has one, can record its tasklets. -/
def Served (x : TowerPolynomial) (registry : Registry) : Prop :=
  ∀ offload, x.offload = some offload → ∃ (settings : Settings) (c : Controller) (poisoned : Bool),
    settings.Accepted ∧ settings.shape.Recorded ∧ registry[offload.handle]? = some ⟨c, poisoned⟩ ∧
      Controller.Reachable settings c

/-- Whatever the controller does, the answer is the host's. -/
theorem answer_served {registry : Registry} (served : x.Served registry) (family : Family)
    (reducedFirst : ∀ tower ∈ x.towers, tower.Reduced)
    (reducedSecond : ∀ tower ∈ y.towers, tower.Reduced) :
    answer (combine family x y registry) = (do
      checkFormats family x y
      checkOperand x y
      onHost family x y) := by
  rw [answer_combine]
  cases attached : x.offload with
  | none => rfl
  | some offload =>
    obtain ⟨settings, c, poisoned, accepted, recorded, found, reachable⟩ := served offload attached
    dsimp only
    rw [answer_offloaded accepted recorded found reachable reducedFirst reducedSecond]

/-- An attached polynomial gives the answer that it gives unattached, whatever state its
controller is in, and keeps its attachment. -/
theorem combine_attached (accepted : settings.Accepted) (recorded : settings.shape.Recorded)
    {c : Controller} {poisoned : Bool} {registry : Registry} {offload : Offload}
    (found : registry[offload.handle]? = some ⟨c, poisoned⟩)
    (reachable : Controller.Reachable settings c) (reducedFirst : ∀ tower ∈ x.towers, tower.Reduced)
    (reducedSecond : ∀ tower ∈ y.towers, tower.Reduced) (family : Family) :
    answer (combine family { x with offload := some offload } y registry) =
      (answer (combine family { x with offload := none } y registry)).map fun z =>
        { z with offload := some offload } := by
  have attached : Served { x with offload := some offload } registry := by
    intro other same
    cases same
    exact ⟨settings, c, poisoned, accepted, recorded, found, reachable⟩
  have host := onHost_attach family { x with offload := none } y (some offload)
  have formats : checkFormats family { x with offload := some offload } y =
      checkFormats family { x with offload := none } y := rfl
  have operands : checkOperand { x with offload := some offload } y =
      checkOperand { x with offload := none } y := rfl
  rw [answer_served attached family reducedFirst reducedSecond,
    answer_served (x := { x with offload := none }) nofun family reducedFirst reducedSecond,
    formats, operands,
      host]
  cases checkFormats family { x with offload := none } y with
  | error e => rfl
  | ok _ =>
    cases checkOperand { x with offload := none } y with
    | error e => rfl
    | ok _ => rfl

/-- A trap is the one answer that a controller forces on its polynomials. -/
theorem offloaded_trapped {c : Controller} {registry : Registry} {offload : Offload}
    {split : Nat} {trap : Trap} (found : registry[offload.handle]? = some ⟨c, false⟩)
    (splits : offload.split = some split)
    (trapped : ∃ stopped, Controller.runTowers x.towers y.towers (.tower family) split c =
      .error (.trapped trap) stopped) :
    answer (offloaded family x y offload registry) = .error (.trapped trap) := by
  obtain ⟨stopped, trapped⟩ := trapped
  have ran : onPool family x y offload registry =
      .error (.trapped trap) (registry.set offload.handle ⟨stopped, true⟩) := by
    simp only [onPool, Registry.locked, Registry.direct, found, run_get, splits,
      Option.getD_some, trapped]
    rfl
  simp only [offloaded, ran]
  rfl

section Examples

/-- One tower of two evaluations. -/
def sample (values : List Word) : TowerPolynomial :=
  { parameters := ⟨2, [97], []⟩, towers := [⟨97, values⟩], format := .evaluation, offload := none }

theorem combine_attached_standard :
    ∃ c, Controller.Reachable {} c ∧
      answer (combine .add { sample [1, 2] with offload := some ⟨0, some 2⟩ } (sample [96, 5])
        [⟨c, false⟩]) =
        .ok { sample [0, 7] with offload := some ⟨0, some 2⟩ } := by
  obtain ⟨c, started, _⟩ := Controller.standard_starts (fun _ => .error .notFound) []
  refine ⟨c, .start started, ?_⟩
  exact (combine_attached (x := sample [1, 2]) (y := sample [96, 5]) Controller.standard_accepted
    Controller.standard_recorded (c := c) rfl
    (.start started) (by decide) (by decide) .add).trans rfl

/-- With more tasklets than the host can record the controller's trap shows. -/
theorem combine_crowded :
    ∃ c, Controller.crowded.Accepted ∧ Controller.Reachable Controller.crowded c ∧
      answer (combine .add (sample [1, 2]) (sample [96, 5]) [⟨c, false⟩]) = .ok (sample [0, 7]) ∧
      answer (combine .add { sample [1, 2] with offload := some ⟨0, some 1⟩ } (sample [96, 5])
        [⟨c, false⟩]) =
        .error (.trapped .oversized) := by
  obtain ⟨c, started, sound, _, memories⟩ :=
    Controller.crowded_starts (fun _ => .error .notFound) []
  have deals : c.Deals [⟨97, [1, 2]⟩] [⟨97, [96, 5]⟩] 2 1 :=
    Controller.deals_of_blank sound memories ⟨by decide, rfl, by decide, by decide, by decide⟩
      (by decide) (by decide) (by decide) (by decide)
  refine ⟨c, Controller.crowded_accepted, .start started, rfl, ?_⟩
  rw [answer_combine]
  exact offloaded_trapped (x := { sample [1, 2] with offload := some ⟨0, some 1⟩ }) rfl rfl
    (Controller.runTowers_unrecorded Controller.crowded_accepted sound
      Controller.crowded_unrecorded deals)

end Examples
end BankedRing.TowerPolynomial
