import BankedRing.Proofs.Host.Tenure
import BankedRing.Proofs.Polynomial.Negacyclic

/-! Polynomials stay formed. A polynomial over accepted parameters has a reduced tower of full
length for every modulus; blank towers and towers that pass the check are such, and so is
what comes out of either transform, of the host's arithmetic and of a pool in any state that
its owner and its clients can bring it to. -/
namespace BankedRing

/-- Parameters that have been accepted. -/
def RingParameters.Accepted (parameters : RingParameters) : Prop :=
  ∃ n moduli, ofModuli n moduli = .ok parameters

namespace RingParameters
variable {parameters other : RingParameters}

theorem Accepted.transformable (accepted : parameters.Accepted) : parameters.Transformable := by
  obtain ⟨_, _, built⟩ := accepted
  exact transformable_of_ofModuli built

/-- Accepted parameters are known by their dimension and their moduli. -/
theorem Accepted.eq (accepted : parameters.Accepted) (acceptedOther : other.Accepted)
    (dimension : other.ringDimension = parameters.ringDimension)
    (moduli : other.moduli = parameters.moduli) :
    other = parameters := by
  obtain ⟨n, chain, built⟩ := accepted
  obtain ⟨m, others, builtOther⟩ := acceptedOther
  obtain ⟨rfl, rfl⟩ := fields_of_ofModuli built
  obtain ⟨rfl, rfl⟩ := fields_of_ofModuli builtOther
  rw [dimension, moduli, built] at builtOther
  cases builtOther
  rfl

theorem Transformable.supported (transformable : parameters.Transformable) {q : Word}
    (member : q ∈ parameters.moduli) : Modulus.isSupported q = true := by
  obtain ⟨t, found⟩ := List.mem_iff_getElem?.mp member
  have inside : t < parameters.tables.length :=
    transformable.count ▸ (List.getElem?_eq_some_iff.mp found).1
  exact (transformable.suits t q _ found (List.getElem?_eq_getElem inside)).supported

end RingParameters

namespace TowerPolynomial
variable {parameters : RingParameters} {x y z : TowerPolynomial} {format : Format} {family : Family}

/-- A polynomial over its own parameters, which have been accepted. -/
structure Formed (x : TowerPolynomial) : Prop where
  accepted : x.parameters.Accepted
  belongs : x.Over x.parameters

theorem Over.formed (belongs : x.Over parameters) (accepted : parameters.Accepted) : x.Formed := by
  obtain rfl := belongs.parameters_eq
  exact ⟨accepted, belongs⟩

section Making

theorem zero_formed (accepted : parameters.Accepted) (format : Format) :
    (zero parameters format).Formed := by
  refine ⟨accepted, rfl, ?_, fun tower member => ?_, fun tower member => ?_⟩
  · simp only [zero, List.map_map]
    exact List.map_id _
  · obtain ⟨q, _, rfl⟩ := List.mem_map.mp member
    exact List.length_replicate
  · obtain ⟨q, known, rfl⟩ := List.mem_map.mp member
    intro v inside
    rw [List.eq_of_mem_replicate inside, UInt64.lt_iff_toNat_lt]
    exact Modulus.pos (accepted.transformable.supported known)

theorem fits_of_checkTower {n : Nat} {q : Word} {tower : Tower}
    (h : checkTower n q tower = .ok ()) :
    tower.modulus = q ∧ tower.values.length = n ∧ tower.Reduced := by
  unfold checkTower at h
  split at h
  · cases h
  · rename_i shape
    obtain ⟨modulus, length⟩ := not_or.mp shape
    obtain rfl := not_not.mp modulus
    split at h
    · cases h
    · rename_i none
      refine ⟨rfl, not_not.mp length, fun v member => ?_⟩
      have small := List.find?_eq_none.mp none v member
      exact UInt64.not_le.mp (by simpa using small)

/-- Towers that are accepted are those of a polynomial over the parameters. -/
theorem formed_of_ofTowers (accepted : parameters.Accepted) {towers : List Tower}
    (h : ofTowers parameters towers format = .ok x) : x.Formed := by
  obtain ⟨count, h⟩ := guard_eq_ok.mp h
  obtain ⟨_, checked, h⟩ := bind_eq_ok.mp h
  cases h
  rw [not_not] at count
  have each : ∀ (t : Nat) (q : Word) (tower : Tower), parameters.moduli[t]? = some q →
    towers[t]? = some tower →
      tower.modulus = q ∧ tower.values.length = parameters.ringDimension ∧ tower.Reduced := by
    intro t q tower known found
    have paired : (parameters.moduli.zip towers)[t]? = some (q, tower) :=
      List.getElem?_zip_eq_some.mpr ⟨known, found⟩
    exact fits_of_checkTower (of_forM_eq_ok checked (q, tower) (List.mem_of_getElem? paired))
  have known : ∀ tower ∈ towers, ∃ (t : Nat) (q : Word), parameters.moduli[t]? = some q ∧
      towers[t]? = some tower := by
    intro tower member
    obtain ⟨t, found⟩ := List.mem_iff_getElem?.mp member
    have inside : t < parameters.moduli.length := count ▸ (List.getElem?_eq_some_iff.mp found).1
    exact ⟨t, _, List.getElem?_eq_getElem inside, found⟩
  refine ⟨accepted, rfl, ?_, fun tower member => ?_, fun tower member => ?_⟩
  · apply List.ext_getElem
    · rw [List.length_map, count]
    · intro t inside there
      rw [List.getElem_map]
      rw [List.length_map] at inside
      exact (each t _ _ (List.getElem?_eq_getElem there) (List.getElem?_eq_getElem inside)).1
  · obtain ⟨t, q, modulus, found⟩ := known tower member
    exact (each t q tower modulus found).2.1
  · obtain ⟨t, q, modulus, found⟩ := known tower member
    exact (each t q tower modulus found).2.2

theorem Formed.attach (formed : x.Formed) (offload : Option Offload) : Formed { x with offload } :=
  ⟨formed.accepted, rfl, formed.belongs.moduli, formed.belongs.length, formed.belongs.reduced⟩

end Making

section Switching

theorem switchFormat_formed (formed : x.Formed) : ∃ z, x.switchFormat = .ok z ∧ z.Formed := by
  obtain ⟨towers, switched, stays, _⟩ :=
    switchFormat_inPlace formed.accepted.transformable formed.belongs
  exact ⟨_, switched, stays.formed formed.accepted⟩

theorem setFormat_formed (formed : x.Formed) (format : Format) :
    ∃ z, x.setFormat format = .ok z ∧ z.Formed := by
  by_cases there : x.format = format
  · exact ⟨x, if_pos there, formed⟩
  · rw [setFormat, if_neg there]
    exact switchFormat_formed formed

end Switching

section Combining

theorem parameters_of_checkOperand (formedX : x.Formed) (formedY : y.Formed)
    (h : checkOperand x y = .ok ()) :
    y.parameters = x.parameters := by
  obtain ⟨same, _⟩ := guard_eq_ok.mp h
  obtain ⟨dimension, moduli⟩ := not_or.mp same
  exact formedX.accepted.eq formedY.accepted (not_not.mp dimension).symm (not_not.mp moduli).symm

/-- What a pool answers are the combined towers, whatever its controller has been through. -/
theorem towers_of_onPool {registry left : Registry} (attainable : registry.Attainable)
    {offload : Offload} {towers : List Tower} (reducedFirst : ∀ tower ∈ x.towers, tower.Reduced)
    (reducedSecond : ∀ tower ∈ y.towers, tower.Reduced)
    (ran : onPool family x y offload registry = .ok towers left) :
    towers = List.zipWith (Tower.combine family) x.towers y.towers := by
  obtain ⟨c, reached, found, ran, _⟩ := Registry.locked_inv ran
  obtain ⟨settings, count, accepted, sound⟩ := attainable.sound found
  rw [run_get] at ran
  by_cases recorded : settings.shape.Recorded
  · exact Controller.combined_of_runTowers accepted sound recorded reducedFirst reducedSecond ran
  · obtain ⟨length, deals⟩ := Controller.deals_of_runTowers accepted sound ran
    obtain ⟨stopped, trapped⟩ :
      ∃ stopped, Controller.runTowers x.towers y.towers (.tower family) _ c =
        .error (.trapped .oversized) stopped :=
          Controller.runTowers_unrecorded accepted sound recorded deals
    cases trapped.symm.trans ran

theorem offloaded_eq_ok {registry left : Registry} (attainable : registry.Attainable)
    {offload : Offload} (reducedFirst : ∀ tower ∈ x.towers, tower.Reduced)
    (reducedSecond : ∀ tower ∈ y.towers, tower.Reduced)
    (host : onHost family x y =
      .ok { x with towers := List.zipWith (Tower.combine family) x.towers y.towers })
    (ran : offloaded family x y offload registry = .ok z left) :
    z = { x with towers := List.zipWith (Tower.combine family) x.towers y.towers } := by
  cases outcome : onPool family x y offload registry with
  | ok towers reached =>
    rw [offloaded, outcome] at ran
    cases ran
    rw [towers_of_onPool attainable reducedFirst reducedSecond outcome]
  | error e reached =>
    rw [offloaded, outcome] at ran
    cases e with
    | trapped trap => cases ran
    | _ =>
      rw [host] at ran
      cases ran
      rfl

/-- What an operation ends in is formed, on the host as on the pool. -/
theorem formed_of_combine (formedX : x.Formed) (formedY : y.Formed) {registry left : Registry}
    (attainable : registry.Attainable) (ran : combine family x y registry = .ok z left) :
    z.Formed := by
  have transformable := formedX.accepted.transformable
  have answered := congrArg answer ran
  rw [answer_combine] at answered
  obtain ⟨_, _, answered⟩ := bind_eq_ok.mp answered
  obtain ⟨_, operands, answered⟩ := bind_eq_ok.mp answered
  have overY : y.Over x.parameters :=
    parameters_of_checkOperand formedX formedY operands ▸ formedY.belongs
  have supported : ∀ tower ∈ x.towers, Modulus.isSupported tower.modulus = true := by
    intro tower member
    refine transformable.supported ?_
    rw [← formedX.belongs.moduli]
    exact List.mem_map_of_mem member
  have host : onHost family x y =
      .ok { x with towers := List.zipWith (Tower.combine family) x.towers y.towers } :=
    onHost_eq_ok (conform_over transformable formedX.belongs overY) supported
      formedX.belongs.reduced overY.reduced
  have combined : z = { x with towers := List.zipWith (Tower.combine family) x.towers y.towers } := by
    cases attached : x.offload with
    | none =>
      simp only [attached, host] at answered
      cases answered
      rfl
    | some offload =>
      simp only [attached] at answered
      obtain ⟨_, ran⟩ := of_answer answered
      rw [← attached]
      exact offloaded_eq_ok attainable formedX.belongs.reduced overY.reduced host ran
  obtain ⟨_, belongs⟩ := over_combined transformable formedX.belongs overY family x.format
  rw [combined]
  exact belongs.formed formedX.accepted

/-- A batch of an attached polynomial is a command that its controller is given behind the lock. -/
theorem after_onPool (family : Family) (x y : TowerPolynomial) (offload : Offload)
    (registry : Registry) :
    ∃ command : Controller.Command, after (onPool family x y offload registry) =
      after (Registry.locked offload.handle command.run registry) := by
  cases found : registry[offload.handle]? with
  | none =>
    refine ⟨.execute, ?_⟩
    rw [onPool, Registry.locked_missing found, Registry.locked_missing found]
    rfl
  | some shared =>
    obtain ⟨c, poisoned⟩ := shared
    let split := offload.split.getD
      (Partition.defaultSplit c.units x.towers.length x.parameters.ringDimension)
    refine ⟨.runTowers x.towers y.towers (.tower family) split, ?_⟩
    cases poisoned with
    | true =>
      rw [onPool, Registry.locked_poisoned found, Registry.locked_poisoned found]
      rfl
    | false =>
      rw [onPool, Registry.after_locked found, Registry.after_locked found, Controller.Command.run,
        after_discard,
        Registry.trapped_discard, run_get]

theorem after_offloaded (family : Family) (x y : TowerPolynomial) (offload : Offload)
    (registry : Registry) :
    after (offloaded family x y offload registry) = after (onPool family x y offload registry) := by
  unfold offloaded
  cases onPool family x y offload registry with
  | ok towers reached => rfl
  | error e reached =>
    cases e with
    | trapped trap => rfl
    | _ =>
      dsimp only
      cases onHost family x y <;> rfl

/-- Controllers stay attainable under the operations of polynomials. -/
theorem attainable_combine {registry : Registry} (attainable : registry.Attainable)
    (family : Family) (x y : TowerPolynomial) :
    Registry.Attainable (after (combine family x y registry)) := by
  have keeps : Keeps Registry.Attainable (fun _ => True) (combine family x y) := by
    refine .lift_bind (fun _ _ => .lift_bind (fun _ _ => ?_) fun _ _ => trivial) fun _ _ => trivial
    cases x.offload with
    | none => exact .lift fun _ _ => trivial
    | some offload =>
      intro before attainable
      refine ⟨?_, fun _ _ _ => trivial⟩
      obtain ⟨command, same⟩ := after_onPool family x y offload before
      rw [after_offloaded, same]
      exact attainable.locked offload.handle command
  exact (keeps registry attainable).1

end Combining

end TowerPolynomial
end BankedRing
