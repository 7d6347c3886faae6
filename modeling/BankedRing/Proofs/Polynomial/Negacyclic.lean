import BankedRing.Proofs.Polynomial.Offload
import BankedRing.Proofs.Prime.Root
import BankedRing.Proofs.Transform.InPlace

/-! Formats and the ring. Parameters that are accepted have faithful tables for every modulus,
so switching a polynomial to evaluations and back loses nothing; products of evaluations are
products modulo `X ^ n + 1`, sums and differences are those of the coefficients. -/
namespace BankedRing
open Polynomial (X eval)

/-- The polynomial of a tower's values modulo a word. -/
noncomputable def Tower.polynomial (q : Word) (values : List Word) : Polynomial (ZMod q.toNat) :=
  Butterfly.polynomial (residues q values)

/-- The product of two towers modulo `X ^ n + 1`. -/
noncomputable def Tower.negacyclic (n : ℕ) (a b : Tower) : Tower :=
  let product := (polynomial a.modulus a.values * polynomial a.modulus b.values) %ₘ (X ^ n + 1)
  { a with values := (List.range n).map fun k => residue (product.coeff k).val a.modulus }

/-- What an operation on evaluations does to coefficients. -/
noncomputable def Tower.onCoefficients (family : Family) (n : ℕ) (a b : Tower) : Tower :=
  match family with
  | .mul => negacyclic n a b
  | _ => combine family a b

namespace Tower
variable {n : ℕ} {a b : Tower}

theorem negacyclic_values (two : 2 ≤ a.modulus.toNat) (positive : 0 < n) (b : Tower) :
    polynomial a.modulus (negacyclic n a b).values =
      (polynomial a.modulus a.values * polynomial a.modulus b.values) %ₘ (X ^ n + 1) := by
  have : Fact (1 < a.modulus.toNat) := ⟨two⟩
  have : NeZero a.modulus.toNat := ⟨by omega⟩
  have monic : (X ^ n + 1 : Polynomial (ZMod a.modulus.toNat)).Monic :=
    Polynomial.monic_X_pow_add_C 1 (by omega)
  have small :=
    Polynomial.degree_modByMonic_lt (polynomial a.modulus a.values * polynomial a.modulus b.values)
      monic
  have degree : (X ^ n + 1 : Polynomial (ZMod a.modulus.toNat)).degree = n :=
    Polynomial.degree_X_pow_add_C positive 1
  rw [degree] at small
  rw [polynomial, ← Butterfly.polynomial_coefficients small, negacyclic, residues, List.map_map]
  refine congrArg _ (List.map_congr_left fun k _ => ?_)
  exact (cast_residue _ (by omega)).trans (ZMod.natCast_zmod_val _)

/-- Where the power of a number by the length is `-1`, coefficients evaluate as they combine. -/
theorem eval_onCoefficients (family : Family) (two : 2 ≤ a.modulus.toNat) (positive : 0 < n)
    (length : b.values.length = a.values.length) (reduced : ∀ v ∈ b.values, v < a.modulus)
    {x : ZMod a.modulus.toNat} (minusOne : x ^ n = -1) :
    (polynomial a.modulus (onCoefficients family n a b).values).eval x =
      family.inRing ((polynomial a.modulus a.values).eval x)
        ((polynomial a.modulus b.values).eval x) := by
  have sizes : (residues a.modulus a.values).length = (residues a.modulus b.values).length := by
    rw [length_residues, length_residues, length]
  have combined : ∀ family : Family,
    residues a.modulus (family.combined a.modulus a.values b.values) =
      List.zipWith family.inRing (residues a.modulus a.values)
        (residues a.modulus b.values) := fun family =>
    residues_combined family (by omega) reduced
  cases family with
  | add =>
    show (Butterfly.polynomial
      (residues a.modulus (Family.add.combined a.modulus a.values b.values))).eval x = _
    rw [combined]
    exact (congrArg (eval x) (Butterfly.polynomial_add sizes)).trans Polynomial.eval_add
  | sub =>
    show (Butterfly.polynomial
      (residues a.modulus (Family.sub.combined a.modulus a.values b.values))).eval x = _
    rw [combined]
    exact (congrArg (eval x) (Butterfly.polynomial_sub sizes)).trans (Polynomial.eval_sub _ _ _)
  | mul =>
    have root : (X ^ n + 1 : Polynomial (ZMod a.modulus.toNat)).eval x = 0 := by simp [minusOne]
    have same := Polynomial.eval₂_modByMonic_eq_self_of_root (f := RingHom.id _) (x := x)
      (p := polynomial a.modulus a.values * polynomial a.modulus b.values) root
    rw [onCoefficients, negacyclic_values two positive]
    exact same.trans Polynomial.eval_mul

theorem modulus_onCoefficients (family : Family) (n : ℕ) (a b : Tower) :
    (onCoefficients family n a b).modulus = a.modulus := by
  cases family <;> rfl

theorem length_onCoefficients (family : Family) (length : a.values.length = n)
    (same : b.values.length = n) :
    (onCoefficients family n a b).values.length = n := by
  cases family with
  | mul => simp [onCoefficients, negacyclic]
  | _ => exact (Family.length_combined _ _ (same.trans length.symm)).trans length

theorem reduced_onCoefficients (family : Family) (positive : 0 < a.modulus.toNat)
    (n : ℕ) (b : Tower) :
    (onCoefficients family n a b).Reduced := by
  cases family with
  | mul =>
    intro x member
    obtain ⟨k, _, rfl⟩ := List.mem_map.mp member
    exact residue_lt _ positive
  | _ => exact Family.combined_lt _ positive _ _

end Tower

/-- The transform that leaves a format, on one buffer. -/
def RootTables.leaveInPlace (tables : RootTables) : Format → InPlace Unit
  | .coefficient => forwardInPlace tables
  | .evaluation => inverseInPlace tables

/-- Tables for transforms of one length under one modulus. -/
def RootTables.Suits (tables : RootTables) (n : ℕ) (q : Word) : Prop :=
  tables.modulus = q ∧ ∃ bits, n = 2 ^ bits ∧ ∃ psi psi', tables.Faithful bits psi psi'

namespace RootTables.Suits
variable {tables : RootTables} {n : ℕ} {q : Word}

theorem supported (suits : tables.Suits n q) : Modulus.isSupported q = true := by
  obtain ⟨rfl, _, _, _, _, faithful⟩ := suits
  exact faithful.supported

theorem positive (suits : tables.Suits n q) : 0 < n := by
  obtain ⟨_, bits, rfl, _⟩ := suits
  exact Nat.two_pow_pos bits

theorem forward_total (suits : tables.Suits n q) {values : List Word} (length : values.length = n)
    (reduced : ∀ x ∈ values, x < q) :
    ∃ out, tables.forwardTransform values = .ok out ∧ out.length = n ∧ ∀ x ∈ out, x < q := by
  obtain ⟨rfl, bits, rfl, psi, psi', faithful⟩ := suits
  obtain ⟨out, ran, outLength, outReduced, _⟩ :=
    forwardTransform_eq_ok faithful.toRooted length reduced
  exact ⟨out, ran, outLength, outReduced⟩

theorem inverse_total (suits : tables.Suits n q) {values : List Word} (length : values.length = n)
    (reduced : ∀ x ∈ values, x < q) :
    ∃ out, tables.inverseTransform values = .ok out ∧ out.length = n ∧ ∀ x ∈ out, x < q := by
  obtain ⟨rfl, bits, rfl, psi, psi', faithful⟩ := suits
  obtain ⟨_, represents, _⟩ := faithful.scale
  obtain ⟨out, ran, outLength, outReduced, _⟩ :=
    inverseTransform_eq_scaled faithful.toRooted represents length reduced
  exact ⟨out, ran, outLength, outReduced⟩

/-- What the transform gives for a list, its loops leave in a buffer. -/
theorem forward_inPlace (suits : tables.Suits n q) {values out : List Word}
    (length : values.length = n) (reduced : ∀ x ∈ values, x < q)
    (ran : tables.forwardTransform values = .ok out) :
    forwardInPlace tables ⟨values⟩ = .ok () ⟨out⟩ := by
  obtain ⟨rfl, bits, rfl, psi, psi', faithful⟩ := suits
  obtain ⟨left, inPlace, tree, _⟩ := forwardInPlace_eq_ok faithful.toRooted length reduced
  cases ran.symm.trans tree
  exact inPlace

theorem inverse_inPlace (suits : tables.Suits n q) {values out : List Word}
    (length : values.length = n) (reduced : ∀ x ∈ values, x < q)
    (ran : tables.inverseTransform values = .ok out) :
    inverseInPlace tables ⟨values⟩ = .ok () ⟨out⟩ := by
  obtain ⟨rfl, bits, rfl, psi, psi', faithful⟩ := suits
  obtain ⟨_, represents, _⟩ := faithful.scale
  obtain ⟨left, inPlace, tree, _⟩ :=
    inverseInPlace_eq_ok faithful.toRooted represents length reduced
  cases ran.symm.trans tree
  exact inPlace

/-- Combined evaluations switch back to what the coefficients give. -/
theorem inverse_combined (family : Family) {a b : Tower} (suits : tables.Suits n a.modulus)
    (lengthA : a.values.length = n)
    (lengthB : b.values.length = n) (reducedA : a.Reduced)
    (reducedB : ∀ v ∈ b.values, v < a.modulus) {fa fb : List Word}
    (ranA : tables.forwardTransform a.values = .ok fa)
    (ranB : tables.forwardTransform b.values = .ok fb) :
    tables.inverseTransform (family.combined a.modulus fa fb) =
      .ok (Tower.onCoefficients family n a b).values := by
  have positive := suits.positive
  obtain ⟨same, bits, rfl, psi, psi', faithful⟩ := suits
  obtain ⟨q, values⟩ := a
  subst same
  have two := Modulus.two_le faithful.supported
  have target := Tower.reduced_onCoefficients family (a := ⟨tables.modulus, values⟩)
    (Modulus.pos faithful.supported) (2 ^ bits) b
  rw [Tower.Reduced, Tower.modulus_onCoefficients] at target
  refine inverseTransform_combined faithful family lengthA lengthB
    (Tower.length_onCoefficients family lengthA lengthB)
    reducedA reducedB target ranA ranB fun x member => ?_
  have minusOne := Butterfly.pow_of_mem_points (splits_slot faithful.minusOne) x member
  exact Tower.eval_onCoefficients family (a := ⟨tables.modulus, values⟩) two positive
    (lengthB.trans lengthA.symm) reducedB
    minusOne

end RootTables.Suits
namespace RingParameters
variable {n : ℕ} {moduli : List Word} {parameters : RingParameters}

/-- Every modulus has tables of its own. -/
structure Transformable (parameters : RingParameters) : Prop where
  count : parameters.tables.length = parameters.moduli.length
  suits : ∀ (t : ℕ) (q : Word) (tables : RootTables), parameters.moduli[t]? = some q →
    parameters.tables[t]? = some tables →
    tables.Suits parameters.ringDimension q
  nonempty : parameters.moduli ≠ []

/-- A root of unity of even order is found under odd moduli only. -/
theorem odd_of_rootOfUnity {order q root : Word} (found : Prime.rootOfUnity order q = .ok root) :
    q.toNat % 2 = 1 := by
  obtain ⟨shape, three⟩ := Prime.divides_of_rootOfUnity found
  exact shape.odd (by omega)

theorem suits_of_tablesOf {order q : Word} {tables : RootTables}
    (built : tablesOf n order q = .ok tables) :
    tables.Suits n q := by
  obtain ⟨root, found, built⟩ := bind_eq_ok.mp built
  exact RootTables.ofRoot_faithful (odd_of_rootOfUnity found) built

/-- The first modulus passes its own checks, and the others go on from it. -/
theorem buildTables_cons_eq_ok {order q : Word} {earlier rest : List Word}
    {built : List RootTables} :
    buildTables n order earlier (q :: rest) = .ok built ↔
      Modulus.isSupported q = true ∧ Prime.isPrime q = .ok true ∧ q ∉ earlier ∧
        ∃ tables later, tablesOf n order q = .ok tables ∧
          buildTables n order (q :: earlier) rest = .ok later ∧
          built = tables :: later := by
  constructor
  · intro h
    obtain ⟨supported, h⟩ := guard_eq_ok.mp h
    obtain ⟨answer, tested, h⟩ := bind_eq_ok.mp h
    obtain ⟨prime, h⟩ := guard_eq_ok.mp h
    obtain ⟨fresh, h⟩ := guard_eq_ok.mp h
    obtain ⟨tables, made, h⟩ := bind_eq_ok.mp h
    obtain ⟨later, more, h⟩ := bind_eq_ok.mp h
    cases h
    have accepted : answer = true := by simpa using prime
    exact ⟨by simpa using supported, accepted ▸ lift_eq_ok tested, fresh, tables,
      later, made, more, rfl⟩
  · rintro ⟨supported, prime, fresh, tables, later, made, more, rfl⟩
    refine guard_eq_ok.mpr ⟨by simp [supported], bind_eq_ok.mpr ⟨true, by rw [prime]; rfl, ?_⟩⟩
    refine guard_eq_ok.mpr ⟨by simp, guard_eq_ok.mpr ⟨fresh, ?_⟩⟩
    exact bind_eq_ok.mpr ⟨tables, made, bind_eq_ok.mpr ⟨later, more, rfl⟩⟩

/-- Every modulus gets the tables that are built for it alone. -/
theorem tablesOf_of_buildTables {order : Word} {earlier : List Word} {built : List RootTables}
    (h : buildTables n order earlier moduli = .ok built) :
    built.length = moduli.length ∧ ∀ (t : ℕ) (q : Word) (tables : RootTables), moduli[t]? = some q →
      built[t]? = some tables → tablesOf n order q = .ok tables := by
  induction moduli generalizing earlier built with
  | nil =>
    cases h
    exact ⟨rfl, nofun⟩
  | cons q rest ih =>
    obtain ⟨_, _, _, first, later, made, more, rfl⟩ := buildTables_cons_eq_ok.mp h
    obtain ⟨length, each⟩ := ih more
    refine ⟨by rw [List.length_cons, length, List.length_cons], ?_⟩
    intro t p tables found placed
    cases t with
    | zero =>
      cases found
      cases placed
      exact made
    | succ t => exact each t p tables found placed

theorem fields_of_ofModuli (built : ofModuli n moduli = .ok parameters) :
    parameters.ringDimension = n ∧ parameters.moduli = moduli := by
  obtain ⟨_, built⟩ := guard_eq_ok.mp built
  obtain ⟨_, _, built⟩ := bind_eq_ok.mp built
  obtain ⟨_, _, built⟩ := bind_eq_ok.mp built
  cases built
  exact ⟨rfl, rfl⟩

/-- Accepted parameters have tables for all of their moduli. -/
theorem transformable_of_ofModuli (built : ofModuli n moduli = .ok parameters) :
    parameters.Transformable := by
  obtain ⟨nonempty, built⟩ := guard_eq_ok.mp built
  obtain ⟨_, _, built⟩ := bind_eq_ok.mp built
  obtain ⟨tables, made, built⟩ := bind_eq_ok.mp built
  cases built
  obtain ⟨count, each⟩ := tablesOf_of_buildTables made
  exact ⟨count, fun t q tables found placed => suits_of_tablesOf (each t q tables found placed),
    nonempty⟩

end RingParameters
namespace TowerPolynomial
variable {n : ℕ} {moduli : List Word} {parameters : RingParameters} {x y : TowerPolynomial}

/-- A polynomial over parameters: a reduced tower of full length for every modulus. -/
structure Over (parameters : RingParameters) (x : TowerPolynomial) : Prop where
  parameters_eq : x.parameters = parameters
  moduli : x.towers.map (·.modulus) = parameters.moduli
  length : ∀ tower ∈ x.towers, tower.values.length = parameters.ringDimension
  reduced : ∀ tower ∈ x.towers, tower.Reduced

namespace Over

theorem count (belongs : x.Over parameters) : x.towers.length = parameters.moduli.length := by
  rw [← belongs.moduli, List.length_map]

theorem modulus (belongs : x.Over parameters) {t : ℕ} {a : Tower} (found : x.towers[t]? = some a) :
    parameters.moduli[t]? = some a.modulus := by
  rw [← belongs.moduli, List.getElem?_map, found]
  rfl

theorem replace (belongs : x.Over parameters) {towers : List Tower}
    (count : towers.length = x.towers.length)
    (each : ∀ (t : ℕ) (a b : Tower), x.towers[t]? = some a → towers[t]? = some b →
      b.modulus = a.modulus ∧ b.values.length = parameters.ringDimension ∧ b.Reduced)
        (format : Format) :
    Over parameters { x with towers, format } := by
  have known : ∀ tower ∈ towers, ∃ (t : ℕ) (a : Tower), x.towers[t]? = some a ∧
      towers[t]? = some tower := by
    intro tower member
    obtain ⟨t, found⟩ := List.mem_iff_getElem?.mp member
    have inside : t < x.towers.length := count ▸ (List.getElem?_eq_some_iff.mp found).1
    exact ⟨t, _, List.getElem?_eq_getElem inside, found⟩
  refine ⟨belongs.parameters_eq, ?_, fun tower member => ?_, fun tower member => ?_⟩
  · rw [← belongs.moduli]
    apply List.ext_getElem?
    intro t
    rw [List.getElem?_map, List.getElem?_map]
    rcases Nat.lt_or_ge t towers.length with inside | outside
    · have other : t < x.towers.length := count ▸ inside
      rw [List.getElem?_eq_getElem inside, List.getElem?_eq_getElem other, Option.map_some,
        Option.map_some,
        (each t _ _ (List.getElem?_eq_getElem other) (List.getElem?_eq_getElem inside)).1]
    · rw [List.getElem?_eq_none outside, List.getElem?_eq_none (count ▸ outside)]
  · obtain ⟨t, a, old, found⟩ := known tower member
    exact (each t a tower old found).2.1
  · obtain ⟨t, a, old, found⟩ := known tower member
    exact (each t a tower old found).2.2

end Over

/-- Towers that hold the evaluations of others. -/
structure Evaluates (parameters : RingParameters) (towers evaluated : List Tower) : Prop where
  count : evaluated.length = towers.length
  each : ∀ (t : ℕ) (a b : Tower) (tables : RootTables), towers[t]? = some a →
    parameters.tables[t]? = some tables →
    evaluated[t]? = some b → b.modulus = a.modulus ∧ tables.forwardTransform a.values = .ok b.values

section Switching
variable (transformable : parameters.Transformable) (belongs : x.Over parameters)
include transformable belongs

theorem exists_tables {t : ℕ} {a : Tower} (found : x.towers[t]? = some a) :
    ∃ tables, parameters.tables[t]? = some tables ∧
      tables.Suits parameters.ringDimension a.modulus := by
  have modulus := belongs.modulus found
  have inside : t < parameters.tables.length :=
    transformable.count ▸ (List.getElem?_eq_some_iff.mp modulus).1
  exact ⟨_, List.getElem?_eq_getElem inside,
    transformable.suits t a.modulus _ modulus (List.getElem?_eq_getElem inside)⟩

/-- A transform that is total on reduced words goes through on all towers. -/
theorem exists_transformed (transform : RootTables → List Word → Except Error (List Word))
    (total : ∀ (tables : RootTables) (q : Word) (values : List Word),
      tables.Suits parameters.ringDimension q →
      values.length = parameters.ringDimension → (∀ v ∈ values, v < q) →
      ∃ out, transform tables values = .ok out ∧ out.length = parameters.ringDimension ∧
        ∀ v ∈ out, v < q)
    (format : Format) :
    ∃ towers : List Tower,
      (x.towers.zip x.parameters.tables).mapM (fun pair => do
        let values ← transform pair.2 pair.1.values
        return { pair.1 with values } : Tower × RootTables → Except Error Tower) = .ok towers ∧
      Over parameters { x with towers, format } ∧ towers.length = x.towers.length ∧
      ∀ (t : ℕ) (a b : Tower) (tables : RootTables), x.towers[t]? = some a →
      parameters.tables[t]? = some tables →
        towers[t]? = some b → b.modulus = a.modulus ∧ transform tables a.values = .ok b.values := by
  obtain ⟨towers, ran⟩ : ∃ towers, (x.towers.zip x.parameters.tables).mapM (fun pair => do
      let values ← transform pair.2 pair.1.values
      return { pair.1 with values } : Tower × RootTables → Except Error Tower) = .ok towers := by
    apply exists_mapM_eq_ok
    intro pair member
    obtain ⟨t, found⟩ := List.mem_iff_getElem?.mp member
    obtain ⟨tower, tables⟩ := List.getElem?_zip_eq_some.mp found
    have known := transformable.suits t _ _ (belongs.modulus tower) (belongs.parameters_eq ▸ tables)
    have placed := List.mem_of_getElem? tower
    obtain ⟨out, ran, _⟩ := total _ _ _ known (belongs.length _ placed) (belongs.reduced _ placed)
    exact ⟨{ pair.1 with values := out }, by rw [ran]; rfl⟩
  obtain ⟨length, each⟩ := mapM_eq_ok_iff.mp ran
  rw [List.length_zip, belongs.parameters_eq, transformable.count, ← belongs.count,
    Nat.min_self] at length
  have transformed : ∀ (t : ℕ) (a b : Tower) (tables : RootTables), x.towers[t]? = some a →
      parameters.tables[t]? = some tables → towers[t]? = some b →
      b.modulus = a.modulus ∧ transform tables a.values = .ok b.values := by
    intro t a b tables first second third
    have paired : (x.towers.zip x.parameters.tables)[t]? = some (a, tables) :=
      List.getElem?_zip_eq_some.mpr ⟨first, belongs.parameters_eq ▸ second⟩
    obtain ⟨values, made, placed⟩ := bind_eq_ok.mp (each t (a, tables) b paired third)
    cases placed
    exact ⟨rfl, made⟩
  refine ⟨towers, ran, belongs.replace length (fun t a b first third => ?_) format,
    length, transformed⟩
  obtain ⟨tables, second, known⟩ := exists_tables transformable belongs first
  obtain ⟨modulus, made⟩ := transformed t a b tables first second third
  have placed := List.mem_of_getElem? first
  obtain ⟨out, again, outLength, outReduced⟩ :=
    total _ _ _ known (belongs.length _ placed) (belongs.reduced _ placed)
  cases again.symm.trans made
  refine ⟨modulus, outLength, ?_⟩
  rw [Tower.Reduced, modulus]
  exact outReduced

theorem switchFormat_coefficient (format : x.format = .coefficient) :
    ∃ towers, x.switchFormat = .ok { x with towers, format := .evaluation } ∧
      Over parameters { x with towers, format := .evaluation } ∧
      Evaluates parameters x.towers towers := by
  obtain ⟨towers, ran, stays, length, each⟩ := exists_transformed transformable belongs
    RootTables.forwardTransform (fun _ _ _ suits => suits.forward_total) .evaluation
  refine ⟨towers, ?_, stays, length, each⟩
  rw [switchFormat, format]
  exact congrArg (· >>= _) ran

theorem switchFormat_evaluation (format : x.format = .evaluation) {towers : List Tower}
    (length : towers.length = x.towers.length)
    (each : ∀ (t : ℕ) (a b : Tower) (tables : RootTables), x.towers[t]? = some a →
      parameters.tables[t]? = some tables →
      towers[t]? = some b → b.modulus = a.modulus ∧
      tables.inverseTransform a.values = .ok b.values) :
    x.switchFormat = .ok { x with towers, format := .coefficient } := by
  have ran : (x.towers.zip x.parameters.tables).mapM (fun pair => do
      let values ← pair.2.inverseTransform pair.1.values
      return { pair.1 with values } : Tower × RootTables → Except Error Tower) = .ok towers := by
    refine mapM_eq_ok_iff.mpr ⟨?_, fun t pair b found third => ?_⟩
    · rw [List.length_zip, belongs.parameters_eq, transformable.count, ← belongs.count,
        Nat.min_self, length]
    · obtain ⟨first, second⟩ := List.getElem?_zip_eq_some.mp found
      obtain ⟨modulus, inverted⟩ :=
        each t pair.1 b pair.2 first (belongs.parameters_eq ▸ second) third
      rw [inverted, ok_bind]
      exact congrArg (fun q => Except.ok (Tower.mk q b.values)) modulus.symm
  rw [switchFormat, format]
  exact congrArg (· >>= _) ran

/-- Switching goes through, and on the buffer of every tower it runs the loops of the transform that
leaves the format. -/
theorem switchFormat_inPlace :
    ∃ towers, x.switchFormat = .ok { x with towers, format := x.format.other } ∧
      Over parameters { x with towers, format := x.format.other } ∧
      towers.length = x.towers.length ∧
      ∀ (t : ℕ) (a b : Tower) (tables : RootTables), x.towers[t]? = some a →
        parameters.tables[t]? = some tables → towers[t]? = some b →
        b.modulus = a.modulus ∧ tables.leaveInPlace x.format ⟨a.values⟩ = .ok () ⟨b.values⟩ := by
  have buffer : ∀ {t : ℕ} {a : Tower} {tables : RootTables}, x.towers[t]? = some a →
      parameters.tables[t]? = some tables → tables.Suits parameters.ringDimension a.modulus ∧
        a.values.length = parameters.ringDimension ∧ ∀ v ∈ a.values, v < a.modulus :=
    fun first table => ⟨transformable.suits _ _ _ (belongs.modulus first) table,
      belongs.length _ (List.mem_of_getElem? first), belongs.reduced _ (List.mem_of_getElem? first)⟩
  cases format : x.format with
  | coefficient =>
    obtain ⟨towers, ran, stays, evaluates⟩ :=
      switchFormat_coefficient transformable belongs format
    refine ⟨towers, ran, stays, evaluates.count, fun t a b tables first table third => ?_⟩
    obtain ⟨modulus, made⟩ := evaluates.each t a b tables first table third
    obtain ⟨suits, length, reduced⟩ := buffer first table
    exact ⟨modulus, suits.forward_inPlace length reduced made⟩
  | evaluation =>
    obtain ⟨towers, _, stays, count, each⟩ := exists_transformed transformable belongs
      RootTables.inverseTransform (fun _ _ _ suits => suits.inverse_total) .coefficient
    refine ⟨towers, switchFormat_evaluation transformable belongs format count each, stays, count,
      fun t a b tables first table third => ?_⟩
    obtain ⟨modulus, made⟩ := each t a b tables first table third
    obtain ⟨suits, length, reduced⟩ := buffer first table
    exact ⟨modulus, suits.inverse_inPlace length reduced made⟩

end Switching

section Combining
variable (transformable : parameters.Transformable) (overX : x.Over parameters)
    (overY : y.Over parameters)
include transformable overX overY

theorem conform_over : Tower.Conform x.towers y.towers parameters.ringDimension := by
  have nonempty : x.towers ≠ [] := fun none =>
    transformable.nonempty (List.eq_nil_of_length_eq_zero (by rw [← overX.count, none]; rfl))
  obtain ⟨tower, rest, cons⟩ := List.exists_cons_of_ne_nil nonempty
  have first : x.towers[0]? = some tower := by rw [cons]; rfl
  obtain ⟨_, _, suits⟩ := exists_tables transformable overX first
  exact ⟨nonempty, overX.moduli.trans overY.moduli.symm, overX.length, overY.length, suits.positive⟩

omit transformable in
theorem checks_over (family : Family) (format : x.format = y.format)
    (products : family = .mul → x.format = .evaluation) :
    checkFormats family x y = .ok () ∧ checkOperand x y = .ok () := by
  constructor
  · apply if_neg
    rintro ⟨product, other⟩
    rw [← format, products product] at other
    simp at other
  · have same : ¬ (x.parameters.ringDimension ≠ y.parameters.ringDimension ∨
        x.parameters.moduli ≠ y.parameters.moduli) := by
      rw [overX.parameters_eq, overY.parameters_eq]
      simp
    simp only [checkOperand, if_neg same, format, ne_eq, not_true_eq_false, if_false]
    rfl

theorem combine_over {registry : Registry} (served : x.Served registry) (family : Family)
    (format : x.format = y.format) (products : family = .mul → x.format = .evaluation) :
    answer (combine family x y registry) =
      .ok { x with towers := List.zipWith (Tower.combine family) x.towers y.towers } := by
  have supported : ∀ tower ∈ x.towers, Modulus.isSupported tower.modulus = true := by
    intro tower member
    obtain ⟨t, found⟩ := List.mem_iff_getElem?.mp member
    obtain ⟨_, _, suits⟩ := exists_tables transformable overX found
    exact suits.supported
  obtain ⟨formats, operands⟩ := checks_over overX overY family format products
  rw [answer_served served family overX.reduced overY.reduced, formats, operands, ok_bind, ok_bind]
  exact onHost_eq_ok (conform_over transformable overX overY) supported overX.reduced overY.reduced

theorem over_zipWith (combine : Tower → Tower → Tower) (format : Format)
    (each : ∀ (a b : Tower), a ∈ x.towers → b ∈ y.towers → b.modulus = a.modulus →
      Modulus.isSupported a.modulus = true → (combine a b).modulus = a.modulus ∧
        (combine a b).values.length = parameters.ringDimension ∧ (combine a b).Reduced) :
    (List.zipWith combine x.towers y.towers).length = x.towers.length ∧
      Over parameters { x with towers := List.zipWith combine x.towers y.towers, format } := by
  have conform := conform_over transformable overX overY
  have count : (List.zipWith combine x.towers y.towers).length = x.towers.length := by
    rw [List.length_zipWith, conform.count, Nat.min_self]
  refine ⟨count, overX.replace count (fun t a c first third => ?_) format⟩
  obtain ⟨a', b, first', second, rfl⟩ := List.getElem?_zipWith_eq_some.mp third
  cases first.symm.trans first'
  obtain ⟨_, _, suits⟩ := exists_tables transformable overX first
  exact each a b (List.mem_of_getElem? first) (List.mem_of_getElem? second)
    (conform.modulus_eq first second) suits.supported

theorem over_combined (family : Family) (format : Format) :
    (List.zipWith (Tower.combine family) x.towers y.towers).length = x.towers.length ∧
      Over parameters { x with towers := List.zipWith (Tower.combine family) x.towers y.towers, format } :=
  over_zipWith transformable overX overY (Tower.combine family)
    format fun a b first second _ supported =>
    ⟨rfl, (family.length_combined _
      ((overY.length b second).trans (overX.length a first).symm)).trans
      (overX.length a first), family.combined_lt (Modulus.pos supported) _ _⟩

/-- Combined evaluations switch back to what the coefficients give. -/
theorem switchFormat_combined (family : Family) {fx fy : List Tower}
    (overFx : Over parameters { x with towers := fx, format := .evaluation })
    (overFy : Over parameters { y with towers := fy, format := .evaluation })
    (evaluatesX : Evaluates parameters x.towers fx)
    (evaluatesY : Evaluates parameters y.towers fy) :
    switchFormat
        { x with towers := List.zipWith (Tower.combine family) fx fy, format := .evaluation } =
      .ok { x with
        towers :=
          List.zipWith (Tower.onCoefficients family parameters.ringDimension) x.towers y.towers
        format := .coefficient } := by
  have conform := conform_over transformable overX overY
  obtain ⟨count, belongs⟩ := over_combined transformable overFx overFy family .evaluation
  refine switchFormat_evaluation transformable belongs rfl ?_
    fun t e c tables combined table target => ?_
  · rw [List.length_zipWith, ← conform.count, Nat.min_self]
    exact (count.trans evaluatesX.count).symm
  · obtain ⟨fa, fb, firstF, secondF, rfl⟩ := List.getElem?_zipWith_eq_some.mp combined
    obtain ⟨a, b, first, second, rfl⟩ := List.getElem?_zipWith_eq_some.mp target
    obtain ⟨modulus, ranA⟩ := evaluatesX.each t a fa tables first table firstF
    obtain ⟨_, ranB⟩ := evaluatesY.each t b fb tables second table secondF
    have same := conform.modulus_eq first second
    have inFirst := List.mem_of_getElem? first
    have inSecond := List.mem_of_getElem? second
    have suits := transformable.suits t _ tables (overX.modulus first) table
    have reducedB : ∀ v ∈ b.values, v < a.modulus := same ▸ overY.reduced b inSecond
    refine ⟨(Tower.modulus_onCoefficients family _ a b).trans modulus.symm, ?_⟩
    show tables.inverseTransform (family.combined fa.modulus fa.values fb.values) = _
    rw [modulus]
    exact suits.inverse_combined family (overX.length a inFirst) (overY.length b inSecond)
      (overX.reduced a inFirst)
      reducedB ranA ranB

end Combining

/-- Switching to evaluations, combining there and switching back multiplies modulo `X ^ n + 1`
in every tower, and adds and subtracts as the coefficients do. -/
theorem switchFormat_ring (built : RingParameters.ofModuli n moduli = .ok parameters)
    (overX : x.Over parameters) (overY : y.Over parameters) (formatX : x.format = .coefficient)
    (formatY : y.format = .coefficient) {registry : Registry} (served : x.Served registry) :
    ∃ fx fy, x.switchFormat = .ok fx ∧ y.switchFormat = .ok fy ∧
      (∃ product back, answer (combine .mul fx fy registry) = .ok product ∧
        product.switchFormat = .ok back ∧
        back.Over parameters ∧ back.format = .coefficient ∧
        ∀ (t : ℕ) (a b c : Tower), x.towers[t]? = some a → y.towers[t]? = some b →
          back.towers[t]? = some c →
          Tower.polynomial a.modulus c.values =
            (Tower.polynomial a.modulus a.values * Tower.polynomial a.modulus b.values)
              %ₘ (X ^ n + 1)) ∧
      ∀ family, family ≠ .mul → ∃ combined back,
        answer (combine family fx fy registry) = .ok combined ∧
        combined.switchFormat = .ok back ∧
        ∀ other, x.Served other → answer (combine family x y other) = .ok back := by
  have transformable := RingParameters.transformable_of_ofModuli built
  obtain ⟨fx, ranX, overFx, evaluatesX⟩ := switchFormat_coefficient transformable overX formatX
  obtain ⟨fy, ranY, overFy, evaluatesY⟩ := switchFormat_coefficient transformable overY formatY
  have combined := fun family =>
    combine_over transformable overFx overFy served family rfl fun _ => rfl
  have switched := fun family =>
    switchFormat_combined transformable overX overY family overFx overFy evaluatesX evaluatesY
  refine ⟨_, _, ranX, ranY,
    ⟨_, _, combined .mul, switched .mul, ?_, rfl, fun t a b c first second third => ?_⟩,
    fun family sums => ⟨_, _, combined family, switched family, fun other reachable => ?_⟩⟩
  · refine (over_zipWith transformable overX overY _ .coefficient
      fun a b first second _ supported => ?_).2
    exact ⟨Tower.modulus_onCoefficients .mul _ a b,
      Tower.length_onCoefficients .mul (overX.length a first) (overY.length b second),
      Tower.reduced_onCoefficients .mul (Modulus.pos supported) _ b⟩
  · obtain ⟨a', b', first', second', rfl⟩ := List.getElem?_zipWith_eq_some.mp third
    cases first.symm.trans first'
    cases second.symm.trans second'
    obtain ⟨_, _, suits⟩ := exists_tables transformable overX first
    rw [← (RingParameters.fields_of_ofModuli built).1]
    exact Tower.negacyclic_values (Modulus.two_le suits.supported) suits.positive b
  · rw [combine_over transformable overX overY reachable family (formatX.trans formatY.symm)
      fun product => absurd product sums]
    cases family with
    | mul => exact absurd rfl sums
    | _ =>
      rw [← formatX]
      rfl

section Examples

theorem smallest_accepted : ∃ parameters, RingParameters.ofModuli 2 [5] = .ok parameters :=
  exists_ok_of_toOption (by decide +kernel)

/-- One tower of two coefficients. -/
def line (parameters : RingParameters) (values : List Word) : TowerPolynomial :=
  { parameters, towers := [⟨5, values⟩], format := .coefficient, offload := none }

theorem over_line (built : RingParameters.ofModuli 2 [5] = .ok parameters) (values : List Word)
    (length : values.length = 2)
    (reduced : ∀ x ∈ values, x < 5) : (line parameters values).Over parameters := by
  obtain ⟨dimension, moduli⟩ := RingParameters.fields_of_ofModuli built
  refine ⟨rfl, moduli.symm, fun tower member => ?_, fun tower member => ?_⟩
  · rw [List.mem_singleton.mp member, dimension]
    exact length
  · rw [List.mem_singleton.mp member]
    exact reduced

theorem switchFormat_ring_smallest :
    ∃ parameters, RingParameters.ofModuli 2 [5] = .ok parameters ∧ ∃ fx fy,
      (line parameters [1, 2]).switchFormat = .ok fx ∧
      (line parameters [3, 4]).switchFormat = .ok fy ∧
      (∃ product back, answer (combine .mul fx fy []) = .ok product ∧
        product.switchFormat = .ok back) ∧
      ∃ sum, answer (combine .add fx fy []) = .ok sum ∧
        sum.switchFormat = .ok (line parameters [4, 1]) := by
  obtain ⟨parameters, built⟩ := smallest_accepted
  have overX := over_line built [1, 2] rfl (by simp)
  have overY := over_line built [3, 4] rfl (by simp)
  have host : Served (line parameters [1, 2]) [] := nofun
  obtain ⟨fx, fy, ranX, ranY, ⟨product, back, multiplied, switched, _⟩, others⟩ :=
    switchFormat_ring built overX overY rfl rfl host
  obtain ⟨sum, restored, added, again, same⟩ := others .add (by decide)
  have direct :=
    combine_over (RingParameters.transformable_of_ofModuli built) overX overY host .add rfl nofun
  cases direct.symm.trans (same [] host)
  exact ⟨parameters, built, fx, fy, ranX, ranY, ⟨product, back, multiplied, switched⟩,
    sum, added, again⟩

/-- With more tasklets than the host can record, an attached product ends in a trap. -/
theorem switchFormat_crowded :
    ∃ parameters, RingParameters.ofModuli 2 [5] = .ok parameters ∧
      ∃ (c : Controller) (x y fx fy : TowerPolynomial),
        Controller.crowded.Accepted ∧ Controller.Reachable Controller.crowded c ∧
        x.offload = some ⟨0, some 1⟩ ∧
      x.Over parameters ∧ y.Over parameters ∧ x.format = .coefficient ∧ y.format = .coefficient ∧
      x.switchFormat = .ok fx ∧ y.switchFormat = .ok fy ∧
      answer (combine .mul fx fy [⟨c, false⟩]) = .error (.trapped .oversized) := by
  obtain ⟨parameters, built⟩ := smallest_accepted
  have transformable := RingParameters.transformable_of_ofModuli built
  obtain ⟨c, started, sound, _, memories⟩ :=
    Controller.crowded_starts (fun _ => .error .notFound) []
  have belongs := over_line built [1, 2] rfl (by simp)
  obtain ⟨fy, ranY, overFy, _⟩ := switchFormat_coefficient transformable belongs rfl
  have attached : Over parameters { line parameters [1, 2] with offload := some ⟨0, some 1⟩ } :=
    ⟨belongs.parameters_eq, belongs.moduli, belongs.length, belongs.reduced⟩
  obtain ⟨fx, ranX, overFx, evaluates⟩ := switchFormat_coefficient transformable attached rfl
  refine ⟨parameters, built, c, _, _, _, _, Controller.crowded_accepted, .start started, rfl,
    attached, belongs,
    rfl, rfl, ranX, ranY, ?_⟩
  have conform := conform_over transformable overFx overFy
  have count : fx.length = 1 := evaluates.count
  have dimension := (RingParameters.fields_of_ofModuli built).1
  have deals : c.Deals fx fy 2 1 :=
    Controller.deals_of_blank sound memories (dimension ▸ conform) (by decide) (by decide)
      (by simp [count]) (by decide)
  obtain ⟨formats, operands⟩ := checks_over overFx overFy .mul rfl fun _ => rfl
  rw [answer_combine, formats, operands, ok_bind, ok_bind]
  exact offloaded_trapped rfl rfl
    (Controller.runTowers_unrecorded Controller.crowded_accepted sound
      Controller.crowded_unrecorded deals)

end Examples
end TowerPolynomial
end BankedRing
