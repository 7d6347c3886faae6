import BankedRing.Proofs.Polynomial.Chain
import BankedRing.Proofs.Prime.Root

/-! Construction of parameters. The checks of a modulus, of the search for a root and of the tables
line up: what the first accept no later one rejects, but for a prime whose generators below
`2 ^ 16` are all squares. So one can tell from the moduli alone whether they are accepted. -/
namespace BankedRing.RingParameters
variable {n : ℕ} {order q : Word} {moduli : List Word} {parameters : RingParameters}

theorem exists_tablesOf_iff (half : n < 2 ^ 63) (twice : order.toNat = 2 * n)
    (supported : Modulus.isSupported q = true) (prime : q.toNat.Prime) :
    (∃ tables, tablesOf n order q = .ok tables) ↔
      2 * n ∣ q.toNat - 1 ∧ (Prime.generators q.toNat).Nonempty ∧ ∃ k, 1 ≤ k ∧ n = 2 ^ k := by
  have positive := Modulus.pos supported
  constructor
  · rintro ⟨tables, built⟩
    obtain ⟨root, found, built⟩ := bind_eq_ok.mp built
    obtain ⟨shape, three⟩ := Prime.divides_of_rootOfUnity found
    obtain ⟨_, k, _, dimension, _⟩ := RootTables.ofRoot_eq_ok built
    have two := RootTables.two_le_length built
    have nonempty :=
      (Prime.exists_rootOfUnity_iff supported prime (by omega) shape).mp ⟨root, found⟩
    refine ⟨twice ▸ shape.divides, nonempty, k, ?_, dimension⟩
    by_contra none
    obtain rfl : k = 0 := by omega
    rw [dimension] at two
    exact absurd two (by decide)
  · rintro ⟨divides, nonempty, k, one, rfl⟩
    have two : 2 ≤ 2 ^ k := Nat.le_self_pow (by omega) 2
    have shape : Prime.Divides order q :=
      ⟨by omega, ⟨k + 1, by rw [twice, pow_succ']⟩, twice ▸ divides⟩
    have odd : q.toNat ≠ 2 := by
      have uneven := shape.odd positive
      omega
    have notTwo : q ≠ 2 := fun same => odd (congrArg UInt64.toNat same)
    have short : k < 64 := by
      have narrow := (Nat.pow_lt_pow_iff_right (a := 2) (by decide)).mp half
      omega
    obtain ⟨root, found⟩ := (Prime.exists_rootOfUnity_iff supported prime odd shape).mpr nonempty
    obtain ⟨reduced, minusOne⟩ := Prime.minusOne_of_rootOfUnity supported prime odd shape found
    rw [twice, Nat.mul_div_cancel_left _ Nat.two_pos] at minusOne
    obtain ⟨tables, built⟩ := RootTables.ofRoot_total supported notTwo short two reduced minusOne
    exact ⟨tables, bind_eq_ok.mpr ⟨root, found, built⟩⟩

/-- Moduli are taken one by one, none of them twice. -/
theorem exists_buildTables_iff {earlier : List Word} :
    (∃ built, buildTables n order earlier moduli = .ok built) ↔
      moduli.Nodup ∧ ∀ q ∈ moduli, q ∉ earlier ∧ Modulus.isSupported q = true ∧
      Prime.isPrime q = .ok true ∧
        ∃ tables, tablesOf n order q = .ok tables := by
  induction moduli generalizing earlier with
  | nil => exact ⟨fun _ => ⟨.nil, nofun⟩, fun _ => ⟨[], rfl⟩⟩
  | cons q rest ih =>
    constructor
    · rintro ⟨built, h⟩
      obtain ⟨supported, prime, fresh, tables, later, made, more, _⟩ := buildTables_cons_eq_ok.mp h
      obtain ⟨distinct, all⟩ := ih.mp ⟨later, more⟩
      refine ⟨List.nodup_cons.mpr ⟨fun member => (all q member).1 List.mem_cons_self, distinct⟩, ?_⟩
      refine List.forall_mem_cons.mpr ⟨⟨fresh, supported, prime, tables, made⟩, fun p member => ?_⟩
      obtain ⟨other, accepted⟩ := all p member
      exact ⟨fun known => other (List.mem_cons_of_mem _ known), accepted⟩
    · rintro ⟨distinct, all⟩
      obtain ⟨absent, distinct⟩ := List.nodup_cons.mp distinct
      obtain ⟨⟨fresh, supported, prime, tables, made⟩, all⟩ := List.forall_mem_cons.mp all
      obtain ⟨later, more⟩ : ∃ later, buildTables n order (q :: earlier) rest = .ok later := by
        refine ih.mpr ⟨distinct, fun p member => ?_⟩
        obtain ⟨other, accepted⟩ := all p member
        refine ⟨fun known => ?_, accepted⟩
        rcases List.mem_cons.mp known with rfl | known
        · exact absent member
        · exact other known
      exact ⟨_, buildTables_cons_eq_ok.mpr ⟨supported, prime, fresh, tables, later,
        made, more, rfl⟩⟩

theorem ofModuli_eq_ok_iff (doubled : rootOrder n = .ok order) :
    ofModuli n moduli = .ok parameters ↔
      moduli ≠ [] ∧ ∃ built, buildTables n order [] moduli = .ok built ∧
      parameters = ⟨n, moduli, built⟩ := by
  constructor
  · intro built
    obtain ⟨nonempty, built⟩ := guard_eq_ok.mp built
    obtain ⟨_, computed, built⟩ := bind_eq_ok.mp built
    cases (lift_eq_ok computed).symm.trans doubled
    obtain ⟨tables, made, assembled⟩ := bind_eq_ok.mp built
    cases assembled
    exact ⟨nonempty, tables, made, rfl⟩
  · rintro ⟨nonempty, tables, made, rfl⟩
    have computed : (liftM (rootOrder n) : Except Error Word) = .ok order := by
      rw [doubled]
      rfl
    exact guard_eq_ok.mpr ⟨nonempty,
      bind_eq_ok.mpr ⟨order, computed, bind_eq_ok.mpr ⟨tables, made, rfl⟩⟩⟩

/-- Moduli that parameters of a dimension can be built from: a chain of distinct supported primes
that are 1 modulo twice the dimension and have a generator that is tried. -/
structure Usable (n : ℕ) (moduli : List Word) : Prop where
  nonempty : moduli ≠ []
  distinct : moduli.Nodup
  prime : ∀ q ∈ moduli, q.toNat.Prime
  supported : ∀ q ∈ moduli, Modulus.isSupported q = true
  divides : ∀ q ∈ moduli, 2 * n ∣ q.toNat - 1
  generated : ∀ q ∈ moduli, (Prime.generators q.toNat).Nonempty
  dimension : ∃ k, 1 ≤ k ∧ n = 2 ^ k

theorem exists_ofModuli_iff (half : n < 2 ^ 63)
    (exact : ∀ q ∈ moduli, (Prime.isPrime q = .ok true ↔ q.toNat.Prime)) :
    (∃ parameters, ofModuli n moduli = .ok parameters) ↔ Usable n moduli := by
  obtain ⟨order, doubled, twice⟩ := rootOrder_eq_ok half
  have tables : ∀ q ∈ moduli, Modulus.isSupported q = true → Prime.isPrime q = .ok true →
      ((∃ tables, tablesOf n order q = .ok tables) ↔
        2 * n ∣ q.toNat - 1 ∧ (Prime.generators q.toNat).Nonempty ∧ ∃ k, 1 ≤ k ∧ n = 2 ^ k) :=
    fun q member supported prime =>
      exists_tablesOf_iff half twice supported ((exact q member).mp prime)
  constructor
  · rintro ⟨parameters, accepted⟩
    obtain ⟨nonempty, built, made, _⟩ := (ofModuli_eq_ok_iff doubled).mp accepted
    obtain ⟨distinct, all⟩ := exists_buildTables_iff.mp ⟨built, made⟩
    have each : ∀ q ∈ moduli,
        2 * n ∣ q.toNat - 1 ∧ (Prime.generators q.toNat).Nonempty ∧ ∃ k, 1 ≤ k ∧ n = 2 ^ k := by
      intro q member
      obtain ⟨_, supported, prime, own⟩ := all q member
      exact (tables q member supported prime).mp own
    obtain ⟨q, member⟩ := List.exists_mem_of_ne_nil moduli nonempty
    exact ⟨nonempty, distinct, fun q member => (exact q member).mp (all q member).2.2.1,
      fun q member => (all q member).2.1, fun q member => (each q member).1,
      fun q member => (each q member).2.1, (each q member).2.2⟩
  · intro usable
    have all : ∀ q ∈ moduli, q ∉ ([] : List Word) ∧ Modulus.isSupported q = true ∧
      Prime.isPrime q = .ok true ∧
        ∃ tables, tablesOf n order q = .ok tables := by
      intro q member
      have supported := usable.supported q member
      have prime := (exact q member).mpr (usable.prime q member)
      exact ⟨List.not_mem_nil, supported, prime, (tables q member supported prime).mpr
        ⟨usable.divides q member, usable.generated q member, usable.dimension⟩⟩
    obtain ⟨built, made⟩ := exists_buildTables_iff.mpr ⟨usable.distinct, all⟩
    exact ⟨_, (ofModuli_eq_ok_iff doubled).mpr ⟨usable.nonempty, built, made, rfl⟩⟩

theorem fields_of_tablesOf {tables : RootTables} (built : tablesOf n order q = .ok tables) :
    tables.modulus = q ∧ tables.length = n ∧
    orderOf (tables.root.toNat : ZMod q.toNat) = 2 * n := by
  obtain ⟨root, found, built⟩ := bind_eq_ok.mp built
  obtain ⟨_, three⟩ := Prime.divides_of_rootOfUnity found
  have notTwo : q ≠ 2 := fun same => by
    rw [same] at three
    exact absurd three (by decide)
  have ordered := RootTables.orderOf_root built notTwo
  obtain ⟨_, bits, _, rfl, _, _, _, _, _, _, _, _, _, fields⟩ := RootTables.ofRoot_eq_ok built
  obtain ⟨modulus, _, rooted⟩ := RootTables.ofRoot_rooted built
  refine ⟨modulus, rooted.length, ?_⟩
  rw [congrArg RootTables.root fields]
  exact ordered

theorem composite_eq_prod (parameters : RingParameters) :
    parameters.composite = (parameters.moduli.map UInt64.toNat).prod := by
  rw [composite, List.prod_eq_foldl, List.foldl_map]

theorem fields_of_built (half : n < 2 ^ 63) (built : ofModuli n moduli = .ok parameters) :
    parameters.tables.length = moduli.length ∧
      (∀ (i : ℕ) (q : Word) (tables : RootTables), moduli[i]? = some q →
        parameters.tables[i]? = some tables →
        tables.modulus = q ∧ tables.length = n ∧
        orderOf (tables.root.toNat : ZMod q.toNat) = 2 * n) ∧
      parameters.composite = (moduli.map UInt64.toNat).prod := by
  obtain ⟨order, doubled, _⟩ := rootOrder_eq_ok half
  obtain ⟨_, tables, made, rfl⟩ := (ofModuli_eq_ok_iff doubled).mp built
  obtain ⟨count, each⟩ := tablesOf_of_buildTables made
  exact ⟨count, fun i q own found placed => fields_of_tablesOf (each i q own found placed),
    composite_eq_prod _⟩

/-- A root of unity is found under an odd supported prime exactly if one of the generators that are
tried is no square, for any power of two as its order that divides the number of units; it is a
power of the least such generator and has that order exactly. So parameters are accepted for a
dimension and a chain of moduli exactly if these are usable, as far as the primality test is exact
on the chain; the tables then fit the chain, modulus by modulus. -/
theorem construction_exact :
    (∀ order q : Word, q.toNat.Prime → q.toNat % 2 = 1 → Modulus.isSupported q = true →
      Prime.Divides order q →
      ((∃ root, Prime.rootOfUnity order q = .ok root) ↔ (Prime.generators q.toNat).Nonempty) ∧
      ∀ root, Prime.rootOfUnity order q = .ok root →
        (∃ g, IsLeast (Prime.generators q.toNat) g ∧
          root.toNat = g ^ ((q.toNat - 1) / order.toNat) % q.toNat) ∧
        orderOf (root.toNat : ZMod q.toNat) = order.toNat) ∧
    ∀ (n : ℕ) (moduli : List Word), n < 2 ^ 63 →
      (∀ q ∈ moduli, (Prime.isPrime q = .ok true ↔ q.toNat.Prime)) →
      ((∃ parameters, ofModuli n moduli = .ok parameters) ↔ Usable n moduli) ∧
      ∀ parameters, ofModuli n moduli = .ok parameters →
        parameters.tables.length = moduli.length ∧
        (∀ (i : ℕ) (q : Word) (tables : RootTables), moduli[i]? = some q →
          parameters.tables[i]? = some tables →
          tables.modulus = q ∧ tables.length = n ∧
          orderOf (tables.root.toNat : ZMod q.toNat) = 2 * n) ∧
        parameters.composite = (moduli.map UInt64.toNat).prod := by
  refine ⟨fun order q prime odd supported shape => ?_, fun n moduli half exact =>
    ⟨exists_ofModuli_iff half exact, fun parameters built => fields_of_built half built⟩⟩
  have notTwo : q.toNat ≠ 2 := by omega
  refine ⟨Prime.exists_rootOfUnity_iff supported prime notTwo shape, fun root found => ⟨?_, ?_⟩⟩
  · obtain ⟨g, least, rfl⟩ := (Prime.rootOfUnity_eq_ok_iff supported prime notTwo shape).mp found
    exact ⟨g, least, toNat_residue _ (Modulus.pos supported)⟩
  · exact Prime.orderOf_rootOfUnity supported prime notTwo shape found

theorem forall_three {P : Word → Prop} (first : P 29) (second : P 17) (third : P 13) :
    ∀ q ∈ ([29, 17, 13] : List Word), P q := by
  simp only [List.forall_mem_cons, List.not_mem_nil, false_implies, implies_true, and_true]
  exact ⟨first, second, third⟩

theorem usable_three : Usable 2 [29, 17, 13] where
  nonempty := List.cons_ne_nil _ _
  distinct := by decide
  prime :=
    forall_three (show Nat.Prime 29 by norm_num) (show Nat.Prime 17 by norm_num)
      (show Nat.Prime 13 by norm_num)
  supported := forall_three (by decide) (by decide) (by decide)
  divides := forall_three (by decide) (by decide) (by decide)
  generated := forall_three ⟨2, by decide, by decide, show ¬ IsSquare (2 : ZMod 29) by decide⟩
    ⟨3, by decide, by decide, show ¬ IsSquare (3 : ZMod 17) by decide⟩
    ⟨2, by decide, by decide, show ¬ IsSquare (2 : ZMod 13) by decide⟩
  dimension := ⟨1, Nat.le_refl 1, rfl⟩

/-- The least generator of 17 is 3, and `3 ^ 4` is 13. The chain is accepted as it stands, but
not with a prime that it holds already. -/
theorem construction_exact_three :
    (Prime.rootOfUnity 4 17 = .ok 13 ∧
      orderOf ((13 : Word).toNat : ZMod (17 : Word).toNat) = (4 : Word).toNat) ∧
      (∃ parameters, ofModuli 2 [29, 17, 13] = .ok parameters ∧ parameters.composite = 6409) ∧
      ¬ ∃ parameters, ofModuli 2 [17, 17] = .ok parameters := by
  obtain ⟨roots, chains⟩ := construction_exact
  have shape : Prime.Divides 4 17 := ⟨by decide, ⟨2, rfl⟩, by decide⟩
  have found : Prime.rootOfUnity 4 17 = .ok 13 := by decide +kernel
  have tested : ∀ q ∈ ([29, 17, 13] : List Word), Prime.isPrime q = .ok true :=
    forall_three (by decide +kernel) (by decide +kernel) (by decide +kernel)
  have exact : ∀ q ∈ ([29, 17, 13] : List Word),
      (Prime.isPrime q = .ok true ↔ q.toNat.Prime) := fun q member =>
    ⟨fun _ => usable_three.prime q member, fun _ => tested q member⟩
  have within : ([17, 17] : List Word) ⊆ [29, 17, 13] := by simp
  obtain ⟨accepted, fields⟩ := chains 2 [29, 17, 13] (by decide) exact
  obtain ⟨parameters, built⟩ := accepted.mpr usable_three
  have repeated : ∀ q ∈ ([17, 17] : List Word), (Prime.isPrime q = .ok true ↔ q.toNat.Prime) :=
    fun q member => exact q (within member)
  have prime := usable_three.prime 17 (within List.mem_cons_self)
  have root := (roots 4 17 prime (by decide) (by decide) shape).2 13 found
  refine ⟨⟨found, root.2⟩, ⟨parameters, built, (fields parameters built).2.2⟩, fun again => ?_⟩
  have usable := (chains 2 [17, 17] (by decide) repeated).1.mp again
  exact absurd usable.distinct (by decide)

end BankedRing.RingParameters
