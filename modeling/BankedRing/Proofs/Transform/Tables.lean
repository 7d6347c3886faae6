import BankedRing.Proofs.Outcome
import BankedRing.Proofs.Residue.Inverse
import BankedRing.Proofs.Transform.Butterfly
import BankedRing.Transform.Network
import Mathlib.Data.ZMod.Basic

/-! Twiddle tables that are built hold what the butterfly network needs: powers of a number
whose power by the length is `-1`, powers of its inverse, both in bit-reversed order, and
the inverse of the length. -/
namespace BankedRing

section Reversal
variable {bits k : Nat}

theorem bitReverse_zero (bits : Nat) : bitReverse 0 bits = 0 := by
  induction bits with
  | zero => rfl
  | succ bits ih => rw [bitReverse, Nat.zero_mod, Nat.zero_mul, Nat.zero_div, ih]

theorem bitReverse_double (k bits : Nat) : bitReverse (2 * k) (bits + 1) = bitReverse k bits := by
  rw [bitReverse, Nat.mul_mod_right, Nat.zero_mul, Nat.zero_add,
    Nat.mul_div_cancel_left k (by decide)]

theorem bitReverse_double_succ (k bits : Nat) :
    bitReverse (2 * k + 1) (bits + 1) = 2 ^ bits + bitReverse k bits := by
  have low : (2 * k + 1) % 2 = 1 := by omega
  have high : (2 * k + 1) / 2 = k := by omega
  rw [bitReverse, low, high, Nat.one_mul, Nat.one_shiftLeft]

theorem bitReverse_one (bits : Nat) : bitReverse 1 (bits + 1) = 2 ^ bits := by
  have last := bitReverse_double_succ 0 bits
  rwa [Nat.mul_zero, Nat.zero_add, bitReverse_zero, Nat.add_zero] at last

theorem bitReverse_lt (k bits : Nat) : bitReverse k bits < 2 ^ bits := by
  induction bits generalizing k with
  | zero => exact Nat.one_pos
  | succ bits ih =>
    have rest := ih (k / 2)
    rcases Nat.mod_two_eq_zero_or_one k with even | odd
    · rw [bitReverse, even, Nat.zero_mul, Nat.pow_succ]
      omega
    · rw [bitReverse, odd, Nat.one_mul, Nat.one_shiftLeft, Nat.pow_succ]
      omega

theorem bitReverse_succ_of_lt (h : k < 2 ^ bits) :
    bitReverse k (bits + 1) = 2 * bitReverse k bits := by
  induction bits generalizing k with
  | zero =>
    obtain rfl : k = 0 := by simpa using h
    rfl
  | succ bits ih =>
    have half : k / 2 < 2 ^ bits := by
      rw [Nat.pow_succ] at h
      omega
    rw [bitReverse, ih half, bitReverse, Nat.one_shiftLeft, Nat.one_shiftLeft, Nat.pow_succ]
    ring

theorem bitReverse_add_two_pow (h : k < 2 ^ bits) : bitReverse (2 ^ bits + k)
    (bits + 1) = 2 * bitReverse k bits + 1 := by
  induction bits generalizing k with
  | zero =>
    obtain rfl : k = 0 := by simpa using h
    rfl
  | succ bits ih =>
    have half : k / 2 < 2 ^ bits := by
      rw [Nat.pow_succ] at h
      omega
    have low : (2 ^ (bits + 1) + k) % 2 = k % 2 := by omega
    have rest : (2 ^ (bits + 1) + k) / 2 = 2 ^ bits + k / 2 := by omega
    rw [bitReverse, low, rest, ih half, bitReverse, Nat.one_shiftLeft, Nat.one_shiftLeft,
      Nat.pow_succ]
    ring

/-- What is reversed are the low bits, and no other bit is set. -/
theorem testBit_bitReverse (x bits k : Nat) :
    (bitReverse x bits).testBit k = (decide (k < bits) && x.testBit (bits - 1 - k)) := by
  induction bits generalizing x k with
  | zero => simp [bitReverse]
  | succ bits ih =>
    rw [bitReverse, Nat.one_shiftLeft, Nat.mul_comm,
      Nat.testBit_two_pow_mul_add _ (bitReverse_lt _ _)]
    split
    · rename_i low
      have shifted : bits + 1 - 1 - k = bits - 1 - k + 1 := by omega
      rw [ih, shifted, Nat.testBit_add_one]
      simp [low, Nat.lt_succ_of_lt low]
    · rename_i high
      rcases Nat.lt_or_eq_of_le (Nat.not_lt.mp high) with above | rfl
      · have small : x % 2 < 2 ^ (k - bits) :=
          Nat.lt_of_lt_of_le (Nat.mod_lt _ Nat.two_pos) (Nat.le_self_pow (by omega) 2)
        rw [Nat.testBit_lt_two_pow small, decide_eq_false (by omega), Bool.false_and]
      · simp

end Reversal

section Powers
open Butterfly
variable {R : Type*} [CommRing R] {psi : R} {bits : ℕ}

/-- The power of a root in one slot of a table. -/
def slot (psi : R) (bits node : ℕ) : R := psi ^ bitReverse node bits

theorem slot_mul_slot {psi' : R} (inverses : psi * psi' = 1) (node : ℕ) :
    slot psi bits node * slot psi' bits node = 1 := by
  rw [slot, slot, ← mul_pow, inverses, one_pow]

/-- Slots are square roots of each other down the tree. -/
theorem splits_of_square (minusOne : psi ^ 2 ^ bits = -1) (level : ℕ) {depth node : ℕ} {value : R}
    (inside : node < 2 ^ level)
    (total : level + depth = bits + 1) (square : slot psi bits node * slot psi bits node = value) :
    Splits (slot psi bits) depth node value := by
  induction depth generalizing level node value with
  | zero => exact trivial
  | succ depth ih =>
    cases depth with
    | zero => exact ⟨square, trivial, trivial⟩
    | succ depth =>
      cases bits with
      | zero => omega
      | succ bits =>
        have leading : node < 2 ^ bits :=
          Nat.lt_of_lt_of_le inside (Nat.pow_le_pow_right (by decide) (by omega))
        have reversed := bitReverse_succ_of_lt leading
        have deeper : 2 * node + 1 < 2 ^ (level + 1) := by
          rw [pow_succ]
          omega
        refine ⟨square, ih _ (Nat.lt_of_succ_lt deeper) (by omega) ?_, ih _ deeper (by omega) ?_⟩
        · rw [slot, slot, bitReverse_double, ← pow_add, reversed, two_mul]
        · rw [slot, slot, bitReverse_double_succ, ← pow_add, reversed, ← neg_one_mul,
            ← minusOne, ← pow_add]
          congr 1
          rw [pow_succ]
          ring

theorem splits_slot (minusOne : psi ^ 2 ^ bits = -1) : Splits (slot psi bits) bits 1 (-1) := by
  cases bits with
  | zero => exact trivial
  | succ bits =>
    refine splits_of_square minusOne 1 (by decide) (by omega) ?_
    rw [slot, bitReverse_one, ← pow_add, ← two_mul, ← pow_succ', minusOne]

/-- With one bit more a slot holds the value that a node is handed down; so the points below a
node are the slots of its leaves, in their order. -/
theorem points_slot (minusOne : psi ^ 2 ^ bits = -1) (depth node : ℕ) :
    points (slot psi bits) depth node (slot psi (bits + 1) node) =
      (List.range (2 ^ depth)).map fun j => slot psi (bits + 1) (2 ^ depth * node + j) := by
  induction depth generalizing node with
  | zero => simp [points]
  | succ depth ih =>
    have below : slot psi bits node = slot psi (bits + 1) (2 * node) := by
      rw [slot, slot, bitReverse_double]
    have beyond : -slot psi bits node = slot psi (bits + 1) (2 * node + 1) := by
      rw [slot, slot, bitReverse_double_succ, pow_add, minusOne, neg_one_mul]
    rw [points, beyond, ih, below, ih, pow_succ, Nat.mul_two, List.range_add,
      List.map_append, List.map_map]
    congr 1
    · simp only [add_mul, two_mul, mul_add]
    · refine List.map_congr_left fun j _ => ?_
      rw [Function.comp_apply]
      congr 1
      ring

/-- The points below the root are the odd powers in bit-reversed order. -/
theorem points_eq (minusOne : psi ^ 2 ^ bits = -1) :
    points (slot psi bits) bits 1 (-1) = (List.range (2 ^ bits)).map fun i =>
      psi ^ (2 * bitReverse i bits + 1) := by
  have root : slot psi (bits + 1) 1 = -1 := by rw [slot, bitReverse_one, minusOne]
  rw [← root, points_slot minusOne]
  refine List.map_congr_left fun i member => ?_
  rw [Nat.mul_one, slot, bitReverse_add_two_pow (List.mem_range.mp member)]

end Powers

/-- The residues of reduced words as elements of a ring. -/
def residues (m : Word) (values : List Word) : List (ZMod m.toNat) :=
  values.map fun x => (x.toNat : ZMod m.toNat)

section Casting
variable {m : Word}

theorem cast_residue (n : Nat) (positive : 0 < m.toNat) :
    ((residue n m).toNat : ZMod m.toNat) = n := by
  rw [toNat_residue n positive, ZMod.natCast_mod]

theorem toNat_pred (positive : 0 < m.toNat) : (m - 1 : Word).toNat = m.toNat - 1 := by
  have one : (1 : Word) ≤ m := UInt64.le_iff_toNat_le.mpr positive
  rw [UInt64.toNat_sub_of_le _ _ one, UInt64.toNat_one]

theorem cast_pred (positive : 0 < m.toNat) : ((m - 1 : Word).toNat : ZMod m.toNat) = -1 := by
  rw [toNat_pred positive, Nat.cast_sub positive, ZMod.natCast_self, zero_sub, Nat.cast_one]

theorem cast_injective {x y : Word} (hx : x < m) (hy : y < m)
    (same : (x.toNat : ZMod m.toNat) = y.toNat) :
    x = y := by
  rw [UInt64.lt_iff_toNat_lt] at hx hy
  rw [ZMod.natCast_eq_natCast_iff', Nat.mod_eq_of_lt hx, Nat.mod_eq_of_lt hy] at same
  exact UInt64.toNat_inj.mp same

/-- The last residue is the one that stands for `-1`. -/
theorem residue_eq_pred_iff (positive : 0 < m.toNat) (n : ℕ) :
    residue n m = m - 1 ↔ (n : ZMod m.toNat) = -1 := by
  have last : m - 1 < m := by
    rw [UInt64.lt_iff_toNat_lt, toNat_pred positive]
    omega
  constructor
  · intro same
    rw [← cast_residue n positive, same, cast_pred positive]
  · intro minusOne
    exact cast_injective (residue_lt n positive) last
      (by rw [cast_residue n positive, minusOne, cast_pred positive])

theorem length_residues (values : List Word) : (residues m values).length = values.length :=
  List.length_map _

theorem residues_take (count : Nat) (values : List Word) :
    residues m (values.take count) = (residues m values).take count :=
  List.map_take

theorem residues_drop (count : Nat) (values : List Word) :
    residues m (values.drop count) = (residues m values).drop count :=
  List.map_drop

theorem residues_injective {a b : List Word} (ha : ∀ x ∈ a, x < m) (hb : ∀ y ∈ b, y < m)
    (same : residues m a = residues m b) : a = b := by
  induction a generalizing b with
  | nil => exact (List.map_eq_nil_iff.mp same.symm).symm
  | cons x rest ih =>
    cases b with
    | nil => cases same
    | cons y more =>
      rw [residues, residues, List.map_cons, List.map_cons, List.cons.injEq] at same
      rw [cast_injective (ha x (by simp)) (hb y (by simp)) same.1,
        ih (fun x member => ha x (by simp [member])) (fun y member => hb y (by simp [member]))
          same.2]

end Casting

/-- A twiddle that stands for an element of the ring. -/
structure Twiddle.Represents (t : Twiddle) (m : Word) (w : ZMod m.toNat) : Prop where
  reduced : t.factor < m
  companion : t.companion = Residue.companion t.factor m
  value : (t.factor.toNat : ZMod m.toNat) = w

/-- Tables of a transform of length `2 ^ bits`, for a root and its inverse. -/
structure RootTables.Rooted (tables : RootTables) (bits : ℕ)
    (psi psi' : ZMod tables.modulus.toNat) : Prop where
  supported : Modulus.isSupported tables.modulus = true
  length : tables.length = 2 ^ bits
  minusOne : psi ^ 2 ^ bits = -1
  inverses : psi * psi' = 1
  forward : ∀ k, k < 2 ^ bits → ∃ t, RootTables.twiddle tables.forward k = .ok t ∧
    t.Represents tables.modulus (slot psi bits k)
  inverse : ∀ k, k < 2 ^ bits → ∃ t, RootTables.twiddle tables.inverse k = .ok t ∧
    t.Represents tables.modulus (slot psi' bits k)

/-- Tables whose length has an inverse, which undoes the factor that a round trip gives. -/
structure RootTables.Faithful (tables : RootTables) (bits : ℕ)
    (psi psi' : ZMod tables.modulus.toNat) : Prop
    extends tables.Rooted bits psi psi' where
  scale : ∃ u, tables.lengthInverse.Represents tables.modulus u ∧ 2 ^ bits * u = 1

namespace RootTables
variable {m root : Word} {bits : ℕ}

theorem toNat_length (short : bits < 64) : (UInt64.ofNat (2 ^ bits)).toNat = 2 ^ bits :=
  UInt64.toNat_ofNat_of_lt' (Nat.pow_lt_pow_right (by decide) short)

theorem represents_ofFactor {factor : Word} (reduced : factor < m) :
    (Twiddle.ofFactor factor m).Represents m factor.toNat :=
  ⟨reduced, rfl, rfl⟩

theorem powers_eq_ok (supported : Modulus.isSupported m = true) (word : bits < 64) (root : Word) :
    ∃ table : Array Twiddle, powers root (2 ^ bits) m = .ok table ∧ table.size = 2 ^ bits ∧
      ∀ k, k < 2 ^ bits → ∃ t, twiddle table k = .ok t ∧ t.Represents m
        (slot (root.toNat : ZMod m.toNat) bits k) := by
  have positive := Modulus.pos supported
  let entry := fun k => Twiddle.ofFactor (residue (root.toNat ^ bitReverse k bits) m) m
  have each : ∀ k ∈ List.range (2 ^ bits), (do
      let power ← Residue.pow root (UInt64.ofNat (bitReverse k (2 ^ bits).log2)) m
      return Twiddle.ofFactor power m : Checked Twiddle) = .ok (entry k) := by
    intro k _
    have exponent : (UInt64.ofNat (bitReverse k bits)).toNat = bitReverse k bits :=
      UInt64.toNat_ofNat_of_lt'
        (Nat.lt_trans (bitReverse_lt k bits) (Nat.pow_lt_pow_right (by decide) word))
    rw [Nat.log2_two_pow, Residue.pow_eq_ok supported, exponent]
    rfl
  refine ⟨((List.range (2 ^ bits)).map entry).toArray, ?_, by simp,
    fun k inside => ⟨entry k, ?_, ?_⟩⟩
  · rw [powers, mapM_eq_ok each]
    rfl
  · simp [twiddle, inside]
  · have represents := represents_ofFactor (residue_lt (root.toNat ^ bitReverse k bits) positive)
    rw [cast_residue _ positive, Nat.cast_pow] at represents
    exact represents

/-- A number with an odd power that is `-1` modulo `m` has no divisor in common with `m`. -/
theorem coprime_of_minusOne {n : ℕ} (positive : 0 < n)
    (minusOne : (root.toNat : ZMod m.toNat) ^ n = -1) :
    Nat.Coprime root.toNat m.toNat := by
  obtain ⟨n, rfl⟩ := Nat.exists_eq_add_of_lt positive
  rw [← ZMod.isUnit_iff_coprime]
  refine IsUnit.of_mul_eq_one (-(root.toNat : ZMod m.toNat) ^ n) ?_
  rw [Nat.zero_add] at minusOne
  rw [mul_neg, ← pow_succ', minusOne, neg_neg]

theorem inverse_cast (supported : Modulus.isSupported m = true) {a : Word}
    (coprime : Nat.Coprime a.toNat m.toNat) :
    ∃ r, Residue.inverse a m = .ok r ∧ r < m ∧ (a.toNat : ZMod m.toNat) * r.toNat = 1 := by
  have two := Modulus.two_le supported
  have small := Modulus.lt_two_pow supported
  obtain ⟨r, computed, reduced, product, _⟩ := Residue.inverse_eq_ok two (by omega) a
  refine ⟨r, computed, reduced, ?_⟩
  have one : a.toNat * r.toNat % m.toNat = 1 % m.toNat := by
    rw [product coprime, Nat.mod_eq_of_lt two]
  have cast := (ZMod.natCast_eq_natCast_iff' _ _ _).mpr one
  rwa [Nat.cast_mul, Nat.cast_one] at cast

theorem refuseRoot_ne_ok (root : Word) (length : ℕ) (m : Word) (a : PUnit) :
    refuseRoot root length m ≠ .ok a := by
  intro accepted
  obtain ⟨_, _, accepted⟩ := bind_eq_ok.mp accepted
  cases accepted

/-- What has been checked and computed when tables are built. -/
theorem ofRoot_eq_ok {length : ℕ} {tables : RootTables}
    (built : ofRoot root length m = .ok tables) :
    Modulus.isSupported m = true ∧ ∃ bits, bits < 60 ∧ length = 2 ^ bits ∧
      Residue.pow root (UInt64.ofNat length) m = .ok (m - 1) ∧
      ∃ rootInverse lengthInverse, Residue.inverse root m = .ok rootInverse ∧
        Residue.inverse (UInt64.ofNat length) m = .ok lengthInverse ∧
        ∃ forward inverse, powers root length m = .ok forward ∧
          powers rootInverse length m = .ok inverse ∧
          tables = ⟨m, root, forward, inverse, Twiddle.ofFactor lengthInverse m⟩ := by
  obtain ⟨admitted, built⟩ := guard_eq_ok.mp built
  obtain ⟨shape, built⟩ := guard_eq_ok.mp built
  obtain ⟨_, built⟩ := (refusal_eq_ok (refuseRoot_ne_ok _ _ _)).mp built
  obtain ⟨power, raised, built⟩ := bind_eq_ok.mp built
  obtain ⟨minusOne, built⟩ := (refusal_eq_ok (refuseRoot_ne_ok _ _ _)).mp built
  obtain ⟨rootInverse, inverted, built⟩ := bind_eq_ok.mp built
  obtain ⟨_, fits, built⟩ := bind_eq_ok.mp built
  obtain ⟨lengthInverse, lengthInverted, built⟩ := bind_eq_ok.mp built
  obtain ⟨forward, listed, built⟩ := bind_eq_ok.mp built
  obtain ⟨inverse, listedInverse, built⟩ := bind_eq_ok.mp built
  cases built
  obtain ⟨bits, rfl⟩ : ∃ bits, length = 2 ^ bits :=
    ⟨length.log2, isPowerOfTwo_iff.mp (by simpa using (not_or.mp shape).2)⟩
  have short : 8 * 2 ^ bits < 9223372036854775808 := Checked.buffer_eq_ok_iff.mp (lift_eq_ok fits)
  refine ⟨by simpa using admitted, bits, ?_, rfl, ?_, rootInverse, lengthInverse,
    lift_eq_ok inverted,
    lift_eq_ok lengthInverted, forward, inverse, lift_eq_ok listed, lift_eq_ok listedInverse, rfl⟩
  · refine (Nat.pow_lt_pow_iff_right (a := 2) (by decide)).mp ?_
    omega
  · rw [lift_eq_ok raised, not_not.mp minusOne]

theorem minusOne_of_pow (supported : Modulus.isSupported m = true) (short : bits < 64)
    (raised : Residue.pow root (UInt64.ofNat (2 ^ bits)) m = .ok (m - 1)) :
    (root.toNat : ZMod m.toNat) ^ 2 ^ bits = -1 := by
  have positive := Modulus.pos supported
  rw [Residue.pow_eq_ok supported, toNat_length short, Except.ok.injEq,
    residue_eq_pred_iff positive] at raised
  rwa [Nat.cast_pow] at raised

theorem ofRoot_rooted {tables : RootTables} (built : ofRoot root (2 ^ bits) m = .ok tables) :
    tables.modulus = m ∧ ∃ psi', tables.Rooted bits root.toNat psi' := by
  obtain ⟨supported, other, word, same, raised, rootInverse, lengthInverse, inverted, _, forward,
    inverse, listed,
    listedInverse, rfl⟩ := ofRoot_eq_ok built
  obtain rfl : bits = other := Nat.pow_right_injective (Nat.le_refl 2) same
  have short : bits < 64 := by omega
  have least := minusOne_of_pow supported short raised
  obtain ⟨r, computed, _, unit⟩ :=
    inverse_cast supported (coprime_of_minusOne (Nat.two_pow_pos bits) least)
  cases computed.symm.trans inverted
  obtain ⟨table, made, size, entries⟩ := powers_eq_ok supported short root
  obtain ⟨tableInverse, madeInverse, _, entriesInverse⟩ := powers_eq_ok supported short rootInverse
  cases made.symm.trans listed
  cases madeInverse.symm.trans listedInverse
  exact ⟨rfl, rootInverse.toNat, supported, size, least, unit, entries, entriesInverse⟩

/-- Under an odd modulus the length has an inverse. -/
theorem lengthInverse_of_odd (supported : Modulus.isSupported m = true) (short : bits < 64)
    (odd : m.toNat % 2 = 1) :
    ∃ u, Residue.inverse (UInt64.ofNat (2 ^ bits)) m = .ok u ∧ u < m ∧
      (2 : ZMod m.toNat) ^ bits * u.toNat = 1 := by
  have coprime : Nat.Coprime (UInt64.ofNat (2 ^ bits)).toNat m.toNat := by
    rw [toNat_length short]
    exact Nat.Coprime.pow_left bits (Nat.coprime_two_left.mpr (Nat.odd_iff.mpr odd))
  obtain ⟨u, computed, reduced, unit⟩ := inverse_cast supported coprime
  rw [toNat_length short, Nat.cast_pow] at unit
  exact ⟨u, computed, reduced, unit⟩

/-- Tables that are built under an odd modulus are faithful. -/
theorem ofRoot_faithful {length : ℕ} {tables : RootTables} (odd : m.toNat % 2 = 1)
    (built : ofRoot root length m = .ok tables) :
    tables.modulus = m ∧ ∃ bits, length = 2 ^ bits ∧ ∃ psi psi', tables.Faithful bits psi psi' := by
  obtain ⟨supported, bits, word, rfl, _, _, lengthInverse, _, lengthInverted, _, _, _, _, rfl⟩ :=
    ofRoot_eq_ok built
  obtain ⟨_, psi', rooted⟩ := ofRoot_rooted built
  obtain ⟨u, computed, reduced, unit⟩ :=
    lengthInverse_of_odd supported (show bits < 64 by omega) odd
  cases computed.symm.trans lengthInverted
  exact ⟨rfl, bits, rfl, root.toNat, psi', rooted, lengthInverse.toNat,
    represents_ofFactor reduced, unit⟩

end RootTables
end BankedRing
