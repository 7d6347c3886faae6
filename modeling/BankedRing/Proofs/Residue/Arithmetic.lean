import BankedRing.Proofs.Residue.Modulus
import BankedRing.Residue.Operation

/-! Arithmetic of residues is exact. Every operation on reduced operands ends without a
trap in the residue of the number that it computes; both estimates of a quotient are at
most one too small, so that one conditional subtraction makes up for them. -/
namespace BankedRing

/-- The residue of a number as a word. -/
def residue (n : Nat) (m : Word) : Word := UInt64.ofNat (n % m.toNat)

section Residues
variable {m : Word}

theorem toNat_residue (n : Nat) (positive : 0 < m.toNat) : (residue n m).toNat = n % m.toNat := by
  have small := Nat.lt_trans (Nat.mod_lt n positive) m.toNat_lt
  rw [residue, UInt64.toNat_ofNat', Nat.mod_eq_of_lt small]

theorem residue_lt (n : Nat) (positive : 0 < m.toNat) : residue n m < m := by
  rw [UInt64.lt_iff_toNat_lt, toNat_residue n positive]
  exact Nat.mod_lt n positive

theorem residue_toNat {x : Word} (h : x < m) : residue x.toNat m = x := by
  rw [residue, Nat.mod_eq_of_lt (UInt64.lt_iff_toNat_lt.mp h), UInt64.ofNat_toNat]

theorem residue_congr {a b : Nat} (h : a % m.toNat = b % m.toNat) : residue a m = residue b m := by
  rw [residue, h, residue]

theorem rem_eq_ok (positive : 0 < m.toNat) (x : Word) :
    Checked.rem x m = .ok (residue x.toNat m) := by
  rw [Checked.rem, if_neg (ne_zero_of_pos positive), residue, ← UInt64.toNat_mod,
    UInt64.ofNat_toNat]

theorem subtract_once {n : Nat} (twice : n < 2 * m.toNat) (word : n < 2 ^ 64) :
    (if m ≤ UInt64.ofNat n then UInt64.ofNat n - m else UInt64.ofNat n) = residue n m := by
  have value : (UInt64.ofNat n).toNat = n := by rw [UInt64.toNat_ofNat', Nat.mod_eq_of_lt word]
  simp only [UInt64.le_iff_toNat_le, value]
  split
  · rename_i above
    apply UInt64.toNat_inj.mp
    rw [UInt64.toNat_sub_of_le _ _ (by rw [UInt64.le_iff_toNat_le, value]; exact above), value,
      toNat_residue n (by omega), Nat.mod_eq_sub_mod above, Nat.mod_eq_of_lt (by omega)]
  · rename_i below
    rw [residue, Nat.mod_eq_of_lt (by omega)]

end Residues

theorem ofNat_sub_ofNat {a b d : Nat} (h : a = b + d) :
    UInt64.ofNat a - UInt64.ofNat b = UInt64.ofNat d := by
  rw [h, UInt64.ofNat_add, UInt64.add_comm, UInt64.add_sub_cancel]

namespace Residue
variable {m : Word}

theorem reduce_eq_ok (x : Word) (positive : 0 < m.toNat) :
    reduce x m = .ok (residue x.toNat m) := by
  unfold reduce
  split
  · exact rem_eq_ok positive x
  · rename_i below
    rw [residue_toNat (UInt64.not_le.mp below)]
    rfl

/-- The subtraction is made where it can be, so it never stops. -/
theorem subtractOnce_eq_ok (x : Word) : subtractOnce x m = .ok (if m ≤ x then x - m else x) := by
  unfold subtractOnce
  split
  · exact Checked.sub_eq_ok (UInt64.le_iff_toNat_le.mp ‹_›)
  · rfl

theorem addReduced_eq_ok {a b : Word} (half : m.toNat ≤ 2 ^ 63) (ha : a < m) (hb : b < m) :
    addReduced a b m = .ok (residue (a.toNat + b.toNat) m) := by
  rw [UInt64.lt_iff_toNat_lt] at ha hb
  have sum : a + b = UInt64.ofNat (a.toNat + b.toNat) := by
    rw [UInt64.ofNat_add, UInt64.ofNat_toNat, UInt64.ofNat_toNat]
  rw [addReduced, Checked.add_eq_ok (by simp only [UInt64.size]; omega), sum,
    ← subtract_once (by omega) (by omega)]
  exact subtractOnce_eq_ok _

theorem subReduced_eq_ok {a b : Word} (half : m.toNat ≤ 2 ^ 63) (ha : a < m) (hb : b < m) :
    subReduced a b m = .ok (residue (a.toNat + (m.toNat - b.toNat)) m) := by
  rw [UInt64.lt_iff_toNat_lt] at ha hb
  unfold subReduced
  split
  · rename_i below
    rw [UInt64.lt_iff_toNat_lt] at below
    have sum : (a + m).toNat = a.toNat + m.toNat := by
      rw [UInt64.toNat_add, Nat.mod_eq_of_lt (by omega)]
    rw [Checked.add_eq_ok (by simp only [UInt64.size]; omega)]
    simp only [bind, Except.bind]
    rw [Checked.sub_eq_ok (by omega)]
    congr 1
    apply UInt64.toNat_inj.mp
    rw [UInt64.toNat_sub_of_le _ _ (by rw [UInt64.le_iff_toNat_le]; omega), sum,
      toNat_residue _ (by omega), Nat.mod_eq_of_lt (by omega)]
    omega
  · rename_i above
    rw [UInt64.lt_iff_toNat_lt] at above
    rw [Checked.sub_eq_ok (by omega)]
    congr 1
    apply UInt64.toNat_inj.mp
    rw [UInt64.toNat_sub_of_le _ _ (by rw [UInt64.le_iff_toNat_le]; omega),
      toNat_residue _ (by omega),
      show a.toNat + (m.toNat - b.toNat) = a.toNat - b.toNat + m.toNat by omega, Nat.add_mod_right,
      Nat.mod_eq_of_lt (by omega)]

section Estimate
variable {x m t s : Nat} (scale : 0 < t * s)
include scale

theorem barrett_le : x / t * (t * s / m) / s * m ≤ x := by
  generalize hMu : t * s / m = mu
  generalize hQ : x / t * mu / s = q
  have cut : x / t * t ≤ x := Nat.div_mul_le_self x t
  have muLow : mu * m ≤ t * s := hMu ▸ Nat.div_mul_le_self _ m
  have qLow : q * s ≤ x / t * mu := hQ ▸ Nat.div_mul_le_self _ s
  apply Nat.le_of_mul_le_mul_right _ scale
  calc q * m * (t * s) = q * s * (m * t) := by ring
    _ ≤ x / t * mu * (m * t) := Nat.mul_le_mul_right _ qLow
    _ = x / t * t * (mu * m) := by ring
    _ ≤ x * (t * s) := Nat.mul_le_mul cut muLow

variable (positive : 0 < m)
include positive

/-- The roundings of the operand and of the constant lose at most `x m + t (t s)`. -/
theorem barrett_rounded : x * (t * s) ≤ x / t * t * (t * s / m * m) + (x * m + t * (t * s)) := by
  have tPos : 0 < t := Nat.pos_of_mul_pos_right scale
  generalize hA : x / t = A
  generalize hMu : t * s / m = mu
  have aLow : A * t ≤ x := hA ▸ Nat.div_mul_le_self x t
  have aHigh : x < A * t + t := by
    rw [← Nat.succ_mul, ← hA, Nat.mul_comm]
    exact Nat.lt_mul_div_succ x tPos
  have muHigh : t * s < mu * m + m := by
    rw [← Nat.succ_mul, ← hMu, Nat.mul_comm (Nat.succ _)]
    exact Nat.lt_mul_div_succ _ positive
  calc x * (t * s) ≤ (A * t + t) * (t * s) := Nat.mul_le_mul_right _ (Nat.le_of_lt aHigh)
    _ = A * t * (t * s) + t * (t * s) := by ring
    _ ≤ A * t * (mu * m + m) + t * (t * s) :=
        Nat.add_le_add_right (Nat.mul_le_mul_left _ (Nat.le_of_lt muHigh)) _
    _ = A * t * (mu * m) + A * t * m + t * (t * s) := by ring
    _ ≤ A * t * (mu * m) + (x * m + t * (t * s)) := by
        have := Nat.mul_le_mul_right m aLow
        omega

theorem lt_barrett (low : 2 * t ≤ m) (wide : 8 * (m * m) ≤ t * s) (below : x < m * m) :
    x < (x / t * (t * s / m) / s + 2) * m := by
  have sPos : 0 < s := Nat.pos_of_mul_pos_left scale
  have tPos : 0 < t := Nat.pos_of_mul_pos_right scale
  have rounded := barrett_rounded (x := x) scale positive
  generalize t * s / m = mu at rounded ⊢
  generalize hQ : x / t * mu / s = q
  have qHigh : x / t * mu < (q + 1) * s := by
    rw [← hQ, Nat.mul_comm (_ + 1)]
    exact Nat.lt_mul_div_succ _ sPos
  apply Nat.lt_of_mul_lt_mul_right (a := t * s)
  -- What the roundings lose is less than `(1/8 + 1/2) m (t s)`.
  have lossX : 8 * (x * m) ≤ m * (t * s) := by
    calc 8 * (x * m) ≤ 8 * (m * m * m) :=
          Nat.mul_le_mul_left 8 (Nat.mul_le_mul_right m (Nat.le_of_lt below))
      _ = m * (8 * (m * m)) := by ring
      _ ≤ m * (t * s) := Nat.mul_le_mul_left m wide
  have lossT : 2 * (t * (t * s)) ≤ m * (t * s) := by
    calc 2 * (t * (t * s)) = 2 * t * (t * s) := by ring
      _ ≤ m * (t * s) := Nat.mul_le_mul_right _ low
  have estimate : x / t * t * (mu * m) < (q + 1) * m * (t * s) := by
    calc x / t * t * (mu * m) = x / t * mu * (m * t) := by ring
      _ < (q + 1) * s * (m * t) := Nat.mul_lt_mul_of_pos_right qHigh (Nat.mul_pos positive tPos)
      _ = (q + 1) * m * (t * s) := by ring
  have expand : (q + 2) * m * (t * s) = (q + 1) * m * (t * s) + m * (t * s) := by ring
  omega

end Estimate

/-- Barrett's estimate of `⌊x / m⌋` is never too large and at most one too small. Its shifts by
`k` and by `k + 7` make up the scale `2 ^ (2 k + 7)` of the constant. -/
theorem barrettQuotient_eq_ok (supported : Modulus.isSupported m = true) {x : DoubleWord}
    (below : x.toNat < m.toNat * m.toNat) :
    ∃ q, barrettQuotient x m (UInt64.ofNat (Modulus.reciprocal m)) = .ok (UInt64.ofNat q) ∧
      q * m.toNat ≤ x.toNat ∧ x.toNat < (q + 2) * m.toNat := by
  have bits := Modulus.two_le_bitLength supported
  have top := Modulus.bitLength_le_sixty supported
  have least := two_pow_bitLength_le (Modulus.ne_zero supported)
  have above := lt_two_pow_bitLength m
  obtain ⟨k, hk⟩ : ∃ k, bitLength m = k + 2 := ⟨bitLength m - 2, by omega⟩
  have low : 2 * 2 ^ k ≤ m.toNat := by
    rw [hk, show k + 2 - 1 = k + 1 by omega, Nat.pow_succ] at least
    omega
  have scale : 2 ^ k * 2 ^ (k + 7) = 2 ^ (2 * bitLength m + 3) := by
    rw [← Nat.pow_add, hk]
    congr 1
    omega
  have square : m.toNat * m.toNat ≤ 2 ^ (k + 2) * 2 ^ (k + 2) :=
    Nat.mul_le_mul (by rw [← hk]; omega) (by rw [← hk]; omega)
  have wide : 8 * (m.toNat * m.toNat) ≤ 2 ^ k * 2 ^ (k + 7) := by
    calc 8 * (m.toNat * m.toNat) ≤ 2 ^ 3 * (2 ^ (k + 2) * 2 ^ (k + 2)) :=
           Nat.mul_le_mul_left _ square
      _ = 2 ^ k * 2 ^ (k + 7) := by simp only [← Nat.pow_add]; congr 1; omega
  have shifted : (x.shiftRight k).toNat = x.toNat / 2 ^ k := by
    have fits : x.toNat / 2 ^ k < 2 ^ 64 := by
      rw [Nat.div_lt_iff_lt_mul (Nat.two_pow_pos k)]
      calc x.toNat < m.toNat * m.toNat := below
        _ ≤ 2 ^ (k + 2) * 2 ^ (k + 2) := square
        _ = 2 ^ (k + 4) * 2 ^ k := by simp only [← Nat.pow_add]; congr 1; omega
        _ ≤ 2 ^ 64 * 2 ^ k := Nat.mul_le_mul_right _ (Nat.pow_le_pow_right (by decide) (by omega))
    rw [DoubleWord.toNat_shiftRight, Nat.mod_eq_of_lt fits]
  have product : x.toNat / 2 ^ k * Modulus.reciprocal m < 2 ^ 128 := by
    have := (x.shiftRight k).toNat_lt
    have := Modulus.reciprocal_lt supported
    calc x.toNat / 2 ^ k * Modulus.reciprocal m ≤ (2 ^ 64 - 1) * (2 ^ 64 - 1) :=
          Nat.mul_le_mul (by omega) (by omega)
      _ < 2 ^ 128 := by decide
  have positive := Modulus.pos supported
  have scaled : 0 < 2 ^ k * 2 ^ (k + 7) := Nat.mul_pos (Nat.two_pow_pos _) (Nat.two_pow_pos _)
  have notAbove := barrett_le (x := x.toNat) (m := m.toNat) scaled
  have atMostOne := lt_barrett scaled positive low wide below
  rw [scale, ← Modulus.reciprocal] at notAbove atMostOne
  refine ⟨_, ?_, notAbove, atMostOne⟩
  simp only [barrettQuotient, hk, show ¬ k + 2 < 2 by omega, if_false, Nat.add_sub_cancel,
    DoubleWord.product_eq_ok, shifted, Modulus.toNat_ofNat_reciprocal supported, bind, Except.bind,
    pure, Except.pure, Except.ok.injEq]
  apply UInt64.toNat_inj.mp
  rw [DoubleWord.toNat_shiftRight, DoubleWord.toNat_ofNat product, UInt64.toNat_ofNat']

/-- Below the square of the modulus the reduction is exact. -/
theorem barrettReduce_eq_ok (supported : Modulus.isSupported m = true) {x : DoubleWord}
    (below : x.toNat < m.toNat * m.toNat) :
    barrettReduce x m (UInt64.ofNat (Modulus.reciprocal m)) = .ok (residue x.toNat m) := by
  have small := Modulus.lt_two_pow supported
  obtain ⟨q, quotient, notAbove, atMostOne⟩ := barrettQuotient_eq_ok supported below
  obtain ⟨difference, hd⟩ := Nat.exists_eq_add_of_le notAbove
  have twice : difference < 2 * m.toNat := by
    rw [Nat.add_mul] at atMostOne
    omega
  have low : x.lo - UInt64.ofNat q * m = UInt64.ofNat difference := by
    have product : UInt64.ofNat q * m = UInt64.ofNat (q * m.toNat) := by
      rw [UInt64.ofNat_mul, UInt64.ofNat_toNat]
    rw [DoubleWord.lo_eq, product, ofNat_sub_ofNat hd]
  have same : residue x.toNat m = residue difference m := by
    apply residue_congr
    rw [hd, Nat.add_comm, Nat.add_mul_mod_self_right]
  rw [same, ← subtract_once twice (by omega)]
  simp only [barrettReduce, quotient, bind, Except.bind, low, subtractOnce_eq_ok]

theorem mulReduced_eq_ok (supported : Modulus.isSupported m = true) {a b : Word} (ha : a < m)
    (hb : b < m) :
    mulReduced a b m (UInt64.ofNat (Modulus.reciprocal m)) =
      .ok (residue (a.toNat * b.toNat) m) := by
  rw [UInt64.lt_iff_toNat_lt] at ha hb
  have below : a.toNat * b.toNat < m.toNat * m.toNat := Nat.mul_lt_mul'' ha hb
  have small := Modulus.lt_two_pow supported
  have double : a.toNat * b.toNat < 2 ^ 128 := by
    calc a.toNat * b.toNat < m.toNat * m.toNat := below
      _ ≤ 2 ^ 60 * 2 ^ 60 := Nat.mul_le_mul (by omega) (by omega)
      _ < 2 ^ 128 := by decide
  rw [mulReduced, DoubleWord.product_eq_ok]
  simp only [bind, Except.bind]
  rw [barrettReduce_eq_ok supported (by rwa [DoubleWord.toNat_ofNat double]),
    DoubleWord.toNat_ofNat double]

theorem mulReduced_total (supported : Modulus.isSupported m = true) (a b mu : Word) :
    ∃ w, mulReduced a b m mu = .ok w := by
  have bits := Modulus.two_le_bitLength supported
  simp only [mulReduced, barrettReduce, barrettQuotient, DoubleWord.product_eq_ok,
    if_neg (Nat.not_lt.mpr bits),
    bind, Except.bind, pure, Except.pure, subtractOnce_eq_ok]
  exact ⟨_, rfl⟩

/-- Shoup's estimate of `⌊a w / m⌋` is never too large and at most one too small. -/
theorem shoup_estimate {a w m r : Nat} (positive : 0 < m) (word : a ≤ r) (rPos : 0 < r) :
    a * (w * r / m) / r * m ≤ a * w ∧ a * w < (a * (w * r / m) / r + 2) * m := by
  generalize hc : w * r / m = c
  generalize hq : a * c / r = q
  have cLow : c * m ≤ w * r := hc ▸ Nat.div_mul_le_self _ m
  have cHigh : w * r < (c + 1) * m := by
    rw [← hc, Nat.mul_comm (_ + 1)]; exact Nat.lt_mul_div_succ _ positive
  have qLow : q * r ≤ a * c := hq ▸ Nat.div_mul_le_self _ r
  have qHigh : a * c < (q + 1) * r := by
    rw [← hq, Nat.mul_comm (_ + 1)]; exact Nat.lt_mul_div_succ _ rPos
  constructor
  · refine Nat.le_of_mul_le_mul_right ?_ rPos
    calc q * m * r = q * r * m := by ring
      _ ≤ a * c * m := Nat.mul_le_mul_right m qLow
      _ = a * (c * m) := by ring
      _ ≤ a * (w * r) := Nat.mul_le_mul_left a cLow
      _ = a * w * r := by ring
  · refine Nat.lt_of_mul_lt_mul_right (a := r) ?_
    calc a * w * r = a * (w * r) := by ring
      _ ≤ a * ((c + 1) * m) := Nat.mul_le_mul_left a (Nat.le_of_lt cHigh)
      _ = a * c * m + a * m := by ring
      _ ≤ a * c * m + r * m := Nat.add_le_add_left (Nat.mul_le_mul_right m word) _
      _ < (q + 1) * r * m + r * m :=
          Nat.add_lt_add_right (Nat.mul_lt_mul_of_pos_right qHigh positive) _
      _ = (q + 2) * m * r := by ring

theorem toNat_companion {w : Word} (positive : 0 < m.toNat) (h : w < m) :
    (companion w m).toNat = w.toNat * UInt64.size / m.toNat := by
  rw [UInt64.lt_iff_toNat_lt] at h
  have value : (DoubleWord.mk w 0).toNat = w.toNat * UInt64.size := by simp [DoubleWord.toNat]
  have small : w.toNat * UInt64.size / m.toNat < 2 ^ 64 := by
    rw [Nat.div_lt_iff_lt_mul positive, Nat.mul_comm (2 ^ 64)]
    exact Nat.mul_lt_mul_of_pos_right h (by decide)
  rw [companion, DoubleWord.divide_eq _ positive, value]
  simp only [DoubleWord.ofNat]
  rw [UInt64.toNat_ofNat', Nat.mod_eq_of_lt small]

/-- The product with a fixed factor is exact for every other factor, reduced or not. -/
theorem mulFixed_eq_ok (half : m.toNat ≤ 2 ^ 63) {w : Word} (hw : w < m) (a : Word) :
    mulFixed a w m (companion w m) = .ok (residue (a.toNat * w.toNat) m) := by
  have positive : 0 < m.toNat := by
    rw [UInt64.lt_iff_toNat_lt] at hw
    omega
  obtain ⟨notAbove, atMostOne⟩ := shoup_estimate (a := a.toNat) (w := w.toNat) (r := UInt64.size)
    positive (Nat.le_of_lt a.toNat_lt) (by decide)
  rw [← toNat_companion positive hw] at notAbove atMostOne
  generalize hq : a.toNat * (companion w m).toNat / UInt64.size = q at notAbove atMostOne
  obtain ⟨difference, hd⟩ := Nat.exists_eq_add_of_le notAbove
  have twice : difference < 2 * m.toNat := by
    rw [Nat.add_mul] at atMostOne
    omega
  have low : a * w - UInt64.ofNat q * m = UInt64.ofNat difference := by
    have product : a * w = UInt64.ofNat (a.toNat * w.toNat) := by
      rw [UInt64.ofNat_mul, UInt64.ofNat_toNat, UInt64.ofNat_toNat]
    have multiple : UInt64.ofNat q * m = UInt64.ofNat (q * m.toNat) := by
      rw [UInt64.ofNat_mul, UInt64.ofNat_toNat]
    rw [product, multiple, ofNat_sub_ofNat hd]
  have same : residue (a.toNat * w.toNat) m = residue difference m := by
    apply residue_congr
    rw [hd, Nat.add_comm, Nat.add_mul_mod_self_right]
  rw [same, ← subtract_once twice (by omega)]
  simp only [mulFixed, DoubleWord.productHigh_eq_ok, hq, bind, Except.bind, low, subtractOnce_eq_ok]

/-- Square and multiply holds the power by the bits of the exponent read so far. -/
theorem powFrom_eq_ok (supported : Modulus.isSupported m = true) (base : Nat) (exponent : Word)
    (remaining : Nat) (power : Word) (bits : remaining ≤ 64)
    (read : power = residue (base ^ (exponent.toNat / 2 ^ remaining)) m) :
    powFrom (residue base m) exponent m (UInt64.ofNat (Modulus.reciprocal m)) remaining power =
      .ok (residue (base ^ exponent.toNat) m) := by
  have positive := Modulus.pos supported
  induction remaining generalizing power with
  | zero =>
    rw [read, Nat.pow_zero, Nat.div_one]
    rfl
  | succ position ih =>
    have next : exponent.toNat / 2 ^ position =
        2 * (exponent.toNat / 2 ^ (position + 1)) + exponent.toNat / 2 ^ position % 2 := by
      rw [Nat.pow_succ, ← Nat.div_div_eq_div_mul]
      omega
    have bit : (exponent >>> position.toUInt64) &&& 1 = 1 ↔
        exponent.toNat / 2 ^ position % 2 = 1 := by
      rw [← UInt64.toNat_inj, UInt64.toNat_and, DoubleWord.toNat_shiftRight_word _ (by omega),
        UInt64.toNat_one, Nat.and_one_is_mod]
    generalize exponent.toNat / 2 ^ (position + 1) = high at read next
    have reduced : power < m := read ▸ residue_lt _ positive
    have square : residue (power.toNat * power.toNat) m = residue (base ^ (2 * high)) m := by
      apply residue_congr
      rw [read, toNat_residue _ positive, ← Nat.mul_mod, Nat.two_mul, Nat.pow_add base high high]
    rw [powFrom, mulReduced_eq_ok supported reduced reduced, square]
    simp only [bind, Except.bind, Checked.shiftRight_eq_ok (show position < 64 by omega), bit]
    split
    · rename_i odd
      rw [mulReduced_eq_ok supported (residue_lt _ positive) (residue_lt _ positive)]
      refine ih _ (by omega) ?_
      rw [odd] at next
      apply residue_congr
      rw [toNat_residue _ positive, toNat_residue _ positive, ← Nat.mul_mod, next, Nat.pow_succ]
    · rename_i even
      have next : exponent.toNat / 2 ^ position = 2 * high := by omega
      exact ih _ (by omega) (by rw [next])

theorem pow_eq_ok (supported : Modulus.isSupported m = true) (b e : Word) :
    pow b e m = .ok (residue (b.toNat ^ e.toNat) m) := by
  have positive := Modulus.pos supported
  have start : residue (1 : Word).toNat m =
      residue (b.toNat ^ (e.toNat / 2 ^ bitLength e)) m := by
    rw [Nat.div_eq_of_lt (lt_two_pow_bitLength e), Nat.pow_zero, UInt64.toNat_one]
  rw [pow, Modulus.barrettConstant_eq_ok supported]
  simp only [bind, Except.bind, reduce_eq_ok _ positive]
  exact powFrom_eq_ok supported b.toNat e _ _ (bitLength_le e.toNat_lt) start

end Residue

namespace Family

/-- The number that a family computes from two reduced operands; a difference is taken
from a sum with the modulus. -/
def number (family : Family) (m x y : Nat) : Nat :=
  match family with
  | .add => x + y
  | .sub => x + (m - y)
  | .mul => x * y

/-- The same in a ring. -/
def inRing {R : Type} [Add R] [Sub R] [Mul R] (family : Family) (x y : R) : R :=
  match family with
  | .add => x + y
  | .sub => x - y
  | .mul => x * y

theorem number_emod (family : Family) {m x y : Nat} (h : y < m) :
    ((family.number m x y % m : Nat) : Int) = family.inRing (x : Int) y % m := by
  cases family with
  | add | mul => simp [number, inRing]
  | sub =>
    have : ((x + (m - y) : Nat) : Int) = (x - y : Int) + m := by omega
    simp only [number, inRing, Int.natCast_emod, this, Int.add_emod_right]

/-- The constant that a family needs: products take Barrett's, the others none. -/
def constant (family : Family) (m : Word) : Word :=
  match family with
  | .mul => UInt64.ofNat (Modulus.reciprocal m)
  | _ => 0

theorem apply_eq_ok (family : Family) {m x y : Word} (supported : Modulus.isSupported m = true)
    (hx : x < m) (hy : y < m) :
    family.apply m (family.constant m) x y =
      .ok (residue (family.number m.toNat x.toNat y.toNat) m) := by
  have half : m.toNat ≤ 2 ^ 63 := by have := Modulus.lt_two_pow supported; omega
  cases family with
  | add => exact Residue.addReduced_eq_ok half hx hy
  | sub => exact Residue.subReduced_eq_ok half hx hy
  | mul => exact Residue.mulReduced_eq_ok supported hx hy

theorem apply_total (family : Family) {m x y : Word} (supported : Modulus.isSupported m = true)
    (hx : x < m) (hy : y < m) (mu : Word) : ∃ w, family.apply m mu x y = .ok w := by
  cases family with
  | add => exact ⟨_, apply_eq_ok .add supported hx hy⟩
  | sub => exact ⟨_, apply_eq_ok .sub supported hx hy⟩
  | mul => exact Residue.mulReduced_total supported x y mu

end Family
end BankedRing
