import BankedRing.Word.Double
import Mathlib.Tactic.Ring
import Mathlib.Tactic.Linarith

/-! Double words compute exactly: products, shifts, sums and quotients agree with the
numbers they stand for. -/
namespace BankedRing.DoubleWord

/-- The double word of a number, cut to the double radix. -/
def ofNat (n : Nat) : DoubleWord := ⟨UInt64.ofNat (n / UInt64.size), UInt64.ofNat n⟩

theorem toNat_lt (x : DoubleWord) : x.toNat < 2 ^ 128 := by
  have hi := x.hi.toNat_lt
  have lo := x.lo.toNat_lt
  simp only [toNat, UInt64.size]
  omega

theorem toNat_ofNat {n : Nat} (h : n < 2 ^ 128) : (ofNat n).toNat = n := by
  have quotient : n / UInt64.size < 2 ^ 64 := by simp only [UInt64.size]; omega
  simp only [ofNat, toNat, UInt64.toNat_ofNat', Nat.mod_eq_of_lt quotient]
  exact Nat.div_add_mod' n UInt64.size

theorem lo_eq (x : DoubleWord) : x.lo = UInt64.ofNat x.toNat := by
  apply UInt64.toNat_inj.mp
  have lo := x.lo.toNat_lt
  simp only [toNat, UInt64.size, UInt64.toNat_ofNat']
  omega

theorem hi_eq (x : DoubleWord) : x.hi = UInt64.ofNat (x.toNat / UInt64.size) := by
  apply UInt64.toNat_inj.mp
  have hi := x.hi.toNat_lt
  have lo := x.lo.toNat_lt
  simp only [toNat, UInt64.size, UInt64.toNat_ofNat']
  omega

theorem ofNat_toNat (x : DoubleWord) : ofNat x.toNat = x := by
  rw [ofNat, ← lo_eq, ← hi_eq]

theorem eq_of_toNat_eq {x y : DoubleWord} (h : x.toNat = y.toNat) : x = y := by
  rw [← ofNat_toNat x, h, ofNat_toNat]

@[simp] theorem toNat_lowHalf (x : Word) : (lowHalf x).toNat = x.toNat % 2 ^ 32 := by
  simp only [lowHalf, UInt64.toNat_and]
  exact Nat.and_two_pow_sub_one_eq_mod x.toNat 32

@[simp] theorem toNat_highHalf (x : Word) : (highHalf x).toNat = x.toNat / 2 ^ 32 := by
  simp only [highHalf, UInt64.toNat_shiftRight]
  exact Nat.shiftRight_eq_div_pow x.toNat 32

/-- A half word below a shifted word: no bit of one meets a bit of the other. -/
theorem toNat_lowHalf_or (x y : Word) (h : y.toNat < 2 ^ 32) :
    (y ||| (x <<< 32)).toNat = y.toNat + x.toNat * 2 ^ 32 % 2 ^ 64 := by
  have shifted : (x <<< 32).toNat = 2 ^ 32 * (x.toNat % 2 ^ 32) := by
    rw [UInt64.toNat_shiftLeft]
    have amount : (32 : UInt64).toNat % 64 = 32 := by decide
    rw [amount, Nat.shiftLeft_eq]
    omega
  rw [UInt64.toNat_or, shifted, Nat.or_comm, ← Nat.two_pow_add_eq_or_of_lt h]
  omega

theorem mul_half {a b : Word} (ha : a.toNat < 2 ^ 32) (hb : b.toNat < 2 ^ 32) :
    Checked.mul a b = .ok (a * b) ∧ (a * b).toNat = a.toNat * b.toNat ∧
      a.toNat * b.toNat ≤ (2 ^ 32 - 1) * (2 ^ 32 - 1) := by
  have bound : a.toNat * b.toNat ≤ (2 ^ 32 - 1) * (2 ^ 32 - 1) :=
    Nat.mul_le_mul (by omega) (by omega)
  have fits : a.toNat * b.toNat < UInt64.size := by simp only [UInt64.size]; omega
  refine ⟨Checked.mul_eq_ok fits, ?_, bound⟩
  rw [UInt64.toNat_mul, Nat.mod_eq_of_lt (by simpa using fits)]

theorem add_exact {a b : Word} (h : a.toNat + b.toNat < 2 ^ 64) :
    Checked.add a b = .ok (a + b) ∧ (a + b).toNat = a.toNat + b.toNat := by
  refine ⟨Checked.add_eq_ok (by simpa [UInt64.size] using h), ?_⟩
  rw [UInt64.toNat_add, Nat.mod_eq_of_lt h]

/-- The four partial products of the half words, summed by columns. -/
theorem columns (a b : Nat) :
    a * b = a % 2 ^ 32 * (b % 2 ^ 32) + (a % 2 ^ 32 * (b / 2 ^ 32) + a / 2 ^ 32 * (b % 2 ^ 32)) *
      2 ^ 32 +
      a / 2 ^ 32 * (b / 2 ^ 32) * 2 ^ 64 := by
  conv_lhs => rw [← Nat.div_add_mod a (2 ^ 32), ← Nat.div_add_mod b (2 ^ 32)]
  ring

/-- The product is exact, and none of its columns overflows. -/
theorem product_eq_ok (a b : Word) : product a b = .ok (ofNat (a.toNat * b.toNat)) := by
  have ha := a.toNat_lt
  have hb := b.toNat_lt
  have lowA : (lowHalf a).toNat < 2 ^ 32 := by rw [toNat_lowHalf]; omega
  have highA : (highHalf a).toNat < 2 ^ 32 := by rw [toNat_highHalf]; omega
  have lowB : (lowHalf b).toNat < 2 ^ 32 := by rw [toNat_lowHalf]; omega
  have highB : (highHalf b).toNat < 2 ^ 32 := by rw [toNat_highHalf]; omega
  obtain ⟨ok₀, low, bound₀⟩ := mul_half lowA lowB
  obtain ⟨ok₁, cross, bound₁⟩ := mul_half lowA highB
  obtain ⟨ok₂, cross', bound₂⟩ := mul_half highA lowB
  obtain ⟨ok₃, high, bound₃⟩ := mul_half highA highB
  rw [← low] at bound₀
  rw [← cross] at bound₁
  rw [← cross'] at bound₂
  rw [← high] at bound₃
  have sum := columns a.toNat b.toNat
  rw [← toNat_lowHalf, ← toNat_highHalf, ← toNat_lowHalf, ← toNat_highHalf, ← low,
    ← cross, ← cross',
    ← high] at sum
  simp only [product, ok₀, ok₁, ok₂, ok₃, bind, Except.bind]
  generalize lowHalf a * lowHalf b = p₀ at *
  generalize lowHalf a * highHalf b = p₁ at *
  generalize highHalf a * lowHalf b = p₂ at *
  generalize highHalf a * highHalf b = p₃ at *
  obtain ⟨middle₁, eq₁⟩ := add_exact (a := highHalf p₀) (b := lowHalf p₁) (by simp; omega)
  obtain ⟨middle₂, eq₂⟩ := add_exact (a := highHalf p₀ + lowHalf p₁) (b := lowHalf p₂)
    (by rw [eq₁]; simp; omega)
  rw [eq₁] at eq₂
  simp only [middle₁, middle₂]
  generalize highHalf p₀ + lowHalf p₁ + lowHalf p₂ = middle at *
  simp only [toNat_highHalf, toNat_lowHalf] at eq₂
  obtain ⟨high₁, eq₃⟩ := add_exact (a := p₃) (b := highHalf p₁) (by simp; omega)
  obtain ⟨high₂, eq₄⟩ := add_exact (a := p₃ + highHalf p₁) (b := highHalf p₂)
    (by rw [eq₃]; simp; omega)
  obtain ⟨high₃, eq₅⟩ := add_exact (a := p₃ + highHalf p₁ + highHalf p₂) (b := highHalf middle)
    (by rw [eq₄, eq₃]; simp; omega)
  rw [eq₄, eq₃] at eq₅
  simp only [high₁, high₂, high₃, pure, Except.pure, Except.ok.injEq]
  apply eq_of_toNat_eq
  have product : a.toNat * b.toNat < 2 ^ 128 := by
    calc a.toNat * b.toNat ≤ (2 ^ 64 - 1) * (2 ^ 64 - 1) := Nat.mul_le_mul (by omega) (by omega)
      _ < 2 ^ 128 := by decide
  rw [toNat_ofNat product, sum]
  simp only [toNat, toNat_lowHalf_or _ _ (show (lowHalf p₀).toNat <
    2 ^ 32 by rw [toNat_lowHalf]; omega),
    eq₅, toNat_highHalf, toNat_lowHalf, UInt64.size]
  omega

theorem productHigh_eq_ok (a b : Word) :
    productHigh a b = .ok (UInt64.ofNat (a.toNat * b.toNat / UInt64.size)) := by
  rw [productHigh, product_eq_ok]
  rfl

theorem toNat_shiftAmount {amount : Nat} (h : amount < 64) :
    amount.toUInt64.toNat % 64 = amount := by
  have : amount.toUInt64.toNat = amount % 2 ^ 64 := UInt64.toNat_ofNat'
  omega

theorem toNat_shiftRight_word (x : Word) {amount : Nat} (h : amount < 64) :
    (x >>> amount.toUInt64).toNat = x.toNat / 2 ^ amount := by
  rw [UInt64.toNat_shiftRight, toNat_shiftAmount h, Nat.shiftRight_eq_div_pow]

theorem toNat_shiftLeft_word (x : Word) {amount : Nat} (h : amount < 64) :
    (x <<< amount.toUInt64).toNat = x.toNat * 2 ^ amount % 2 ^ 64 := by
  rw [UInt64.toNat_shiftLeft, toNat_shiftAmount h, Nat.shiftLeft_eq]

theorem toNat_one_shiftLeft {amount : Nat} (h : amount < 64) :
    ((1 : Word) <<< amount.toUInt64).toNat = 2 ^ amount := by
  rw [toNat_shiftLeft_word _ h, UInt64.toNat_one, Nat.one_mul,
    Nat.mod_eq_of_lt (Nat.pow_lt_pow_right (by decide) h)]

/-- A shift within a word joins the rest of the low word to the bits that leave the high word. -/
theorem toNat_funnel (x : DoubleWord) {amount : Nat} (positive : 0 < amount) (small : amount < 64) :
    ((x.lo >>> amount.toUInt64) ||| (x.hi <<< (64 - amount).toUInt64)).toNat =
      x.toNat / 2 ^ amount % 2 ^ 64 := by
  have lo := x.lo.toNat_lt
  obtain ⟨rest, total⟩ : ∃ rest, rest + amount = 64 := ⟨64 - amount, by omega⟩
  have complement : 64 - amount = rest := by omega
  have radix : 2 ^ 64 = 2 ^ rest * 2 ^ amount := by rw [← Nat.pow_add, total]
  have below : x.lo.toNat / 2 ^ amount < 2 ^ rest := by
    rw [Nat.div_lt_iff_lt_mul (Nat.two_pow_pos _), ← radix]
    exact lo
  have shifted : x.hi.toNat * 2 ^ rest % 2 ^ 64 = 2 ^ rest * (x.hi.toNat % 2 ^ amount) := by
    rw [radix, Nat.mul_comm, Nat.mul_mod_mul_left]
  have value : x.toNat / 2 ^ amount = x.hi.toNat * 2 ^ rest + x.lo.toNat / 2 ^ amount := by
    rw [toNat, UInt64.size, show 18446744073709551616 = 2 ^ 64 from rfl, radix, ← Nat.mul_assoc,
      Nat.add_comm, Nat.add_mul_div_right _ _ (Nat.two_pow_pos _), Nat.add_comm]
  have cut : x.hi.toNat * 2 ^ rest % 2 ^ 64 + x.lo.toNat / 2 ^ amount < 2 ^ 64 := by
    have top : x.hi.toNat % 2 ^ amount + 1 ≤ 2 ^ amount := Nat.mod_lt _ (Nat.two_pow_pos _)
    have := Nat.mul_le_mul_left (2 ^ rest) top
    rw [shifted, radix]
    rw [Nat.mul_add] at this
    omega
  rw [UInt64.toNat_or, toNat_shiftRight_word _ small, complement,
    toNat_shiftLeft_word _ (by omega), value, Nat.or_comm, shifted,
    ← Nat.two_pow_add_eq_or_of_lt below, ← shifted, Nat.add_mod,
    Nat.mod_eq_of_lt (a := x.lo.toNat / 2 ^ amount) (by omega), Nat.mod_eq_of_lt cut]

/-- Every shift amount gives the low word of the shifted number. -/
theorem toNat_shiftRight (x : DoubleWord) (amount : Nat) :
    (x.shiftRight amount).toNat = x.toNat / 2 ^ amount % 2 ^ 64 := by
  have hi := x.hi.toNat_lt
  have lo := x.lo.toNat_lt
  unfold shiftRight
  split
  · rename_i zero
    simp only [zero, toNat, UInt64.size]
    omega
  split
  · rename_i positive small
    exact x.toNat_funnel (Nat.pos_of_ne_zero positive) small
  split
  · rename_i wide small
    obtain ⟨rest, rfl⟩ : ∃ rest, amount = 64 + rest := ⟨amount - 64, by omega⟩
    have remaining : 64 + rest - 64 = rest := by omega
    have high : x.toNat / 2 ^ 64 = x.hi.toNat := by simp only [toNat, UInt64.size]; omega
    rw [remaining, toNat_shiftRight_word _ (by omega), Nat.pow_add, ← Nat.div_div_eq_div_mul, high,
      Nat.mod_eq_of_lt (Nat.lt_of_le_of_lt (Nat.div_le_self _ _) hi)]
  · rename_i huge
    have small := x.toNat_lt
    have : 2 ^ 128 ≤ 2 ^ amount := Nat.pow_le_pow_right (by decide) (by omega)
    rw [Nat.div_eq_of_lt (by omega)]
    rfl

theorem toNat_add (x y : DoubleWord) : (x.add y).toNat = (x.toNat + y.toNat) % 2 ^ 128 := by
  have hi := x.hi.toNat_lt
  have lo := x.lo.toNat_lt
  have hi' := y.hi.toNat_lt
  have lo' := y.lo.toNat_lt
  simp only [add, toNat, UInt64.size]
  split
  · rename_i carried
    rw [UInt64.lt_iff_toNat_lt, UInt64.toNat_add] at carried
    simp only [UInt64.toNat_add, UInt64.toNat_one]
    omega
  · rename_i kept
    rw [UInt64.lt_iff_toNat_lt, UInt64.toNat_add] at kept
    simp only [UInt64.toNat_add, UInt64.toNat_zero]
    omega

theorem toNat_sub (x y : DoubleWord) :
    ((x.sub y).toNat : Int) = ((x.toNat : Int) - y.toNat) % 2 ^ 128 := by
  have hi := x.hi.toNat_lt
  have lo := x.lo.toNat_lt
  have hi' := y.hi.toNat_lt
  have lo' := y.lo.toNat_lt
  simp only [sub, toNat, UInt64.size]
  split
  · rename_i borrowed
    rw [UInt64.lt_iff_toNat_lt] at borrowed
    simp only [UInt64.toNat_sub, UInt64.toNat_one]
    omega
  · rename_i kept
    rw [UInt64.lt_iff_toNat_lt] at kept
    simp only [UInt64.toNat_sub, UInt64.toNat_zero]
    omega

@[simp] theorem toNat_ofWord (w : Word) : (ofWord w).toNat = w.toNat := by
  simp [ofWord, toNat]

theorem toNat_bit (x : DoubleWord) {position : Nat} (h : position < 128) :
    (x.bit position).toNat = x.toNat / 2 ^ position % 2 := by
  have lo := x.lo.toNat_lt
  unfold bit
  split
  · rename_i high
    obtain ⟨rest, rfl⟩ : ∃ rest, position = 64 + rest := ⟨position - 64, by omega⟩
    have remaining : 64 + rest - 64 = rest := by omega
    have top : x.toNat / 2 ^ 64 = x.hi.toNat := by simp only [toNat, UInt64.size]; omega
    rw [remaining, UInt64.toNat_and, toNat_shiftRight_word _ (by omega), UInt64.toNat_one,
      Nat.and_one_is_mod, Nat.pow_add, ← Nat.div_div_eq_div_mul, top]
  · rename_i low
    obtain ⟨rest, total⟩ : ∃ rest, rest + 1 + position = 64 := ⟨63 - position, by omega⟩
    have radix : UInt64.size = 2 ^ rest * 2 * 2 ^ position := by
      rw [← Nat.pow_succ, ← Nat.pow_add, total]
    rw [UInt64.toNat_and, toNat_shiftRight_word _ (by omega), UInt64.toNat_one, Nat.and_one_is_mod,
      toNat, radix, ← Nat.mul_assoc, Nat.add_comm, Nat.add_mul_div_right _ _ (Nat.two_pow_pos _),
      ← Nat.mul_assoc, Nat.add_mul_mod_self_right]

/-- The high or the low word with one more bit set below all its set bits. -/
theorem toNat_or_bit {x : Word} {position : Nat} (h : position < 64)
    (clear : x.toNat % 2 ^ (position + 1) = 0) :
    (x ||| (1 <<< position.toUInt64)).toNat = x.toNat + 2 ^ position := by
  obtain ⟨q, hq⟩ := Nat.dvd_of_mod_eq_zero clear
  rw [UInt64.toNat_or, toNat_one_shiftLeft h, hq, ← Nat.two_pow_add_eq_or_of_lt
    (Nat.pow_lt_pow_right (by decide) (Nat.lt_succ_self position))]

theorem toNat_set_high {hi lo : Word} {position : Nat} (high : 64 ≤ position) (h : position < 128)
    (clear : (DoubleWord.mk hi lo).toNat % 2 ^ (position + 1) = 0) :
    (DoubleWord.mk (hi ||| (1 <<< (position - 64).toUInt64)) lo).toNat =
      (DoubleWord.mk hi lo).toNat + 2 ^ position := by
  have low := lo.toNat_lt
  obtain ⟨rest, rfl⟩ : ∃ rest, position = 64 + rest := ⟨position - 64, by omega⟩
  have remaining : 64 + rest - 64 = rest := by omega
  have radix : 2 ^ (64 + rest + 1) = 2 ^ 64 * 2 ^ (rest + 1) := by rw [← Nat.pow_add]; congr 1
  have top : (DoubleWord.mk hi lo).toNat / 2 ^ 64 = hi.toNat := by
    simp only [toNat, UInt64.size]; omega
  have hiClear : hi.toNat % 2 ^ (rest + 1) = 0 := by
    obtain ⟨q, hq⟩ := Nat.dvd_of_mod_eq_zero clear
    rw [← top, hq, radix, Nat.mul_assoc, Nat.mul_div_cancel_left _ (by decide), Nat.mul_mod_right]
  rw [remaining, toNat, toNat_or_bit (by omega) hiClear, toNat, Nat.pow_add]
  simp only [UInt64.size]
  omega

theorem toNat_set_low {hi lo : Word} {position : Nat} (h : position < 64)
    (clear : (DoubleWord.mk hi lo).toNat % 2 ^ (position + 1) = 0) :
    (DoubleWord.mk hi (lo ||| (1 <<< position.toUInt64))).toNat =
      (DoubleWord.mk hi lo).toNat + 2 ^ position := by
  obtain ⟨rest, total⟩ : ∃ rest, rest + (position + 1) = 64 := ⟨63 - position, by omega⟩
  have radix : UInt64.size = 2 ^ rest * 2 ^ (position + 1) := by rw [← Nat.pow_add, total]
  have loClear : lo.toNat % 2 ^ (position + 1) = 0 := by
    rw [toNat, radix, ← Nat.mul_assoc, Nat.add_comm, Nat.add_mul_mod_self_right] at clear
    exact clear
  rw [toNat, toNat_or_bit h loClear, toNat, Nat.add_assoc]

/-- A remainder takes in the next bit from below; its own top bit is lost. -/
theorem toNat_push {bit remainder : Word} (single : bit.toNat < 2) :
    (bit ||| (remainder <<< 1)).toNat = (2 * remainder.toNat + bit.toNat) % 2 ^ 64 := by
  have double : (remainder <<< 1).toNat = 2 ^ 1 * (remainder.toNat % 2 ^ 63) := by
    have amount : (1 : UInt64).toNat % 64 = 1 := by decide
    rw [UInt64.toNat_shiftLeft, amount, Nat.shiftLeft_eq]
    omega
  rw [UInt64.toNat_or, double, Nat.or_comm, ← Nat.two_pow_add_eq_or_of_lt (by omega)]
  omega

theorem shiftRight_top (x : Word) : x >>> 63 = 1 ↔ 2 ^ 63 ≤ x.toNat := by
  have small := x.toNat_lt
  have amount : (63 : UInt64).toNat % 64 = 63 := by decide
  rw [← UInt64.toNat_inj, UInt64.toNat_shiftRight, amount, Nat.shiftRight_eq_div_pow,
    UInt64.toNat_one]
  omega

theorem toNat_div_two_pow (x : DoubleWord) {position : Nat} (h : position < 128) :
    x.toNat / 2 ^ position = 2 * (x.toNat / 2 ^ (position + 1)) + (x.bit position).toNat := by
  rw [toNat_bit x h, Nat.pow_succ, ← Nat.div_div_eq_div_mul]
  omega

/-- Long division carries the quotient and the remainder of the bits seen so far. -/
theorem restore_eq (x : DoubleWord) {divisor : Word} (positive : 0 < divisor.toNat)
    (remaining : Nat) (hi lo remainder : Word) (bits : remaining ≤ 128)
    (quotient : (DoubleWord.mk hi lo).toNat =
      x.toNat / 2 ^ remaining / divisor.toNat * 2 ^ remaining)
    (rest : remainder.toNat = x.toNat / 2 ^ remaining % divisor.toNat) :
    restore x divisor remaining hi lo remainder =
      (ofNat (x.toNat / divisor.toNat), UInt64.ofNat (x.toNat % divisor.toNat)) := by
  induction remaining generalizing hi lo remainder with
  | zero =>
    rw [restore, ← ofNat_toNat ⟨hi, lo⟩, quotient]
    simp only [Nat.pow_zero, Nat.div_one, Nat.mul_one, Prod.mk.injEq, true_and]
    rw [← UInt64.ofNat_toNat (x := remainder), rest, Nat.pow_zero, Nat.div_one]
  | succ position ih =>
    have bit : (x.bit position).toNat < 2 := by rw [toNat_bit x (by omega)]; omega
    have below : remainder.toNat < divisor.toNat := rest ▸ Nat.mod_lt _ positive
    have word := divisor.toNat_lt
    have clear : (DoubleWord.mk hi lo).toNat % 2 ^ (position + 1) = 0 := by
      rw [quotient, Nat.mul_mod_left]
    have whole : x.toNat / 2 ^ position =
      divisor.toNat * (2 * (x.toNat / 2 ^ (position + 1) / divisor.toNat)) +
        (2 * remainder.toNat + (x.bit position).toNat) := by
      have known := Nat.div_add_mod (x.toNat / 2 ^ (position + 1)) divisor.toNat
      rw [rest, x.toNat_div_two_pow (by omega)]
      conv_lhs => rw [← known]
      ring
    rw [restore]
    simp only [shiftRight_top, UInt64.le_iff_toNat_le, toNat_push bit]
    split
    · rename_i fits
      have exceeds : divisor.toNat ≤ 2 * remainder.toNat + (x.bit position).toNat := by omega
      obtain ⟨difference, carried⟩ := Nat.exists_eq_add_of_le exceeds
      have subtracted : (x.bit position ||| (remainder <<< 1)) - divisor =
          UInt64.ofNat difference := by
        apply UInt64.toNat_inj.mp
        rw [UInt64.toNat_sub, toNat_push bit, carried, UInt64.toNat_ofNat']
        omega
      obtain ⟨larger, left⟩ := (Nat.div_mod_unique positive).mpr
        ⟨show difference + divisor.toNat *
          (2 * (x.toNat / 2 ^ (position + 1) / divisor.toNat) + 1) =
          x.toNat / 2 ^ position by rw [whole, carried]; ring, by omega⟩
      have grown : (DoubleWord.mk hi lo).toNat + 2 ^ position =
          x.toNat / 2 ^ position / divisor.toNat * 2 ^ position := by
        rw [quotient, larger, Nat.pow_succ]
        ring
      have cut : (UInt64.ofNat difference).toNat = x.toNat / 2 ^ position % divisor.toNat := by
        rw [UInt64.toNat_ofNat', Nat.mod_eq_of_lt (by omega), left]
      rw [subtracted]
      split
      · rename_i high
        exact ih _ _ _ (by omega) ((toNat_set_high high (by omega) clear).trans grown) cut
      · rename_i low
        exact ih _ _ _ (by omega) ((toNat_set_low (by omega) clear).trans grown) cut
    · rename_i small
      obtain ⟨same, left⟩ := (Nat.div_mod_unique positive).mpr
        ⟨(Nat.add_comm _ _).trans whole.symm, by omega⟩
      apply ih _ _ _ (by omega)
      · rw [quotient, same, Nat.pow_succ]
        ring
      · rw [toNat_push bit, left]
        omega

/-- The bit loop divides every double word, also where the fast path would do. -/
theorem divideByBits_eq (x : DoubleWord) {divisor : Word} (positive : 0 < divisor.toNat) :
    x.divideByBits divisor = (ofNat (x.toNat / divisor.toNat),
      UInt64.ofNat (x.toNat % divisor.toNat)) := by
  have small : x.toNat / 2 ^ 128 = 0 := Nat.div_eq_of_lt x.toNat_lt
  refine restore_eq x positive 128 0 0 0 (Nat.le_refl _) ?_ ?_
  · rw [small, Nat.zero_div, Nat.zero_mul]
    rfl
  · rw [small, Nat.zero_mod]
    rfl

theorem divideByWord_eq {x : DoubleWord} (single : x.hi = 0) (divisor : Word) :
    x.divideByWord divisor = (ofNat (x.toNat / divisor.toNat),
      UInt64.ofNat (x.toNat % divisor.toNat)) := by
  have value : x.toNat = x.lo.toNat := by simp [toNat, single]
  have small : x.lo.toNat / divisor.toNat < 2 ^ 64 :=
    Nat.lt_of_le_of_lt (Nat.div_le_self _ _) x.lo.toNat_lt
  rw [value, divideByWord, ← UInt64.toNat_mod, UInt64.ofNat_toNat]
  congr 1
  apply eq_of_toNat_eq
  rw [toNat_ofWord, toNat_ofNat (by omega), UInt64.toNat_div]

theorem divide_eq (x : DoubleWord) {divisor : Word} (positive : 0 < divisor.toNat) :
    x.divide divisor = (ofNat (x.toNat / divisor.toNat),
      UInt64.ofNat (x.toNat % divisor.toNat)) := by
  unfold divide
  split
  · rename_i fast
    exact divideByWord_eq fast.1 divisor
  · exact divideByBits_eq x positive

/-- A pair of words is the quotient and the remainder of a division. -/
def IsDivision (x : DoubleWord) (divisor : Word) (result : DoubleWord × Word) : Prop :=
  result.1.toNat = x.toNat / divisor.toNat ∧ result.2.toNat = x.toNat % divisor.toNat

theorem isDivision_ofNat (x : DoubleWord) {divisor : Word} (positive : 0 < divisor.toNat) :
    IsDivision x divisor (ofNat (x.toNat / divisor.toNat),
      UInt64.ofNat (x.toNat % divisor.toNat)) := by
  have word := divisor.toNat_lt
  have rest : x.toNat % divisor.toNat < divisor.toNat := Nat.mod_lt _ positive
  refine ⟨toNat_ofNat (Nat.lt_of_le_of_lt (Nat.div_le_self _ _) x.toNat_lt), ?_⟩
  rw [UInt64.toNat_ofNat', Nat.mod_eq_of_lt (by omega)]

/-- Every operation computes with the numbers that its double words stand for: products of any
words, where none of the checked columns overflows, sums and differences modulo the double radix,
shifts by any amount, and divisions, by the fast path where the high word is zero and by the bit
loop everywhere. -/
theorem arithmetic_exact :
    (∀ a b : Word, ∃ p, product a b = .ok p ∧ p.toNat = a.toNat * b.toNat) ∧
      (∀ x y : DoubleWord, (x.add y).toNat = (x.toNat + y.toNat) % 2 ^ 128 ∧
        ((x.sub y).toNat : Int) = ((x.toNat : Int) - y.toNat) % 2 ^ 128) ∧
      (∀ (x : DoubleWord) (amount : Nat),
        (x.shiftRight amount).toNat = x.toNat / 2 ^ amount % 2 ^ 64) ∧
      ∀ (x : DoubleWord) (divisor : Word), 1 ≤ divisor.toNat →
        IsDivision x divisor (x.divide divisor) ∧ IsDivision x divisor (x.divideByBits divisor) ∧
          (x.hi = 0 → IsDivision x divisor (x.divideByWord divisor)) := by
  refine ⟨fun a b => ?_, fun x y => ⟨toNat_add x y, toNat_sub x y⟩, toNat_shiftRight,
    fun x divisor positive => ?_⟩
  · have small : a.toNat * b.toNat < 2 ^ 64 * 2 ^ 64 := Nat.mul_lt_mul'' a.toNat_lt b.toNat_lt
    exact ⟨_, product_eq_ok a b, toNat_ofNat small⟩
  · have division := isDivision_ofNat x positive
    refine ⟨?_, ?_, fun single => ?_⟩
    · rwa [divide_eq x positive]
    · rwa [divideByBits_eq x positive]
    · rwa [divideByWord_eq single]

/-- A divisor above half the radix, where the remainder leaves a word before it is restored, and
the largest single word through the bit loop. -/
theorem arithmetic_exact_above_half :
    2 ^ 63 < (9223372036854775809 : Word).toNat ∧
      (((⟨18446744073709551615, 18446744073709551615⟩ : DoubleWord).divide
        9223372036854775809).1.toNat =
          36893488147419103228 ∧
        ((⟨18446744073709551615, 18446744073709551615⟩ : DoubleWord).divide
          9223372036854775809).2.toNat = 3) ∧
      IsDivision ⟨0, 18446744073709551615⟩ 9223372036854775809
        ((⟨0, 18446744073709551615⟩ : DoubleWord).divideByBits 9223372036854775809) ∧
      IsDivision ⟨0, 18446744073709551615⟩ 9223372036854775809
        ((⟨0, 18446744073709551615⟩ : DoubleWord).divideByWord 9223372036854775809) := by
  obtain ⟨-, -, -, divisions⟩ := arithmetic_exact
  have wide :=
    divisions ⟨18446744073709551615, 18446744073709551615⟩ 9223372036854775809 (by decide)
  have single := divisions ⟨0, 18446744073709551615⟩ 9223372036854775809 (by decide)
  exact ⟨by decide, wide.1, single.2.1, single.2.2 rfl⟩

end BankedRing.DoubleWord
