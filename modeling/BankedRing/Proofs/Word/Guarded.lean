import BankedRing.Word.Double

/-! Shifts and quotients of double words with every step checked. The operations themselves are
written with plain words, since each of their shifts and divisions stands in a branch that keeps
it in range. Written with checked steps they give the same and never stop. -/
namespace BankedRing

namespace DoubleWord

def checkedShiftRight (x : DoubleWord) (amount : Nat) : Checked Word := do
  if amount = 0 then return x.lo
  else if amount < 64 then
    return (← Checked.shiftRight x.lo amount) ||| (← Checked.shiftLeft x.hi (64 - amount))
  else if amount < 128 then Checked.shiftRight x.hi (amount - 64)
  else return 0

def checkedBit (x : DoubleWord) (position : Nat) : Checked Word := do
  if 64 ≤ position then return (← Checked.shiftRight x.hi (position - 64)) &&& 1
  else return (← Checked.shiftRight x.lo position) &&& 1

def checkedRestore (x : DoubleWord) (divisor : Word) :
    (remaining : Nat) → (hi lo remainder : Word) →
    Checked (DoubleWord × Word)
  | 0, hi, lo, remainder => return (⟨hi, lo⟩, remainder)
  | position + 1, hi, lo, remainder => do
    let shifted := (← x.checkedBit position) ||| (remainder <<< 1)
    if remainder >>> 63 = 1 ∨ divisor ≤ shifted then
      if 64 ≤ position then
        let one ← Checked.shiftLeft 1 (position - 64)
        checkedRestore x divisor position (hi ||| one) lo (shifted - divisor)
      else
        let one ← Checked.shiftLeft 1 position
        checkedRestore x divisor position hi (lo ||| one) (shifted - divisor)
    else
      checkedRestore x divisor position hi lo shifted

def checkedDivide (x : DoubleWord) (divisor : Word) : Checked (DoubleWord × Word) := do
  if x.hi = 0 ∧ divisor ≠ 0 then
    return (ofWord (← Checked.div x.lo divisor), ← Checked.rem x.lo divisor)
  else checkedRestore x divisor 128 0 0 0

theorem checkedShiftRight_eq_ok (x : DoubleWord) (amount : Nat) :
    x.checkedShiftRight amount = .ok (x.shiftRight amount) := by
  unfold checkedShiftRight shiftRight
  by_cases none : amount = 0
  · rw [if_pos none, if_pos none]
    rfl
  by_cases low : amount < 64
  · rw [if_neg none, if_neg none, if_pos low, if_pos low, Checked.shiftRight_eq_ok low,
      Checked.shiftLeft_eq_ok (show 64 - amount < 64 by omega)]
    rfl
  by_cases high : amount < 128
  · rw [if_neg none, if_neg none, if_neg low, if_neg low, if_pos high, if_pos high]
    exact Checked.shiftRight_eq_ok (by omega) _
  · rw [if_neg none, if_neg none, if_neg low, if_neg low, if_neg high, if_neg high]
    rfl

theorem checkedBit_eq_ok {position : Nat} (inside : position < 128) (x : DoubleWord) :
    x.checkedBit position = .ok (x.bit position) := by
  unfold checkedBit bit
  by_cases high : 64 ≤ position
  · rw [if_pos high, if_pos high, Checked.shiftRight_eq_ok (show position - 64 < 64 by omega)]
    rfl
  · rw [if_neg high, if_neg high, Checked.shiftRight_eq_ok (show position < 64 by omega)]
    rfl

theorem checkedRestore_eq_ok (x : DoubleWord) (divisor : Word) {remaining : Nat}
    (inside : remaining ≤ 128) (hi lo remainder : Word) :
    x.checkedRestore divisor remaining hi lo remainder =
      .ok (x.restore divisor remaining hi lo remainder) := by
  induction remaining generalizing hi lo remainder with
  | zero => rfl
  | succ position ih =>
    have next := ih (by omega)
    have read := checkedBit_eq_ok (show position < 128 by omega) x
    simp only [checkedRestore, restore, read, bind, Except.bind]
    split
    · split
      · rw [Checked.shiftLeft_eq_ok (show position - 64 < 64 by omega)]
        exact next _ _ _
      · rw [Checked.shiftLeft_eq_ok (show position < 64 by omega)]
        exact next _ _ _
    · exact next _ _ _

theorem checkedDivide_eq_ok (x : DoubleWord) (divisor : Word) :
    x.checkedDivide divisor = .ok (x.divide divisor) := by
  unfold checkedDivide divide
  by_cases short : x.hi = 0 ∧ divisor ≠ 0
  · rw [if_pos short, if_pos short, Checked.div, if_neg short.2, Checked.rem, if_neg short.2]
    rfl
  · rw [if_neg short, if_neg short]
    exact checkedRestore_eq_ok x divisor (Nat.le_refl 128) 0 0 0

end DoubleWord
end BankedRing
