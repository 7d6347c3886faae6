import Mathlib.Algebra.Polynomial.Div
import Mathlib.Tactic.Ring

/-! The butterfly network over a commutative ring. A node whose twiddle is a square root of
its own value splits a polynomial modulo `X ^ 2n - c` into its remainders modulo `X ^ n - w`
and `X ^ n + w`; down to the leaves this evaluates the polynomial, and the inverse network
with inverse twiddles takes every step back up to a factor of two. -/
namespace BankedRing.Butterfly
open Polynomial
variable {R : Type*} [CommRing R]

/-- The polynomial with the coefficients of a list, lowest first. -/
noncomputable def polynomial : List R → R[X]
  | [] => 0
  | a :: rest => C a + X * polynomial rest

def forward (w : ℕ → R) : (depth node : ℕ) → List R → List R
  | 0, _, values => values
  | depth + 1, node, values =>
    let low := values.take (2 ^ depth)
    let high := (values.drop (2 ^ depth)).map (· * w node)
    forward w depth (2 * node) (List.zipWith (· + ·) low high) ++
      forward w depth (2 * node + 1) (List.zipWith (· - ·) low high)

def inverse (w : ℕ → R) : (depth node : ℕ) → List R → List R
  | 0, _, values => values
  | depth + 1, node, values =>
    let low := inverse w depth (2 * node) (values.take (2 ^ depth))
    let high := inverse w depth (2 * node + 1) (values.drop (2 ^ depth))
    List.zipWith (· + ·) low high ++ (List.zipWith (· - ·) low high).map (· * w node)

/-- The leaves below a node, as numbers at which a polynomial is evaluated. -/
def points (w : ℕ → R) : (depth node : ℕ) → R → List R
  | 0, _, value => [value]
  | depth + 1, node, _ =>
    points w depth (2 * node) (w node) ++ points w depth (2 * node + 1) (-w node)

/-- Every twiddle below a node is a square root of the value that its parent hands down. -/
def Splits (w : ℕ → R) : (depth node : ℕ) → R → Prop
  | 0, _, _ => True
  | depth + 1, node, value =>
    w node * w node = value ∧ Splits w depth (2 * node) (w node) ∧
    Splits w depth (2 * node + 1) (-w node)

section Polynomials

theorem coeff_polynomial (v : List R) (i : ℕ) : (polynomial v).coeff i = v.getD i 0 := by
  induction v generalizing i with
  | nil => simp [polynomial]
  | cons a rest ih =>
    cases i with
    | zero => simp [polynomial]
    | succ i => simp [polynomial, ih]

theorem polynomial_coefficients {n : ℕ} {p : R[X]} (small : p.degree < n) :
    polynomial ((List.range n).map p.coeff) = p := by
  apply Polynomial.ext
  intro i
  rw [coeff_polynomial]
  rcases Nat.lt_or_ge i n with inside | outside
  · simp [List.getD_eq_getElem?_getD, inside]
  · rw [(degree_lt_iff_coeff_zero p n).mp small i outside, List.getD_eq_getElem?_getD,
      List.getElem?_eq_none (by simpa using outside), Option.getD_none]

theorem polynomial_append (u v : List R) :
    polynomial (u ++ v) = polynomial u + X ^ u.length * polynomial v := by
  induction u with
  | nil => simp [polynomial]
  | cons a rest ih =>
    rw [List.cons_append, polynomial, ih, polynomial, List.length_cons]
    ring

theorem polynomial_scaled (v : List R) (c : R) :
    polynomial (v.map (· * c)) = polynomial v * C c := by
  induction v with
  | nil => simp [polynomial]
  | cons a rest ih =>
    rw [List.map_cons, polynomial, ih, polynomial, C_mul]
    ring

theorem polynomial_combination (c : R) {u v : List R} (length : u.length = v.length) :
    polynomial (List.zipWith (fun a b => a + c * b) u v) = polynomial u + C c * polynomial v := by
  induction u generalizing v with
  | nil => simp [polynomial, List.length_eq_zero_iff.mp length.symm]
  | cons a rest ih =>
    cases v with
    | nil => cases length
    | cons b more =>
      rw [List.zipWith_cons_cons, polynomial, ih (Nat.succ.inj length), polynomial,
        polynomial, C_add, C_mul]
      ring

theorem polynomial_add {u v : List R} (length : u.length = v.length) :
    polynomial (List.zipWith (· + ·) u v) = polynomial u + polynomial v := by
  simpa using polynomial_combination 1 length

theorem polynomial_sub {u v : List R} (length : u.length = v.length) :
    polynomial (List.zipWith (· - ·) u v) = polynomial u - polynomial v := by
  simpa [← sub_eq_add_neg] using polynomial_combination (-1) length

theorem eval_polynomial (v : List R) (x : R) :
    (polynomial v).eval x = ∑ j ∈ Finset.range v.length, v.getD j 0 * x ^ j := by
  induction v with
  | nil => simp [polynomial]
  | cons a rest ih =>
    rw [polynomial, eval_add, eval_C, eval_mul, eval_X, ih, List.length_cons,
      Finset.sum_range_succ', Finset.mul_sum,
      add_comm]
    simp only [List.getD_cons_zero, List.getD_cons_succ, pow_zero, mul_one, pow_succ']
    congr 1
    exact Finset.sum_congr rfl fun j _ => by ring

end Polynomials

section Network
variable {w w' : ℕ → R} {depth node : ℕ} {values low high : List R}

omit [CommRing R] in
theorem exists_halves (length : values.length = 2 ^ (depth + 1)) :
    ∃ low high : List R, values = low ++ high ∧ low.length = 2 ^ depth ∧
      high.length = 2 ^ depth := by
  refine ⟨values.take (2 ^ depth), values.drop (2 ^ depth),
    (List.take_append_drop _ _).symm, ?_, ?_⟩
  · rw [List.length_take]
    omega
  · rw [List.length_drop]
    omega

theorem forward_append (length : low.length = 2 ^ depth) :
    forward w (depth + 1) node (low ++ high) =
      forward w depth (2 * node) (List.zipWith (· + ·) low (high.map (· * w node))) ++
        forward w depth (2 * node + 1) (List.zipWith (· - ·) low (high.map (· * w node))) := by
  rw [forward, List.take_left' length, List.drop_left' length]

theorem inverse_append (length : low.length = 2 ^ depth) :
    inverse w (depth + 1) node (low ++ high) =
      List.zipWith (· + ·) (inverse w depth (2 * node) low) (inverse w depth (2 * node + 1) high) ++
        (List.zipWith (· - ·) (inverse w depth (2 * node) low)
          (inverse w depth (2 * node + 1) high)).map (· * w node) := by
  rw [inverse, List.take_left' length, List.drop_left' length]

theorem length_forward (length : values.length = 2 ^ depth) :
    (forward w depth node values).length = 2 ^ depth := by
  induction depth generalizing node values with
  | zero => exact length
  | succ depth ih =>
    obtain ⟨low, high, rfl, first, second⟩ := exists_halves length
    rw [forward_append first, List.length_append, ih (by simp [first, second]),
      ih (by simp [first, second])]
    omega

theorem length_inverse (length : values.length = 2 ^ depth) :
    (inverse w depth node values).length = 2 ^ depth := by
  induction depth generalizing node values with
  | zero => exact length
  | succ depth ih =>
    obtain ⟨low, high, rfl, first, second⟩ := exists_halves length
    rw [inverse_append first, List.length_append, List.length_map, List.length_zipWith,
      List.length_zipWith,
      ih first, ih second]
    omega

/-- The points below a node are roots of its value. -/
theorem pow_of_mem_points {value : R} (splits : Splits w depth node value) :
    ∀ x ∈ points w depth node value, x ^ 2 ^ depth = value := by
  induction depth generalizing node value with
  | zero =>
    intro x member
    rw [points, List.mem_singleton] at member
    rw [member, pow_zero, pow_one]
  | succ depth ih =>
    obtain ⟨square, low, high⟩ := splits
    intro x member
    rw [points, List.mem_append] at member
    rw [pow_succ, pow_mul, pow_two]
    rcases member with member | member
    · rw [ih low x member, square]
    · rw [ih high x member, neg_mul_neg, square]

/-- The network evaluates at its points. -/
theorem forward_eq_evaluations {value : R} (splits : Splits w depth node value)
    (length : values.length = 2 ^ depth) :
    forward w depth node values = (points w depth node value).map fun x =>
      (polynomial values).eval x := by
  induction depth generalizing node value values with
  | zero =>
    obtain ⟨a, rfl⟩ := List.length_eq_one_iff.mp length
    simp [forward, points, polynomial]
  | succ depth ih =>
    obtain ⟨square, below, beyond⟩ := splits
    obtain ⟨low, high, rfl, first, second⟩ := exists_halves length
    have sizes : low.length = (high.map (· * w node)).length := by
      rw [List.length_map, first, second]
    rw [forward_append first, points, List.map_append, ih below (by simp [first, second]),
      ih beyond (by simp [first, second])]
    congr 1
    · apply List.map_congr_left
      intro x member
      rw [polynomial_add sizes, polynomial_scaled, polynomial_append, first]
      simp only [eval_add, eval_mul, eval_C, eval_pow, eval_X, pow_of_mem_points below x member]
      ring
    · apply List.map_congr_left
      intro x member
      rw [polynomial_sub sizes, polynomial_scaled, polynomial_append, first]
      simp only [eval_sub, eval_add, eval_mul, eval_C, eval_pow, eval_X,
        pow_of_mem_points beyond x member]
      ring

/-- A butterfly on scaled sums and differences returns its operands, twice as large. -/
theorem zipWith_butterfly (length : low.length = high.length) (scale : R) :
    List.zipWith (· + ·) ((List.zipWith (· + ·) low high).map (scale * ·))
        ((List.zipWith (· - ·) low high).map (scale * ·)) = low.map (scale * 2 * ·) ∧
      List.zipWith (· - ·) ((List.zipWith (· + ·) low high).map (scale * ·))
        ((List.zipWith (· - ·) low high).map (scale * ·)) = high.map (scale * 2 * ·) := by
  induction low generalizing high with
  | nil => simp [List.length_eq_zero_iff.mp length.symm]
  | cons a rest ih =>
    cases high with
    | nil => cases length
    | cons b more =>
      obtain ⟨sums, differences⟩ := ih (Nat.succ.inj length)
      simp only [List.zipWith_cons_cons, List.map_cons, sums, differences,
        List.cons.injEq, and_true]
      constructor <;> ring

/-- The inverse network takes the network back, up to the length. -/
theorem inverse_forward (inverses : ∀ node, w node * w' node = 1)
    (length : values.length = 2 ^ depth) :
    inverse w' depth node (forward w depth node values) = values.map (2 ^ depth * ·) := by
  induction depth generalizing node values with
  | zero => simp [forward, inverse]
  | succ depth ih =>
    obtain ⟨low, high, rfl, first, second⟩ := exists_halves length
    have sizes : low.length = (high.map (· * w node)).length := by
      rw [List.length_map, first, second]
    obtain ⟨sums, differences⟩ := zipWith_butterfly sizes ((2 : R) ^ depth)
    have back : ∀ x : R, 2 ^ depth * 2 * (x * w node) * w' node = 2 ^ (depth + 1) * x := by
      intro x
      rw [pow_succ, ← mul_assoc, mul_assoc _ (w node), inverses, mul_one]
    rw [forward_append first, inverse_append (length_forward (by simp [first, second])), ih
      (by simp [first, second]),
      ih (by simp [first, second]), sums, differences, List.map_map, List.map_map]
    simp only [Function.comp_def, back]
    rw [← pow_succ, ← List.map_append]

theorem forward_scaled (c : R) :
    forward w depth node (values.map (c * ·)) = (forward w depth node values).map (c * ·) := by
  induction depth generalizing node values with
  | zero => rfl
  | succ depth ih =>
    have sums : ∀ low high : List R, List.zipWith (· + ·) (low.map (c * ·)) (high.map (c * ·)) =
        (List.zipWith (· + ·) low high).map (c * ·) := by
      intro low high
      simp only [List.zipWith_map, List.map_zipWith, mul_add]
    have differences : ∀ low high : List R,
      List.zipWith (· - ·) (low.map (c * ·)) (high.map (c * ·)) =
        (List.zipWith (· - ·) low high).map (c * ·) := by
      intro low high
      simp only [List.zipWith_map, List.map_zipWith, mul_sub]
    have scaled : ∀ high : List R,
        (high.map (c * ·)).map (· * w node) = (high.map (· * w node)).map (c * ·) := by
      intro high
      simp only [List.map_map, Function.comp_def, mul_assoc]
    rw [forward, forward, ← List.map_take, ← List.map_drop, scaled, sums, differences, ih,
      ih, List.map_append]

/-- The network takes the inverse network back, up to the length. -/
theorem forward_inverse (inverses : ∀ node, w node * w' node = 1)
    (length : values.length = 2 ^ depth) :
    forward w depth node (inverse w' depth node values) = values.map (2 ^ depth * ·) := by
  induction depth generalizing node values with
  | zero => simp [forward, inverse]
  | succ depth ih =>
    obtain ⟨low, high, rfl, first, second⟩ := exists_halves length
    have lowLength : (inverse w' depth (2 * node) low).length = 2 ^ depth := length_inverse first
    have highLength : (inverse w' depth (2 * node + 1) high).length = 2 ^ depth :=
      length_inverse second
    have restored : ∀ differences : List R,
        (differences.map (· * w' node)).map (· * w node) = differences := by
      intro differences
      refine (List.map_map ..).trans ((List.map_congr_left fun x _ => ?_).trans (List.map_id _))
      rw [Function.comp_apply, mul_assoc, mul_comm (w' node), inverses, mul_one, id]
    obtain ⟨sums, differences⟩ := zipWith_butterfly (lowLength.trans highLength.symm) (1 : R)
    simp only [one_mul, List.map_id'] at sums differences
    rw [inverse_append first,
      forward_append (by rw [List.length_zipWith, lowLength, highLength, min_self]), restored,
      sums, differences, forward_scaled, forward_scaled, ih first, ih second,
      List.map_append, List.map_map,
      List.map_map]
    simp only [Function.comp_def, pow_succ', mul_assoc]

theorem map_unscaled {u : R} (unit : 2 ^ depth * u = 1) :
    (values.map (2 ^ depth * ·)).map (· * u) = values := by
  refine (List.map_map ..).trans ((List.map_congr_left fun x _ => ?_).trans (List.map_id _))
  rw [Function.comp_apply, mul_right_comm, unit, one_mul, id]

theorem scaled_inverse_forward {u : R} (unit : 2 ^ depth * u = 1)
    (inverses : ∀ node, w node * w' node = 1) (length : values.length = 2 ^ depth) :
    (inverse w' depth node (forward w depth node values)).map (· * u) = values := by
  rw [inverse_forward inverses length, map_unscaled unit]

theorem forward_scaled_inverse {u : R} (unit : 2 ^ depth * u = 1)
    (inverses : ∀ node, w node * w' node = 1) (length : values.length = 2 ^ depth) :
    forward w depth node ((inverse w' depth node values).map (· * u)) = values := by
  have swapped : (fun x : R => x * u) = (u * ·) := funext fun x => mul_comm x u
  rw [swapped, forward_scaled, ← swapped, forward_inverse inverses length, map_unscaled unit]

end Network
end BankedRing.Butterfly
