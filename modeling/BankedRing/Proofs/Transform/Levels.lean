import BankedRing.Proofs.Transform.Butterfly

/-! The butterfly network level by level. All nodes of one depth work on consecutive blocks
of one size; the forward network passes through the levels with ever smaller blocks, the
inverse network with ever larger ones, and both end in what the tree of nodes gives. -/
namespace BankedRing.Butterfly

section Blocks
variable {α : Type*} {f : ℕ → List α → List α} {size count node : ℕ}
    {values first second rest : List α}

/-- Works on consecutive blocks of one size, each with the number of its node. -/
def level (size : ℕ) (f : ℕ → List α → List α) : (count node : ℕ) → List α → List α
  | 0, _, values => values
  | count + 1, node, values =>
    f node (values.take size) ++ level size f count (node + 1) (values.drop size)

theorem level_append (length : first.length = size) :
    level size f (count + 1) node (first ++ rest) =
      f node first ++ level size f count (node + 1) rest := by
  rw [level, List.take_left' length, List.drop_left' length]

theorem level_append_append (head : first.length = size) (next : second.length = size) :
    level size f (2 * (count + 1)) (2 * node) (first ++ second ++ rest) =
      f (2 * node) first ++ f (2 * node + 1) second ++ level size f (2 * count)
        (2 * (node + 1)) rest := by
  have twice : 2 * (count + 1) = 2 * count + 1 + 1 := by omega
  rw [twice, List.append_assoc, level_append head, level_append next, List.append_assoc]
  rfl

theorem level_one (length : values.length = size) : level size f 1 node values = f node values := by
  rw [← List.append_nil values, level_append length, level, List.append_nil, List.append_nil]

theorem level_unchanged (unchanged : ∀ node block, f node block = block) :
    level size f count node values = values := by
  induction count generalizing node values with
  | zero => rfl
  | succ count ih => rw [level, unchanged, ih, List.take_append_drop]

theorem level_map {g : α → α} (length : values.length = count * size) :
    level size (fun _ => List.map g) count node values = values.map g := by
  induction count generalizing node values with
  | zero =>
    rw [Nat.zero_mul] at length
    rw [List.eq_nil_of_length_eq_zero length]
    rfl
  | succ count ih =>
    have rest : (values.drop size).length = count * size := by
      rw [List.length_drop, length, Nat.succ_mul, Nat.add_sub_cancel]
    rw [level, ih rest, ← List.map_append, List.take_append_drop]

theorem exists_block (length : values.length = (count + 1) * size) :
    ∃ first rest : List α, values = first ++ rest ∧ first.length = size ∧
      rest.length = count * size := by
  rw [Nat.succ_mul] at length
  refine ⟨values.take size, values.drop size, (List.take_append_drop _ _).symm, ?_, ?_⟩
  · rw [List.length_take]
    omega
  · rw [List.length_drop]
    omega

theorem length_level (each : ∀ node block, block.length = size → (f node block).length = size)
    (length : values.length = count * size) : (level size f count node values).length =
      count * size := by
  induction count generalizing node values with
  | zero => exact length
  | succ count ih =>
    obtain ⟨first, rest, rfl, head, tail⟩ := exists_block length
    rw [level_append head, List.length_append, each node first head, ih tail,
      Nat.succ_mul, Nat.add_comm]

/-- One butterfly for each pair of cells at a distance. -/
def paired (f g : α → α → α) (distance : ℕ) (block : List α) : List α :=
  List.zipWith f (block.take distance) (block.drop distance) ++
    List.zipWith g (block.take distance) (block.drop distance)

theorem paired_append {f g : α → α → α} (length : first.length = size) :
    paired f g size (first ++ rest) = List.zipWith f first rest ++ List.zipWith g first rest := by
  rw [paired, List.take_left' length, List.drop_left' length]

theorem length_paired {f g : α → α → α} (length : values.length = 2 * size) :
    (paired f g size values).length = 2 * size := by
  rw [paired, List.length_append, List.length_zipWith, List.length_zipWith, List.length_take,
    List.length_drop]
  omega

end Blocks

section Levels
variable {R : Type*} [CommRing R] {w : ℕ → R} {depth node count : ℕ} {values : List R}

def forwardPairs (w : ℕ → R) (distance node : ℕ) : List R → List R :=
  paired (fun u v => u + v * w node) (fun u v => u - v * w node) distance

def inversePairs (w : ℕ → R) (distance node : ℕ) : List R → List R :=
  paired (fun u v => u + v) (fun u v => (u - v) * w node) distance

/-- A level of the forward network is a pass over its blocks before the next level, which has
twice as many. -/
theorem level_forward (length : values.length = count * 2 ^ (depth + 1)) :
    level (2 ^ (depth + 1)) (forward w (depth + 1)) count node values =
      level (2 ^ depth) (forward w depth) (2 * count) (2 * node)
        (level (2 ^ (depth + 1)) (forwardPairs w (2 ^ depth)) count node values) := by
  induction count generalizing node values with
  | zero => rfl
  | succ count ih =>
    obtain ⟨first, rest, rfl, head, tail⟩ := exists_block length
    obtain ⟨low, high, rfl, lower, upper⟩ := exists_halves head
    have sums : (List.zipWith (fun u v => u + v * w node) low high).length = 2 ^ depth := by
      simp [lower, upper]
    have differences : (List.zipWith (fun u v => u - v * w node) low high).length = 2 ^ depth := by
      simp [lower, upper]
    rw [level_append head, level_append head, ih tail, forward_append lower, forwardPairs,
      paired_append lower,
      List.zipWith_map_right, List.zipWith_map_right, level_append_append sums differences]

/-- A level of the inverse network is a pass over its blocks after the level below. -/
theorem level_inverse (length : values.length = count * 2 ^ (depth + 1)) :
    level (2 ^ (depth + 1)) (inverse w (depth + 1)) count node values =
      level (2 ^ (depth + 1)) (inversePairs w (2 ^ depth)) count node
        (level (2 ^ depth) (inverse w depth) (2 * count) (2 * node) values) := by
  induction count generalizing node values with
  | zero => rfl
  | succ count ih =>
    obtain ⟨first, rest, rfl, head, tail⟩ := exists_block length
    obtain ⟨low, high, rfl, lower, upper⟩ := exists_halves head
    have below : (inverse w depth (2 * node) low).length = 2 ^ depth := length_inverse lower
    have beyond : (inverse w depth (2 * node + 1) high).length = 2 ^ depth := length_inverse upper
    have joined : (inverse w depth (2 * node) low ++ inverse w depth (2 * node + 1) high).length =
        2 ^ (depth + 1) := by
      rw [List.length_append, below, beyond, pow_succ, Nat.mul_two]
    rw [level_append head, ih tail, inverse_append lower, level_append_append lower upper,
      level_append joined,
      inversePairs, paired_append below, List.map_zipWith]

end Levels
end BankedRing.Butterfly
