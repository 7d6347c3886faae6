import BankedRing.Proofs.Device.Accounting
import Mathlib.Order.Interval.Set.Disjoint

/-! Vacancy. Whether a range of bytes is free is read off the marks of the blocks from its first
byte to its last. Since a mark stands for a live allocation and these fill their blocks, the
answer is about bytes too: it is yes exactly when no live allocation has a byte in the range. -/
namespace BankedRing.Allocator
variable {memory : Allocator}

/-- The bytes of an allocation. -/
def extent (held : UInt32 × Nat) : Set ℕ := Set.Ico held.1.toNat (held.1.toNat + held.2)

/-- An empty range meets nothing, and beyond the capacity nothing is live. -/
theorem Valid.vacant_iff (valid : memory.Valid) (start length : ℕ) :
    memory.isRangeFree start length = true ↔
      ∀ held ∈ memory.live, extent held ∩ Set.Ico start (start + length) = ∅ := by
  have owned : ∀ r ∈ memory.records, 0 < r.2 * memory.blockBytes := fun r member =>
    Nat.mul_pos (valid.placed r member).1 valid.positive
  rw [isRangeFree_iff valid, live, List.forall_mem_map]
  simp only [extent, ← Set.disjoint_iff_inter_eq_empty, Set.Ico_disjoint_Ico]
  constructor
  · rintro (empty | apart) r member
    · have some := owned r member
      omega
    · have clear := apart r member
      omega
  · intro disjoint
    refine or_iff_not_imp_left.mpr fun nonempty r member => ?_
    have some := owned r member
    have clear := disjoint r member
    omega

/-- Whatever an allocator has been asked for, it calls a range of bytes free exactly when the
range has no byte in common with a live allocation. -/
theorem vacancy_exact {capacity : ℕ} (reach : capacity ≤ 2 ^ 32) (unit blockBytes : ℕ) :
    ∃ start, create unit capacity blockBytes = .ok start ∧ ∀ (calls : List Call) (first length : ℕ),
      (start.run calls).isRangeFree first length = true ↔
        ∀ held ∈ (start.run calls).live, extent held ∩ Set.Ico first (first + length) = ∅ := by
  refine ⟨_, create_eq_ok unit reach blockBytes, fun calls first length => ?_⟩
  exact (run_sited (sited_ofGeometry unit reach blockBytes) calls).valid.vacant_iff first length

/-- One allocation that has the bytes from 128 up to 192. Ranges that end before it or start
behind it are free, aligned or not and past the capacity too, as is an empty one in its middle;
one byte more on either side and they are not. -/
theorem vacancy_exact_edges :
    1024 ≤ 2 ^ 32 ∧ ∃ start memory, create 0 1024 64 = .ok start ∧
      start.run [.allocate 65, .allocate 1, .deallocate 0] = memory ∧ memory.live = [(128, 64)] ∧
      memory.isRangeFree 1 127 = true ∧ memory.isRangeFree 1 128 = false ∧
      memory.isRangeFree 192 5000 = true ∧ memory.isRangeFree 191 5000 = false ∧
      memory.isRangeFree 150 0 = true := by
  have reach : 1024 ≤ 2 ^ 32 := by decide
  obtain ⟨start, created, answers⟩ := vacancy_exact reach 0 64
  cases (create_eq_ok 0 reach 64).symm.trans created
  have answer := answers [.allocate 65, .allocate 1, .deallocate 0]
  have live : ((ofGeometry 0 1024 64).run [.allocate 65, .allocate 1, .deallocate 0]).live =
    [(128, 64)] := by decide
  have address : (128 : UInt32).toNat = 128 := rfl
  simp only [live, List.forall_mem_singleton, extent, address, ← Set.disjoint_iff_inter_eq_empty,
    Set.Ico_disjoint_Ico] at answer
  refine ⟨reach, _, _, created, rfl, live, (answer 1 127).mpr (by decide), ?_,
    (answer 192 5000).mpr (by decide), ?_,
    (answer 150 0).mpr (by decide)⟩
  · exact Bool.eq_false_iff.mpr (mt (answer 1 128).mp (by decide))
  · exact Bool.eq_false_iff.mpr (mt (answer 191 5000).mp (by decide))

end BankedRing.Allocator
