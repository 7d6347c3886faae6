import BankedRing.Proofs.Device.Accounting
import Mathlib.Order.Bounds.Defs

/-! First fit. An allocation takes the lowest run of free blocks that holds it, and it is
refused only where there is none; nothing but these blocks and one record changes, so that a
release undoes it. A release is refused only where nothing is live at its address. -/
namespace BankedRing.Allocator
variable {memory : Allocator}

/-- A run of free blocks. -/
def FreeRun (memory : Allocator) (count first : Nat) : Prop :=
  first + count ≤ memory.used.length ∧ ∀ i, first ≤ i → i < first + count →
    memory.used[i]? = some false

section Search
variable {needed : Nat} (positive : 0 < needed)
include positive

theorem freeRun_of_firstFit {first : Nat} (found : firstFit needed 0 0 memory.used = some first) :
    memory.FreeRun needed first := by
  obtain ⟨_, inside, free⟩ := firstFit_sound positive (Nat.le_refl 0) found
  rw [Nat.zero_add] at inside
  exact ⟨inside, fun i low high => free i (Nat.zero_le i) low high⟩

/-- Where there is a run, one is found that does not start behind it. -/
theorem firstFit_of_freeRun {start : Nat} (run : memory.FreeRun needed start) :
    ∃ first, firstFit needed 0 0 memory.used = some first ∧ first ≤ start :=
  firstFit_complete positive (Nat.le_refl 0) (Nat.zero_le _) fun i _ low high => run.2 i low high

theorem firstFit_isLeast {first : Nat} (found : firstFit needed 0 0 memory.used = some first) :
    IsLeast {start | memory.FreeRun needed start} first := by
  refine ⟨freeRun_of_firstFit positive found, fun start run => ?_⟩
  obtain ⟨_, same, least⟩ := firstFit_of_freeRun positive run
  cases same.symm.trans found
  exact least

theorem firstFit_eq_none_iff :
    firstFit needed 0 0 memory.used = none ↔ ∀ start, ¬ memory.FreeRun needed start := by
  constructor
  · intro none start run
    obtain ⟨_, found, _⟩ := firstFit_of_freeRun positive run
    cases none.symm.trans found
  · intro none
    cases found : firstFit needed 0 0 memory.used with
    | none => rfl
    | some first => exact absurd (freeRun_of_firstFit positive found) (none first)

end Search

/-- The blocks for a size are the fewest that hold it, but at least one. -/
theorem blocksFor_isLeast (memory : Allocator) (positive : 0 < memory.blockBytes) (size : Nat) :
    IsLeast {n | 0 < n ∧ size ≤ n * memory.blockBytes} (memory.blocksFor size) := by
  refine ⟨⟨memory.blocksFor_pos size, memory.le_blocksFor positive size⟩, ?_⟩
  rintro n ⟨some, enough⟩
  have rounded : (size + memory.blockBytes - 1) / memory.blockBytes < n + 1 := by
    rw [Nat.div_lt_iff_lt_mul positive, Nat.succ_mul]
    omega
  exact Nat.max_le.mpr ⟨Nat.le_of_lt_succ rounded, some⟩

/-- An allocation at the lowest run that holds it. Exactly its blocks are marked, one record is
added, and its release leads back. -/
structure Lowest (size : Nat) (address : UInt32) (memory more : Allocator) (first : Nat) :
    Prop where
  least : IsLeast {start | memory.FreeRun (memory.blocksFor size) start} first
  place : address.toNat = first * memory.blockBytes
  marks : ∀ i : Nat, more.used[i]? =
    if first ≤ i ∧ i < first + memory.blocksFor size then some true else memory.used[i]?
  records : more.live.Perm ((address, memory.blocksFor size * memory.blockBytes) :: memory.live)
  undone : more.deallocate address = .ok memory

theorem lowest_of_allocate (valid : memory.Valid) {size : Nat} {address : UInt32} {more : Allocator}
    (h : memory.allocate size = .ok (address, more)) :
    ∃ first, Lowest size address memory more first := by
  have needed := memory.blocksFor_pos size
  obtain ⟨first, found, same, changed⟩ := granted_run h
  have run := freeRun_of_firstFit needed found
  refine ⟨first, firstFit_isLeast needed found, ?_, fun i => ?_, ?_, deallocate_allocate valid h⟩
  · rw [same]
    exact valid.toNat_ofNat (Nat.lt_of_lt_of_le (Nat.lt_add_of_pos_right needed) run.1)
  · rw [changed]
    exact getElem?_mark true run.1 i
  · exact (granted_of_allocate valid h).live

/-- What an allocation does: it fails exactly where no run of the fewest blocks that hold its size
is free, and then changes nothing, and otherwise it is made at the lowest of these runs. -/
structure AllocatesFirstFit (memory : Allocator) (size : Nat) : Prop where
  fewest : IsLeast {n | 0 < n ∧ size ≤ n * memory.blockBytes} (memory.blocksFor size)
  fails_iff : (∃ e, memory.allocate size = .error e) ↔ ∀ start,
    ¬ memory.FreeRun (memory.blocksFor size) start
  refused : ∀ e, memory.allocate size = .error e →
    e = .memoryExhausted memory.unit size ∧ memory.next (.allocate size) = memory
  granted : ∀ address more, memory.allocate size = .ok (address, more) →
    ∃ first, Lowest size address memory more first

/-- What a release does: it fails exactly where nothing is live, and then changes nothing, and
otherwise it takes away the allocation at its address. -/
structure ReleasesLive (memory : Allocator) (address : UInt32) : Prop where
  fails_iff : (∃ e, memory.deallocate address = .error e) ↔ ∀ held ∈ memory.live, held.1 ≠ address
  refused : ∀ e, memory.deallocate address = .error e →
    e = .invalidDeallocation memory.unit address ∧ memory.next (.deallocate address) = memory
  released : ∀ less, memory.deallocate address = .ok less → Freed address memory less

theorem Valid.allocatesFirstFit (valid : memory.Valid) {size : Nat}
    (counted : size + memory.blockBytes < UInt64.size) : memory.AllocatesFirstFit size where
  fewest := memory.blocksFor_isLeast valid.positive size
  fails_iff := by
    rw [← firstFit_eq_none_iff (memory.blocksFor_pos size)]
    cases found : firstFit (memory.blocksFor size) 0 0 memory.used with
    | none => simp [allocate, Nat.not_le_of_lt counted, found]
    | some first => simp [allocate, Nat.not_le_of_lt counted, found]
  refused := by
    intro e outcome
    refine ⟨?_, by simp only [next, outcome]⟩
    simp only [allocate, if_neg (Nat.not_le_of_lt counted)] at outcome
    split at outcome
    · cases outcome
      rfl
    · cases outcome
  granted := fun _ _ => lowest_of_allocate valid

theorem Valid.releasesLive (valid : memory.Valid) (address : UInt32) :
    memory.ReleasesLive address where
  fails_iff := by
    constructor
    · rintro ⟨e, outcome⟩
      exact dead_of_deallocate valid outcome
    · intro dead
      cases outcome : memory.deallocate address with
      | error e => exact ⟨e, rfl⟩
      | ok less =>
        obtain ⟨blocks, live, _⟩ := (freed_of_deallocate valid outcome).used
        exact absurd rfl (dead _ live)
  refused := by
    intro e outcome
    exact ⟨refusal_of_deallocate valid outcome, by simp only [next, outcome]⟩
  released := fun _ => freed_of_deallocate valid

/-- Whatever an allocator has been asked for, it goes on allocating at the lowest run that is
long enough and releasing what is live, and refuses nothing else. -/
theorem first_fit_exact {capacity : Nat} (reach : capacity ≤ 2 ^ 32) (unit blockBytes : Nat) :
    ∃ start, create unit capacity blockBytes = .ok start ∧ ∀ calls : List Call,
      (start.run calls).unit = unit ∧ (start.run calls).blockBytes = max blockBytes 1 ∧
      (∀ size, size + (start.run calls).blockBytes < UInt64.size →
        (start.run calls).AllocatesFirstFit size) ∧
      ∀ address, (start.run calls).ReleasesLive address := by
  refine ⟨_, create_eq_ok unit reach blockBytes, fun calls => ?_⟩
  have sited := run_sited (sited_ofGeometry unit reach blockBytes) calls
  exact ⟨sited.unit, sited.blockBytes, fun _ counted => sited.valid.allocatesFirstFit counted,
    sited.valid.releasesLive⟩

/-- Three blocks do not fit a hole of two and are placed behind the second allocation. -/
theorem first_fit_exact_hole :
    1024 ≤ 2 ^ 32 ∧ ∃ start memory more, create 0 1024 64 = .ok start ∧
      start.run [.allocate 128, .allocate 128, .deallocate 0] = memory ∧
      192 + memory.blockBytes < UInt64.size ∧ memory.allocate 192 = .ok (256, more) ∧
      Lowest 192 256 memory more 4 := by
  have reach : 1024 ≤ 2 ^ 32 := by decide
  obtain ⟨start, created, answers⟩ := first_fit_exact reach 0 64
  obtain ⟨_, blockBytes, allocates, _⟩ := answers [.allocate 128, .allocate 128, .deallocate 0]
  cases (create_eq_ok 0 reach 64).symm.trans created
  generalize reached : (ofGeometry 0 1024 64).run [.allocate 128, .allocate 128, .deallocate 0] =
    memory
    at blockBytes allocates
  have counted : 192 + memory.blockBytes < UInt64.size := by
    rw [blockBytes]
    decide
  obtain ⟨more, ran⟩ : ∃ more, memory.allocate 192 = .ok (256, more) := by
    rw [← reached]
    exact ⟨_, rfl⟩
  obtain ⟨first, lowest⟩ := (allocates 192 counted).granted _ _ ran
  have place : first * 64 = 256 := by
    rw [← show memory.blockBytes = 64 from blockBytes]
    exact lowest.place.symm
  obtain rfl : first = 4 := by omega
  exact ⟨reach, _, memory, more, created, reached, counted, ran, lowest⟩

end BankedRing.Allocator
