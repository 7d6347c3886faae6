import BankedRing.Proofs.Device.Allocator
import Mathlib.Algebra.BigOperators.Ring.List
import Mathlib.Data.Bool.Count

/-! The books of an allocator. It notes every block twice, as a mark among the blocks and in
the record of an address, and each call changes both by itself. They stay two views of the
same memory: a mark belongs to exactly one live allocation, and what is free and what is live
make up the capacity, whatever has been allocated, released or refused before. -/
namespace BankedRing.Allocator
variable {memory : Allocator}

/-- The allocator has made room at the address, which was not live before. -/
structure Granted (bytes : Nat) (address : UInt32) (memory more : Allocator) : Prop where
  own : memory.allocate bytes = .ok (address, more)
  fresh : ∀ held ∈ memory.live, held.1 ≠ address
  live : more.live.Perm ((address, memory.blocksFor bytes * memory.blockBytes) :: memory.live)
  used : ∀ i : Nat, more.used[i]? = some true ↔
    memory.used[i]? = some true ∨ memory.Owns (address, memory.blocksFor bytes) i

/-- The allocator has given up the allocation at the address and no other. -/
structure Freed (address : UInt32) (memory less : Allocator) : Prop where
  own : memory.deallocate address = .ok less
  live : less.live = memory.live.filter fun held => held.1 ≠ address
  used : ∃ blocks, (address, blocks * memory.blockBytes) ∈ memory.live ∧ ∀ i : Nat,
    less.used[i]? = some true ↔
    memory.used[i]? = some true ∧ ¬ memory.Owns (address, blocks) i

theorem granted_of_allocate (valid : memory.Valid) {bytes : Nat} {address : UInt32}
    {more : Allocator} (h : memory.allocate bytes = .ok (address, more)) :
    Granted bytes address memory more := by
  obtain ⟨validMore, blockBytes, -, fresh, members⟩ := allocate_eq_ok valid h
  refine ⟨h, fun held kept => ?_, ?_, fun i => ?_⟩
  · obtain ⟨record, member, rfl⟩ := List.mem_map.mp kept
    exact fresh record member
  · have grown := perm_record (memory.blocksFor bytes) fresh
    rw [← allocate_records h] at grown
    have live := grown.map fun record => (record.1, record.2 * more.blockBytes)
    rw [List.map_cons, blockBytes] at live
    simp only [Allocator.live, blockBytes]
    exact live
  · have owns : ∀ r, more.Owns r i ↔ memory.Owns r i := by
      intro r
      simp only [Owns, block, blockBytes]
    simp only [validMore.marked i, valid.marked i, members, owns]
    constructor
    · rintro ⟨r, rfl | member, own⟩
      · exact .inr own
      · exact .inl ⟨r, member, own⟩
    · rintro (⟨r, member, own⟩ | own)
      · exact ⟨r, .inr member, own⟩
      · exact ⟨_, .inl rfl, own⟩

theorem freed_of_deallocate (valid : memory.Valid) {address : UInt32} {less : Allocator}
    (h : memory.deallocate address = .ok less) : Freed address memory less := by
  obtain ⟨blocks, owned, rfl⟩ := cleared_of_deallocate valid h
  obtain ⟨_, done, _, used⟩ := deallocate_exact valid owned
  cases done.symm.trans h
  refine ⟨h, ?_, blocks, List.mem_map.mpr ⟨_, owned, rfl⟩, used⟩
  simp only [live, cleared, List.filter_map]
  rfl

theorem dead_of_deallocate (valid : memory.Valid) {address : UInt32} {e : Error}
    (h : memory.deallocate address = .error e) : ∀ held ∈ memory.live, held.1 ≠ address := by
  intro held kept same
  obtain ⟨⟨_, blocks⟩, member, rfl⟩ := List.mem_map.mp kept
  cases same
  cases (deallocate_live valid member).symm.trans h

theorem refusal_of_deallocate (valid : memory.Valid) {address : UInt32} {e : Error}
    (h : memory.deallocate address = .error e) : e = .invalidDeallocation memory.unit address := by
  cases found : memory.records.lookup address with
  | none =>
    cases (deallocate_dead found).symm.trans h
    rfl
  | some blocks => cases (deallocate_live valid (valid.lookup_iff.mp found)).symm.trans h

section Calls

/-- What an allocator can be asked for. -/
inductive Call where
  | allocate (size : Nat)
  | deallocate (address : UInt32)

/-- A call that is refused leaves the allocator as it was. -/
def next (memory : Allocator) : Call → Allocator
  | .allocate size =>
    match memory.allocate size with
    | .ok (_, more) => more
    | .error _ => memory
  | .deallocate address =>
    match memory.deallocate address with
    | .ok less => less
    | .error _ => memory

def run (memory : Allocator) (calls : List Call) : Allocator := calls.foldl next memory

/-- A valid allocator of a unit, with blocks of a size and a number of them. -/
structure Sited (unit blockBytes count : Nat) (memory : Allocator) : Prop where
  valid : memory.Valid
  unit : memory.unit = unit
  blockBytes : memory.blockBytes = blockBytes
  blocks : memory.used.length = count

variable {unit blockBytes count : Nat}

theorem next_sited (sited : memory.Sited unit blockBytes count) (call : Call) :
    (memory.next call).Sited unit blockBytes count := by
  cases call with
  | allocate size =>
    simp only [next]
    split
    · rename_i address more outcome
      obtain ⟨valid, bytes, length, _⟩ := allocate_eq_ok sited.valid outcome
      obtain ⟨_, _, _, same⟩ := granted_run outcome
      exact ⟨valid, by rw [same, sited.unit], bytes.trans sited.blockBytes,
        length.trans sited.blocks⟩
    · exact sited
  | deallocate address =>
    simp only [next]
    split
    · rename_i less outcome
      obtain ⟨valid, bytes, length⟩ := valid_after_deallocate sited.valid outcome
      obtain ⟨_, _, same⟩ := cleared_of_deallocate sited.valid outcome
      exact ⟨valid, by rw [same, cleared, sited.unit], bytes.trans sited.blockBytes,
        length.trans sited.blocks⟩
    · exact sited

theorem run_sited (sited : memory.Sited unit blockBytes count) (calls : List Call) :
    (memory.run calls).Sited unit blockBytes count := by
  induction calls generalizing memory with
  | nil => exact sited
  | cons call calls ih => exact ih (next_sited sited call)

end Calls

/-- The marks are as many as the blocks of all records: the records can be given back one after
the other, each with its own marks, until none is left. -/
theorem Valid.count_used (valid : memory.Valid) :
    memory.used.count true = (memory.records.map Prod.snd).sum := by
  generalize same : memory.records = records
  induction records generalizing memory with
  | nil =>
    have unmarked : true ∉ memory.used := by
      intro member
      obtain ⟨i, marked⟩ := List.getElem?_of_mem member
      obtain ⟨r, own, _⟩ := (valid.marked i).mp marked
      rw [same] at own
      cases own
    rw [List.count_eq_zero.mpr unmarked]
    rfl
  | cons r rest ih =>
    have live : (r.1, r.2) ∈ memory.records := by simp [same]
    obtain ⟨positive, _, inside⟩ := valid.placed _ live
    have others : memory.records.filter (fun record => record.1 ≠ r.1) = rest := by
      have ordered := valid.ordered
      rw [same] at ordered ⊢
      rw [List.filter_cons_of_neg (by simp)]
      refine List.filter_eq_self.mpr fun s member => decide_eq_true fun alike => ?_
      have before := (List.pairwise_cons.mp ordered).1 s member
      rw [alike] at before
      omega
    have left := ih (valid.cleared live) others
    -- Its own marks are all there, so that clearing and setting them again changes nothing.
    have full : mark true (memory.block r.1) r.2 memory.used = memory.used :=
      mark_of_marked inside fun i low high => (valid.marked i).mpr ⟨r, live, low, high⟩
    calc memory.used.count true = (mark true (memory.block r.1) r.2 memory.used).count true := by
           rw [full]
      _ = (memory.cleared r.1 r.2).used.count true + r.2 := count_mark _ _ _
      _ = (rest.map Prod.snd).sum + r.2 := by rw [left]
      _ = ((r :: rest).map Prod.snd).sum := by rw [List.map_cons, List.sum_cons, Nat.add_comm]

section Books

/-- A block that lies in the range of an allocation. -/
def Covers (memory : Allocator) (held : UInt32 × Nat) (i : Nat) : Prop :=
  held.1.toNat ≤ i * memory.blockBytes ∧ (i + 1) * memory.blockBytes ≤ held.1.toNat + held.2

/-- The live allocations are aligned, apart from each other in the order of their addresses and
inside the capacity; a block is marked exactly when it lies in one of them, and what they leave
of the capacity is free. -/
structure Balanced (memory : Allocator) : Prop where
  aligned : ∀ held ∈ memory.live, memory.blockBytes ∣ held.1.toNat
  apart : memory.live.Pairwise fun before behind => before.1.toNat + before.2 ≤ behind.1.toNat
  inside : ∀ held ∈ memory.live, held.1.toNat + held.2 ≤ memory.capacity
  owned : ∀ i : Nat, memory.used[i]? = some true ↔ ∃! held, held ∈ memory.live ∧
    memory.Covers held i
  total : memory.freeBytes + (memory.live.map Prod.snd).sum = memory.capacity

/-- A record and its range in bytes have the same blocks. -/
theorem Valid.covers_iff (valid : memory.Valid) {r : UInt32 × Nat} (member : r ∈ memory.records)
    (i : Nat) :
    memory.Covers (r.1, r.2 * memory.blockBytes) i ↔ memory.Owns r i := by
  have low : memory.block r.1 * memory.blockBytes ≤ i * memory.blockBytes ↔ memory.block r.1 ≤ i :=
    Nat.mul_le_mul_right_iff valid.positive
  have high : (i + 1) * memory.blockBytes ≤ (memory.block r.1 + r.2) * memory.blockBytes ↔
      i + 1 ≤ memory.block r.1 + r.2 := Nat.mul_le_mul_right_iff valid.positive
  rw [Nat.add_mul (memory.block r.1)] at high
  simp only [Covers, Owns, valid.toNat_eq member, low, high, Nat.succ_le_iff]

theorem Valid.owned (valid : memory.Valid) (i : Nat) :
    memory.used[i]? = some true ↔ ∃! held, held ∈ memory.live ∧ memory.Covers held i := by
  rw [valid.marked]
  constructor
  · rintro ⟨r, member, own⟩
    refine ⟨(r.1, r.2 * memory.blockBytes),
      ⟨List.mem_map_of_mem member, (valid.covers_iff member i).mpr own⟩, ?_⟩
    rintro _ ⟨live, covers⟩
    obtain ⟨s, other, rfl⟩ := List.mem_map.mp live
    rw [valid.owner_unique member other own ((valid.covers_iff other i).mp covers)]
  · rintro ⟨_, ⟨live, covers⟩, _⟩
    obtain ⟨r, member, rfl⟩ := List.mem_map.mp live
    exact ⟨r, member, (valid.covers_iff member i).mp covers⟩

theorem Valid.balanced (valid : memory.Valid) : memory.Balanced where
  aligned := by
    intro held live
    obtain ⟨r, member, rfl⟩ := List.mem_map.mp live
    exact Nat.dvd_of_mod_eq_zero (valid.placed r member).2.1
  apart := by
    rw [live, List.pairwise_map]
    refine valid.ordered.imp_of_mem fun first second before => ?_
    rw [valid.toNat_eq first, valid.toNat_eq second, ← Nat.add_mul]
    exact Nat.mul_le_mul_right _ before
  inside := by
    intro held live
    obtain ⟨r, member, rfl⟩ := List.mem_map.mp live
    rw [valid.toNat_eq member, ← Nat.add_mul]
    exact Nat.mul_le_mul_right _ (valid.placed r member).2.2
  owned := valid.owned
  total := by
    have bytes : (memory.live.map Prod.snd).sum =
        (memory.records.map Prod.snd).sum * memory.blockBytes := by
      rw [live, List.map_map, ← List.sum_map_mul_right]
      rfl
    rw [bytes, ← valid.count_used, freeBytes, ← Nat.add_mul, List.count_false_add_count_true,
      capacity]

theorem sited_ofGeometry (unit : Nat) {capacity : Nat} (reach : capacity ≤ 2 ^ 32)
    (blockBytes : Nat) :
    (ofGeometry unit capacity blockBytes).Sited unit (max blockBytes 1)
      (capacity / max blockBytes 1) where
  valid := valid_ofGeometry unit reach blockBytes
  unit := rfl
  blockBytes := rfl
  blocks := List.length_replicate

theorem create_eq_ok (unit : Nat) {capacity : Nat} (reach : capacity ≤ 2 ^ 32) (blockBytes : Nat) :
    create unit capacity blockBytes = .ok (ofGeometry unit capacity blockBytes) := by
  have few : capacity / max blockBytes 1 ≤ capacity := Nat.div_le_self _ _
  rw [create, Checked.buffer_eq_ok (by omega)]
  rfl

/-- Whatever an allocator has been asked for, its books balance. What it grants was not live and
holds the bytes that were asked for, and what it releases lies among its blocks. -/
theorem books_balance {capacity : Nat} (reach : capacity ≤ 2 ^ 32) (unit blockBytes : Nat) :
    ∃ start, create unit capacity blockBytes = .ok start ∧ ∀ calls : List Call,
      (start.run calls).blockBytes = max blockBytes 1 ∧
      (start.run calls).capacity = capacity / max blockBytes 1 * max blockBytes 1 ∧
      (start.run calls).Balanced ∧
      (∀ size address more, (start.run calls).allocate size = .ok (address, more) →
        (∀ held ∈ (start.run calls).live, held.1 ≠ address) ∧ ∃ bytes,
        (address, bytes) ∈ more.live ∧ size ≤ bytes) ∧
      ∀ address, (start.run calls).deallocate address ≠ .error (.trapped .outOfRange) := by
  refine ⟨_, create_eq_ok unit reach blockBytes, fun calls => ?_⟩
  have sited := run_sited (sited_ofGeometry unit reach blockBytes) calls
  generalize (ofGeometry unit capacity blockBytes).run calls = memory at sited
  refine ⟨sited.blockBytes, ?_, sited.valid.balanced, ?_, ?_⟩
  · rw [Allocator.capacity, sited.blocks, sited.blockBytes]
  · intro size address more outcome
    have granted := granted_of_allocate sited.valid outcome
    refine ⟨granted.fresh, _, granted.live.mem_iff.mpr (List.mem_cons_self ..), ?_⟩
    exact memory.le_blocksFor sited.valid.positive size
  · intro address outcome
    cases refusal_of_deallocate sited.valid outcome

/-- Fifteen blocks with a hole between two allocations, after calls that were refused. -/
theorem books_balance_fragmented :
    1000 ≤ 2 ^ 32 ∧ ∃ start memory, create 3 1000 64 = .ok start ∧
      start.run [.allocate 65, .allocate 0, .deallocate 0, .deallocate 8, .allocate 2000,
        .allocate 1] = memory ∧
      memory.live = [(0, 64), (128, 64)] ∧ memory.freeBytes = 832 ∧ memory.capacity = 960 ∧
      memory.Balanced := by
  have reach : 1000 ≤ 2 ^ 32 := by decide
  obtain ⟨start, created, books⟩ := books_balance reach 3 64
  obtain ⟨_, capacity, balanced, _⟩ :=
    books [.allocate 65, .allocate 0, .deallocate 0, .deallocate 8, .allocate 2000, .allocate 1]
  cases (create_eq_ok 3 reach 64).symm.trans created
  exact ⟨reach, _, _, created, rfl, by decide, by decide, capacity, balanced⟩

end Books

end BankedRing.Allocator
