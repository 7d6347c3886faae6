import BankedRing.Host.Resident
import BankedRing.Proofs.Host.Request
import BankedRing.Proofs.Host.Start

/-! Resident vectors as tenants of their controller. In every state that the controller's
clients reach without taking a live vector's memory away, each live vector has a record
of its own in all allocators, large enough for its share of words. -/
namespace BankedRing
namespace Controller
variable {settings : Settings} {count : Nat} {c : Controller}

/-- What the allocators have granted; all units have the same records. -/
def records (c : Controller) : List (UInt32 × Nat) :=
  match c.memories with
  | [] => []
  | memory :: _ => memory.records

theorem records_eq (positive : 0 < count) {memory : Allocator}
    (same : c.memories = allocators memory count) :
    c.records = memory.records := by
  obtain ⟨units, shape⟩ := allocators_eq_cons memory positive
  rw [records, same, shape]
  rfl
end Controller

namespace Resident

/-- A vector that is dealt out evenly and whose share lies in memory of its own. -/
structure Housed (v : Resident) (units : Nat) (records : List (UInt32 × Nat)) : Prop where
  even : v.length = v.perUnit * units
  owned : ∃ blocks, (v.address, blocks) ∈ records ∧ v.bytes ≤ blocks * Allocator.standardBlockBytes

/-- A vector that is dealt out evenly and whose share stands aligned inside the banks. -/
structure Placed (v : Resident) (settings : Settings) (units : Nat) : Prop where
  even : v.length = v.perUnit * units
  aligned : v.address.toNat % 8 = 0
  inside : v.address.toNat + v.perUnit * 8 ≤ settings.bankBytes

theorem Placed.perUnit_eq {v w : Resident} {settings : Settings} {units : Nat}
    (placed : v.Placed settings units) (other : w.Placed settings units) (positive : 0 < units)
    (length : w.length = v.length) :
    w.perUnit = v.perUnit := by
  rw [other.even, placed.even] at length
  exact Nat.eq_of_mul_eq_mul_right positive length

theorem Housed.mono {v : Resident} {units : Nat} {records more : List (UInt32 × Nat)}
    (h : v.Housed units records)
    (grown : ∀ blocks, (v.address, blocks) ∈ records → (v.address, blocks) ∈ more) :
    v.Housed units more := by
  obtain ⟨blocks, owned, room⟩ := h.owned
  exact ⟨h.even, blocks, grown blocks owned, room⟩

end Resident

namespace Controller
variable {settings : Settings} {count : Nat} {c : Controller} {tenants : List Resident}
    {v w : Resident}

/-- A sound controller with live vectors of its own. -/
structure Tenanted (settings : Settings) (tenants : List Resident) (c : Controller) : Prop where
  sound : ∃ count, c.Sound settings count
  housed : ∀ v ∈ tenants, v.Housed c.units c.records
  apart : tenants.Pairwise fun v w => v.address ≠ w.address

namespace Tenanted

theorem tail (h : Tenanted settings (v :: tenants) c) : Tenanted settings tenants c :=
  ⟨h.sound, fun w member => h.housed w (by simp [member]), h.apart.of_cons⟩

theorem perm {others : List Resident} (h : Tenanted settings tenants c)
    (same : tenants.Perm others) :
    Tenanted settings others c :=
  ⟨h.sound, fun w member => h.housed w (same.mem_iff.mpr member),
    (same.pairwise_iff fun different => different.symm).mp h.apart⟩

end Tenanted

theorem room_of_housed (sound : c.Sound settings count) (housed : v.Housed c.units c.records) :
    v.address.toNat % 8 = 0 ∧ v.address.toNat + v.perUnit * 8 ≤ settings.bankBytes := by
  obtain ⟨memory, shared, same⟩ := sound.memories
  obtain ⟨blocks, owned, room⟩ := housed.owned
  rw [records_eq sound.units same] at owned
  have placed := shared.valid.placed _ owned
  have start := shared.valid.toNat_eq owned
  have inside := shared.inside
  have fits := Nat.mul_le_mul_right memory.blockBytes placed.2.2
  rw [Nat.add_mul, ← start] at fits
  rw [shared.blockBytes] at *
  unfold Allocator.standardBlockBytes at *
  unfold Resident.bytes at room
  dsimp only at *
  omega

theorem placed_of_housed (sound : c.Sound settings count) (housed : v.Housed c.units c.records) :
    v.Placed settings c.units :=
  ⟨housed.even, (room_of_housed sound housed).1, (room_of_housed sound housed).2⟩

/-- The shares of two vectors at different addresses are apart. -/
theorem apart_of_housed (sound : c.Sound settings count) (first : v.Housed c.units c.records)
    (second : w.Housed c.units c.records) (different : v.address ≠ w.address) :
    v.address.toNat / 8 + v.perUnit ≤ w.address.toNat / 8 ∨
      w.address.toNat / 8 + w.perUnit ≤ v.address.toNat / 8 := by
  obtain ⟨memory, shared, same⟩ := sound.memories
  obtain ⟨n, ownedFirst, roomFirst⟩ := first.owned
  obtain ⟨k, ownedSecond, roomSecond⟩ := second.owned
  rw [records_eq sound.units same] at ownedFirst ownedSecond
  have startFirst := shared.valid.toNat_eq ownedFirst
  have startSecond := shared.valid.toNat_eq ownedSecond
  have blocks := shared.valid.blocks_apart ownedFirst ownedSecond different
  rw [shared.blockBytes] at *
  unfold Allocator.standardBlockBytes at *
  unfold Resident.bytes at roomFirst roomSecond
  dsimp only at *
  omega

/-- A range at the front of the banks that no allocation meets ends before every vector. -/
theorem behind_of_free (sound : c.Sound settings count) (housed : v.Housed c.units c.records)
    {length : Nat} (free : ∀ memory ∈ c.memories, memory.isRangeFree 0 length = true) :
    length ≤ v.address.toNat := by
  obtain ⟨memory, shared, same⟩ := sound.memories
  obtain ⟨units, shape⟩ : ∃ units, allocators memory count = (0 :: units).map memory.onUnit :=
    allocators_eq_cons memory sound.units
  obtain ⟨blocks, owned, _⟩ := housed.owned
  rw [records_eq sound.units same] at owned
  have first : memory.isRangeFree 0 length = true := by
    have own := free (memory.onUnit 0) (by simp [same, shape])
    exact own
  have some := (shared.valid.placed _ owned).1
  have positive := shared.valid.positive
  rcases (Allocator.isRangeFree_iff shared.valid 0 length).mp first with empty | apart
  · omega
  · rcases apart _ owned with before | behind
    · have bytes : 0 < blocks * memory.blockBytes := Nat.mul_pos some positive
      dsimp only at before
      omega
    · dsimp only at behind
      omega

section Keeping

theorem allocate_cases (sound : c.Sound settings count) (bytes : Nat) :
    (∃ address after, allocate bytes c = .ok address after ∧
      after = { c with memories := after.memories } ∧
      after.Sound settings count ∧ (∀ r ∈ c.records, r.1 ≠ address) ∧
      ∃ blocks, bytes ≤ blocks * Allocator.standardBlockBytes ∧
        ∀ r, r ∈ after.records ↔ r = (address, blocks) ∨ r ∈ c.records) ∨
    allocate bytes c = .error (Allocator.refusal 0 Allocator.standardBlockBytes bytes) c := by
  obtain ⟨memory, shared, same⟩ := sound.memories
  cases outcome : memory.allocate bytes with
  | error e => exact .inr (shared.blockBytes ▸ allocate_of_error sound.units same outcome)
  | ok granted =>
    obtain ⟨address, grown⟩ := granted
    have ran := allocate_of_ok sound.units same outcome
    have kept := (allocate_keeps bytes).of_ok ran sound
    obtain ⟨valid, blockBytes, _, fresh, members⟩ := Allocator.allocate_eq_ok shared.valid outcome
    have enough := memory.le_blocksFor shared.valid.positive bytes
    rw [shared.blockBytes] at enough
    refine .inl ⟨address, _, ran, rfl, kept, ?_, memory.blocksFor bytes, enough, fun r => ?_⟩
    · rw [records_eq sound.units same]
      exact fresh
    · rw [records_eq sound.units rfl, records_eq sound.units same]
      exact members r

theorem allocate_granted (sound : c.Sound settings count) {bytes : Nat} {address : UInt32}
    {grown : Controller} (ran : allocate bytes c = .ok address grown) :
    grown = { c with memories := grown.memories } ∧ grown.Sound settings count ∧
    (∀ r ∈ c.records, r.1 ≠ address) ∧
      ∃ blocks, bytes ≤ blocks * Allocator.standardBlockBytes ∧
        ∀ r, r ∈ grown.records ↔ r = (address, blocks) ∨ r ∈ c.records := by
  rcases allocate_cases sound bytes with ⟨_, _, done, facts⟩ | refused
  · cases done.symm.trans ran
    exact facts
  · cases refused.symm.trans ran

theorem placed_of_granted (sound : c.Sound settings count) {handle : Handle} {address : UInt32}
    {perUnit : Nat} {grown : Controller} (ran : allocate (perUnit * 8) c = .ok address grown) :
    (⟨handle, address, perUnit * c.units, perUnit⟩ : Resident).Placed settings c.units := by
  obtain ⟨same, kept, _, blocks, room, members⟩ := allocate_granted sound ran
  have units : grown.units = c.units := by rw [same]; rfl
  rw [← units]
  exact placed_of_housed kept ⟨rfl, blocks, (members _).mpr (.inl rfl), room⟩

/-- What empty banks have room for can be counted in a word. -/
theorem counted_of_blank (accepted : settings.Accepted) {bytes : Nat}
    (room : (blank settings).blocksFor bytes ≤ settings.bankBytes / Allocator.standardBlockBytes) :
    bytes + Allocator.standardBlockBytes < UInt64.size := by
  have small := accepted.bank_small
  have enough : bytes ≤ (blank settings).blocksFor bytes * Allocator.standardBlockBytes :=
    (blank settings).le_blocksFor (shared_blank accepted).valid.positive bytes
  have inside := Nat.le_trans (Nat.mul_le_mul_right _ room) (Nat.div_mul_le_self _ _)
  unfold Bank.addressable at small
  simp only [UInt64.size, Allocator.standardBlockBytes] at *
  omega

theorem allocate_blank (accepted : settings.Accepted) (sound : c.Sound settings count)
    (memories : c.memories = allocators (blank settings) count) {bytes : Nat}
    (room : (blank settings).blocksFor bytes ≤ settings.bankBytes / Allocator.standardBlockBytes) :
    ∃ address after, allocate bytes c = .ok address after := by
  obtain ⟨⟨address, grown⟩, granted⟩ :=
    Allocator.allocate_free rfl (counted_of_blank accepted room) room
  exact ⟨address, _, allocate_of_ok sound.units memories granted⟩

/-- A vector in memory that was just allocated joins the live ones. -/
theorem tenanted_cons {after : Controller} {blocks : Nat} (tenanted : Tenanted settings tenants c)
    (sound : after.Sound settings count) (units : after.units = c.units)
    (fresh : ∀ r ∈ c.records, r.1 ≠ v.address)
    (members : ∀ r, r ∈ after.records ↔ r = (v.address, blocks) ∨ r ∈ c.records)
    (even : v.length = v.perUnit * c.units)
    (room : v.bytes ≤ blocks * Allocator.standardBlockBytes) :
    Tenanted settings (v :: tenants) after := by
  refine ⟨⟨count, sound⟩, fun w member => ?_,
    List.pairwise_cons.mpr ⟨fun w member same => ?_, tenanted.apart⟩⟩
  · rw [units]
    rcases List.mem_cons.mp member with rfl | member
    · exact ⟨even, blocks, (members _).mpr (.inl rfl), room⟩
    · exact (tenanted.housed w member).mono fun _ owned => (members _).mpr (.inr owned)
  · obtain ⟨blocks, owned, _⟩ := (tenanted.housed w member).owned
    exact fresh _ owned same.symm

/-- Memory that is allocated for something else leaves the vectors where they are. -/
theorem allocate_tenanted (bytes : Nat) (tenanted : Tenanted settings tenants c) :
    Tenanted settings tenants (after (allocate bytes c)) := by
  obtain ⟨count, sound⟩ := tenanted.sound
  rcases allocate_cases sound bytes with ⟨address, after, ran, same, kept, _, blocks, _,
    members⟩ | refused
  · rw [ran]
    refine ⟨⟨count, kept⟩, fun v member => ?_, tenanted.apart⟩
    have units : after.units = c.units := by rw [same]; rfl
    rw [BankedRing.after, units]
    exact (tenanted.housed v member).mono fun _ owned => (members _).mpr (.inr owned)
  · rw [refused]
    exact tenanted

/-- A released record is the only one that goes. -/
theorem deallocate_tenanted {address : UInt32} (others : ∀ v ∈ tenants, v.address ≠ address)
    (tenanted : Tenanted settings tenants c) :
    Tenanted settings tenants (after (deallocate address c)) := by
  obtain ⟨count, sound⟩ := tenanted.sound
  have kept := ((deallocate_keeps address) c sound).1
  obtain ⟨memory, shared, same⟩ := sound.memories
  cases outcome : memory.deallocate address with
  | error e =>
    rw [deallocate_of_error sound.units same shared.valid outcome]
    exact tenanted
  | ok freed =>
    rw [deallocate_of_ok same shared.valid outcome] at kept ⊢
    refine ⟨⟨count, kept⟩, fun v member => ?_, tenanted.apart⟩
    apply (tenanted.housed v member).mono
    intro blocks owned
    rw [records_eq sound.units same] at owned
    rw [records_eq sound.units rfl]
    obtain ⟨n, live, _⟩ := Allocator.cleared_of_deallocate shared.valid outcome
    obtain ⟨_, done, _, _, _, members⟩ := Allocator.deallocate_eq_ok shared.valid live
    cases done.symm.trans outcome
    exact (members _).mpr ⟨owned, others v member⟩

end Keeping
end Controller
end BankedRing
