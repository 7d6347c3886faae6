import BankedRing.Proofs.Host.Tenure

/-! Whose the allocated memory is. As long as nobody but the vectors allocates, and nobody has
died with the lock in hand, what is live on every unit is what the live vectors hold, each of
them once, and a dropped vector frees its own blocks and no others. So nothing leaks, on any
of the ways that an operation can fail, and nothing is released twice. -/
namespace BankedRing

namespace Controller
variable {settings : Settings} {count : Nat} {c : Controller} {address : UInt32} {blocks : Nat}

/-- A recorded address is released on all units, each of which frees the blocks of its record. -/
theorem deallocate_exact (sound : c.Sound settings count) (owned : (address, blocks) ∈ c.records) :
    ∃ reached, deallocate address c = .ok () reached ∧
      reached = { c with memories := reached.memories } ∧
      reached.records = c.records.filter (fun r => r.1 ≠ address) ∧
      ∀ (unit : Nat) (memory : Allocator), c.memories[unit]? = some memory → ∃ freed : Allocator,
        reached.memories[unit]? = some freed ∧
        freed.live = memory.live.filter (fun held => held.1 ≠ address) ∧
        ∀ i : Nat, freed.used[i]? = some true ↔ memory.used[i]? = some true ∧
          ¬ (address.toNat / Allocator.standardBlockBytes ≤ i ∧
            i < address.toNat / Allocator.standardBlockBytes + blocks) := by
  obtain ⟨memory, shared, same⟩ := sound.memories
  rw [records_eq sound.units same] at owned ⊢
  obtain ⟨freed, ran, records, used⟩ := Allocator.deallocate_exact shared.valid owned
  have blockBytes := (Allocator.valid_after_deallocate shared.valid ran).2.1
  refine ⟨_, deallocate_of_ok same shared.valid ran, rfl,
    (records_eq sound.units rfl).trans records, ?_⟩
  intro unit own found
  rw [same, allocators, List.getElem?_map] at found
  obtain ⟨id, here, rfl⟩ := Option.map_eq_some_iff.mp found
  refine ⟨freed.onUnit id, by rw [allocators, List.getElem?_map, here]; rfl, ?_, ?_⟩
  · simp only [Allocator.live, Allocator.onUnit, records, blockBytes, List.filter_map]
    rfl
  · unfold Allocator.Owns Allocator.block at used
    rw [shared.blockBytes] at used
    exact used

theorem records_allocate (sound : c.Sound settings count) {bytes : Nat} {grown : Controller}
    (blocksFor : ∀ memory : Allocator, memory.blockBytes = Allocator.standardBlockBytes →
      memory.blocksFor bytes = blocks)
    (ran : allocate bytes c = .ok address grown) :
    grown.records.Perm ((address, blocks) :: c.records) := by
  obtain ⟨memory, shared, same⟩ := sound.memories
  cases outcome : memory.allocate bytes with
  | error e => cases (allocate_of_error sound.units same outcome).symm.trans ran
  | ok granted =>
    obtain ⟨_, larger⟩ := granted
    cases (allocate_of_ok sound.units same outcome).symm.trans ran
    have fresh := (Allocator.allocate_eq_ok shared.valid outcome).2.2.2.1
    rw [records_eq sound.units rfl, records_eq sound.units same, Allocator.allocate_records outcome,
      blocksFor memory shared.blockBytes]
    exact Allocator.perm_record _ fresh

end Controller

namespace Resident
variable {settings : Settings} {handle : Handle}
    {admits : List Resident → Controller.Command → Prop}
  {tenants : List Resident} {shared : SharedController}

/-- The blocks under a vector's share, at least one. -/
def blocks (v : Resident) : Nat := max 1 ((8 * v.perUnit + 4095) / 4096)

/-- What a vector has allocated on every unit: its address, and whole blocks from there on. -/
def holding (v : Resident) : UInt32 × Nat := (v.address, v.blocks * 4096)

theorem blocksFor_share {memory : Allocator}
    (blockBytes : memory.blockBytes = Allocator.standardBlockBytes) (v : Resident) :
    memory.blocksFor (v.perUnit * 8) = v.blocks := by
  rw [Allocator.blocksFor, blockBytes, blocks, Allocator.standardBlockBytes, Nat.max_comm,
    Nat.mul_comm v.perUnit 8]
  rfl

theorem filter_others {v : Resident} {others : List Resident}
    (apart : ∀ w ∈ others, v.address ≠ w.address) :
    (others.map fun w => (w.address, w.blocks)).filter (fun r => r.1 ≠ v.address) =
      others.map fun w => (w.address, w.blocks) := by
  refine List.filter_eq_self.mpr fun r kept => decide_eq_true ?_
  obtain ⟨w, other, rfl⟩ := List.mem_map.mp kept
  exact (apart w other).symm

/-- Without the owner's own allocations, and as long as the lock is not poisoned, the records
are those of the live vectors. -/
theorem Tenure.records_perm (accepted : settings.Accepted)
    (tenure : Tenure settings handle (fun _ => Controller.Command.Steady) shared tenants)
    (unpoisoned : shared.poisoned = false) :
    shared.controller.records.Perm (tenants.map fun v => (v.address, v.blocks)) := by
  induction tenure with
  | started started =>
    obtain ⟨_, count, sound, confined⟩ := Controller.start_confined accepted started
    have records := Controller.records_eq sound.units confined.memories
    rw [records]
    exact .nil
  | @stepped c reached p _ tenants _ confined still ih =>
    -- The lock is open now, so it has been open all along, and every release has gone through.
    have open' : p = false := by
      cases p with
      | false => rfl
      | true => exact (still rfl).symm.trans unpoisoned
    have records : reached.records = c.records := by
      rw [Controller.records, confined.memories, ← Controller.records]
    rw [records]
    exact ih open'
  | @granted c reached address perUnit tenants tenure ran ih =>
    obtain ⟨count, sound⟩ := tenure.sound accepted
    let v : Resident := ⟨handle, address, perUnit * c.units, perUnit⟩
    exact (Controller.records_allocate sound (fun _ standard => blocksFor_share standard v)
      ran).trans ((ih rfl).cons _)
  | @freed c q tenants v tenure member ih =>
    have tenanted := tenure.tenanted accepted fun _ _ none => none.elim
    obtain ⟨count, sound⟩ := tenanted.sound
    have first := tenanted.perm (List.perm_cons_erase member)
    have before := (ih rfl).trans ((List.perm_cons_erase member).map _)
    have owned : (v.address, v.blocks) ∈ c.records := before.mem_iff.mpr (by simp)
    obtain ⟨reached, ran, _, records, _⟩ := Controller.deallocate_exact sound owned
    have left := before.filter fun r => r.1 ≠ v.address
    rw [List.map_cons, List.filter_cons_of_neg (by simp),
      filter_others (List.pairwise_cons.mp first.apart).1] at left
    rw [ran, after, records]
    exact left
  | abandoned => cases unpoisoned
  | allocated _ _ steady => exact steady.elim
  | deallocated _ _ steady => exact steady.elim

/-- Vectors, their operations and the runs over towers neither leak memory nor release it
twice: on every unit the live allocations are the holdings of the live vectors, each owned
once, and every one of these vectors can be dropped, which frees its own blocks on every
unit and nothing else. -/
theorem occupancy_exact {registry : Registry} {c : Controller} (accepted : settings.Accepted)
    (visited : Visited settings handle (fun _ => Controller.Command.Steady) registry tenants)
    (found : registry[handle]? = some ⟨c, false⟩) :
    c.memories.length = c.units ∧ (∀ memory ∈ c.memories, memory.live.Perm (tenants.map holding)) ∧
      (tenants.map (·.address)).Nodup ∧
      ∀ v ∈ tenants, ∃ reached, reached = { c with memories := reached.memories } ∧
        Registry.locked v.handle (Controller.deallocate v.address) registry =
          .ok () (registry.set handle ⟨reached, false⟩) ∧
        v.release registry = .ok () (registry.set handle ⟨reached, false⟩) ∧
        ∀ (unit : Nat) (memory : Allocator), c.memories[unit]? = some memory → ∃ freed : Allocator,
          reached.memories[unit]? = some freed ∧
          freed.live = memory.live.filter (fun held => held.1 ≠ v.address) ∧
          ∀ i : Nat, freed.used[i]? = some true ↔ memory.used[i]? = some true ∧
            ¬ (v.address.toNat / 4096 ≤ i ∧ i < v.address.toNat / 4096 + v.blocks) := by
  obtain ⟨shared, here, tenure⟩ := held_of_visited accepted visited
  cases here.symm.trans found
  have tenanted := tenure.tenanted accepted fun _ _ none => none.elim
  have records : c.records.Perm (tenants.map fun v => (v.address, v.blocks)) :=
    tenure.records_perm accepted rfl
  obtain ⟨count, sound⟩ := tenanted.sound
  obtain ⟨memory, shared, same⟩ := sound.memories
  refine ⟨?_, ?_, List.pairwise_map.mpr tenanted.apart, ?_⟩
  · rw [sound.count_eq, same]
    simp [Controller.allocators]
  · intro own member
    rw [same] at member
    obtain ⟨unit, _, rfl⟩ := List.mem_map.mp member
    rw [Controller.records_eq sound.units same] at records
    have live := records.map fun record => (record.1, record.2 * memory.blockBytes)
    rw [List.map_map, shared.blockBytes] at live
    simp only [Allocator.live, Allocator.onUnit, shared.blockBytes]
    exact live
  · intro v member
    have owned : (v.address, v.blocks) ∈ c.records :=
      records.mem_iff.mpr (List.mem_map.mpr ⟨v, member, rfl⟩)
    obtain ⟨reached, ran, kept, _, each⟩ := Controller.deallocate_exact sound owned
    rw [← tenure.own v member] at found ⊢
    have released := Registry.locked_ok found ran
    refine ⟨reached, kept, released, ?_, each⟩
    simp only [release, released]

/-- A vector of four words on the standard units holds one block of each bank. -/
theorem occupancy_exact_standard :
    ∃ (v : Resident) (c : Controller),
      Visited {} 0 (fun _ => Controller.Command.Steady) [⟨c, false⟩] [v] ∧
      (∀ memory ∈ c.memories, memory.live.Perm [(v.address, 4096)]) ∧
      ∃ left, v.release [⟨c, false⟩] = .ok () left := by
  obtain ⟨c, started, sound, logging, memories⟩ :=
    Controller.standard_starts (fun _ => .error .notFound) []
  obtain ⟨v, reached, ran, _, perUnit, _⟩ :=
    first_given Controller.standard_accepted sound memories logging [1, 2, 3, 4] rfl (by decide)
  have visited : Visited {} 0 (fun _ => Controller.Command.Steady) [⟨reached, false⟩] [v] :=
    visited_first started ran
  obtain ⟨_, live, _, dropped⟩ := occupancy_exact Controller.standard_accepted visited rfl
  obtain ⟨_, _, _, released, _⟩ := dropped v List.mem_cons_self
  have one : holding v = (v.address, 4096) := by
    rw [holding, blocks, perUnit]
    rfl
  exact ⟨v, reached, visited, one ▸ live, _, released⟩

end Resident
end BankedRing
