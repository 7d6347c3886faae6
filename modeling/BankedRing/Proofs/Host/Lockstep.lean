import BankedRing.Proofs.Device.Accounting
import BankedRing.Proofs.Host.Occupancy

/-! The allocators of all units stay in step. One address describes the memory of a vector on
every unit, so an allocation or a release that reached some of the units only would tear its
words apart. In every state that clients and owner lead to, the units agree block by block,
and what the controller answers is what each of them answers by itself. -/
namespace BankedRing

namespace Allocator
variable {memory : Allocator}

theorem Valid.onUnit (valid : memory.Valid) (unit : Nat) : (memory.onUnit unit).Valid :=
  ⟨valid.positive, valid.reach, valid.placed, valid.ordered, valid.marked⟩

end Allocator

namespace Controller
variable {settings : Settings} {count : Nat} {c reached : Controller}

/-- One allocator for each unit, and all of them with the same blocks in use and the same
allocations live. -/
structure Lockstep (c : Controller) : Prop where
  all : c.memories.length = c.units
  named : ∀ (unit : Nat) (memory : Allocator), c.memories[unit]? = some memory → memory.unit = unit
  used : ∀ first ∈ c.memories, ∀ second ∈ c.memories, first.used = second.used
  live : ∀ first ∈ c.memories, ∀ second ∈ c.memories, first.live = second.live

/-- The allocators of all units go through one change, and nothing else of the controller does. -/
def Everywhere (change : Allocator → Allocator → Prop) (c reached : Controller) : Prop :=
  reached = { c with memories := reached.memories } ∧ reached.memories.length = c.memories.length ∧
    ∀ (unit : Nat) (memory changed : Allocator), c.memories[unit]? = some memory →
      reached.memories[unit]? = some changed → change memory changed

theorem getElem?_allocators {memory own : Allocator} {unit : Nat}
    (h : (allocators memory count)[unit]? = some own) :
    own = memory.onUnit unit := by
  rw [allocators, List.getElem?_map] at h
  obtain ⟨id, found, rfl⟩ := Option.map_eq_some_iff.mp h
  obtain ⟨_, rfl⟩ := List.getElem?_eq_some_iff.mp found
  rw [List.getElem_range]

theorem Sound.lockstep (sound : c.Sound settings count) : c.Lockstep := by
  obtain ⟨memory, shared, same⟩ := sound.memories
  have each : ∀ own ∈ c.memories, ∃ unit, own = memory.onUnit unit := by
    intro own member
    rw [same] at member
    obtain ⟨unit, _, rfl⟩ := List.mem_map.mp member
    exact ⟨unit, rfl⟩
  refine ⟨?_, fun unit own found => ?_, fun first here second there => ?_,
    fun first here second there => ?_⟩
  · rw [sound.count_eq, same]
    simp [allocators]
  · rw [same] at found
    rw [getElem?_allocators found]
    rfl
  · obtain ⟨_, rfl⟩ := each first here
    obtain ⟨_, rfl⟩ := each second there
    rfl
  · obtain ⟨_, rfl⟩ := each first here
    obtain ⟨_, rfl⟩ := each second there
    rfl

/-- A change of one allocator that makes the same change on any unit is made everywhere. -/
theorem everywhere_of_memories {change : Allocator → Allocator → Prop} {memory changed : Allocator}
    (same : c.memories = allocators memory count)
    (each : ∀ unit, change (memory.onUnit unit) (changed.onUnit unit)) :
    Everywhere change c { c with memories := allocators changed count } := by
  refine ⟨rfl, by simp [same, allocators], fun unit own other before behind => ?_⟩
  rw [same] at before
  rw [getElem?_allocators before, getElem?_allocators behind]
  exact each unit

/-- An allocation is granted on all units, or refused by unit 0 before anything has happened. -/
theorem allocate_everywhere (sound : c.Sound settings count) (bytes : Nat) :
    (∃ address grown, allocate bytes c = .ok address grown ∧
      Everywhere (Allocator.Granted bytes address) c grown) ∨
      allocate bytes c = .error (Allocator.refusal 0 Allocator.standardBlockBytes bytes) c := by
  obtain ⟨memory, shared, same⟩ := sound.memories
  cases outcome : memory.allocate bytes with
  | error e => exact .inr (shared.blockBytes ▸ allocate_of_error sound.units same outcome)
  | ok granted =>
    obtain ⟨address, more⟩ := granted
    refine .inl ⟨address, _, allocate_of_ok sound.units same outcome,
      everywhere_of_memories same fun unit => ?_⟩
    refine Allocator.granted_of_allocate (shared.valid.onUnit unit) ?_
    rw [Allocator.allocate_onUnit, outcome]

/-- A release goes through on all units, or is refused by unit 0 and by all the others. -/
theorem deallocate_everywhere (sound : c.Sound settings count) (address : UInt32) :
    (∃ freed, deallocate address c = .ok () freed ∧ Everywhere (Allocator.Freed address) c freed) ∨
      deallocate address c = .error (.invalidDeallocation 0 address) c ∧
        ∀ memory ∈ c.memories, ∀ held ∈ memory.live, held.1 ≠ address := by
  obtain ⟨memory, shared, same⟩ := sound.memories
  cases outcome : memory.deallocate address with
  | error e =>
    refine .inr ⟨deallocate_of_error sound.units same shared.valid outcome, fun own member => ?_⟩
    rw [same] at member
    obtain ⟨unit, _, rfl⟩ := List.mem_map.mp member
    exact Allocator.dead_of_deallocate shared.valid outcome
  | ok less =>
    refine .inl ⟨_, deallocate_of_ok same shared.valid outcome,
      everywhere_of_memories same fun unit => ?_⟩
    refine Allocator.freed_of_deallocate (shared.valid.onUnit unit) ?_
    rw [Allocator.deallocate_onUnit shared.valid, outcome]

end Controller

namespace Resident
open Controller (Lockstep Everywhere)
variable {settings : Settings} {handle : Handle} {registry : Registry} {tenants : List Resident}
    {c : Controller}
  {poisoned : Bool}

/-- Whatever clients and owner have done, all units have the same blocks in use and the same
allocations live. So an allocation is granted at one address by every unit, or refused by
unit 0 and changes nothing, and a release frees the address on every unit, or is refused by
unit 0 and changes nothing. Only bytes that do not fit a word when they are rounded up to
blocks make an allocation trap, which changes nothing either. -/
theorem units_in_lockstep (accepted : settings.Accepted)
    (visited : Visited settings handle (fun _ _ => True) registry tenants)
    (found : registry[handle]? = some ⟨c, poisoned⟩) :
    0 < c.units ∧ c.Lockstep ∧
      (∀ bytes,
        (∃ address grown, Controller.allocate bytes c = .ok address grown ∧
          Everywhere (Allocator.Granted bytes address) c grown) ∨
        (bytes + 4096 < UInt64.size ∧ Controller.allocate bytes c =
          .error (.memoryExhausted 0 bytes) c) ∨
        (UInt64.size ≤ bytes + 4096 ∧ Controller.allocate bytes c =
          .error (.trapped .overflow) c)) ∧
      ∀ address,
        (∃ freed, Controller.deallocate address c = .ok () freed ∧
          Everywhere (Allocator.Freed address) c freed) ∨
        (Controller.deallocate address c = .error (.invalidDeallocation 0 address) c ∧
          ∀ memory ∈ c.memories, ∀ held ∈ memory.live, held.1 ≠ address) := by
  obtain ⟨shared, here, tenure⟩ := held_of_visited accepted visited
  cases here.symm.trans found
  obtain ⟨count, sound⟩ := tenure.sound accepted
  have units : 0 < c.units := sound.count_eq.symm ▸ sound.units
  refine ⟨units, sound.lockstep, fun bytes => ?_, Controller.deallocate_everywhere sound⟩
  rcases Controller.allocate_everywhere sound bytes with granted | refused
  · exact .inl granted
  · rcases Nat.lt_or_ge (bytes + Allocator.standardBlockBytes) UInt64.size with counted | uncounted
    · rw [Allocator.refusal, if_neg (Nat.not_le_of_lt counted)] at refused
      exact .inr (.inl ⟨counted, refused⟩)
    · rw [Allocator.refusal, if_pos uncounted] at refused
      exact .inr (.inr ⟨uncounted, refused⟩)

/-- The standard units agree while a vector of four words lives on them. -/
theorem units_in_lockstep_standard :
    ∃ (v : Resident) (c : Controller), Visited {} 0 (fun _ _ => True) [⟨c, false⟩] [v] ∧
      c.Lockstep ∧
        ∃ freed, Controller.deallocate v.address c = .ok () freed ∧
        Everywhere (Allocator.Freed v.address) c freed := by
  obtain ⟨c, started, sound, logging, memories⟩ :=
    Controller.standard_starts (fun _ => .error .notFound) []
  obtain ⟨v, reached, ran, _, _, kept, _, housed, _⟩ :=
    first_given Controller.standard_accepted sound memories logging [1, 2, 3, 4] rfl (by decide)
  have visited : Visited {} 0 (fun _ _ => True) [⟨reached, false⟩] [v] := visited_first started ran
  obtain ⟨_, lockstep, _, releases⟩ := units_in_lockstep Controller.standard_accepted visited rfl
  refine ⟨v, reached, visited, lockstep, ?_⟩
  rcases releases v.address with freed | ⟨_, dead⟩
  · exact freed
  · obtain ⟨memory, shared, same⟩ := kept.memories
    obtain ⟨units, shape⟩ := Controller.allocators_eq_cons memory kept.units
    obtain ⟨blocks, owned, _⟩ := housed.owned
    rw [Controller.records_eq kept.units same] at owned
    have first : memory.onUnit 0 ∈ reached.memories := by simp [same, shape]
    exact absurd rfl (dead _ first _ (List.mem_map.mpr ⟨_, owned, rfl⟩))

/-- The standard units trap on the largest size instead of having no room for it. -/
theorem allocation_uncounted :
    ∃ c : Controller, Visited {} 0 (fun _ _ => True) [⟨c, false⟩] [] ∧
      Controller.allocate 18446744073709551615 c = .error (.trapped .overflow) c := by
  obtain ⟨c, started, sound, _, memories⟩ :=
    Controller.standard_starts (fun _ => .error .notFound) []
  have fresh : Visited {} 0 (fun _ _ => True) ([] ++ [⟨c, false⟩]) [] := .start rfl started
  have uncounted : UInt64.size ≤ 18446744073709551615 + (Controller.blank {}).blockBytes := by
    decide
  have refused : (Controller.blank {}).allocate 18446744073709551615 =
    .error (.trapped .overflow) := if_pos uncounted
  have ran := Controller.allocate_of_error sound.units memories refused
  rw [Allocator.refusal, if_pos uncounted] at ran
  exact ⟨c, fresh, ran⟩

end Resident
end BankedRing
