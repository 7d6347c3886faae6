import BankedRing.Proofs.Device.Request
import BankedRing.Proofs.Host.Batch

/-! Requests to all units at once. A request `Wrote` one region of every bank and left the
rest as it was; the words that the host reads back follow from that. -/
namespace BankedRing.Controller
variable {settings : Settings} {count : Nat} {c after : Controller}

/-- The words at one offset on all units, in unit order. -/
def words (c : Controller) (address : UInt32) (perUnit : Nat) : List Word :=
  c.pool.devices.flatMap fun device => device.bank.wordsAt address.toNat (perUnit * 8)

/-- Every unit has received its row at one offset, and nothing else in its bank has changed. -/
structure Wrote (before : Controller) (offset : Nat) (row : Nat → List Word) (after : Controller) :
    Prop where
  memories : after.memories = before.memories
  settings : after.settings = before.settings
  units : after.units = before.units
  banks : ∀ i (device : Device), before.pool.devices[i]? = some device →
    ∃ reached, after.pool.devices[i]? = some reached ∧
      device.bank.Replaced (offset / 8) (row i) reached.bank

namespace Wrote
variable {address : UInt32} {row : Nat → List Word} {perUnit : Nat}

theorem words (h : c.Wrote address.toNat row after)
    (length : ∀ i, i < c.units → (row i).length = perUnit) :
    after.words address perUnit = (List.range c.units).flatMap row := by
  have rows : after.pool.devices.map
    (fun device => device.bank.wordsAt address.toNat (perUnit * 8)) =
      (List.range c.units).map row := by
    apply List.ext_getElem?
    intro i
    rw [List.getElem?_map, List.getElem?_map]
    rcases Nat.lt_or_ge i c.units with inside | outside
    · obtain ⟨reached, found, replaced⟩ := h.banks i _ (List.getElem?_eq_getElem inside)
      rw [found, List.getElem?_range inside, Option.map_some, Option.map_some, replaced.wordsAt (by
        rw [length i inside]
        omega)]
    · have same := h.units
      unfold Controller.units Pool.units at *
      rw [List.getElem?_eq_none (by omega), List.getElem?_eq_none (by simpa using outside)]
      rfl
  rw [Controller.words, List.flatMap_def, rows, List.flatMap_def]

theorem words_of_disjoint (h : c.Wrote address.toNat row after)
    (length : ∀ i, i < c.units → (row i).length = perUnit) {other : UInt32} {size : Nat}
    (apart : other.toNat / 8 + size ≤ address.toNat / 8 ∨
      address.toNat / 8 + perUnit ≤ other.toNat / 8) : after.words other size =
        c.words other size := by
  have rows : after.pool.devices.map (fun device => device.bank.wordsAt other.toNat (size * 8)) =
      c.pool.devices.map fun device => device.bank.wordsAt other.toNat (size * 8) := by
    apply List.ext_getElem?
    intro i
    rw [List.getElem?_map, List.getElem?_map]
    rcases Nat.lt_or_ge i c.pool.devices.length with inside | outside
    · have before := List.getElem?_eq_getElem inside
      obtain ⟨reached, found, replaced⟩ := h.banks i _ before
      rw [found, before, Option.map_some, Option.map_some, replaced.wordsAt_of_disjoint (by
        rw [length i inside]
        omega)]
    · have same := h.units
      unfold Controller.units Pool.units at *
      rw [List.getElem?_eq_none (by omega), List.getElem?_eq_none outside]
  rw [Controller.words, Controller.words, List.flatMap_def, rows, List.flatMap_def]

end Wrote

section Asking
variable {program : Program} {block : List UInt8} {region : Region} {operation : Operation}

/-- The unit at one position, as it is asked by a block. -/
theorem send_eq_ok (symbols : program.symbols = [(blockSymbol, block.length)]) (c : Controller) :
    send blockSymbol block { c with pool := loaded program c.pool } =
      .ok () { c with
        pool :=
          ⟨c.pool.devices.mapIdx fun _ device => device.asked program block, some program,
            c.pool.schedules⟩ } := by
  have start : loaded program c.pool =
      ⟨c.pool.devices.mapIdx fun _ device => device.load program, some program,
        c.pool.schedules⟩ := by
    rw [loaded, List.mapIdx_eq_iff.mpr fun i => List.getElem?_map]
  rw [start]
  refine onPool_eq_ok (Pool.broadcast_eq_ok fun i device _ => ?_) c
  exact Device.receive_symbol (Device.symbol_load_block symbols device) (by simp) (by decide)

/-- A controller whose units have loaded a program and received its block. -/
def asked (c : Controller) (program : Program) (block : List UInt8) : Controller :=
  { c with
    loadedPath := some (program.path c.settings.programDirectory)
    pool := { c.pool with
      devices := c.pool.devices.mapIdx fun _ device => device.asked program block
      loaded := some program } }

theorem runBlock_eq (symbols : program.symbols = [(blockSymbol, block.length)]) (c : Controller) :
    runBlock program block c = execute (c.asked program block) := by
  let onPath : Controller :=
    { c with loadedPath := some (program.path c.settings.programDirectory) }
  exact (run_bind_ok (load_eq_ok program)).trans (run_bind_ok (send_eq_ok symbols onPath))

variable (accepted : settings.Accepted) (sound : c.Sound settings count)
  (asks : program.Asks block region operation)
  (grants : ∀ (i : Nat) (device : Device), c.pool.devices[i]? = some device →
    Stream.Grants region device.bank)
include accepted sound asks grants

/-- A block that all units compute is on the units, also when the launch cannot be logged. -/
theorem runBlock_written (recorded : settings.shape.Recorded) {row : Nat → List Word}
    (computed : ∀ i (device : Device), c.pool.devices[i]? = some device →
      operation.kernel (device.bank.wordsAt region.a region.length)
        (Stream.secondWords region device.bank) =
        .ok (row i))
    (length : ∀ i, i < c.units → (row i).length = region.length / 8) :
    ∃ after, c.Wrote (Stream.target region) row after ∧
      (runBlock program block c = .ok () after ∧ after.Logging ∨
      ¬ c.Logging ∧ ∃ refusal, runBlock program block c = .error (.logFile refusal) after) := by
  have runs := fun i (device : Device) (found : c.pool.devices[i]? = some device) =>
    Device.launch_asked accepted (sound.pool.units i device found) asks
      (grants i device found) recorded
      (computed i device found) (length i (List.getElem?_eq_some_iff.mp found).1)
  have each : ∀ device ∈ (c.asked program block).pool.devices,
      Device.launch device = .ok () (BankedRing.after (Device.launch device)) := by
    intro device member
    obtain ⟨i, found⟩ := List.mem_iff_getElem?.mp member
    rw [asked, List.getElem?_mapIdx] at found
    obtain ⟨old, before, rfl⟩ := Option.map_eq_some_iff.mp found
    obtain ⟨launched, ran, _⟩ := runs i old before
    rw [ran]
    rfl
  obtain ⟨finished, pool, memories, settings, outcome⟩ :=
    execute_finished (c := c.asked program block) rfl each
  rw [runBlock_eq asks.symbols]
  refine ⟨finished, ⟨memories, settings, ?_, fun i device found => ?_⟩, outcome⟩
  · rw [Controller.units, pool]
    simp [Pool.units, asked, Controller.units]
  · obtain ⟨launched, done, replaced⟩ := runs i device found
    refine ⟨drained launched, ?_, replaced⟩
    rw [pool]
    simp only [asked, List.getElem?_map, List.getElem?_mapIdx, found, Option.map_some, done,
      BankedRing.after]

theorem runBlock_unrecorded (unrecorded : ¬ settings.shape.Recorded) :
    ∃ stopped, runBlock program block c = .error (.trapped .oversized) stopped := by
  have populated : 0 < (c.asked program block).pool.devices.length := by
    rw [asked, List.length_mapIdx, sound.pool.count]
    exact sound.units
  rw [runBlock_eq asks.symbols]
  refine execute_trapped (c := c.asked program block) rfl populated fun device member => ?_
  obtain ⟨i, found⟩ := List.mem_iff_getElem?.mp member
  rw [asked, List.getElem?_mapIdx] at found
  obtain ⟨old, before, rfl⟩ := Option.map_eq_some_iff.mp found
  exact Device.launch_asked_unrecorded accepted (sound.pool.units i old before) asks
    (grants i old before) unrecorded

end Asking

section Transfers

/-- The controller whose units have received their rows at one offset. -/
def put (c : Controller) (offset : Nat) (row : Nat → List Word) : Controller :=
  { c with pool := { c.pool with devices := c.pool.devices.mapIdx fun i device =>
      { device with bank := device.bank.put (offset / 8) (row i) } } }

theorem wrote_put (c : Controller) (offset : Nat) (row : Nat → List Word) :
    c.Wrote offset row (c.put offset row) := by
  refine ⟨rfl, rfl, by simp [put, Controller.units, Pool.units], ?_⟩
  intro i device found
  exact ⟨_, by rw [put, List.getElem?_mapIdx, found]; rfl,
    device.bank.replaced_put (offset / 8) (row i)⟩

theorem mapIdx_devices (c : Controller) :
    (⟨c.pool.devices.mapIdx fun _ device => device, c.pool.loaded, c.pool.schedules⟩ : Pool) =
      c.pool := by
  rw [mapIdx_eq_map, List.map_id']

variable (accepted : settings.Accepted) (sound : c.Sound settings count) {address : UInt32}
    {perUnit : Nat}
  (aligned : address.toNat % 8 = 0) (room : address.toNat + perUnit * 8 ≤ settings.bankBytes)
include accepted sound aligned room

theorem copyFrom_eq_ok : c.copyFrom address perUnit = .ok (c.words address perUnit) := by
  have read := Pool.gather_eq_ok
    (f := fun device => Bytes.ofWords (device.bank.wordsAt address.toNat (perUnit * 8)))
      fun device member => by
      obtain ⟨i, found⟩ := List.mem_iff_getElem?.mp member
      have capacity := (sound.pool.units i device found).bank
      refine (if_pos rfl).trans (Bank.read_eq_ok ?_ ⟨aligned, Nat.mul_mod_left _ _, ?_⟩)
      · rw [capacity]
        exact accepted.bank_small
      · rw [capacity]
        exact room
  rw [copyFrom, read, ok_bind, List.flatMap_map, Controller.words, List.flatMap_def,
    List.flatMap_def,
    List.map_congr_left fun device _ => Bytes.toWords_ofWords _]
  rfl

theorem receive_row {row : List Word} (length : row.length = perUnit) {i : Nat} {device : Device}
    (found : c.pool.devices[i]? = some device) :
    Device.receive bankTarget address.toNat (Bytes.ofWords row) device =
      .ok () { device with bank := device.bank.put (address.toNat / 8) row } := by
  have capacity := (sound.pool.units i device found).bank
  refine Device.receive_bank (by rw [capacity]; exact accepted.bank_small) ⟨aligned,
    Nat.mul_mod_right _ _, ?_⟩
  rw [length, capacity]
  omega

theorem copyTo_scatter_eq_ok {values : List Word} (length : values.length = perUnit * count) :
    copyTo values address .scatter c =
      .ok () (c.put address.toNat fun unit => slice (unit * perUnit) perUnit values) := by
  have counted := sound.count_eq
  have units := sound.units
  have some : c.units ≠ 0 := by omega
  have even : ¬ values.length % c.units ≠ 0 := by
    rw [length, counted]
    exact not_not.mpr (Nat.mul_mod_left _ _)
  have share : c.evenShare values.length = .ok perUnit := by
    simp only [evenShare, if_neg some, if_neg even]
    rw [length, counted, Nat.mul_div_cancel _ units]
    rfl
  have sent : Pool.scatter bankTarget address.toNat
      ((List.range c.pool.devices.length).map fun unit =>
      Bytes.ofWords (slice (unit * perUnit) perUnit values))
        ⟨c.pool.devices.mapIdx fun _ device => device, c.pool.loaded, c.pool.schedules⟩ =
        .ok () (c.put address.toNat fun unit => slice (unit * perUnit) perUnit values).pool := by
    refine Pool.scatter_eq_ok fun i device found => receive_row accepted sound aligned room ?_ found
    have inside : i < c.pool.devices.length := (List.getElem?_eq_some_iff.mp found).1
    rw [sound.pool.count] at inside
    exact length_slice_even length inside
  rw [mapIdx_devices] at sent
  simp only [copyTo, run_get, share, run_lift_ok]
  exact onPool_eq_ok sent c

theorem copyTo_broadcast_eq_ok {values : List Word} (length : values.length = perUnit) :
    copyTo values address .broadcast c = .ok () (c.put address.toNat fun _ => values) := by
  have sent : Pool.broadcast bankTarget address.toNat (Bytes.ofWords values)
      ⟨c.pool.devices.mapIdx fun _ device => device, c.pool.loaded, c.pool.schedules⟩ = .ok ()
        (c.put address.toNat fun _ => values).pool :=
    Pool.broadcast_eq_ok fun i device found => receive_row accepted sound aligned room length found
  rw [mapIdx_devices] at sent
  exact onPool_eq_ok sent c

end Transfers
end BankedRing.Controller
