import BankedRing.Proofs.Host.Batch

/-! Starting a controller. A start from accepted settings goes through whenever units are
granted, the host can record them and the log opens; the controller is then sound, and
nothing is allocated on it. -/
namespace BankedRing

theorem Pool.acquire_of_granted {settings : Settings} {request : UnitRequest} {profile : String}
    {count : Nat} (checked : Settings.checkProfile profile = .ok ())
    (granted : Settings.grant settings.poolSize request = .ok count)
    (host : deviceFootprint * count < 9223372036854775808) (schedules : List Schedule) :
    acquire settings request profile (empty schedules) = .ok count ⟨(List.range count).map fun id =>
      Device.new id settings.bankBytes settings.scratchBytes settings.shape, none, schedules⟩ := by
  simp only [acquire, checked, granted, ok_bind, Except.mapError, run_lift_ok]
  rw [Checked.buffer_eq_ok host, run_lift_checked_ok]
  rfl

namespace Controller
variable {settings : Settings} {count : Nat}

/-- The allocator of an empty bank. -/
def blank (settings : Settings) : Allocator :=
  Allocator.ofGeometry 0 settings.bankBytes Allocator.standardBlockBytes

theorem shared_blank (accepted : settings.Accepted) : Shared settings (blank settings) := by
  have small := accepted.bank_small
  refine ⟨Allocator.valid_ofGeometry 0 (Nat.le_of_lt small) _, rfl, ?_⟩
  simp only [blank, Allocator.ofGeometry, List.length_replicate]
  exact Nat.div_mul_le_self _ _

theorem launch_boot (device : Device) :
    ∃ line, Device.launch (device.load .boot) =
      .ok () { device.load .boot with log := device.log ++ [line] } :=
  ⟨_, rfl⟩

/-- A controller whose units have not booted yet. -/
def unbooted (settings : Settings) (executionLog : Option ExecutionLog) (schedules : List Schedule)
    (count : Nat) :
    Controller where
  settings
  executionLog
  pool := ⟨(List.range count).map fun id =>
    Device.new id settings.bankBytes settings.scratchBytes settings.shape, none, schedules⟩
  memories := allocators (blank settings) count
  loadedPath := none
  lastLogs := []
  launches := 0

theorem sound_unbooted (accepted : settings.Accepted)
    (granted : Settings.grant settings.poolSize settings.units = .ok count)
    (host : Pool.deviceFootprint * count < 9223372036854775808) (executionLog : Option ExecutionLog)
    (schedules : List Schedule) :
    (unbooted settings executionLog schedules count).Sound settings count :=
  ⟨rfl, Pool.grant_pos granted, host, Pool.built_new settings count _, _,
    shared_blank accepted, rfl⟩

theorem boot_eq_ok {c : Controller} (sound : c.Sound settings count) (logging : c.Logging) :
    ∃ booted, (do load .boot; execute : Step Unit) c = .ok () booted ∧ booted.Sound settings count ∧
      booted.Logging ∧ booted.memories = c.memories := by
  have each : ∀ device ∈ (loaded .boot c.pool).devices,
      Device.launch device = .ok () (after (Device.launch device)) := by
    intro device member
    obtain ⟨old, _, rfl⟩ := List.mem_map.mp member
    obtain ⟨line, ran⟩ := launch_boot old
    rw [ran]
    rfl
  obtain ⟨executionLog, lastLogs, executed, still⟩ := execute_eq_ok (c := { c with
    pool := loaded .boot c.pool
    loadedPath := some (Program.boot.path c.settings.programDirectory) }) rfl logging each
  have built : Pool.Built settings count
      ⟨((loaded .boot c.pool).devices.map fun device => after (Device.launch device)).map drained,
        some .boot, c.pool.schedules.tail⟩ := by
    constructor
    · simp [loaded, sound.pool.count]
    · intro i device found
      simp only [loaded, List.getElem?_map, Option.map_map] at found
      obtain ⟨old, before, rfl⟩ := Option.map_eq_some_iff.mp found
      have own := sound.pool.units i old before
      exact ⟨own.id, own.bank, own.scratch, own.shape⟩
  refine ⟨_, (run_bind_ok (load_eq_ok .boot)).trans executed, ?_, still, rfl⟩
  exact ⟨sound.configured, sound.units, sound.host, built, sound.memories⟩

theorem start_eq_ok (accepted : settings.Accepted)
    {openLog : Path → Except FileRefusal ExecutionLog} {schedules : List Schedule}
    (checked : Settings.checkProfile settings.profile = .ok ())
    (granted : Settings.grant settings.poolSize settings.units = .ok count)
    (host : Pool.deviceFootprint * count < 9223372036854775808) {executionLog : Option ExecutionLog}
    (opened : (settings.logFile.mapM fun path => (openLog path).mapError Error.logFile) =
      .ok executionLog)
    (logging : ∀ log, executionLog = some log → log.refusal = none) :
    ∃ c, start settings openLog schedules = .ok c ∧ c.Sound settings count ∧ c.Logging ∧
      c.memories = allocators (blank settings) count := by
  obtain ⟨started, ran, sound, still, memories⟩ :=
    boot_eq_ok (sound_unbooted accepted granted host executionLog schedules) logging
  refine ⟨started, ?_, sound, still, memories⟩
  unfold start
  rw [accepted.valid, ok_bind, Pool.acquire_of_granted checked granted host schedules]
  dsimp only
  rw [opened, ok_bind]
  split
  · rename_i reached
    cases ran.symm.trans reached
    rfl
  · rename_i reached
    cases ran.symm.trans reached

section Examples

/-- Accepted settings with more tasklets than the host can record. -/
def crowded : Settings := {
  units := .count 1
  tasklets := 400000000000000000
  cacheBytes := 8
  scratchBytes := 18446744073709551615 }

theorem crowded_accepted : crowded.Accepted := ⟨rfl, by decide⟩

theorem crowded_unrecorded : ¬ crowded.shape.Recorded := by
  unfold Shape.Recorded
  decide

theorem crowded_starts (openLog : Path → Except FileRefusal ExecutionLog)
    (schedules : List Schedule) :
    ∃ c, start crowded openLog schedules = .ok c ∧ c.Sound crowded 1 ∧ c.Logging ∧
      c.memories = allocators (blank crowded) 1 :=
  start_eq_ok crowded_accepted rfl rfl (by decide) rfl nofun

/-- One unit with room for two vectors. -/
def narrow : Settings := {
  units := .count 1
  tasklets := 1
  cacheBytes := 8
  bankBytes := 8192
  scratchBytes := 24 }

theorem narrow_accepted : narrow.Accepted := ⟨rfl, by decide⟩

theorem narrow_starts (openLog : Path → Except FileRefusal ExecutionLog)
    (schedules : List Schedule) :
    ∃ c, start narrow openLog schedules = .ok c ∧ c.Sound narrow 1 ∧ c.Logging ∧
      c.memories = allocators (blank narrow) 1 :=
  start_eq_ok narrow_accepted rfl rfl (by decide) rfl nofun

theorem standard_accepted : Settings.Accepted {} := ⟨rfl, by decide⟩

theorem standard_recorded : Settings.shape {} |>.Recorded := by
  unfold Shape.Recorded
  decide

theorem standard_starts (openLog : Path → Except FileRefusal ExecutionLog)
    (schedules : List Schedule) :
    ∃ c, start {} openLog schedules = .ok c ∧ c.Sound {} 4 ∧ c.Logging ∧
      c.memories = allocators (blank {}) 4 :=
  start_eq_ok standard_accepted rfl rfl (by decide) rfl nofun

end Examples

end Controller
end BankedRing
