import BankedRing.Device.State

/-! The pool of units, as the host drives it: named transfers, program loads and
synchronous launches. Transfers visit the units in order and stop at the first that
fails; what was done on earlier units stays done. A launch runs the units in parallel.
Once one has failed, those that have not begun need not run, so which units a failed
launch has run is up to the threads. -/
namespace BankedRing

/-- What the threads make of a launch. They take the units in order, and none behind a
failure other than a trap; or these units have run by the time that one of them fails,
and this one's failure is reported where several have failed. -/
inductive Schedule where
  | inOrder
  | chosen (ran : List Nat) (reported : Nat)
  deriving DecidableEq

namespace Schedule

/-- Whether a unit gets its turn, by what each unit would fail with. Where no chosen unit
fails there is nothing to stop the others. -/
def turns (faults : List (Option Fault)) : Schedule → Nat → Bool
  | .inOrder, unit => (faults.take unit).all (·.all Fault.isTrap)
  | .chosen ran _, unit => ran.contains unit || ran.all fun other => (faults[other]?.join).isNone

/-- The failure that is reported, of all that there were. A trap goes before the others. -/
def report (failures : List (Nat × Fault)) (schedule : Schedule) : Option (Nat × Fault) :=
  let traps := failures.filter (·.2.isTrap)
  let urgent := if traps = [] then failures else traps
  match schedule with
  | .inOrder => urgent.head?
  | .chosen _ reported => (urgent.find? (·.1 = reported)).or urgent.head?

end Schedule

/-- The units, the program on record, and what the threads will make of the launches to
come; those behind the last one are made in order. -/
structure Pool where
  devices : List Device
  loaded : Option Program
  schedules : List Schedule
  deriving DecidableEq

namespace Pool

abbrev Step := EStateM Error Pool

def empty (schedules : List Schedule) : Pool := ⟨[], none, schedules⟩

/-- Bytes of the host's record of one unit. -/
def deviceFootprint : Nat := 160

def units (pool : Pool) : Nat := pool.devices.length

/-- Acquires fresh units; the number granted is the answer. -/
def acquire (settings : Settings) (request : UnitRequest) (profile : String) : Step Nat := do
  let granted := do
    Settings.checkProfile profile
    Settings.grant settings.poolSize request
  let count ← granted.mapError Error.unitAllocation
  Checked.buffer (deviceFootprint * count)
  let devices := (List.range count).map fun id =>
    Device.new id settings.bankBytes settings.scratchBytes settings.shape
  modify fun pool => { pool with devices, loaded := none }
  return count

def load (path : Path) : Step Unit := do
  match Program.ofPath? path with
  | none => throw (.unknownBinary path)
  | some program =>
    modify fun pool =>
      { pool with devices := pool.devices.map (·.load program), loaded := some program }

/-- One step per unit, up to the first fault. -/
def stepEach : List (Device.Step Unit) → List Device → List Device × Option (Nat × Fault)
  | step :: steps, device :: rest =>
    match step device with
    | .ok _ device =>
      let (rest, failure) := stepEach steps rest
      (device :: rest, failure)
    | .error fault device => (device :: rest, some (device.id, fault))
  | _, devices => (devices, none)

/-- The outcome of a visit; a fault becomes an error of the host. -/
def settle (describe : Nat → Fault → Error) (pool : Pool) (devices : List Device) :
    Option (Nat × Fault) → EStateM.Result Error Pool Unit
  | none => .ok () { pool with devices }
  | some (unit, fault) => .error (.ofFault (describe unit) fault) { pool with devices }

def visit (describe : Nat → Fault → Error) (steps : List (Device.Step Unit)) : Step Unit :=
  fun pool =>
    let (devices, failure) := stepEach steps pool.devices
    settle describe pool devices failure

def transferError (target : String) (unit : Nat) (fault : Fault) : Error :=
  .transfer target (.onUnit unit fault)

def broadcast (target : String) (offset : Nat) (bytes : List UInt8) : Step Unit := do
  let units := (← get).units
  visit (transferError target) (List.replicate units (Device.receive target offset bytes))

def scatter (target : String) (offset : Nat) (buffers : List (List UInt8)) : Step Unit := do
  let units := (← get).units
  if buffers.length ≠ units then
    throw (.transfer target (.bufferCount buffers.length units))
  visit (transferError target) (buffers.map (Device.receive target offset))

def gather (pool : Pool) (target : String) (offset length : Nat) :
    Except Error (List (List UInt8)) :=
  pool.devices.mapM fun device =>
    (device.read target offset length).mapError (.ofFault (transferError target device.id))

/-- The launch of one unit: the unit afterwards, and what it has failed with. -/
def attempt (device : Device) : Device × Option Fault :=
  match Device.launch device with
  | .ok _ reached => (reached, none)
  | .error fault reached => (reached, some fault)

/-- Launches the units that get their turn and reports a failure among them. -/
def launchEach (schedule : Schedule) (devices : List Device) : List Device × Option (Nat × Fault) :=
  let attempts := devices.map fun device => (device, attempt device)
  let turns := schedule.turns (attempts.map (·.2.2))
  let left := attempts.mapIdx fun unit (device, attempted) =>
    if turns unit then attempted else (device, none)
  (left.map (·.1), schedule.report (left.filterMap fun unit => unit.2.map (unit.1.id, ·)))

/-- Runs the loaded program on the units, as the next schedule has it. -/
def launch : Step Unit := fun pool =>
  if pool.loaded.isNone then .error .noProgramLoaded pool
  else
    let (devices, failure) := launchEach (pool.schedules.headD .inOrder) pool.devices
    settle .execution { pool with schedules := pool.schedules.tail } devices failure

/-- The logs of the units, which are empty afterwards. -/
def drainLogs (pool : Pool) : List (List String) × Pool :=
  (pool.devices.map (·.log),
    { pool with devices := pool.devices.map fun device => { device with log := [] } })

end Pool
end BankedRing
