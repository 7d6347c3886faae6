import BankedRing.Error
import BankedRing.Text.Blank
import BankedRing.Text.Fields

/-! Settings of a pool: how many units to request, how each unit is shaped, and where
programs and the execution log are found. Settings come from defaults, overridden by
the environment; unreadable entries of the environment keep the default. -/
namespace BankedRing

inductive UnitRequest where
  | count (units : Nat)
  | all
  deriving DecidableEq

/-- How a unit executes: tasklets, and the bytes of one tasklet cache. -/
structure Shape where
  tasklets : Nat
  cacheBytes : Nat
  deriving DecidableEq

def Shape.cacheWords (shape : Shape) : Nat := shape.cacheBytes / 8

structure Settings where
  units : UnitRequest := .count 4
  profile : String := "backend=simulator"
  programDirectory : Path := "./dpu"
  logFile : Option Path := none
  tasklets : Nat := 16
  cacheBytes : Nat := 256
  bankBytes : Nat := 67108864
  scratchBytes : Nat := 65536
  poolSize : Nat := 64
  deriving DecidableEq

namespace Settings

def shape (settings : Settings) : Shape := ⟨settings.tasklets, settings.cacheBytes⟩

/-- The execution shape is checked before any unit is acquired. Addresses and sizes
travel as 32-bit fields, and each tasklet takes up to three caches. -/
def validate (settings : Settings) : Except Error Unit := do
  let refuse := fun defect => throw (Error.invalidParameters defect)
  if settings.units = .count 0 then refuse .noUnitsRequested
  if settings.tasklets = 0 then refuse .noTasklets
  if settings.cacheBytes = 0 ∨ settings.cacheBytes % 8 ≠ 0 then
    refuse (.cacheSize settings.cacheBytes)
  if settings.bankBytes = 0 ∨ UInt32.size ≤ settings.bankBytes then
    refuse (.bankSize settings.bankBytes)
  let needed := 3 * settings.cacheBytes * settings.tasklets
  if settings.scratchBytes < needed then
    refuse (.scratchTooSmall settings.tasklets settings.cacheBytes needed settings.scratchBytes)

/-- A size in the environment, blanks around it ignored. -/
def environmentSize? (environment : String → Option String) (name : String) : Option Nat := do
  Numeral.size? (Blank.trim (← environment name).toList)

/-- Defaults overridden by the environment. A request for zero units means all. -/
def ofEnvironment (environment : String → Option String) : Settings :=
  let standard : Settings := {}
  let size := environmentSize? environment
  let units := match size "PIM_NR_DPUS" with
    | some 0 => .all
    | some n => .count n
    | none => standard.units
  { standard with
    units
    profile := (environment "PIM_PROFILE").getD standard.profile
    programDirectory :=
      ((environment "PIM_BINARY_DIR").map Path.ofString).getD standard.programDirectory
    logFile := (environment "PIM_LOG_FILE").map Path.ofString
    tasklets := ((size "PIM_NR_TASKLETS").filter (0 < ·)).getD standard.tasklets
    cacheBytes :=
      ((size "PIM_CACHE_SIZE").filter fun n => 0 < n && n % 8 = 0).getD standard.cacheBytes
    poolSize := ((size "PIM_SIM_POOL").filter (0 < ·)).getD standard.poolSize }

/-- Reads a profile of `key=value` entries; the only backend is the simulator. -/
def checkProfile (profile : String) : Except AllocationRefusal Unit :=
  ((Fields.split ',' profile.toList).map Blank.trim).forM fun entry =>
    if entry = [] then .ok ()
    else match Fields.cut '=' entry with
      | none => .error (.malformedEntry (String.ofList entry))
      | some (key, value) =>
        let backend := String.ofList (Blank.trim value)
        if String.ofList (Blank.trim key) = "backend" ∧ backend ≠ "simulator" then
          .error (.backendUnavailable backend)
        else .ok ()

/-- How many units a request is granted out of a pool of `offered`. -/
def grant (offered : Nat) (request : UnitRequest) : Except AllocationRefusal Nat := do
  let units ← match request with
    | .all => pure offered
    | .count n => if n ≤ offered then pure n else throw (.tooManyUnits n offered)
  if units = 0 then throw .noUnits
  return units

end Settings
end BankedRing
