import BankedRing.Device.Allocator
import BankedRing.Host.Pool
import BankedRing.Partition
import BankedRing.Tower

/-! The controller of one pool. It acquires its units once, boots them, and from then on
loads programs, stages batches of towers, launches and collects results. Each unit has
a block allocator for resident vectors; batches use the front of every bank and refuse
to run over a live allocation. Each launch leaves one block in the execution log. -/
namespace BankedRing

/-- An append-only text. A log at a path of its own is only ever written; the text of
one that was handed over can be read back. -/
structure ExecutionLog where
  content : String
  readable : Bool
  refusal : Option FileRefusal
  deriving DecidableEq

structure Controller where
  pool : Pool
  settings : Settings
  memories : List Allocator
  loadedPath : Option Path
  executionLog : Option ExecutionLog
  lastLogs : List (List String)
  launches : Nat
  deriving DecidableEq

/-- Two operands cut into rows, with the modulus of each unit. -/
structure Batch where
  partition : Partition
  unitModuli : List Word
  towerModuli : List Word
  a : List (List Word)
  b : List (List Word)
  deriving DecidableEq

structure BatchResult where
  partition : Partition
  towerModuli : List Word
  rows : List (List Word)
  deriving DecidableEq

/-- How host words reach the units: an equal share each, or all to every unit. -/
inductive Distribution where
  | scatter
  | broadcast
  deriving DecidableEq

/-- The text that one launch leaves in the execution log. -/
def launchRecord (number : Nat) (path : Option Path) (logs : List (List String))
    (succeeded : Bool) : String :=
  let path := (path.map Path.display).getD "<none>"
  let outcome := if succeeded then "ok" else "failed"
  let lines := logs.zipIdx.flatMap fun (log, unit) => log.map fun line => s!"[unit {unit}] {line}\n"
  s!"== launch {number} of {path} on {logs.length} units: {outcome}\n" ++ String.join lines

namespace ExecutionLog

def given (content : String) : ExecutionLog := ⟨content, true, none⟩

def append (log : ExecutionLog) (text : String) : Except Error ExecutionLog :=
  match log.refusal with
  | none => .ok { log with content := log.content ++ text }
  | some refusal => .error (.logFile refusal)

end ExecutionLog

namespace BatchResult

/-- Puts the rows back into towers that carry the moduli of the batch. -/
def fill (results : BatchResult) : EStateM Error (List Tower) Unit := fun towers =>
  let moduli := towers.map (·.modulus)
  if moduli ≠ results.towerModuli then
    .error (.shapeMismatch (.resultModuli results.towerModuli moduli)) towers
  else
    let rebuild := fun values => (moduli.zip values).map fun (modulus, values) =>
      Tower.mk modulus values
    match results.partition.scatter results.rows (towers.map (·.values)) with
    | .ok _ values => .ok () (rebuild values)
    | .error e values => .error e (rebuild values)

end BatchResult

namespace Controller

abbrev Step := EStateM Error Controller

def units (controller : Controller) : Nat := controller.pool.units

def onPool {α : Type} (step : Pool.Step α) : Step α := fun controller =>
  match step controller.pool with
  | .ok value pool => .ok value { controller with pool }
  | .error e pool => .error e { controller with pool }

def loadPath (path : Path) : Step Unit := do
  onPool (Pool.load path)
  modify fun controller => { controller with loadedPath := some path }

def load (program : Program) : Step Unit := do
  loadPath (program.path (← get).settings.programDirectory)

/-- Counts and logs a finished launch. Its own error goes before an error of the log. -/
def conclude (outcome : Option Error) : Step Unit := fun controller =>
  let (lastLogs, pool) := controller.pool.drainLogs
  let launches := controller.launches + 1
  let record := launchRecord launches controller.loadedPath lastLogs outcome.isNone
  let after := { controller with pool, lastLogs, launches }
  match controller.executionLog.mapM (·.append record), outcome with
  | .ok executionLog, none => .ok () { after with executionLog }
  | .ok executionLog, some e => .error e { after with executionLog }
  | .error e, none => .error e after
  | .error _, some e => .error e after

/-- Launches the loaded program. The launch counts whether it succeeds or not; one that
traps is never concluded. -/
def execute : Step Unit := fun controller =>
  match Pool.launch controller.pool with
  | .ok _ pool => conclude none { controller with pool }
  | .error (.trapped trap) pool => .error (.trapped trap) { controller with pool }
  | .error e pool => conclude (some e) { controller with pool }

/-- Validates the settings, acquires the units, opens the execution log and boots. The
files and the schedules of the launches are given from outside. -/
def start (settings : Settings) (openLog : Path → Except FileRefusal ExecutionLog)
    (schedules : List Schedule) : Except Error Controller := do
  settings.validate
  match Pool.acquire settings settings.units settings.profile (Pool.empty schedules) with
  | .error e _ => throw e
  | .ok count pool =>
    let executionLog ← settings.logFile.mapM fun path => (openLog path).mapError Error.logFile
    let blank := Allocator.ofGeometry 0 settings.bankBytes Allocator.standardBlockBytes
    let memories := (List.range count).map fun unit => { blank with unit }
    let controller : Controller := {
      pool, settings, memories, executionLog
      loadedPath := none
      lastLogs := []
      launches := 0 }
    match (do load .boot; execute : Step Unit) controller with
    | .ok _ controller => return controller
    | .error e _ => throw e

def prepare (controller : Controller) (a b : List Tower) (split : Nat) : Except Error Batch := do
  if a.length ≠ b.length then
    throw (.shapeMismatch (.operandTowers a.length b.length))
  let pairs := (a.zip b).zipIdx
  if let some ((x, y), index) := pairs.find? fun ((x, y), _) => x.modulus ≠ y.modulus then
    throw (.shapeMismatch (.operandModuli index x.modulus y.modulus))
  let towerLength := match a with
    | [] => 0
    | tower :: _ => tower.values.length
  let partition ← Partition.new a.length towerLength split
  let towerModuli := a.map (·.modulus)
  return {
    partition, towerModuli
    unitModuli := ← partition.unitModuli towerModuli controller.units
    a := ← partition.stage (a.map (·.values)) controller.units
    b := ← partition.stage (b.map (·.values)) controller.units }

/-- Sends moduli, operand length and both operands. The first unit with a live
allocation in the staging area refuses. -/
def copyIn (batch : Batch) : Step Unit := do
  let bytes := batch.partition.operandBytes
  if let some memory := (← get).memories.find? fun memory => !memory.isRangeFree 0 (2 * bytes) then
    throw (.memoryExhausted memory.unit (2 * bytes))
  if UInt32.size ≤ bytes then
    throw (.invalidParameters (.operandTooLarge bytes))
  onPool (Pool.scatter modulusSymbol 0 (batch.unitModuli.map Bytes.ofWord))
  onPool (Pool.broadcast lengthSymbol 0 (Bytes.ofNat 4 bytes))
  onPool (Pool.scatter bankTarget 0 (batch.a.map Bytes.ofWords))
  onPool (Pool.scatter bankTarget bytes (batch.b.map Bytes.ofWords))

def copyOut (controller : Controller) (batch : Batch) : Except Error BatchResult := do
  let rows ← controller.pool.gather bankTarget 0 batch.partition.operandBytes
  return ⟨batch.partition, batch.towerModuli, rows.map Bytes.toWords⟩

/-- One batch from its operands to its result towers, under one tower program. -/
def runTowers (a b : List Tower) (program : Program) (split : Nat) : Step (List Tower) := do
  if !program.isTower then
    throw (.invalidParameters (.notTowerProgram program.name))
  let batch ← (← get).prepare a b split
  load program
  copyIn batch
  execute
  let results ← (← get).copyOut batch
  let blank := batch.towerModuli.map fun modulus => Tower.zero modulus batch.partition.towerLength
  match results.fill blank with
  | .ok _ towers => return towers
  | .error e _ => throw e

/-- Every unit's share when words are dealt out evenly. -/
def evenShare (controller : Controller) (length : Nat) : Except Error Nat := do
  if controller.units = 0 then throw (.trapped .divisionByZero)
  if length % controller.units ≠ 0 then
    throw (.unevenPartition length controller.units)
  return length / controller.units

def copyTo (values : List Word) (offset : UInt32) : Distribution → Step Unit
  | .broadcast => onPool (Pool.broadcast bankTarget offset.toNat (Bytes.ofWords values))
  | .scatter => do
    let controller ← get
    let share ← controller.evenShare values.length
    let buffers := (List.range controller.units).map fun unit =>
      Bytes.ofWords ((values.drop (unit * share)).take share)
    onPool (Pool.scatter bankTarget offset.toNat buffers)

/-- The words of all units at one offset, in unit order. -/
def copyFrom (controller : Controller) (offset : UInt32) (perUnit : Nat) :
    Except Error (List Word) := do
  let rows ← controller.pool.gather bankTarget offset.toNat (perUnit * 8)
  return rows.flatMap Bytes.toWords

def send (symbol : String) (bytes : List UInt8) : Step Unit :=
  onPool (Pool.broadcast symbol 0 bytes)

def runBlock (program : Program) (block : List UInt8) : Step Unit := do
  load program
  send blockSymbol block
  execute

/-- Allocates on the units in order, up to the first that refuses. -/
def allocateEach (bytes : Nat) : List Allocator → List Allocator × List UInt32 × Option Error
  | [] => ([], [], none)
  | memory :: rest =>
    match memory.allocate bytes with
    | .error e => (memory :: rest, [], some e)
    | .ok (address, memory) =>
      let (rest, addresses, refusal) := allocateEach bytes rest
      (memory :: rest, address :: addresses, refusal)

/-- Takes back what a failed allocation was granted. -/
def rollBack : List Allocator → List UInt32 → List Allocator
  | memory :: rest, address :: addresses =>
    (memory.deallocate address).toOption.getD memory :: rollBack rest addresses
  | memories, _ => memories

/-- Reserves bytes on every unit at one common address, or on none. -/
def allocate (bytes : Nat) : Step UInt32 := do
  let controller ← get
  let (memories, addresses, refusal) := allocateEach bytes controller.memories
  match refusal, addresses with
  | none, address :: others =>
    if others.all (· = address) then
      set { controller with memories }
      return address
  | _, _ => pure ()
  set { controller with memories := rollBack memories addresses }
  throw (refusal.getD (.unitAllocation .addressesDiffer))

/-- Releases on all units; the first refusal is the outcome. -/
def deallocateEach (address : UInt32) : List Allocator → List Allocator × Option Error
  | [] => ([], none)
  | memory :: rest =>
    let (rest, later) := deallocateEach address rest
    match memory.deallocate address with
    | .ok memory => (memory :: rest, later)
    | .error e => (memory :: rest, some e)

def deallocate (address : UInt32) : Step Unit := do
  let controller ← get
  let (memories, refusal) := deallocateEach address controller.memories
  set { controller with memories }
  if let some e := refusal then throw e

def status (controller : Controller) : String :=
  String.join (controller.memories.map (·.status))

end Controller
end BankedRing
