import BankedRing.Device.Program
import BankedRing.Device.Stream

/-! One unit: its bank, the symbols of its loaded program, its execution shape and its
log. A program reads its parameters from its symbols, checks them, streams its regions
and ends with one line in the log; a fault leaves no line. -/
namespace BankedRing

structure Device where
  id : Nat
  bank : Bank
  scratchBytes : Nat
  shape : Shape
  program : Option Program
  symbols : List (String × List UInt8)
  log : List String
  deriving DecidableEq

/-- A modulus that a program may compute with. -/
def supportedModulus (m : Word) : Except Fault Word :=
  if Modulus.isSupported m then .ok m else .error (.invalidModulus m)

/-- The constant for products; the other families compute without one. -/
def constantFor (family : Family) (m : Word) : Except Fault Word :=
  match family with
  | .mul => (Modulus.barrettConstant m).mapError fun _ => .taskletTrapped 0
  | _ => .ok 0

/-- Parameters that would make an operation of the modular program meaningless. -/
def ModularBlock.check (block : ModularBlock) : Except Fault Unit := do
  let _ ← supportedModulus block.modulus
  match block.form with
  | .switchModulus =>
    let _ ← supportedModulus block.p
  | .changeModulus _ =>
    if block.p ≠ 2 then
      let _ ← supportedModulus block.p
  | .scaleAndRound _ => if block.q = 0 then throw (.divisionByZero .scale)
  | .divideAndRound _ => if block.p = 0 then throw (.divisionByZero .divide)
  | _ => return ()

namespace Device

abbrev Step := EStateM Fault Device

def new (id bankBytes scratchBytes : Nat) (shape : Shape) : Device :=
  { id, scratchBytes, shape
    bank := Bank.empty bankBytes
    program := none
    symbols := []
    log := [] }

/-- Symbols start zeroed; the bank keeps its contents. -/
def load (device : Device) (program : Program) : Device :=
  { device with
    program := some program
    symbols := program.symbols.map fun (name, size) => (name, List.replicate size 0) }

def symbol (device : Device) (name : String) : Except Fault (List UInt8) :=
  match device.symbols.lookup name with
  | some bytes => .ok bytes
  | none => .error (.unknownSymbol name)

def setSymbol (device : Device) (name : String) (bytes : List UInt8) : Device :=
  { device with
    symbols := device.symbols.map fun (other, old) => (other, if other = name then bytes else old) }

/-- A number of a fixed width at the front of a symbol. -/
def symbolNumber (device : Device) (name : String) (width : Nat) : Except Fault Nat := do
  match Bytes.number width (← device.symbol name) with
  | some (n, _) => return n
  | none => throw (.badSymbol name)

def symbolWord (device : Device) (name : String) : Except Fault Word := do
  return UInt64.ofNat (← device.symbolNumber name 8)

def symbolHalfWord (device : Device) (name : String) : Except Fault UInt32 := do
  return UInt32.ofNat (← device.symbolNumber name 4)

/-- A transfer from the host, to the bank or into a symbol. -/
def write (device : Device) (target : String) (offset : Nat) (data : List UInt8) :
    Except Fault Device := do
  if target = bankTarget then
    return { device with bank := ← device.bank.write offset data }
  else
    let old ← device.symbol target
    if old.length < offset + data.length then
      throw (.symbolOverflow target offset data.length old.length)
    return device.setSymbol target
      (old.take offset ++ data ++ old.drop (offset + data.length))

/-- A transfer from the host as a step; a refused one changes nothing. -/
def receive (target : String) (offset : Nat) (data : List UInt8) : Step Unit := do
  set (← (← get).write target offset data)

/-- A transfer to the host, from the bank or out of a symbol. -/
def read (device : Device) (target : String) (offset length : Nat) : Except Fault (List UInt8) := do
  if target = bankTarget then
    device.bank.read offset length
  else
    let bytes ← device.symbol target
    if bytes.length < offset + length then
      throw (.symbolOverflow target offset length bytes.length)
    return (bytes.drop offset).take length

def logLine (line : String) : Step Unit :=
  modify fun device => { device with log := device.log ++ [line] }

/-- The log as text, one line each. -/
def logText (log : List String) : String := String.join (log.map (· ++ "\n"))

/-- Streams a region with the unit's own bank and scratch heap. -/
def stream (region : Region) (prepare : Except Fault Kernel) : Step Unit := fun device =>
  match Stream.run (Scratch.empty device.scratchBytes) device.shape region prepare device.bank with
  | .ok _ bank => .ok () { device with bank }
  | .error fault bank => .error fault { device with bank }

def runBoot : Step Unit := do
  let device ← get
  let tasklets := device.shape.tasklets
  logLine s!"boot: unit {device.id} up with {tasklets} tasklets, {device.shape.cacheBytes}-byte caches"

/-- The first operand stands at the bank's start, the second follows, and the result
goes over the first. -/
def runTower (family : Family) : Step Unit := do
  let device ← get
  let modulus ← device.symbolWord modulusSymbol
  let length := (← device.symbolHalfWord lengthSymbol).toNat
  stream { a := 0, b := some length, length, destination := none } do
    let m ← supportedModulus modulus
    let mu ← constantFor family m
    return (Operation.combine family m mu).kernel
  let name := (Program.tower family).name
  let count := length / 8
  logLine s!"{name}: {count} residues mod {modulus}"

def runElementwise (family : Family) : Step Unit := do
  let block ← ElementwiseBlock.decode (← (← get).symbol blockSymbol)
  if !block.form.isScalar && block.second.size ≠ block.first.size then
    throw (.badSymbol blockSymbol)
  if block.form.placement = .separate && block.result.size ≠ block.first.size then
    throw (.badSymbol blockSymbol)
  let region : Region := {
    a := block.first.start.toNat
    b := if block.form.isScalar then none else some block.second.start.toNat
    length := block.first.size.toNat
    destination := if block.form.placement = .inPlace then none else some block.result.start.toNat }
  stream region do
    let m ← supportedModulus block.modulus
    let mu ← if block.mu = 0 then constantFor family m else pure block.mu
    let operation : Operation :=
      if block.form.isScalar then .combineScalar family block.second.start m mu
      else .combine family m mu
    return operation.kernel
  let name := (Program.elementwise family).name
  let count := region.length / 8
  logLine s!"{name}: {block.form.name} over {count} residues mod {block.modulus}"

def runModular : Step Unit := do
  let block ← ModularBlock.decode (← (← get).symbol blockSymbol)
  if block.form.placement = .separate && block.result.size ≠ block.operand.size then
    throw (.badSymbol blockSymbol)
  let region : Region := {
    a := block.operand.start.toNat
    b := none
    length := block.operand.size.toNat
    destination := if block.form.placement = .inPlace then none else some block.result.start.toNat }
  stream region do
    block.check
    return block.operation.kernel
  let count := region.length / 8
  logLine (s!"mod-ops: {block.form.name} over {count} residues mod {block.modulus} " ++
    s!"(p = {block.p}, q = {block.q})")

/-- Runs the loaded program to its end. -/
def launch : Step Unit := do
  match (← get).program with
  | none => throw .noProgram
  | some .boot => runBoot
  | some (.tower family) => runTower family
  | some (.elementwise family) => runElementwise family
  | some .modular => runModular

end Device
end BankedRing
