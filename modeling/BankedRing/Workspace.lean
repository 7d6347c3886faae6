import BankedRing.Host.FileTree
import BankedRing.Host.Resident
import BankedRing.Polynomial.Arithmetic
import BankedRing.Polynomial.Uniform

/-! A workspace of named objects. Each kind of object has names of its own. Storing under
a name that is taken replaces the old object once the new one exists, and a failed step
stores nothing. A vector that loses its name is released. -/
namespace BankedRing

/-- Why a step of a workspace has no answer. -/
inductive Refusal where
  | noSuchName (name : String)
  | failed (error : Error)
  | operatorStopped (family : Family) (error : Error)
  deriving DecidableEq

/-- A table of named objects. -/
abbrev Names (α : Type) := List (String × α)

namespace Names

def insert {α : Type} (names : Names α) (name : String) (value : α) : Names α :=
  (name, value) :: names.filter fun (other, _) => other ≠ name

def erase {α : Type} (names : Names α) (name : String) : Names α :=
  names.filter fun (other, _) => other ≠ name

end Names

structure Workspace where
  registry : Registry
  controllers : Names Handle
  batches : Names Batch
  results : Names BatchResult
  vectors : Names Resident
  parameters : Names RingParameters
  polynomials : Names TowerPolynomial
  deriving DecidableEq

/-- Towers given outright, or those of a named polynomial. -/
inductive TowerSource where
  | given (towers : List Tower)
  | polynomial (name : String)
  deriving DecidableEq

/-- Whether a failed operation returns its error or stops the caller. -/
inductive Failure where
  | returned
  | stopping
  deriving DecidableEq

/-- A vector operation on named operands. -/
inductive NamedAction where
  | combine (family : Family) (other : String)
  | plain (action : Resident.Action)
  deriving DecidableEq

namespace Workspace

abbrev Step := EStateM Refusal Workspace

def empty : Workspace := ⟨[], [], [], [], [], [], []⟩

def attempt {α : Type} (outcome : Except Error α) : Step α :=
  match outcome with
  | .ok value => pure value
  | .error e => throw (.failed e)

/-- The object of a name. -/
def find {α : Type} (table : Workspace → Names α) (name : String) : Step α := do
  match (table (← get)).lookup name with
  | some value => return value
  | none => throw (.noSuchName name)

/-- A step on the shared controllers. -/
def shared {α : Type} (step : Registry.Step α) : Step α := fun workspace =>
  match step workspace.registry with
  | .ok value registry => .ok value { workspace with registry }
  | .error e registry => .error (.failed e) { workspace with registry }

/-! Controllers -/

/-- The log at a path, or one that was handed over with its first text. -/
def openLog (given : Option String) (path : Path) : Except FileRefusal ExecutionLog :=
  match given with
  | some content => .ok (.given content)
  | none => FileTree.standard.openLog path

/-- Starts a controller and stores it. -/
def startController (name : String) (settings : Settings) (log : Option String)
    (schedules : List Schedule) : Step Controller := do
  let controller ← attempt (Controller.start settings (openLog log) schedules)
  modify fun workspace =>
    let (handle, registry) := workspace.registry.add controller
    { workspace with registry, controllers := workspace.controllers.insert name handle }
  return controller

/-- A direct step of a named controller's owner. -/
def control {α : Type} (name : String) (step : Controller.Step α) : Step α := do
  shared (Registry.direct (← find controllers name) step)

def controller (name : String) : Step Controller := control name get

/-- The text of a log that can be read back; another controller has no log by its name. -/
def logText (name : String) : Step String := do
  match (← controller name).executionLog with
  | some ⟨content, true, _⟩ => return content
  | _ => throw (.noSuchName name)

def poison (name : String) : Step Unit := do
  let handle ← find controllers name
  modify fun workspace => { workspace with registry := workspace.registry.poison handle }

/-! Batches -/

def towersOf : TowerSource → Step (List Tower)
  | .given towers => return towers
  | .polynomial name => return (← find polynomials name).towers

def prepare (name batch : String) (a b : TowerSource) (split : Nat) : Step Batch := do
  let controller ← controller name
  let prepared ← attempt (controller.prepare (← towersOf a) (← towersOf b) split)
  modify fun workspace => { workspace with batches := workspace.batches.insert batch prepared }
  return prepared

def copyIn (name batch : String) : Step Unit := do
  let _ ← controller name
  control name (Controller.copyIn (← find batches batch))

def copyOut (name batch result : String) : Step BatchResult := do
  let controller ← controller name
  let rows ← attempt (controller.copyOut (← find batches batch))
  modify fun workspace => { workspace with results := workspace.results.insert result rows }
  return rows

def runTowers (name : String) (a b : TowerSource) (program : Program) (split : Nat) :
    Step (List Tower) := do
  let _ ← controller name
  let a ← towersOf a
  let b ← towersOf b
  control name (Controller.runTowers a b program split)

/-! Vectors -/

def releaseVector (v : Resident) : Step Unit := shared v.release

/-- Names a vector; the vector that had the name before is released. -/
def storeVector (name : String) (v : Resident) : Step UInt32 := do
  let old := (← get).vectors.lookup name
  modify fun workspace => { workspace with vectors := workspace.vectors.insert name v }
  if let some old := old then releaseVector old
  return v.address

def createVector (name owner : String) (create : Handle → Resident.Step Resident) :
    Step UInt32 := do
  let handle ← find controllers owner
  storeVector name (← shared (create handle))

/-- Whether there was such a vector. -/
def dropVector (name : String) : Step Bool := do
  match (← get).vectors.lookup name with
  | none => return false
  | some v =>
    modify fun workspace => { workspace with vectors := workspace.vectors.erase name }
    releaseVector v
    return true

def vectorValues (name : String) : Step (List Word) := do
  shared (← find vectors name).toList

def resolve : NamedAction → Step Resident.Action
  | .combine family other => return .combine family (.vector (← find vectors other))
  | .plain action => return action

/-- Puts a vector that was taken out of the table back after its step. A step that traps
takes the vector with it. -/
def withTaken {α : Type} (name : String) (step : Resident → Step α) : Step α := do
  let v ← find vectors name
  modify fun workspace => { workspace with vectors := workspace.vectors.erase name }
  fun workspace =>
    let restore := fun after : Workspace => { after with vectors := after.vectors.insert name v }
    match step v workspace with
    | .ok value after => .ok value (restore after)
    | .error (.failed (.trapped trap)) after => .error (.failed (.trapped trap)) after
    | .error e after => .error e (restore after)

/-- An operation over a vector itself, which has no name while it runs. -/
def updateVector (name : String) (m : Word) (action : NamedAction) : Step Unit :=
  withTaken name fun v => do shared (v.update m (← resolve action))

def switchVectorModulus (name : String) (m new : Word) : Step Unit :=
  withTaken name fun v => shared (v.switchModulus m new)

def deriveVector (name out : String) (m : Word) (action : NamedAction) : Step UInt32 := do
  let v ← find vectors name
  let action ← resolve action
  storeVector out (← shared (v.derive m action))

/-! Polynomials -/

def storeParameters (name : String) (built : Except Error RingParameters) :
    Step RingParameters := do
  let built ← attempt built
  modify fun workspace => { workspace with parameters := workspace.parameters.insert name built }
  return built

def storePolynomial (name : String) (x : TowerPolynomial) : Step Unit :=
  modify fun workspace => { workspace with polynomials := workspace.polynomials.insert name x }

def createPolynomial (name parametersName : String)
    (create : RingParameters → Except Error TowerPolynomial) : Step Unit := do
  let parameters ← find parameters parametersName
  storePolynomial name (← attempt (create parameters))

/-- The number of words taken from the stream. -/
def randomPolynomial (name parametersName : String) (format : Format) (words : List Word) :
    Step Nat := do
  let parameters ← find parameters parametersName
  let (x, stream) ← attempt (TowerPolynomial.random parameters format ⟨words, 0⟩)
  storePolynomial name x
  return stream.taken

def changePolynomial (name : String) (change : TowerPolynomial → Except Error TowerPolynomial) :
    Step Unit := do
  let x ← find polynomials name
  storePolynomial name (← attempt (change x))

/-- Writes the rows of a batch into a polynomial's towers. -/
def fill (name result polynomial : String) : Step Unit := do
  let _ ← controller name
  let rows ← find results result
  let x ← find polynomials polynomial
  match rows.fill x.towers with
  | .ok _ towers => storePolynomial polynomial { x with towers }
  | .error e towers => do
    storePolynomial polynomial { x with towers }
    throw (.failed e)

def attach (name owner : String) (split : Option Nat) : Step Unit := do
  let handle ← find controllers owner
  changePolynomial name fun x => return { x with offload := some ⟨handle, split⟩ }

/-- The attachment that was taken away. -/
def detach (name : String) : Step (Option Offload) := do
  let x ← find polynomials name
  storePolynomial name { x with offload := none }
  return x.offload

/-- An operation on two polynomials, stored under `out`. The second is looked up first. -/
def combinePolynomials (x y out : String) (family : Family) (failure : Failure) : Step Unit := do
  let right ← find polynomials y
  let left ← find polynomials x
  fun workspace =>
    match TowerPolynomial.combine family left right workspace.registry with
    | .ok result registry => storePolynomial out result { workspace with registry }
    | .error e registry =>
      let refusal := match failure with
        | .returned => .failed e
        | .stopping => if e.isTrap then .failed e else .operatorStopped family e
      .error refusal { workspace with registry }

end Workspace
end BankedRing
