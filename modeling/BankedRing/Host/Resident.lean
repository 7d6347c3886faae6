import BankedRing.Host.Registry

/-! Residue vectors that stay in the banks. A vector is dealt out evenly over all units
and lies at one address on each, so that one parameter block describes all of it. It
owns its memory: whoever drops a vector releases it, and a result that could not be
completed is released on the way out. -/
namespace BankedRing

structure Resident where
  handle : Handle
  address : UInt32
  length : Nat
  perUnit : Nat
  deriving DecidableEq

namespace Resident

abbrev Step := Registry.Step

def bytes (v : Resident) : Nat := v.perUnit * 8

def operand (v : Resident) : Operand := ⟨UInt64.ofNat v.address.toNat, UInt32.ofNat v.bytes⟩

/-- Room for a vector that nothing has been written to. -/
def reserve (handle : Handle) (length : Nat) : Step Resident :=
  Registry.locked handle do
    let perUnit ← (← get).evenShare length
    let address ← Controller.allocate (perUnit * 8)
    return ⟨handle, address, length, perUnit⟩

/-- Gives the memory back. A poisoned controller keeps it. -/
def release (v : Resident) : Step Unit := fun registry =>
  match Registry.locked v.handle (Controller.deallocate v.address) registry with
  | .ok _ registry | .error _ registry => .ok () registry

/-- Completes a reserved vector, or releases it and fails. -/
def complete (v : Resident) (step : Step Unit) : Step Resident := fun registry =>
  match step registry with
  | .ok _ registry => .ok v registry
  | .error e registry =>
    match v.release registry with
    | .ok _ registry | .error _ registry => .error e registry

/-- The length has to be a multiple of the unit count. -/
def ofValues (handle : Handle) (values : List Word) : Step Resident := do
  let v ← reserve handle values.length
  v.complete (Registry.locked handle (Controller.copyTo values v.address .scatter))

/-- Refuses values that are not below the modulus. -/
def ofResidues (handle : Handle) (values : List Word) (m : Word) : Step Resident := do
  if !Modulus.isSupported m then throw (.invalidModulus m)
  if let some (value, index) := values.zipIdx.find? fun (value, _) => m ≤ value then
    throw (.invalidParameters (.unreducedValue value index m))
  ofValues handle values

def zeros (handle : Handle) (length : Nat) : Step Resident := do
  let v ← reserve handle length
  let blank := List.replicate v.perUnit 0
  v.complete (Registry.locked handle (Controller.copyTo blank v.address .broadcast))

/-- The whole vector, read back. -/
def toList (v : Resident) : Step (List Word) :=
  Registry.locked v.handle do (← get).copyFrom v.address v.perUnit

def checkPeer (v other : Resident) : Except Error Unit := do
  if v.handle ≠ other.handle then throw (.shapeMismatch .foreignVector)
  if v.length ≠ other.length then throw (.shapeMismatch (.vectorLengths v.length other.length))

/-- The right-hand side of an elementwise operation. -/
inductive Argument where
  | vector (other : Resident)
  | scalar (value : Word)
  deriving DecidableEq

/-- What is computed from the residues of one vector. -/
inductive Action where
  | combine (family : Family) (argument : Argument)
  | changeModulus (new : Word)
  | parity
  | power (exponent : Word)
  | inverse
  | scaleAndRound (p q : Word)
  | divideAndRound (q : Word)
  deriving DecidableEq

/-- Where a result goes: over the vector itself, or into a reserved one. -/
def placementOf (result : Option Resident) : Placement :=
  if result.isSome then .separate else .inPlace

def resultOperand (result : Option Resident) : Operand :=
  match result with
  | some result => result.operand
  | none => ⟨0, 0⟩

def combine (v : Resident) (family : Family) (argument : Argument) (m : Word)
    (result : Option Resident) : Step Unit := do
  if !Modulus.isSupported m then throw (.invalidModulus m)
  let (second, form) ← match argument with
    | .vector other => do
      v.checkPeer other
      pure (other.operand, ElementwiseForm.vector (placementOf result))
    | .scalar value => pure (⟨value, 0⟩, ElementwiseForm.scalar (placementOf result))
  let mu ← match family with
    | .mul => liftM (Modulus.barrettConstant m)
    | _ => pure 0
  let block : ElementwiseBlock := {
    second, mu, form
    first := v.operand
    result := resultOperand result
    modulus := m }
  Registry.locked v.handle (Controller.runBlock (.elementwise family) block.encode)

def runModular (v : Resident) (form : ModularForm) (m p q : Word) (result : Option Resident) :
    Step Unit := do
  if !Modulus.isSupported m then throw (.invalidModulus m)
  let block : ModularBlock := {
    p, q, form
    operand := v.operand
    result := resultOperand result
    modulus := m }
  Registry.locked v.handle (Controller.runBlock .modular block.encode)

def perform (v : Resident) (m : Word) (action : Action) (result : Option Resident) : Step Unit :=
  let placement := placementOf result
  match action with
  | .combine family argument => v.combine family argument m result
  | .changeModulus new => v.runModular (.changeModulus placement) m new 0 result
  | .parity => v.runModular (.parity placement) m 0 0 result
  | .power exponent => v.runModular (.power placement) m exponent 0 result
  | .inverse => v.runModular (.inverse placement) m 0 0 result
  | .scaleAndRound p q => v.runModular (.scaleAndRound placement) m p q result
  | .divideAndRound q => v.runModular (.divideAndRound placement) m q 0 result

/-- Overwrites the vector. -/
def update (v : Resident) (m : Word) (action : Action) : Step Unit := v.perform m action none

/-- Leaves the vector and computes a new one, which is reserved before any check. -/
def derive (v : Resident) (m : Word) (action : Action) : Step Resident := do
  let result ← reserve v.handle v.length
  result.complete (v.perform m action (some result))

/-- Encodes the residues again under another modulus, always in place. -/
def switchModulus (v : Resident) (m new : Word) : Step Unit :=
  v.runModular .switchModulus m new 0 none

end Resident
end BankedRing
