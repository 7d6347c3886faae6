import BankedRing.Polynomial.Basic

/-! Arithmetic of polynomials tower by tower. An attached polynomial first asks its
controller; whatever fails there is computed on the host from the same operands, so
that no failure of the pool is ever seen. Only a trap ends the operation itself. -/
namespace BankedRing.TowerPolynomial

def checkOperand (x y : TowerPolynomial) : Except Error Unit := do
  if x.parameters.ringDimension ≠ y.parameters.ringDimension ∨
      x.parameters.moduli ≠ y.parameters.moduli then
    throw (.shapeMismatch .differentParameters)
  if x.format ≠ y.format then throw (.formatMismatch x.format)

/-- Products are pointwise, hence of evaluations only. -/
def checkFormats (family : Family) (x y : TowerPolynomial) : Except Error Unit :=
  if family = .mul ∧ (x.format ≠ .evaluation ∨ y.format ≠ .evaluation) then
    .error (.formatMismatch .evaluation)
  else .ok ()

/-- The operation on one pair of towers. -/
def combineTowers (family : Family) (a b : Tower) : Checked Tower := do
  let mu ← match family with
    | .mul => Modulus.barrettConstant a.modulus
    | _ => pure 0
  let values ← (Operation.combine family a.modulus mu).kernel a.values b.values
  return { a with values }

def onHost (family : Family) (x y : TowerPolynomial) : Except Error TowerPolynomial := do
  let towers ← (x.towers.zip y.towers).mapM fun (a, b) => combineTowers family a b
  return { x with towers }

/-- The same operation as one batch of the attached controller. -/
def onPool (family : Family) (x y : TowerPolynomial) (offload : Offload) :
    Registry.Step (List Tower) :=
  Registry.locked offload.handle do
    let units := (← get).units
    let split := offload.split.getD
      (Partition.defaultSplit units x.towers.length x.parameters.ringDimension)
    Controller.runTowers x.towers y.towers (.tower family) split

/-- The pool's answer, or the host's where the pool has none. -/
def offloaded (family : Family) (x y : TowerPolynomial) (offload : Offload) :
    Registry.Step TowerPolynomial := fun registry =>
  match onPool family x y offload registry with
  | .ok towers registry => .ok { x with towers } registry
  | .error (.trapped trap) registry => .error (.trapped trap) registry
  | .error _ registry =>
    match onHost family x y with
    | .ok result => .ok result registry
    | .error e => .error e registry

/-- Sum, difference or product; the result keeps the attachment of `x`. -/
def combine (family : Family) (x y : TowerPolynomial) : Registry.Step TowerPolynomial := do
  checkFormats family x y
  checkOperand x y
  match x.offload with
  | none => onHost family x y
  | some offload => offloaded family x y offload

/-- The text with which an operator stops where the checked form would return an error. -/
def operatorMessage (family : Family) (e : Error) : String :=
  let name := match family with
    | .add => "add"
    | .sub => "sub"
    | .mul => "mul"
  s!"DcrtPoly::{name}: {e.message}"

end BankedRing.TowerPolynomial
