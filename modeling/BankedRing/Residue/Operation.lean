import BankedRing.Residue.Rounding

/-! Elementwise operations on lists of residues. An operation is a cell function with
its parameters; a call reduces a scalar or an exponent once and then overwrites a
destination cell by cell. The shortest list decides how many cells are written, and
the rest of the destination stays as it was. An operation works in place when its
first operand is also its destination. -/
namespace BankedRing

inductive Family where
  | add
  | sub
  | mul
  deriving DecidableEq, Repr

namespace Family

def apply (family : Family) (m mu x y : Word) : Checked Word :=
  match family with
  | .add => Residue.addReduced x y m
  | .sub => Residue.subReduced x y m
  | .mul => Residue.mulReduced x y m mu

end Family

inductive Operation where
  | combine (family : Family) (m mu : Word)
  | combineScalar (family : Family) (scalar m mu : Word)
  | parity (m : Word)
  | switchModulus (old new : Word)
  | changeModulus (old new : Word)
  | power (exponent m : Word)
  | inverse (m : Word)
  | scaleAndRound (m p q : Word)
  | divideAndRound (m q : Word)
  deriving DecidableEq, Repr

namespace Operation

/-- Scalars and exponents are reduced by the modulus before the first cell. -/
def prepare : Operation → Checked Operation
  | .combineScalar family scalar m mu => do
    return .combineScalar family (← Residue.reduce scalar m) m mu
  | .power exponent m => do
    return .power (← Residue.reduce exponent m) m
  | operation => return operation

/-- The word that one cell receives. A change of modulus to 2 takes the parity. -/
def cell : Operation → Word → Word → Checked Word
  | .combine family m mu, x, y => family.apply m mu x y
  | .combineScalar family scalar m mu, x, _ => family.apply m mu x scalar
  | .parity m, x, _ => return Residue.parity m x
  | .switchModulus old new, x, _ => Residue.switchModulus old new x
  | .changeModulus old new, x, _ =>
    if new = 2 then return Residue.parity old x else Residue.switchModulus old new x
  | .power exponent m, x, _ => Residue.pow x exponent m
  | .inverse m, x, _ => Residue.inverse x m
  | .scaleAndRound m p q, x, _ => Residue.onCentredLift m x fun d => Residue.scaleRounded d p q
  | .divideAndRound m q, x, _ => Residue.onCentredLift m x fun d => Residue.divideRounded d q

/-- Only a combination of two lists reads its second operand. -/
def sources : Operation → List Word → List Word → List (Word × Word)
  | .combine .., a, b => a.zip b
  | _, a, _ => a.map fun x => (x, 0)

/-- Writes one cell after the other; what lies behind the last source is kept. -/
def overwrite (f : Word → Word → Checked Word) : List (Word × Word) → List Word →
    Checked (List Word)
  | (x, y) :: sources, _ :: destination => do
    let value ← f x y
    return value :: (← overwrite f sources destination)
  | _, destination => return destination

def apply (operation : Operation) (a b destination : List Word) : Checked (List Word) := do
  let prepared ← operation.prepare
  overwrite prepared.cell (prepared.sources a b) destination

/-- The operation on one cache: every cell of the first operand receives a result. -/
def kernel (operation : Operation) (a b : List Word) : Checked (List Word) := operation.apply a b a

end Operation
end BankedRing
