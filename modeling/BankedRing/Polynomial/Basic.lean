import BankedRing.Host.Registry
import BankedRing.Polynomial.Parameters
import BankedRing.Transform.Network

/-! Polynomials modulo `X ^ n + 1`, one tower of residues per prime of their parameters.
In coefficient format a tower holds coefficients, in evaluation format the values that
the forward transform gives. A polynomial may be attached to a controller. -/
namespace BankedRing

def Format.other : Format → Format
  | .coefficient => .evaluation
  | .evaluation => .coefficient

/-- Where arithmetic is tried first, and with how many units for each tower. -/
structure Offload where
  handle : Handle
  split : Option Nat
  deriving DecidableEq

structure TowerPolynomial where
  parameters : RingParameters
  towers : List Tower
  format : Format
  offload : Option Offload
  deriving DecidableEq

namespace TowerPolynomial

def zero (parameters : RingParameters) (format : Format) : TowerPolynomial :=
  { parameters, format
    towers := parameters.moduli.map fun q => Tower.zero q parameters.ringDimension
    offload := none }

/-- A tower fits a prime when modulus and length agree and every residue is reduced. -/
def checkTower (ringDimension : Nat) (q : Word) (tower : Tower) : Except Error Unit :=
  if tower.modulus ≠ q ∨ tower.values.length ≠ ringDimension then
    .error (.shapeMismatch (.tower tower.values.length tower.modulus ringDimension q))
  else match tower.values.find? (q ≤ ·) with
    | some value => .error (.invalidParameters (.unreducedResidue value q))
    | none => .ok ()

def ofTowers (parameters : RingParameters) (towers : List Tower) (format : Format) :
    Except Error TowerPolynomial := do
  if towers.length ≠ parameters.moduli.length then
    throw (.shapeMismatch (.towersForModuli towers.length parameters.moduli.length))
  (parameters.moduli.zip towers).forM fun (q, tower) => checkTower parameters.ringDimension q tower
  return { parameters, towers, format, offload := none }

/-- Moves every tower into the other format. -/
def switchFormat (x : TowerPolynomial) : Except Error TowerPolynomial := do
  let towers ← (x.towers.zip x.parameters.tables).mapM fun (tower, tables) => do
    let values ← match x.format with
      | .coefficient => tables.forwardTransform tower.values
      | .evaluation => tables.inverseTransform tower.values
    return { tower with values }
  return { x with towers, format := x.format.other }

def setFormat (x : TowerPolynomial) (format : Format) : Except Error TowerPolynomial :=
  if x.format = format then .ok x else x.switchFormat

/-- A raw write of one word, reduced or not. -/
def setValue (x : TowerPolynomial) (tower index : Nat) (value : Word) :
    Checked TowerPolynomial := do
  let t ← Checked.element x.towers tower
  let _ ← Checked.element t.values index
  return { x with towers := x.towers.set tower { t with values := t.values.set index value } }

end TowerPolynomial
end BankedRing
