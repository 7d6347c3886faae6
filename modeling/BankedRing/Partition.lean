import BankedRing.Chunks
import BankedRing.Error

/-! Partition of a batch of towers over units. Tower `t` is carried by the units from
`t * split` up to `(t + 1) * split`, each with an equal consecutive share. No part is
empty and the shares come out even. `locate` fixes where a residue goes; staging and
scattering move whole shares accordingly. -/
namespace BankedRing

/-- The place of one residue in the rows of the units. -/
structure Slot where
  unit : Nat
  offset : Nat
  deriving DecidableEq

structure Partition where
  towers : Nat
  towerLength : Nat
  split : Nat
  nonempty : ¬ (towers = 0 ∨ towerLength = 0 ∨ split = 0)
  even : towerLength % split = 0
  deriving DecidableEq

namespace Partition

def new (towers towerLength split : Nat) : Except Error Partition :=
  if nonempty : towers = 0 ∨ towerLength = 0 ∨ split = 0 then
    .error (.invalidParameters (.emptyPartition towers towerLength split))
  else if even : towerLength % split = 0 then .ok ⟨towers, towerLength, split, nonempty, even⟩
  else .error (.unevenPartition towerLength split)

/-- Residues of one operand on one unit. -/
def share (partition : Partition) : Nat := partition.towerLength / partition.split

theorem share_mul_split (partition : Partition) :
    partition.share * partition.split = partition.towerLength :=
  Nat.div_mul_cancel (Nat.dvd_of_mod_eq_zero partition.even)

theorem share_pos (partition : Partition) : 0 < partition.share := by
  have product := partition.share_mul_split
  have nonempty := partition.nonempty
  refine Nat.pos_of_ne_zero fun zero => ?_
  rw [zero, Nat.zero_mul] at product
  omega

def operandBytes (partition : Partition) : Nat := partition.share * 8

def unitsRequired (partition : Partition) : Nat := partition.towers * partition.split

def locate (partition : Partition) (tower index : Nat) : Slot :=
  ⟨tower * partition.split + index / partition.share, index % partition.share⟩

/-- The tower that a unit carries, none for an idle unit. -/
def unitTower? (partition : Partition) (unit : Nat) : Option Nat :=
  if unit < partition.unitsRequired then some (unit / partition.split) else none

def checkUnits (partition : Partition) (units : Nat) : Except Error Unit :=
  if units < partition.unitsRequired then
    .error (.insufficientUnits partition.unitsRequired units)
  else .ok ()

def checkTowers (partition : Partition) (towers : List (List Word)) : Except Error Unit :=
  if towers.length ≠ partition.towers then
    .error (.shapeMismatch (.towerCount partition.towers towers.length))
  else match towers.find? fun tower => tower.length ≠ partition.towerLength with
    | some bad => .error (.shapeMismatch (.towerLength partition.towerLength bad.length))
    | none => .ok ()

/-- Bytes of the host's record of one row, besides its words. -/
def rowFootprint : Nat := 24

/-- One row per unit; idle units get zeros. -/
def stage (partition : Partition) (towers : List (List Word)) (units : Nat) :
    Except Error (List (List Word)) := do
  partition.checkUnits units
  partition.checkTowers towers
  Checked.buffer (rowFootprint * units)
  let idle := List.replicate (units - partition.unitsRequired) (List.replicate partition.share 0)
  return towers.flatMap (chunks partition.share) ++ idle

/-- A tower put together from the rows of its units. -/
def assemble (partition : Partition) (rows : List (List Word)) : List Word :=
  (rows.take partition.split).flatMap (List.take partition.share)

/-- Overwrites destination towers in order; the first of another length ends the work. -/
def fill (partition : Partition) : (rows : List (List Word)) → List (List Word) →
    List (List Word) × Except Error Unit
  | _, [] => ([], .ok ())
  | rows, tower :: rest =>
    if tower.length ≠ partition.towerLength then
      (tower :: rest,
        .error (.shapeMismatch (.destinationLength partition.towerLength tower.length)))
    else
      let (filled, outcome) := fill partition (rows.drop partition.split) rest
      (partition.assemble rows :: filled, outcome)

/-- Writes the rows of the units back in tower order. -/
def scatter (partition : Partition) (rows : List (List Word)) :
    EStateM Error (List (List Word)) Unit := do
  partition.checkUnits rows.length
  if let some short := (rows.take partition.unitsRequired).find? fun row =>
      row.length < partition.share then
    throw (.shapeMismatch (.unitResult short.length partition.share))
  let towers ← get
  if towers.length ≠ partition.towers then
    throw (.shapeMismatch (.destinationCount partition.towers towers.length))
  let (filled, outcome) := partition.fill rows towers
  set filled
  outcome

/-- The modulus of each unit. Idle units take the first tower's. -/
def unitModuli (partition : Partition) (moduli : List Word) (units : Nat) :
    Except Error (List Word) := do
  partition.checkUnits units
  if moduli.length ≠ partition.towers then
    throw (.shapeMismatch (.modulusCount partition.towers moduli.length))
  Checked.buffer (8 * units)
  (List.range units).mapM fun unit => Checked.element moduli ((partition.unitTower? unit).getD 0)

/-- The largest power of two that gives each tower as many units, at most the ring
dimension and at least one. -/
def defaultSplit (units towers ringDimension : Nat) : Nat :=
  1 <<< (max (min (units / max towers 1) ringDimension) 1).log2

end Partition
end BankedRing
