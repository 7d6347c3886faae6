import BankedRing.Transform.Network

/-! The transforms on one buffer. A stage works off all nodes of one depth of the
butterfly tree, block after block, and each butterfly overwrites the two cells that it
reads. The forward transform halves the blocks and keeps the last stage, with its
neighbouring cells, apart; the inverse transform doubles the blocks and walks them with
a running start. What has been overwritten before a trap stays so. -/
namespace BankedRing.RootTables

/-- A step on the buffer that a transform overwrites. -/
abbrev InPlace := EStateM Error (Array Word)

def fetch (position : Nat) : InPlace Word := do
  match (← get)[position]? with
  | some x => return x
  | none => throw (.trapped .outOfRange)

def store (position : Nat) (x : Word) : InPlace Unit := do
  if (← get).size ≤ position then throw (.trapped .outOfRange)
  modify (·.setIfInBounds position x)

def forwardButterfly (m : Word) (t : Twiddle) (distance position : Nat) : InPlace Unit := do
  let u ← fetch position
  let v ← t.scale m (← fetch (position + distance))
  store position (← Residue.addReduced u v m)
  store (position + distance) (← Residue.subReduced u v m)

def inverseButterfly (m : Word) (t : Twiddle) (distance position : Nat) : InPlace Unit := do
  let u ← fetch position
  let v ← fetch (position + distance)
  store position (← Residue.addReduced u v m)
  store (position + distance) (← t.scale m (← Residue.subReduced u v m))

/-- One butterfly for each cell of the lower half of a block. -/
def overHalf (start distance : Nat) (butterfly : Nat → InPlace Unit) : InPlace Unit :=
  (List.range' start distance).forM butterfly

def forwardStage (tables : RootTables) (groups distance : Nat) : InPlace Unit :=
  (List.range groups).forM fun i => do
    let t ← twiddle tables.forward (groups + i)
    overHalf (2 * i * distance) distance (forwardButterfly tables.modulus t distance)

/-- The stages before the last. The number of groups is never zero; the test for it is
there for termination. -/
def forwardStages (tables : RootTables) (half groups distance : Nat) : InPlace Unit :=
  if _ : 0 < groups ∧ groups < half then do
    forwardStage tables groups (distance / 2)
    forwardStages tables half (2 * groups) (distance / 2)
  else pure ()
termination_by half - groups

/-- The last stage joins neighbours. -/
def lastStage (tables : RootTables) (half : Nat) : InPlace Unit :=
  (List.range half).forM fun i => do
    let t ← twiddle tables.forward (half + i)
    forwardButterfly tables.modulus t 1 (2 * i)

/-- Natural order in, bit-reversed order out. -/
def forwardInPlace (tables : RootTables) : InPlace Unit := do
  tables.checkLength (← get).toList
  let length := (← get).size
  forwardStages tables (length / 2) 1 length
  lastStage tables (length / 2)

def inverseStage (tables : RootTables) (groups distance : Nat) : InPlace Unit := do
  let _ ← (List.range groups).foldlM (fun start i => do
    let t ← twiddle tables.inverse (groups + i)
    overHalf start distance (inverseButterfly tables.modulus t distance)
    return start + 2 * distance) 0

def inverseStages (tables : RootTables) (groups distance : Nat) : InPlace Unit :=
  if _ : 1 ≤ groups then do
    inverseStage tables groups distance
    inverseStages tables (groups / 2) (2 * distance)
  else pure ()
termination_by groups

def scaleStage (tables : RootTables) (length : Nat) : InPlace Unit :=
  (List.range length).forM fun i => do
    store i (← tables.lengthInverse.scale tables.modulus (← fetch i))

/-- Bit-reversed order in, natural order out. -/
def inverseInPlace (tables : RootTables) : InPlace Unit := do
  tables.checkLength (← get).toList
  let length := (← get).size
  inverseStages tables (length / 2) 1
  scaleStage tables length

end BankedRing.RootTables
