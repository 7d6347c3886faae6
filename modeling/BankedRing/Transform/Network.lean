import BankedRing.Transform.Tables

/-! The negacyclic transform as a tree of butterflies. A node joins the two halves of
its list with its own twiddle and hands them to its children; the forward transform
works from the root down and leaves bit-reversed order, the inverse works from the
leaves up and ends with the scaling by the inverse length. -/
namespace BankedRing.RootTables

def twiddle (table : Array Twiddle) (node : Nat) : Checked Twiddle :=
  match table[node]? with
  | some t => .ok t
  | none => .error .outOfRange

/-- Sums and differences of two halves, pair by pair. -/
def sumsAndDifferences (m : Word) (low high : List Word) : Checked (List Word × List Word) := do
  let pairs := low.zip high
  let sums ← pairs.mapM fun (u, v) => Residue.addReduced u v m
  let differences ← pairs.mapM fun (u, v) => Residue.subReduced u v m
  return (sums, differences)

def forwardFrom (tables : RootTables) : (depth node : Nat) → List Word → Checked (List Word)
  | 0, _, values => return values
  | depth + 1, node, values => do
    let t ← twiddle tables.forward node
    let scaled ← (values.drop (1 <<< depth)).mapM (t.scale tables.modulus)
    let (low, high) ← sumsAndDifferences tables.modulus (values.take (1 <<< depth)) scaled
    return (← forwardFrom tables depth (2 * node) low) ++
      (← forwardFrom tables depth (2 * node + 1) high)

def inverseFrom (tables : RootTables) : (depth node : Nat) → List Word → Checked (List Word)
  | 0, _, values => return values
  | depth + 1, node, values => do
    let t ← twiddle tables.inverse node
    let low ← inverseFrom tables depth (2 * node) (values.take (1 <<< depth))
    let high ← inverseFrom tables depth (2 * node + 1) (values.drop (1 <<< depth))
    let (sums, differences) ← sumsAndDifferences tables.modulus low high
    return sums ++ (← differences.mapM (t.scale tables.modulus))

/-- The whole inverse network, scaled at the end. -/
def inverseScaled (tables : RootTables) (values : List Word) : Checked (List Word) := do
  let joined ← inverseFrom tables tables.length.log2 1 values
  joined.mapM (tables.lengthInverse.scale tables.modulus)

def checkLength (tables : RootTables) (values : List Word) : Except Error Unit :=
  if values.length = tables.length then .ok ()
  else .error (.shapeMismatch (.transformLength tables.length values.length))

/-- Natural order in, bit-reversed order out. -/
def forwardTransform (tables : RootTables) (values : List Word) : Except Error (List Word) := do
  tables.checkLength values
  forwardFrom tables tables.length.log2 1 values

/-- Bit-reversed order in, natural order out. -/
def inverseTransform (tables : RootTables) (values : List Word) : Except Error (List Word) := do
  tables.checkLength values
  inverseScaled tables values

end BankedRing.RootTables
