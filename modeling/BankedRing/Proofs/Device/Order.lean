import BankedRing.Proofs.Device.Checks

/-! What a launch is asked for. A program reads from its symbols which region it is to stream,
and its parameters are checked once that region is open. A launch is its order carried out,
so what is known of orders and of streams is known of all programs at once. -/
namespace BankedRing

/-- What the symbols of a program ask for: a region, an operation on it or what is wrong with
its parameters, and the line for the log. -/
structure Order where
  region : Region
  operation : Except Fault Operation
  line : String

/-- The region of a batch: both operands at the front of the bank. -/
def Device.towerRegion (bytes : Nat) : Region :=
  { a := 0, b := some bytes, length := bytes, destination := none }

/-- The region that an elementwise program streams. -/
def ElementwiseBlock.region (block : ElementwiseBlock) : Region where
  a := block.first.start.toNat
  b := if block.form.isScalar then none else some block.second.start.toNat
  length := block.first.size.toNat
  destination := if block.form.placement = .inPlace then none else some block.result.start.toNat

/-- The region that the modular program streams. -/
def ModularBlock.region (block : ModularBlock) : Region where
  a := block.operand.start.toNat
  b := none
  length := block.operand.size.toNat
  destination := if block.form.placement = .inPlace then none else some block.result.start.toNat

def towerOrder (family : Family) (modulus : Word) (bytes : Nat) : Order where
  region := Device.towerRegion bytes
  operation := do
    let m ← supportedModulus modulus
    return .combine family m (← constantFor family m)
  line := s!"{(Program.tower family).name}: {bytes / 8} residues mod {modulus}"

/-- The constant that a block brings along, or that the unit computes. -/
def ElementwiseBlock.constant (family : Family) (block : ElementwiseBlock) (m : Word) :
    Except Fault Word :=
  if block.mu = 0 then constantFor family m else .ok block.mu

def ElementwiseBlock.order (family : Family) (block : ElementwiseBlock) : Except Fault Order := do
  if !block.form.isScalar && block.second.size ≠ block.first.size then
    throw (.badSymbol blockSymbol)
  if block.form.placement = .separate && block.result.size ≠ block.first.size then
    throw (.badSymbol blockSymbol)
  return {
    region := block.region
    operation := do
      let m ← supportedModulus block.modulus
      let mu ← block.constant family m
      return if block.form.isScalar then .combineScalar family block.second.start m mu
        else .combine family m mu
    line :=
      let name := (Program.elementwise family).name
      let count := block.region.length / 8
      s!"{name}: {block.form.name} over {count} residues mod {block.modulus}" }

def ModularBlock.order (block : ModularBlock) : Except Fault Order := do
  if block.form.placement = .separate && block.result.size ≠ block.operand.size then
    throw (.badSymbol blockSymbol)
  return {
    region := block.region
    operation := do
      block.check
      return block.operation
    line :=
      s!"mod-ops: {block.form.name} over {block.region.length / 8} residues mod {block.modulus} " ++
      s!"(p = {block.p}, q = {block.q})" }

/-- An order of which nothing is wrong but its parameters. An operation that comes out of it
never traps on reduced operands, and reads a second one only where there is one. -/
structure Order.Sensible (order : Order) : Prop where
  refuses : Refuses order.operation
  permitted : ∀ operation, order.operation = .ok operation → operation.Permitted
  unary : ∀ operation, order.operation = .ok operation → order.region.b = none →
    operation.isBinary = false

theorem Order.Sensible.kernel_refuses {order : Order} (h : order.Sensible) :
    Refuses (Operation.kernel <$> order.operation) := by
  intro fault failed
  cases outcome : order.operation with
  | ok operation =>
    rw [outcome] at failed
    cases failed
  | error refusal =>
    rw [outcome] at failed
    cases failed
    exact h.refuses _ outcome

theorem constantFor_refuses (family : Family) {m m' : Word}
    (supported : supportedModulus m = .ok m') :
    Refuses (constantFor family m') := by
  obtain ⟨rfl, valid⟩ := supportedModulus_inv supported
  rw [constantFor_eq_ok family valid]
  exact .ok _

theorem towerOrder_sensible (family : Family) (modulus : Word) (bytes : Nat) :
    (towerOrder family modulus bytes).Sensible := by
  constructor
  · exact .bind (supportedModulus_refuses modulus) fun _ supported =>
      .bind (constantFor_refuses family supported) fun _ _ => .ok _
  · intro operation asked
    obtain ⟨m, supported, asked⟩ := bind_eq_ok.mp asked
    obtain ⟨_, _, asked⟩ := bind_eq_ok.mp asked
    cases asked
    obtain ⟨rfl, valid⟩ := supportedModulus_inv supported
    exact ⟨valid, trivial⟩
  · nofun

theorem ElementwiseBlock.order_sensible {family : Family} {block : ElementwiseBlock} {order : Order}
    (h : block.order family = .ok order) : order.Sensible := by
  obtain ⟨_, h⟩ := guard_eq_ok.mp h
  obtain ⟨_, h⟩ := guard_eq_ok.mp h
  cases h
  constructor
  · refine .bind (supportedModulus_refuses _) fun _ supported => .bind ?_ fun _ _ => .ok _
    unfold constant
    split
    · exact constantFor_refuses family supported
    · exact .ok _
  · intro operation asked
    obtain ⟨m, supported, asked⟩ := bind_eq_ok.mp asked
    obtain ⟨_, _, asked⟩ := bind_eq_ok.mp asked
    cases asked
    obtain ⟨rfl, valid⟩ := supportedModulus_inv supported
    split
    · exact ⟨valid, trivial⟩
    · exact ⟨valid, trivial⟩
  · intro operation asked unary
    obtain ⟨m, _, asked⟩ := bind_eq_ok.mp asked
    obtain ⟨_, _, asked⟩ := bind_eq_ok.mp asked
    cases asked
    cases scalar : block.form.isScalar with
    | true => rfl
    | false => simp [region, scalar] at unary

theorem ModularBlock.order_sensible {block : ModularBlock} {order : Order}
    (h : block.order = .ok order) :
    order.Sensible := by
  obtain ⟨_, h⟩ := guard_eq_ok.mp h
  cases h
  constructor
  · exact .bind block.check_refuses fun _ _ => .ok _
  · intro operation asked
    obtain ⟨_, checked, asked⟩ := bind_eq_ok.mp asked
    cases asked
    exact (admitted_operation (valid_of_check checked)).permitted
  · intro operation asked _
    obtain ⟨_, _, asked⟩ := bind_eq_ok.mp asked
    cases asked
    exact block.isBinary_operation

namespace Device
variable {device : Device}

/-- What the loaded program is asked for. Booting streams nothing. -/
def order (device : Device) : Except Fault Order :=
  match device.program with
  | some (.tower family) => do
    let modulus ← device.symbolWord modulusSymbol
    return towerOrder family modulus (← device.symbolHalfWord lengthSymbol).toNat
  | some (.elementwise family) => do
    (← ElementwiseBlock.decode (← device.symbol blockSymbol)).order family
  | some .modular => do
    (← ModularBlock.decode (← device.symbol blockSymbol)).order
  | _ => throw .noProgram

/-- Streams what was ordered and logs it. -/
def carryOut (order : Order) : Step Unit := do
  stream order.region (Operation.kernel <$> order.operation)
  logLine order.line

theorem runTower_eq_carryOut {family : Family} (program : device.program = some (.tower family)) :
    runTower family device = (do carryOut (← device.order) : Step Unit) device := by
  simp only [runTower, run_get, order, program]
  cases modulus : device.symbolWord modulusSymbol with
  | error fault => rfl
  | ok m =>
  cases length : device.symbolHalfWord lengthSymbol with
  | error fault => rfl
  | ok bytes =>
  simp only [ok_bind, run_lift_ok]
  refine Eq.trans ?_ (run_lift_ok (towerOrder family m bytes.toNat)).symm
  simp only [carryOut, towerOrder, map_bind, map_pure]
  rfl

theorem runElementwise_eq_carryOut {family : Family}
    (program : device.program = some (.elementwise family)) :
    runElementwise family device = (do carryOut (← device.order) : Step Unit) device := by
  simp only [runElementwise, run_get, order, program]
  cases symbol : device.symbol blockSymbol with
  | error fault => rfl
  | ok bytes =>
  simp only [ok_bind, run_lift_ok]
  cases decoded : ElementwiseBlock.decode bytes with
  | error fault => rfl
  | ok block =>
  simp only [ok_bind, run_lift_ok, ElementwiseBlock.order]
  split
  · rfl
  split
  · rfl
  refine Eq.trans ?_ (run_lift_ok _).symm
  simp only [carryOut, map_bind, map_pure, ElementwiseBlock.constant]
  by_cases absent : block.mu = 0
  · simp only [if_pos absent]
    rfl
  · simp only [if_neg absent]
    rfl

theorem runModular_eq_carryOut (program : device.program = some .modular) :
    runModular device = (do carryOut (← device.order) : Step Unit) device := by
  simp only [runModular, run_get, order, program]
  cases symbol : device.symbol blockSymbol with
  | error fault => rfl
  | ok bytes =>
  simp only [ok_bind, run_lift_ok]
  cases decoded : ModularBlock.decode bytes with
  | error fault => rfl
  | ok block =>
  simp only [ok_bind, run_lift_ok, ModularBlock.order]
  split
  · rfl
  refine Eq.trans ?_ (run_lift_ok _).symm
  simp only [carryOut, map_bind, map_pure]
  rfl

theorem launch_eq_runBoot (boots : device.program = some .boot) :
    launch device = runBoot device := by
  simp only [launch, run_get, boots]

/-- Every launch that streams carries out its order. -/
theorem launch_eq_carryOut (streams : device.program ≠ some .boot) :
    launch device = (do carryOut (← device.order) : Step Unit) device := by
  simp only [launch, run_get]
  cases program : device.program with
  | none => simp only [order, program]; rfl
  | some loaded =>
    cases loaded with
    | boot => exact absurd program streams
    | tower family => exact runTower_eq_carryOut program
    | elementwise family => exact runElementwise_eq_carryOut program
    | modular => exact runModular_eq_carryOut program

theorem order_refuses (device : Device) : Refuses device.order := by
  unfold order
  split
  · exact .bind (.bind (symbolNumber_refuses device _ _) fun _ _ => .ok _) fun _ _ =>
      .bind (.bind (symbolNumber_refuses device _ _) fun _ _ => .ok _) fun _ _ => .ok _
  · refine .bind (symbol_refuses device _) fun bytes _ =>
      .bind (ElementwiseBlock.decode_refuses bytes) fun _ _ => ?_
    exact .guard trivial fun _ => .guard trivial fun _ => .ok _
  · refine .bind (symbol_refuses device _) fun bytes _ =>
      .bind (ModularBlock.decode_refuses bytes) fun _ _ => ?_
    exact .guard trivial fun _ => .ok _
  · exact .error trivial

theorem sensible_of_order {order : Order} (h : device.order = .ok order) : order.Sensible := by
  unfold Device.order at h
  split at h
  · obtain ⟨_, _, h⟩ := bind_eq_ok.mp h
    obtain ⟨_, _, h⟩ := bind_eq_ok.mp h
    cases h
    exact towerOrder_sensible _ _ _
  · obtain ⟨_, _, h⟩ := bind_eq_ok.mp h
    obtain ⟨_, _, h⟩ := bind_eq_ok.mp h
    exact ElementwiseBlock.order_sensible h
  · obtain ⟨_, _, h⟩ := bind_eq_ok.mp h
    obtain ⟨_, _, h⟩ := bind_eq_ok.mp h
    exact ModularBlock.order_sensible h
  · cases h

end Device
end BankedRing
