import BankedRing.Proofs.Device.Launch

/-! Launches that a parameter block describes. The elementwise programs and the modular
program read one block and stream one operation over one region; `Asks` says which. -/
namespace BankedRing

/-- The operation of an elementwise program whose block brings its constant along. -/
def ElementwiseBlock.operation (family : Family) (block : ElementwiseBlock) : Operation :=
  if block.form.isScalar then .combineScalar family block.second.start block.modulus block.mu
  else .combine family block.modulus block.mu

namespace ModularBlock
variable {block : ModularBlock}

theorem modulus_operation (block : ModularBlock) : block.operation.modulus = block.modulus := by
  unfold operation
  cases block.form <;> rfl

end ModularBlock

/-- A block makes its program stream one operation over one region. -/
structure Program.Asks (program : Program) (block : List UInt8) (region : Region)
    (operation : Operation) :
    Prop where
  symbols : program.symbols = [(blockSymbol, block.length)]
  unary : region.b = none → operation.isBinary = false
  runs : ∀ device : Device, device.program = some program → device.symbol blockSymbol = .ok block →
    ∃ line, Device.launch device =
      (do Device.stream region (.ok operation.kernel); Device.logLine line : Device.Step Unit) device

namespace Device
variable {family : Family}

theorem elementwise_asks {block : ElementwiseBlock}
    (second : block.form.isScalar = false → block.second.size = block.first.size)
    (result : block.form.placement = .separate → block.result.size = block.first.size)
    (supported : Modulus.isSupported block.modulus = true) (constant : block.mu = family.constant block.modulus) :
    Program.Asks (.elementwise family) block.encode block.region (block.operation family) := by
  refine ⟨by rw [block.length_encode]; rfl, fun unary => ?_, fun device program symbol => ?_⟩
  · cases scalar : block.form.isScalar with
    | true => simp only [ElementwiseBlock.operation, scalar, if_true, Operation.isBinary]
    | false => simp [ElementwiseBlock.region, scalar] at unary
  have decoded : ElementwiseBlock.decode block.encode = .ok block := by
    have read := block.decode_encode []
    rwa [List.append_nil] at read
  have seconds : ¬ (!block.form.isScalar && decide (block.second.size ≠ block.first.size)) =
      true := by
    cases scalar : block.form.isScalar with
    | true => simp
    | false => simp [second scalar]
  have results : ¬ (decide (block.form.placement = .separate) &&
      decide (block.result.size ≠ block.first.size)) = true := by
    simpa using result
  have ready : (do
      let m ← supportedModulus block.modulus
      let mu ← if block.mu = 0 then constantFor family m else pure block.mu
      let operation : Operation :=
        if block.form.isScalar then .combineScalar family block.second.start m mu
        else .combine family m mu
      return operation.kernel : Except Fault Kernel) = .ok (block.operation family).kernel := by
    rw [supportedModulus, if_pos supported, ok_bind]
    by_cases zero : block.mu = 0
    · simp only [if_pos zero, constantFor_eq_ok family supported, ← constant, ok_bind]
      rfl
    · simp only [if_neg zero]
      rfl
  let name := (Program.elementwise family).name
  let count := block.region.length / 8
  refine ⟨s!"{name}: {block.form.name} over {count} residues mod {block.modulus}", ?_⟩
  simp only [launch, run_get, program, runElementwise, symbol, run_lift_ok, decoded, if_neg seconds,
    if_neg results]
  rw [ready]
  rfl

theorem modular_asks {block : ModularBlock}
    (result : block.form.placement = .separate → block.result.size = block.operand.size)
    (checked : block.check = .ok ()) :
    Program.Asks .modular block.encode block.region block.operation := by
  refine ⟨by rw [block.length_encode]; rfl, fun _ => block.isBinary_operation,
    fun device program symbol => ?_⟩
  have decoded : ModularBlock.decode block.encode = .ok block := by
    have read := block.decode_encode []
    rwa [List.append_nil] at read
  have results : ¬ (decide (block.form.placement = .separate) &&
      decide (block.result.size ≠ block.operand.size)) = true := by
    simpa using result
  have ready : (do
      block.check
      return block.operation.kernel : Except Fault Kernel) = .ok block.operation.kernel := by
    rw [checked]
    rfl
  refine ⟨s!"mod-ops: {block.form.name} over {block.region.length / 8} residues mod {block.modulus} " ++
    s!"(p = {block.p}, q = {block.q})", ?_⟩
  simp only [launch, run_get, program, runModular, symbol, run_lift_ok, decoded, if_neg results]
  rw [ready]
  rfl

/-- A unit that has loaded a program and received its block. -/
def asked (device : Device) (program : Program) (block : List UInt8) : Device :=
  (device.load program).setSymbol blockSymbol block

section Asking
variable {settings : Settings} {id : Nat} {device : Device} {program : Program} {block : List UInt8}
  {region : Region} {operation : Operation}

theorem symbol_load_block (symbols : program.symbols = [(blockSymbol, block.length)])
    (device : Device) :
    (device.load program).symbol blockSymbol = .ok (List.replicate block.length 0) := by
  simp only [symbol, load, symbols]
  rfl

theorem symbol_asked (symbols : program.symbols = [(blockSymbol, block.length)]) (device : Device) :
    (device.asked program block).symbol blockSymbol = .ok block :=
  symbol_setSymbol (symbol_load_block symbols device)

theorem built_asked (built : device.Built settings id) :
    (device.asked program block).Built settings id :=
  ⟨built.id, built.bank, built.scratch, built.shape⟩

variable (accepted : settings.Accepted) (built : device.Built settings id)
  (asks : program.Asks block region operation)
  (grants : Stream.Grants region device.bank)
include accepted built asks grants

/-- A unit that has been asked leaves the result in the target region. -/
theorem launch_asked (recorded : settings.shape.Recorded) {whole : List Word}
    (computed : operation.kernel (device.bank.wordsAt region.a region.length)
      (Stream.secondWords region device.bank) = .ok whole) (length :
      whole.length = region.length / 8) :
    ∃ launched, launch (device.asked program block) = .ok () launched ∧
      device.bank.Replaced (Stream.target region / 8) whole launched.bank := by
  obtain ⟨line, ran⟩ := asks.runs (device.asked program block) rfl
    (symbol_asked asks.symbols device)
  obtain ⟨bank, streamed, replaced⟩ := stream_eq_ok accepted (built_asked built)
    recorded grants rfl asks.unary computed length
  exact ⟨_, ran.trans ((run_bind_ok streamed).trans rfl), replaced⟩

theorem launch_asked_unrecorded (unrecorded : ¬ settings.shape.Recorded) :
    ∃ stopped, launch (device.asked program block) = .error (.trapped .oversized) stopped := by
  obtain ⟨line, ran⟩ := asks.runs (device.asked program block) rfl
    (symbol_asked asks.symbols device)
  obtain ⟨stopped, streamed⟩ := stream_unrecorded accepted
    (built_asked built) unrecorded grants (.ok operation.kernel)
  exact ⟨stopped, ran.trans (run_bind_error streamed)⟩

end Asking
end Device
end BankedRing
