import BankedRing.Word.Checked

/-! Faults raised on a unit, by a transfer to it or by a program that runs there. A trap
outside the tasklets is no fault of the program: it ends the host's step too. -/
namespace BankedRing

/-- The two rounding operations that divide by a parameter. -/
inductive Rounding where
  | scale
  | divide
  deriving DecidableEq, Repr

def Rounding.name : Rounding → String
  | .scale => "multiply-and-round"
  | .divide => "divide-and-round"

inductive Fault where
  | outOfBounds (offset length capacity : Nat)
  | misaligned (offset length : Nat)
  | heapExhausted (requested available : Nat)
  | unknownKernel (selector : UInt32)
  | divisionByZero (operation : Rounding)
  | invalidModulus (modulus : Word)
  | unknownSymbol (name : String)
  | badSymbol (name : String)
  | symbolOverflow (symbol : String) (offset length size : Nat)
  | noProgram
  | taskletTrapped (tasklet : Nat)
  | trapped (trap : Trap)
  deriving DecidableEq, Repr

instance : HasTrap Fault := ⟨Fault.trapped⟩

def Fault.isTrap : Fault → Bool
  | .trapped _ => true
  | _ => false

def Fault.message : Fault → String
  | .outOfBounds offset length capacity =>
    s!"MRAM access [{offset}, {offset}+{length}) exceeds capacity {capacity}"
  | .misaligned offset length =>
    s!"MRAM access at offset {offset} of {length} bytes is not 8-byte aligned"
  | .heapExhausted requested available =>
    s!"WRAM heap exhausted: requested {requested} bytes, {available} available"
  | .unknownKernel selector => s!"Unknown kernel selector {selector}"
  | .divisionByZero operation => s!"Division by zero in {operation.name}"
  | .invalidModulus modulus => s!"Modulus {modulus} is not supported on device"
  | .unknownSymbol name => s!"Host symbol `{name}` is not declared by the loaded program"
  | .badSymbol name => s!"Host symbol `{name}` is malformed"
  | .symbolOverflow symbol offset length size =>
    s!"Write of {length} bytes at offset {offset} overflows symbol `{symbol}` ({size} bytes)"
  | .noProgram => "No program loaded"
  | .taskletTrapped tasklet => s!"Tasklet {tasklet} panicked"
  | .trapped trap => s!"Arithmetic stopped: {trap.message}"

end BankedRing
