import BankedRing.Device.Fault
import BankedRing.Text.Numeral
import BankedRing.Text.Path

/-! Errors of the host side, each named by its cause. The wording of every cause
stands in one `message` function per kind of error. -/
namespace BankedRing

inductive Format where
  | coefficient
  | evaluation
  deriving DecidableEq, Repr

def Format.name : Format → String
  | .coefficient => "coefficient"
  | .evaluation => "evaluation"

inductive AllocationRefusal where
  | malformedEntry (entry : String)
  | backendUnavailable (backend : String)
  | tooManyUnits (requested offered : Nat)
  | noUnits
  | addressesDiffer
  deriving DecidableEq, Repr

def AllocationRefusal.message : AllocationRefusal → String
  | .malformedEntry entry => s!"malformed profile entry `{entry}`"
  | .backendUnavailable backend => s!"backend `{backend}` is not available in this build"
  | .tooManyUnits requested offered =>
    s!"requested {requested} units, the simulator offers {offered}"
  | .noUnits => "no units available"
  | .addressesDiffer => "units disagree on the allocated address"

inductive TransferRefusal where
  | bufferCount (given units : Nat)
  | onUnit (unit : Nat) (fault : Fault)
  deriving DecidableEq, Repr

def TransferRefusal.message : TransferRefusal → String
  | .bufferCount given units => s!"{given} buffers for {units} units"
  | .onUnit unit fault => s!"unit {unit}: {fault.message}"

/-- Why a file cannot be opened for appending, or takes no more text. -/
inductive FileRefusal where
  | notFound
  | notDirectory
  | isDirectory
  | nameTooLong
  | nullInName
  | noSpace
  deriving DecidableEq, Repr

def FileRefusal.message : FileRefusal → String
  | .notFound => "No such file or directory (os error 2)"
  | .notDirectory => "Not a directory (os error 20)"
  | .isDirectory => "Is a directory (os error 21)"
  | .nameTooLong => "File name too long (os error 36)"
  | .nullInName => "file name contained an unexpected NUL byte"
  | .noSpace => "No space left on device (os error 28)"

inductive ParameterDefect where
  | noUnitsRequested
  | noTasklets
  | cacheSize (bytes : Nat)
  | bankSize (bytes : Nat)
  | scratchTooSmall (tasklets cacheBytes needed available : Nat)
  | emptyPartition (towers towerLength split : Nat)
  | operandTooLarge (bytes : Nat)
  | notTowerProgram (program : String)
  | unreducedValue (value : Word) (index : Nat) (modulus : Word)
  | unreducedResidue (value modulus : Word)
  | transformLength (length : Nat)
  | notPrimitiveRoot (root : Word) (order : Nat) (modulus : Word)
  | noModuli
  | repeatedModulus (modulus : Word)
  | searchBounds (bits order : Nat)
  | noCandidates (order bits : Nat)
  | progressionExhausted (order below : Nat)
  | orderMismatch (order modulus : Nat)
  | noPrimitiveRoot (order modulus : Nat)
  deriving DecidableEq, Repr

def ParameterDefect.message : ParameterDefect → String
  | .noUnitsRequested => "unit count must be positive"
  | .noTasklets => "at least one tasklet is required"
  | .cacheSize bytes => s!"cache size {bytes} must be a non-zero multiple of 8"
  | .bankSize bytes => s!"MRAM size {bytes} must be non-zero and fit in 32 bits"
  | .scratchTooSmall tasklets cacheBytes needed available =>
    s!"{tasklets} tasklets with {cacheBytes}-byte caches need {needed} bytes of WRAM, " ++
      s!"only {available} available"
  | .emptyPartition towers towerLength split =>
    s!"empty partition: {towers} towers of length {towerLength} with split {split}"
  | .operandTooLarge bytes => s!"{bytes} operand bytes exceed a u32"
  | .notTowerProgram program => s!"{program} is not a tower kernel"
  | .unreducedValue value index modulus =>
    s!"residue {value} at index {index} is not reduced modulo {modulus}"
  | .unreducedResidue value modulus => s!"residue {value} is not reduced mod {modulus}"
  | .transformLength length => s!"transform length {length} is not a power of two >= 2"
  | .notPrimitiveRoot root order modulus =>
    s!"{root} is not a primitive {order}-th root of unity mod {modulus}"
  | .noModuli => "no moduli"
  | .repeatedModulus modulus => s!"modulus {modulus} repeated"
  | .searchBounds bits order => s!"no prime search for {bits} bits with order {order}"
  | .noCandidates order bits => s!"order {order} leaves no candidates below 2^{bits}"
  | .progressionExhausted order below => s!"no prime = 1 (mod {order}) below {below}"
  | .orderMismatch order modulus => s!"order {order} does not divide {modulus} - 1"
  | .noPrimitiveRoot order modulus => s!"no primitive {order}-th root found modulo {modulus}"

inductive ShapeDefect where
  | transformLength (expected given : Nat)
  | operandTowers (first second : Nat)
  | operandModuli (index : Nat) (first second : Word)
  | towerCount (expected given : Nat)
  | towerLength (expected given : Nat)
  | unitResult (given expected : Nat)
  | destinationCount (expected given : Nat)
  | destinationLength (expected given : Nat)
  | modulusCount (expected given : Nat)
  | resultModuli (results destination : List Word)
  | towersForModuli (towers moduli : Nat)
  | tower (length : Nat) (modulus : Word) (expectedLength : Nat) (expectedModulus : Word)
  | differentParameters
  | foreignVector
  | vectorLengths (first second : Nat)
  deriving DecidableEq, Repr

def ShapeDefect.message : ShapeDefect → String
  | .transformLength expected given => s!"transform of length {expected} applied to {given} values"
  | .operandTowers first second => s!"operands have {first} and {second} towers"
  | .operandModuli index first second => s!"tower {index} has moduli {first} and {second}"
  | .towerCount expected given => s!"expected {expected} towers, got {given}"
  | .towerLength expected given => s!"expected towers of length {expected}, got {given}"
  | .unitResult given expected => s!"unit result of {given} residues, expected {expected}"
  | .destinationCount expected given => s!"expected {expected} destination towers, got {given}"
  | .destinationLength expected given =>
    s!"expected destination tower of length {expected}, got {given}"
  | .modulusCount expected given => s!"expected {expected} moduli, got {given}"
  | .resultModuli results destination =>
    s!"results computed under moduli {list results}, destination uses {list destination}"
  | .towersForModuli towers moduli => s!"{towers} towers for {moduli} moduli"
  | .tower length modulus expectedLength expectedModulus =>
    s!"tower of {length} residues mod {modulus}, expected {expectedLength} mod {expectedModulus}"
  | .differentParameters => "operands use different DCRT parameters"
  | .foreignVector => "vectors belong to different managers"
  | .vectorLengths first second => s!"vector lengths {first} and {second}"
where
  list (words : List Word) : String :=
    "[" ++ String.intercalate ", " (words.map toString) ++ "]"

inductive Error where
  | unitAllocation (refusal : AllocationRefusal)
  | transfer (target : String) (refusal : TransferRefusal)
  | execution (unit : Nat) (fault : Fault)
  | noProgramLoaded
  | unknownBinary (path : Path)
  | memoryExhausted (unit requested : Nat)
  | invalidDeallocation (unit : Nat) (address : UInt32)
  | unevenPartition (towerLength split : Nat)
  | insufficientUnits (required available : Nat)
  | invalidModulus (modulus : Word)
  | invalidParameters (defect : ParameterDefect)
  | shapeMismatch (defect : ShapeDefect)
  | formatMismatch (expected : Format)
  | poisoned
  | logFile (refusal : FileRefusal)
  | trapped (trap : Trap)
  deriving DecidableEq, Repr

instance : HasTrap Error := ⟨Error.trapped⟩

def Error.isTrap : Error → Bool
  | .trapped _ => true
  | _ => false

/-- A fault as the host reports it. A trap has no place of its own and stays a trap. -/
def Error.ofFault (describe : Fault → Error) : Fault → Error
  | .trapped trap => .trapped trap
  | fault => describe fault

def Error.message : Error → String
  | .unitAllocation refusal => s!"Unit allocation failed: {refusal.message}"
  | .transfer target refusal => s!"Transfer to/from target `{target}` failed: {refusal.message}"
  | .execution unit fault => s!"Execution failed on unit {unit}: {fault.message}"
  | .noProgramLoaded => "No kernel binary is loaded"
  | .unknownBinary path => s!"Unknown kernel binary: {path.display}"
  | .memoryExhausted unit requested =>
    s!"Device memory exhausted: requested {requested} bytes on unit {unit}"
  | .invalidDeallocation unit address =>
    let digits := Numeral.hexadecimal address.toNat
    s!"Invalid deallocation of address 0x{digits} on unit {unit}"
  | .unevenPartition towerLength split =>
    s!"Tower length {towerLength} is not divisible by split factor {split}"
  | .insufficientUnits required available =>
    s!"Partition needs {required} units but only {available} are allocated"
  | .invalidModulus modulus => s!"Invalid modulus: {modulus}"
  | .invalidParameters defect => s!"Invalid parameters: {defect.message}"
  | .shapeMismatch defect => s!"Shape mismatch: {defect.message}"
  | .formatMismatch expected => s!"Operation requires {expected.name} format"
  | .poisoned => "PIM manager lock poisoned"
  | .logFile refusal => s!"IO error: {refusal.message}"
  | .trapped trap => s!"Arithmetic stopped: {trap.message}"

end BankedRing
