import BankedRing.Device.Bytes
import BankedRing.Device.Fault
import BankedRing.Residue.Operation

/-! Parameter blocks that the host writes into a unit. A block has a fixed little-endian
layout with naturally aligned fields: an operand is a word and a half word padded to
16 bytes, and the selector at a block's end is padded to a word. Reading ignores
padding, so the last four bytes of a block may be missing. -/
namespace BankedRing

/-- A region of a bank: its byte offset and its size in bytes. -/
structure Operand where
  start : Word
  size : UInt32
  deriving DecidableEq, Repr, Inhabited

namespace Operand

def encode (operand : Operand) : List UInt8 :=
  Bytes.ofWord operand.start ++ Bytes.ofNat 4 operand.size.toNat ++ Bytes.ofNat 4 0

def reader : Bytes.Reader Operand := do
  let start ← Bytes.word
  let size ← Bytes.halfWord
  let _ ← Bytes.halfWord
  return ⟨start, size⟩

end Operand

/-- Whether a program overwrites its operand or writes a region of its own. -/
inductive Placement where
  | separate
  | inPlace
  deriving DecidableEq, Repr

/-- The right-hand side of an elementwise program, and where its result goes. -/
inductive ElementwiseForm where
  | scalar (placement : Placement)
  | vector (placement : Placement)
  deriving DecidableEq, Repr

namespace ElementwiseForm

/-- In the order of their selectors. -/
def all : List ElementwiseForm :=
  [.scalar .separate, .scalar .inPlace, .vector .separate, .vector .inPlace]

def selector : ElementwiseForm → UInt32
  | .scalar .separate => 0
  | .scalar .inPlace => 1
  | .vector .separate => 2
  | .vector .inPlace => 3

def ofSelector (selector : UInt32) : Except Fault ElementwiseForm :=
  match all[selector.toNat]? with
  | some form => .ok form
  | none => .error (.unknownKernel selector)

def name : ElementwiseForm → String
  | .scalar .separate => "Scalar"
  | .scalar .inPlace => "ScalarEq"
  | .vector .separate => "Vector"
  | .vector .inPlace => "VectorEq"

def placement : ElementwiseForm → Placement
  | .scalar placement | .vector placement => placement

def isScalar : ElementwiseForm → Bool
  | .scalar _ => true
  | .vector _ => false

end ElementwiseForm

/-- What the modular program does to each residue, and where its result goes. -/
inductive ModularForm where
  | switchModulus
  | changeModulus (placement : Placement)
  | parity (placement : Placement)
  | power (placement : Placement)
  | inverse (placement : Placement)
  | scaleAndRound (placement : Placement)
  | divideAndRound (placement : Placement)
  deriving DecidableEq, Repr

namespace ModularForm

/-- In the order of their selectors. -/
def all : List ModularForm :=
  [.switchModulus, .changeModulus .separate, .changeModulus .inPlace, .parity .separate,
    .parity .inPlace, .power .separate, .power .inPlace, .inverse .separate, .inverse .inPlace,
    .scaleAndRound .separate, .scaleAndRound .inPlace, .divideAndRound .separate,
    .divideAndRound .inPlace]

def selector : ModularForm → UInt32
  | .switchModulus => 0
  | .changeModulus .separate => 1
  | .changeModulus .inPlace => 2
  | .parity .separate => 3
  | .parity .inPlace => 4
  | .power .separate => 5
  | .power .inPlace => 6
  | .inverse .separate => 7
  | .inverse .inPlace => 8
  | .scaleAndRound .separate => 9
  | .scaleAndRound .inPlace => 10
  | .divideAndRound .separate => 11
  | .divideAndRound .inPlace => 12

def ofSelector (selector : UInt32) : Except Fault ModularForm :=
  match all[selector.toNat]? with
  | some form => .ok form
  | none => .error (.unknownKernel selector)

def name : ModularForm → String
  | .switchModulus => "SwitchModulus"
  | .changeModulus .separate => "ModNormal"
  | .changeModulus .inPlace => "ModEq"
  | .parity .separate => "ModByTwo"
  | .parity .inPlace => "ModByTwoEq"
  | .power .separate => "ModExp"
  | .power .inPlace => "ModExpEq"
  | .inverse .separate => "ModInverse"
  | .inverse .inPlace => "ModInverseEq"
  | .scaleAndRound .separate => "MultiplyAndRound"
  | .scaleAndRound .inPlace => "MultiplyAndRoundEq"
  | .divideAndRound .separate => "DivideAndRound"
  | .divideAndRound .inPlace => "DivideAndRoundEq"

/-- A switch of the modulus has no form with a region of its own. -/
def placement : ModularForm → Placement
  | .switchModulus => .inPlace
  | .changeModulus placement | .parity placement | .power placement | .inverse placement
  | .scaleAndRound placement | .divideAndRound placement => placement

end ModularForm

/-- Parameters of an elementwise program. A scalar travels as the second operand's
start, and a zero Barrett constant asks the unit to compute it. -/
structure ElementwiseBlock where
  first : Operand
  second : Operand
  result : Operand
  modulus : Word
  mu : Word
  form : ElementwiseForm
  deriving DecidableEq, Repr

/-- Parameters of the modular program: the operand's modulus, and two words whose
meaning depends on the form. -/
structure ModularBlock where
  operand : Operand
  result : Operand
  modulus : Word
  p : Word
  q : Word
  form : ModularForm
  deriving DecidableEq, Repr

/-- The symbol that holds a parameter block. -/
def blockSymbol : String := "meta"

namespace ElementwiseBlock

def byteSize : Nat := 72

def encode (block : ElementwiseBlock) : List UInt8 :=
  block.first.encode ++ block.second.encode ++ block.result.encode ++ Bytes.ofWord block.modulus ++
    Bytes.ofWord block.mu ++ Bytes.ofNat 4 block.form.selector.toNat ++ Bytes.ofNat 4 0

/-- The fields before the selector, which stands last. -/
def reader : Bytes.Reader (Operand × Operand × Operand × Word × Word × UInt32) := do
  return (← Operand.reader, ← Operand.reader, ← Operand.reader, ← Bytes.word, ← Bytes.word,
    ← Bytes.halfWord)

def decode (bytes : List UInt8) : Except Fault ElementwiseBlock :=
  match reader bytes with
  | none => .error (.badSymbol blockSymbol)
  | some ((first, second, result, modulus, mu, selector), _) => do
    return { first, second, result, modulus, mu, form := ← ElementwiseForm.ofSelector selector }

end ElementwiseBlock

namespace ModularBlock

def byteSize : Nat := 64

def encode (block : ModularBlock) : List UInt8 :=
  block.operand.encode ++ block.result.encode ++ Bytes.ofWord block.modulus ++
    Bytes.ofWord block.p ++ Bytes.ofWord block.q ++ Bytes.ofNat 4 block.form.selector.toNat ++
    Bytes.ofNat 4 0

/-- The fields before the selector, which stands last. -/
def reader : Bytes.Reader (Operand × Operand × Word × Word × Word × UInt32) := do
  return (← Operand.reader, ← Operand.reader, ← Bytes.word, ← Bytes.word, ← Bytes.word,
    ← Bytes.halfWord)

def decode (bytes : List UInt8) : Except Fault ModularBlock :=
  match reader bytes with
  | none => .error (.badSymbol blockSymbol)
  | some ((operand, result, modulus, p, q, selector), _) => do
    return { operand, result, modulus, p, q, form := ← ModularForm.ofSelector selector }

/-- The operation on residues that a block asks for. -/
def operation (block : ModularBlock) : Operation :=
  match block.form with
  | .switchModulus => .switchModulus block.modulus block.p
  | .changeModulus _ => .changeModulus block.modulus block.p
  | .parity _ => .parity block.modulus
  | .power _ => .power block.p block.modulus
  | .inverse _ => .inverse block.modulus
  | .scaleAndRound _ => .scaleAndRound block.modulus block.p block.q
  | .divideAndRound _ => .divideAndRound block.modulus block.p

end ModularBlock
end BankedRing
