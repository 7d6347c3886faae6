import BankedRing.Device.Block
import BankedRing.Text.Path

/-! The programs that a unit can run. A program is found by the stem of its file name,
whatever directory holds it, and declares the symbols that the host may write. -/
namespace BankedRing

inductive Program where
  | boot
  | tower (family : Family)
  | elementwise (family : Family)
  | modular
  deriving DecidableEq, Repr

/-- The target of transfers that names the bank itself. -/
def bankTarget : String := "__sys_used_mram_end"

/-- The tower's modulus on a unit. -/
def modulusSymbol : String := "mram_modulus"

/-- The byte length of the first operand; the second follows it directly. -/
def lengthSymbol : String := "data_copied_in_bytes"

namespace Program

def all : List Program :=
  [.boot, .tower .add, .tower .sub, .tower .mul, .elementwise .add, .elementwise .sub,
    .elementwise .mul, .modular]

def name : Program → String
  | .boot => "boot"
  | .tower .add => "dcrt-add"
  | .tower .sub => "dcrt-sub"
  | .tower .mul => "dcrt-mul"
  | .elementwise .add => "add-mod"
  | .elementwise .sub => "sub-mod"
  | .elementwise .mul => "mult-mod"
  | .modular => "mod-ops"

/-- Declared symbols with their sizes in bytes. -/
def symbols : Program → List (String × Nat)
  | .boot => []
  | .tower _ => [(modulusSymbol, 8), (lengthSymbol, 4)]
  | .elementwise _ => [(blockSymbol, ElementwiseBlock.byteSize)]
  | .modular => [(blockSymbol, ModularBlock.byteSize)]

def path (program : Program) (directory : Path) : Path := directory.join program.name

def ofPath? (path : Path) : Option Program := do
  let stem ← Utf8.decode? (← path.stem?)
  all.find? fun program => program.name = stem

def isTower : Program → Bool
  | .tower _ => true
  | _ => false

end Program
end BankedRing
