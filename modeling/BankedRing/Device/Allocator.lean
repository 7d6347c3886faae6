import BankedRing.Error

/-! The block allocator of one unit's bank. Occupancy is kept per block, ownership per
live address; an allocation takes the first run of free blocks that is long enough and
nothing is ever moved. Addresses are cut to 32 bits, and a record at an address that
is live already replaces the older one. Sizes are rounded up to blocks in machine words. -/
namespace BankedRing

structure Allocator where
  unit : Nat
  blockBytes : Nat
  used : List Bool
  records : List (UInt32 × Nat)
  deriving DecidableEq

namespace Allocator

/-- A block has at least one byte. -/
def ofGeometry (unit capacity blockBytes : Nat) : Allocator :=
  let blockBytes := max blockBytes 1
  ⟨unit, blockBytes, List.replicate (capacity / blockBytes) false, []⟩

/-- The allocator of a geometry that the host can keep a flag per block for. -/
def create (unit capacity blockBytes : Nat) : Checked Allocator := do
  Checked.buffer (capacity / max blockBytes 1)
  return ofGeometry unit capacity blockBytes

def standardBlockBytes : Nat := 4096

/-- A bank of 64 MiB in blocks of 4 KiB. -/
def standard (unit : Nat) : Allocator := ofGeometry unit 67108864 standardBlockBytes

def capacity (memory : Allocator) : Nat := memory.used.length * memory.blockBytes

def freeBytes (memory : Allocator) : Nat := memory.used.count false * memory.blockBytes

/-- The lowest start of `needed` free blocks in a row. `run` counts the free blocks that
end right before `index`. -/
def firstFit (needed : Nat) : (index run : Nat) → List Bool → Option Nat
  | _, _, [] => none
  | index, _, true :: rest => firstFit needed (index + 1) 0 rest
  | index, run, false :: rest =>
    if run + 1 = needed then some (index + 1 - needed)
    else firstFit needed (index + 1) (run + 1) rest

/-- Sets the occupancy of a run of blocks. -/
def mark (value : Bool) (first count : Nat) (used : List Bool) : List Bool :=
  used.take first ++ List.replicate count value ++ used.drop (first + count)

/-- Keeps the records in address order. -/
def record (address : UInt32) (blocks : Nat) : List (UInt32 × Nat) → List (UInt32 × Nat)
  | [] => [(address, blocks)]
  | (other, owned) :: rest =>
    if address < other then (address, blocks) :: (other, owned) :: rest
    else if address = other then (address, blocks) :: rest
    else (other, owned) :: record address blocks rest

/-- Blocks that hold `size` bytes; even an empty request takes one. -/
def blocksFor (memory : Allocator) (size : Nat) : Nat :=
  max ((size + memory.blockBytes - 1) / memory.blockBytes) 1

def allocate (memory : Allocator) (size : Nat) : Except Error (UInt32 × Allocator) :=
  if UInt64.size ≤ size + memory.blockBytes then .error (.trapped .overflow)
  else
    let needed := memory.blocksFor size
    match firstFit needed 0 0 memory.used with
    | none => .error (.memoryExhausted memory.unit size)
    | some first =>
      let address := UInt32.ofNat (first * memory.blockBytes)
      .ok (address, { memory with
        used := mark true first needed memory.used
        records := record address needed memory.records })

/-- Frees exactly the blocks that the address owns. -/
def deallocate (memory : Allocator) (address : UInt32) : Except Error Allocator :=
  match memory.records.lookup address with
  | none => .error (.invalidDeallocation memory.unit address)
  | some count =>
    let first := address.toNat / memory.blockBytes
    if first + count ≤ memory.used.length then
      .ok { memory with
        used := mark false first count memory.used
        records := memory.records.filter fun (other, _) => other ≠ address }
    else .error (.trapped .outOfRange)

/-- Whether no used block touches a byte range. -/
def isRangeFree (memory : Allocator) (start length : Nat) : Bool :=
  if length = 0 then true
  else
    let first := start / memory.blockBytes
    let last := (start + length - 1) / memory.blockBytes
    ((memory.used.drop first).take (last + 1 - first)).all (!·)

/-- Live addresses with the bytes they own, in address order. -/
def live (memory : Allocator) : List (UInt32 × Nat) :=
  memory.records.map fun (address, blocks) => (address, blocks * memory.blockBytes)

def status (memory : Allocator) : String :=
  let used := memory.used.count true
  let total := memory.used.length
  let lines := memory.live.map fun (address, bytes) =>
    "  " ++ Numeral.address address.toNat ++ s!" +{bytes}\n"
  s!"unit {memory.unit}: {used}/{total} blocks in use ({memory.freeBytes} bytes free)\n" ++
    String.join lines

end Allocator
end BankedRing
