import BankedRing.Device.Fault

/-! The scratch heap of one unit: a bump allocator that is only ever reset as a whole.
A refused reservation takes nothing. -/
namespace BankedRing

structure Scratch where
  capacity : Nat
  used : Nat
  deriving DecidableEq

namespace Scratch

def empty (capacity : Nat) : Scratch := ⟨capacity, 0⟩

def reset (scratch : Scratch) : Scratch := { scratch with used := 0 }

/-- The offset of the reserved bytes. The end of a reservation has to fit a word. -/
def reserve (scratch : Scratch) (bytes : Nat) : Except Fault (Nat × Scratch) :=
  if UInt64.size ≤ scratch.used + bytes then .error (.trapped .overflow)
  else if scratch.used + bytes ≤ scratch.capacity then
    .ok (scratch.used, { scratch with used := scratch.used + bytes })
  else
    .error (.heapExhausted bytes (scratch.capacity - scratch.used))

/-- Reserves several caches of one size; those granted before a refusal stay granted. -/
def reserveCaches (bytes : Nat) : (count : Nat) → Scratch → Scratch × Option Fault
  | 0, scratch => (scratch, none)
  | count + 1, scratch =>
    match scratch.reserve bytes with
    | .ok (_, scratch) => reserveCaches bytes count scratch
    | .error fault => (scratch, some fault)

end Scratch
end BankedRing
