import BankedRing.Chunks
import BankedRing.Device.Bank
import BankedRing.Device.Scratch
import BankedRing.Settings

/-! Streaming a region of a bank through tasklet caches. The region is cut into chunks
of one cache, and chunk `k` belongs to tasklet `k % tasklets`. Sources are read before
any result is written, so regions may overlap in any way. Tasklet 0 prepares the
kernel; then every tasklet reserves its caches and walks its chunks. The first
fault in tasklet order is the outcome, and it does not stop the other tasklets. -/
namespace BankedRing

/-- What is computed on one chunk of the operands; the second is empty when there is
only one. -/
abbrev Kernel := (a b : List Word) → Checked (List Word)

/-- The byte regions of one streamed launch. Without a destination the result goes over
operand `a`. -/
structure Region where
  a : Nat
  b : Option Nat
  length : Nat
  destination : Option Nat
  deriving DecidableEq

namespace Stream

def target (region : Region) : Nat := region.destination.getD region.a

/-- Reads the sources and materialises the destination. An operand that is overwritten
is reached as the destination, hence after the second operand. -/
def openRegion (region : Region) : EStateM Fault Bank (List Word × List Word) := do
  let bank ← get
  if region.destination.isSome then
    let _ ← bank.readWords region.a region.length
  let b ← match region.b with
    | some offset => bank.readWords offset region.length
    | none => pure []
  set (← bank.reserve (target region) region.length)
  return (bank.wordsAt region.a region.length, b)

/-- What the tasklets of one launch share. -/
structure Launch where
  kernel : Kernel
  destination : Nat
  cacheWords : Nat
  tasklets : Nat
  caches : Nat
  pieces : List (List Word × List Word)

namespace Launch

/-- The chunks of one tasklet with their positions. -/
def assigned (launch : Launch) (tasklet : Nat) : List (Nat × List Word × List Word) :=
  (launch.pieces.zipIdx.map fun (piece, k) => (k, piece)).filter
    fun (k, _) => k % launch.tasklets = tasklet

/-- Walks chunks until one of them traps; a chunk that traps is not written. -/
def walk (launch : Launch) : List (Nat × List Word × List Word) → Bank → Bank × Option Trap
  | [], bank => (bank, none)
  | (k, a, b) :: rest, bank =>
    match launch.kernel a b with
    | .ok result =>
      walk launch rest (bank.store (launch.destination / 8 + k * launch.cacheWords) result)
    | .error trap => (bank, some trap)

/-- What a tasklet reports when its reservations fail. -/
def reservationFault (tasklet : Nat) : Fault → Fault
  | .trapped _ => .taskletTrapped tasklet
  | fault => fault

/-- One tasklet from its reservations to its last chunk. -/
def runTasklet (launch : Launch) (tasklet : Nat) (state : Scratch × Bank) :
    (Scratch × Bank) × Option Fault :=
  match Scratch.reserveCaches (8 * launch.cacheWords) launch.caches state.1 with
  | (scratch, some fault) => ((scratch, state.2), some (reservationFault tasklet fault))
  | (scratch, none) =>
    let (bank, trap) := launch.walk (launch.assigned tasklet) state.2
    ((scratch, bank), trap.map fun _ => .taskletTrapped tasklet)

/-- Tasklets one after the other, with the first fault as the outcome. -/
def runTasklets (launch : Launch) : List Nat → Scratch × Bank → (Scratch × Bank) × Option Fault
  | [], state => (state, none)
  | tasklet :: rest, state =>
    let (state, fault) := launch.runTasklet tasklet state
    let (state, later) := runTasklets launch rest state
    (state, fault.or later)

end Launch

/-- Bytes of the host's record of one tasklet. -/
def taskletFootprint : Nat := 24

/-- A launch over one region. The bank stays grown when a later check fails. -/
def run (scratch : Scratch) (shape : Shape) (region : Region) (prepare : Except Fault Kernel) :
    EStateM Fault Bank Unit := do
  if shape.cacheBytes = 0 ∨ shape.cacheBytes % 8 ≠ 0 then
    throw (.misaligned 0 shape.cacheBytes)
  let (a, b) ← openRegion region
  let tasklets := max shape.tasklets 1
  Checked.buffer (taskletFootprint * tasklets)
  let kernel ← prepare
  let pieces := chunks shape.cacheWords a
  let seconds := if region.b.isSome then chunks shape.cacheWords b else pieces.map fun _ => []
  let launch : Launch := {
    kernel, tasklets
    destination := target region
    cacheWords := shape.cacheWords
    caches := if region.b.isSome then 3 else 2
    pieces := pieces.zip seconds }
  let ((_, bank), fault) := launch.runTasklets (List.range tasklets) (scratch.reset, ← get)
  set bank
  if let some fault := fault then throw fault

end Stream
end BankedRing
