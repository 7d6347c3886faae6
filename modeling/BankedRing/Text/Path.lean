import BankedRing.Text.Fields
import BankedRing.Text.Utf8

/-! File paths with a slash between components. Empty components and single dots stand
for nothing, so a trailing slash is not part of a name. Paths are bytes; a path in a
message is as much of a text as can be read. -/
namespace BankedRing

structure Path where
  bytes : List UInt8
  deriving DecidableEq, Repr

namespace Path

def ofString (text : String) : Path := ⟨Utf8.encode text⟩

instance : Coe String Path := ⟨ofString⟩

def display (path : Path) : String := Utf8.lossy path.bytes

def slash : UInt8 := 0x2F

def dot : UInt8 := 0x2E

/-- The path of a relative name inside a directory. -/
def join (directory : Path) (name : String) : Path :=
  let separator := match directory.bytes.getLast? with
    | none => []
    | some last => if last = slash then [] else [slash]
  ⟨directory.bytes ++ separator ++ Utf8.encode name⟩

/-- The last component, unless it steps up to a parent directory. -/
def fileName? (path : Path) : Option (List UInt8) :=
  let components := Fields.split slash path.bytes
  match components.reverse.find? fun c => c ≠ [] ∧ c ≠ [dot] with
  | some name => if name = [dot, dot] then none else some name
  | none => none

/-- The file name without its extension; a leading dot begins no extension. -/
def stem? (path : Path) : Option (List UInt8) :=
  path.fileName?.map fun name =>
    match Fields.cutLast dot name with
    | some ([], _) | none => name
    | some (stem, _) => stem

end Path
end BankedRing
