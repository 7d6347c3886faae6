/-! Texts in UTF-8. Bytes need not be a text: they are read one by one, and a sequence
that breaks off, with the bytes that it has come to, is one character that is missing. -/
namespace BankedRing.Utf8

def encode (text : String) : List UInt8 := text.toList.flatMap String.utf8EncodeChar

/-- A sequence up to some byte: its bits so far, how many bytes it lacks, and the bounds
of the next one. -/
structure Begun where
  bits : Nat
  lacking : Nat
  least : Nat
  greatest : Nat
  deriving DecidableEq

/-- What a byte begins. Second bytes are bounded so that no character has two encodings,
and surrogates and what lies behind the last code point have none. -/
def lead? (byte : Nat) : Option Begun :=
  if byte ≤ 0x7F then some ⟨byte, 0, 0x80, 0xBF⟩
  else if 0xC2 ≤ byte ∧ byte ≤ 0xDF then some ⟨byte % 32, 1, 0x80, 0xBF⟩
  else if 0xE0 ≤ byte ∧ byte ≤ 0xEF then
    some ⟨byte % 16, 2, if byte = 0xE0 then 0xA0 else 0x80, if byte = 0xED then 0x9F else 0xBF⟩
  else if 0xF0 ≤ byte ∧ byte ≤ 0xF4 then
    some ⟨byte % 8, 3, if byte = 0xF0 then 0x90 else 0x80, if byte = 0xF4 then 0x8F else 0xBF⟩
  else none

/-- The character of a sequence that lacks nothing, or what is still to come. -/
def Begun.settle (begun : Begun) : List (Option Char) × Option Begun :=
  if begun.lacking = 0 then ([some (Char.ofNat begun.bits)], none) else ([], some begun)

def start (byte : Nat) : List (Option Char) × Option Begun :=
  match lead? byte with
  | none => ([none], none)
  | some begun => begun.settle

/-- A byte that does not go on with a sequence breaks it off and begins the next one. -/
def step : Option Begun → Nat → List (Option Char) × Option Begun
  | none, byte => start byte
  | some begun, byte =>
    if begun.least ≤ byte ∧ byte ≤ begun.greatest then
      Begun.settle ⟨begun.bits * 64 + byte % 64, begun.lacking - 1, 0x80, 0xBF⟩
    else
      let (read, next) := start byte
      (none :: read, next)

def read : Option Begun → List UInt8 → List (Option Char)
  | none, [] => []
  | some _, [] => [none]
  | state, byte :: rest =>
    let (characters, next) := step state byte.toNat
    characters ++ read next rest

/-- The text that bytes are the encoding of, if they are one. -/
def decode? (bytes : List UInt8) : Option String :=
  ((read none bytes).mapM id).map String.ofList

/-- The characters of bytes, with a mark for each that is missing. -/
def lossy (bytes : List UInt8) : String :=
  String.ofList ((read none bytes).map (·.getD '\ufffd'))

end BankedRing.Utf8
