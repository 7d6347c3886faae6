/-! Numerals: decimal sizes as settings spell them, and hexadecimal addresses. -/
namespace BankedRing.Numeral

/-- The digits read so far extended by one more; only ASCII digits count. -/
def readDigits : List Char → Nat → Option Nat
  | [], value => some value
  | c :: rest, value =>
    if c.isDigit then readDigits rest (10 * value + (c.toNat - '0'.toNat)) else none

/-- A size: an optional plus sign and at least one digit, below the word radix. -/
def size? (text : List Char) : Option Nat :=
  let digits := match text with
    | '+' :: rest => rest
    | _ => text
  if digits.isEmpty then none
  else (readDigits digits 0).filter (· < UInt64.size)

def hexadecimal (n : Nat) : String := String.ofList (Nat.toDigits 16 n)

/-- Eight hexadecimal digits at least, behind the base mark. -/
def address (n : Nat) : String :=
  let digits := Nat.toDigits 16 n
  "0x" ++ String.ofList (List.replicate (8 - digits.length) '0' ++ digits)

end BankedRing.Numeral
