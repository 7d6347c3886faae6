import BankedRing.Word.Checked

/-! Little-endian byte strings, the form in which numbers cross between host and unit.
A number takes a fixed width; a list of words takes eight bytes each. A `Reader`
consumes a byte string from the front and fails where the string ends too early. -/
namespace BankedRing.Bytes

/-- The low `width` bytes of a number, least significant first. -/
def ofNat : (width : Nat) → Nat → List UInt8
  | 0, _ => []
  | width + 1, n => UInt8.ofNat (n % 256) :: ofNat width (n / 256)

def toNat : List UInt8 → Nat
  | [] => 0
  | byte :: rest => byte.toNat + 256 * toNat rest

def ofWord (w : Word) : List UInt8 := ofNat 8 w.toNat

def toWord (bytes : List UInt8) : Word := UInt64.ofNat (toNat bytes)

def ofWords (words : List Word) : List UInt8 := words.flatMap ofWord

/-- The whole words at the front; a rest shorter than a word is dropped. -/
def toWords : List UInt8 → List Word
  | a :: b :: c :: d :: e :: f :: g :: h :: rest => toWord [a, b, c, d, e, f, g, h] :: toWords rest
  | _ => []

abbrev Reader := StateT (List UInt8) Option

/-- The next number of a fixed width. -/
def number (width : Nat) : Reader Nat := fun bytes =>
  if width ≤ bytes.length then some (toNat (bytes.take width), bytes.drop width) else none

def word : Reader Word := do return UInt64.ofNat (← number 8)

def halfWord : Reader UInt32 := do return UInt32.ofNat (← number 4)

@[simp] theorem length_ofNat (width n : Nat) : (ofNat width n).length = width := by
  induction width generalizing n with
  | zero => rfl
  | succ width ih => simp [ofNat, ih]

@[simp] theorem length_ofWord (w : Word) : (ofWord w).length = 8 := length_ofNat 8 _

theorem length_ofWords (words : List Word) : (ofWords words).length = 8 * words.length := by
  induction words with
  | nil => rfl
  | cons w rest ih => simp [ofWords] at ih ⊢; omega

theorem toNat_lt (bytes : List UInt8) : toNat bytes < 1 <<< (8 * bytes.length) := by
  induction bytes with
  | nil => decide
  | cons byte rest ih =>
    have := byte.toNat_lt
    simp only [toNat, List.length_cons, Nat.shiftLeft_eq, Nat.mul_add, Nat.pow_add] at ih ⊢
    omega

theorem toNat_ofNat (width n : Nat) : toNat (ofNat width n) = n % (1 <<< (8 * width)) := by
  induction width generalizing n with
  | zero => simp [ofNat, toNat, Nat.mod_one]
  | succ width ih =>
    have byte : (UInt8.ofNat (n % 256)).toNat = n % 256 := by
      simp [UInt8.toNat_ofNat']
    rw [ofNat, toNat, ih, byte]
    have split : 1 <<< (8 * (width + 1)) = 256 * (1 <<< (8 * width)) := by
      rw [Nat.shiftLeft_eq, Nat.shiftLeft_eq, Nat.mul_add, Nat.pow_add]
      omega
    rw [split, Nat.mod_mul]

theorem toWord_ofWord (w : Word) : toWord (ofWord w) = w := by
  have small : w.toNat < 1 <<< (8 * 8) := w.toNat_lt
  rw [toWord, ofWord, toNat_ofNat, Nat.mod_eq_of_lt small, UInt64.ofNat_toNat]

theorem toWords_ofWord_append (w : Word) (rest : List UInt8) :
    toWords (ofWord w ++ rest) = w :: toWords rest := by
  have shape : toWords (ofWord w ++ rest) = toWord (ofWord w) :: toWords rest := rfl
  rw [shape, toWord_ofWord]

theorem toWords_ofWords (words : List Word) : toWords (ofWords words) = words := by
  induction words with
  | nil => rfl
  | cons w rest ih => rw [ofWords, List.flatMap_cons, toWords_ofWord_append, ← ofWords, ih]

end BankedRing.Bytes
