import BankedRing.Device.Bytes
import BankedRing.Device.Fault

/-! The memory bank of one unit. A bank is a zeroed array of `capacity` bytes, reached
in whole words only and materialised up to the highest address that was written or
reserved. `wordAt` is the view that every access is measured against. -/
namespace BankedRing

structure Bank where
  capacity : Nat
  words : Array Word
  deriving DecidableEq

namespace Bank

def empty (capacity : Nat) : Bank := ⟨capacity, #[]⟩

def residentBytes (bank : Bank) : Nat := 8 * bank.words.size

/-- The word at a word index; what was never written is zero. -/
def wordAt (bank : Bank) (index : Nat) : Word := bank.words.getD index 0

/-- An access covers whole words and ends inside the capacity. -/
def check (bank : Bank) (offset length : Nat) : Except Fault Unit :=
  if offset % 8 ≠ 0 ∨ length % 8 ≠ 0 then .error (.misaligned offset length)
  else if bank.capacity < offset + length then
    .error (.outOfBounds offset length bank.capacity)
  else .ok ()

/-- Materialises the bank up to a word index. -/
def growTo (bank : Bank) (size : Nat) : Bank :=
  { bank with words := bank.words ++ Array.replicate (size - bank.words.size) 0 }

/-- Overwrites materialised words, one after the other. -/
def store (bank : Bank) (index : Nat) : List Word → Bank
  | [] => bank
  | w :: rest => { bank with words := bank.words.setIfInBounds index w }.store (index + 1) rest

/-- The words of an access, in address order. -/
def wordsAt (bank : Bank) (offset length : Nat) : List Word :=
  (List.range (length / 8)).map fun i => bank.wordAt (offset / 8 + i)

/-- Reading never materialises anything. -/
def readWords (bank : Bank) (offset length : Nat) : Except Fault (List Word) := do
  bank.check offset length
  Checked.buffer length
  return bank.wordsAt offset length

def read (bank : Bank) (offset length : Nat) : Except Fault (List UInt8) := do
  return Bytes.ofWords (← bank.readWords offset length)

/-- Materialises a region that is about to be overwritten, with all that lies before it. -/
def reserve (bank : Bank) (offset length : Nat) : Except Fault Bank := do
  bank.check offset length
  Checked.buffer (offset + length)
  return bank.growTo ((offset + length) / 8)

def write (bank : Bank) (offset : Nat) (data : List UInt8) : Except Fault Bank := do
  let bank ← bank.reserve offset data.length
  return bank.store (offset / 8) (Bytes.toWords data)

/-- Puts bytes over the front of a region and returns what the region held before.
Bytes beyond the region's length are dropped. -/
def overlay (bank : Bank) (offset length : Nat) (data : List UInt8) :
    Except Fault (List UInt8 × Bank) := do
  let reserved ← bank.reserve offset length
  let old := Bytes.ofWords (reserved.wordsAt offset length)
  let new := (data ++ old.drop data.length).take length
  return (old, reserved.store (offset / 8) (Bytes.toWords new))

@[simp] theorem wordAt_growTo (bank : Bank) (size index : Nat) :
    (bank.growTo size).wordAt index = bank.wordAt index := by
  simp only [wordAt, growTo, Array.getD_eq_getD_getElem?, Array.getElem?_append]
  split
  · rfl
  · rename_i outside
    rw [Array.getElem?_eq_none (by omega : bank.words.size ≤ index), Array.getElem?_replicate]
    split <;> rfl

theorem size_growTo (bank : Bank) (size : Nat) :
    (bank.growTo size).words.size = max bank.words.size size := by
  simp [growTo]; omega

@[simp] theorem size_store (bank : Bank) (index : Nat) (words : List Word) :
    (bank.store index words).words.size = bank.words.size := by
  induction words generalizing bank index with
  | nil => rfl
  | cons w rest ih => simp [store, ih]

theorem wordAt_setIfInBounds {words : Array Word} {start : Nat} (inside : start < words.size)
    (capacity index : Nat) (w : Word) :
    (Bank.mk capacity (words.setIfInBounds start w)).wordAt index =
      if index = start then w else (Bank.mk capacity words).wordAt index := by
  simp only [wordAt, Array.getD_eq_getD_getElem?, Array.getElem?_setIfInBounds]
  by_cases same : start = index
  · subst same
    simp [inside]
  · simp [same, Ne.symm same]

/-- Inside the materialised part a store is exact, and it touches nothing else. -/
theorem wordAt_store {bank : Bank} {start : Nat} {words : List Word}
    (fits : start + words.length ≤ bank.words.size) (index : Nat) :
    (bank.store start words).wordAt index =
      if start ≤ index ∧ index < start + words.length then words.getD (index - start) 0
      else bank.wordAt index := by
  induction words generalizing bank start with
  | nil =>
    have : ¬ (start ≤ index ∧ index < start + ([] : List Word).length) := by
      simp only [List.length_nil]; omega
    rw [if_neg this, store]
  | cons w rest ih =>
    simp only [List.length_cons] at fits ⊢
    rw [store, ih (by rw [Array.size_setIfInBounds]; omega), wordAt_setIfInBounds (by omega)]
    by_cases first : index = start
    · subst first
      rw [if_neg (by omega), if_pos rfl, if_pos (by omega), Nat.sub_self, List.getD_cons_zero]
    · by_cases inside : start ≤ index ∧ index < start + (rest.length + 1)
      · have shift : index - start = index - (start + 1) + 1 := by omega
        rw [if_pos (by omega), if_pos inside, shift, List.getD_cons_succ]
      · rw [if_neg (by omega), if_neg first, if_neg inside]

end Bank
end BankedRing
