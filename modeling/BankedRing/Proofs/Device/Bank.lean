import BankedRing.Device.Bank
import BankedRing.Proofs.Outcome
import BankedRing.Proofs.Slices

/-! Accesses to a bank. An access goes through exactly when it is aligned and ends inside
the capacity; it then reads the words of its region or overwrites them, and leaves every
other word as it was. -/
namespace BankedRing

/-- Faults that the host learns of as such, and not by a trap of its own. -/
def Fault.Reported (fault : Fault) : Prop := ∀ trap, fault ≠ .trapped trap

namespace Bank

/-- Capacities that the host can reach through 32-bit addresses. -/
def addressable : Nat := 4294967296

/-- An access that the bank grants. -/
def Grants (bank : Bank) (offset length : Nat) : Prop :=
  offset % 8 = 0 ∧ length % 8 = 0 ∧ offset + length ≤ bank.capacity

/-- A bank with words put over the front of a region. -/
def put (bank : Bank) (index : Nat) (words : List Word) : Bank :=
  (bank.growTo (index + words.length)).store index words

section Words
variable {bank : Bank}

@[simp] theorem capacity_growTo (bank : Bank) (size : Nat) :
    (bank.growTo size).capacity = bank.capacity := rfl

@[simp] theorem capacity_store (bank : Bank) (index : Nat) (words : List Word) :
    (bank.store index words).capacity = bank.capacity := by
  induction words generalizing bank index with
  | nil => rfl
  | cons w rest ih => rw [store, ih]

@[simp] theorem capacity_put (bank : Bank) (index : Nat) (words : List Word) :
    (bank.put index words).capacity = bank.capacity := by
  rw [put, capacity_store, capacity_growTo]

theorem wordAt_put (bank : Bank) (index : Nat) (words : List Word) (position : Nat) :
    (bank.put index words).wordAt position =
      if index ≤ position ∧ position < index + words.length then words.getD (position - index) 0
      else bank.wordAt position := by
  rw [put, wordAt_store (by rw [size_growTo]; omega), wordAt_growTo]

@[simp] theorem length_wordsAt (bank : Bank) (offset length : Nat) :
    (bank.wordsAt offset length).length = length / 8 := by
  rw [wordsAt, List.length_map, List.length_range]

theorem getD_wordsAt (bank : Bank) (offset : Nat) {length index : Nat} (h : index < length / 8) :
    (bank.wordsAt offset length).getD index 0 = bank.wordAt (offset / 8 + index) := by
  simp [wordsAt, h]

theorem wordsAt_eq {offset length : Nat} {words : List Word} (size : words.length = length / 8)
    (same : ∀ i, i < words.length → bank.wordAt (offset / 8 + i) = words.getD i 0) :
    bank.wordsAt offset length = words := by
  apply List.ext_getElem
  · rw [length_wordsAt, size]
  · intro i _ inside
    simp only [wordsAt, List.getElem_map, List.getElem_range]
    rw [same i inside, List.getD_eq_getElem?_getD, List.getElem?_eq_getElem inside,
      Option.getD_some]

/-- A bank is its capacity, what is materialised of it, and its words. -/
theorem eq_of_wordAt {other : Bank} (capacity : other.capacity = bank.capacity)
    (size : other.words.size = bank.words.size) (same : ∀ i, other.wordAt i = bank.wordAt i) :
    other = bank := by
  obtain ⟨_, words⟩ := bank
  obtain ⟨_, others⟩ := other
  cases capacity
  congr 1
  apply Array.ext size
  intro i inside outside
  have word := same i
  simp only [wordAt, Array.getD_eq_getD_getElem?, Array.getElem?_eq_getElem inside,
    Array.getElem?_eq_getElem outside, Option.getD_some] at word
  exact word

/-- One region of a bank has received words, and nothing else has changed. -/
structure Replaced (before : Bank) (index : Nat) (words : List Word) (after : Bank) : Prop where
  inside : ∀ i, i < words.length → after.wordAt (index + i) = words.getD i 0
  outside : ∀ i, i < index ∨ index + words.length ≤ i → after.wordAt i = before.wordAt i

theorem replaced_put (bank : Bank) (index : Nat) (words : List Word) :
    bank.Replaced index words (bank.put index words) := by
  constructor
  · intro i inside
    rw [wordAt_put, if_pos (by omega), Nat.add_sub_cancel_left]
  · intro i outside
    rw [wordAt_put, if_neg (by omega)]

namespace Replaced
variable {after : Bank} {offset length index : Nat} {words : List Word}

theorem wordsAt (h : bank.Replaced (offset / 8) words after) (size : words.length = length / 8) :
    after.wordsAt offset length = words :=
  wordsAt_eq size h.inside

theorem wordsAt_of_disjoint (h : bank.Replaced index words after)
    (apart : offset / 8 + length / 8 ≤ index ∨ index + words.length ≤ offset / 8) :
    after.wordsAt offset length = bank.wordsAt offset length := by
  apply wordsAt_eq (by rw [length_wordsAt])
  intro i inside
  rw [length_wordsAt] at inside
  rw [h.outside _ (by omega), getD_wordsAt bank offset inside]

end Replaced

end Words

section Access
variable {bank : Bank} {offset length : Nat}

theorem check_eq_ok_iff : bank.check offset length = .ok () ↔ bank.Grants offset length := by
  unfold check Grants
  split
  · simp only [reduceCtorEq, false_iff]
    omega
  · split
    · simp only [reduceCtorEq, false_iff]
      omega
    · simp only [true_iff]
      omega

theorem check_reported {fault : Fault} (h : bank.check offset length = .error fault) :
    fault.Reported := by
  unfold check at h
  split at h
  · cases h
    nofun
  · split at h
    · cases h
      nofun
    · cases h

theorem readWords_of_grants (h : bank.Grants offset length) (room : length < 9223372036854775808) :
    bank.readWords offset length = .ok (bank.wordsAt offset length) := by
  rw [readWords, check_eq_ok_iff.mpr h, ok_bind, Checked.buffer_eq_ok room]
  rfl

theorem reserve_of_grants (h : bank.Grants offset length)
    (room : offset + length < 9223372036854775808) :
    bank.reserve offset length = .ok (bank.growTo ((offset + length) / 8)) := by
  rw [reserve, check_eq_ok_iff.mpr h, ok_bind, Checked.buffer_eq_ok room]
  rfl

theorem readWords_eq_ok_iff {words : List Word} :
    bank.readWords offset length = .ok words ↔
      (bank.Grants offset length ∧ length < 9223372036854775808) ∧
      words = bank.wordsAt offset length := by
  constructor
  · intro h
    obtain ⟨_, checked, h⟩ := bind_eq_ok.mp h
    obtain ⟨_, room, h⟩ := bind_eq_ok.mp h
    cases h
    exact ⟨⟨check_eq_ok_iff.mp checked, Checked.buffer_eq_ok_iff.mp (lift_eq_ok room)⟩, rfl⟩
  · rintro ⟨⟨grants, room⟩, rfl⟩
    exact readWords_of_grants grants room

theorem reserve_eq_ok_iff {after : Bank} :
    bank.reserve offset length = .ok after ↔
      (bank.Grants offset length ∧ offset + length < 9223372036854775808) ∧
        after = bank.growTo ((offset + length) / 8) := by
  constructor
  · intro h
    obtain ⟨_, checked, h⟩ := bind_eq_ok.mp h
    obtain ⟨_, room, h⟩ := bind_eq_ok.mp h
    cases h
    exact ⟨⟨check_eq_ok_iff.mp checked, Checked.buffer_eq_ok_iff.mp (lift_eq_ok room)⟩, rfl⟩
  · rintro ⟨⟨grants, room⟩, rfl⟩
    exact reserve_of_grants grants room

variable (small : bank.capacity < addressable)
include small

theorem room_of_grants (h : bank.Grants offset length) : offset + length < 9223372036854775808 := by
  have bound := h.2.2
  unfold addressable at small
  omega

theorem readWords_eq_ok (h : bank.Grants offset length) :
    bank.readWords offset length = .ok (bank.wordsAt offset length) :=
  readWords_of_grants h (Nat.lt_of_le_of_lt (Nat.le_add_left _ _) (room_of_grants small h))

theorem read_eq_ok (h : bank.Grants offset length) :
    bank.read offset length = .ok (Bytes.ofWords (bank.wordsAt offset length)) := by
  rw [read, readWords_eq_ok small h]
  rfl

theorem reserve_eq_ok (h : bank.Grants offset length) :
    bank.reserve offset length = .ok (bank.growTo ((offset + length) / 8)) :=
  reserve_of_grants h (room_of_grants small h)

theorem write_eq_ok {words : List Word} (h : bank.Grants offset (8 * words.length)) :
    bank.write offset (Bytes.ofWords words) = .ok (bank.put (offset / 8) words) := by
  have size : (offset + 8 * words.length) / 8 = offset / 8 + words.length := by omega
  rw [write, Bytes.length_ofWords, reserve_eq_ok small h, ok_bind, Bytes.toWords_ofWords, size]
  rfl

end Access

section Refusal
variable {bank : Bank} {offset length : Nat}

theorem words_of_readWords {words : List Word} (h : bank.readWords offset length = .ok words) :
    words = bank.wordsAt offset length :=
  (readWords_eq_ok_iff.mp h).2

theorem grants_of_reserve {after : Bank} (h : bank.reserve offset length = .ok after) :
    bank.Grants offset length :=
  (reserve_eq_ok_iff.mp h).1.1

theorem grants_of_write {data : List UInt8} {after : Bank}
    (h : bank.write offset data = .ok after) :
    bank.Grants offset data.length := by
  obtain ⟨_, reserved, _⟩ := bind_eq_ok.mp h
  exact grants_of_reserve reserved

theorem capacity_of_reserve {after : Bank} (h : bank.reserve offset length = .ok after) :
    after.capacity = bank.capacity := by
  obtain ⟨_, rfl⟩ := reserve_eq_ok_iff.mp h
  rfl

theorem capacity_of_write {data : List UInt8} {after : Bank}
    (h : bank.write offset data = .ok after) :
    after.capacity = bank.capacity := by
  obtain ⟨reserved, ready, h⟩ := bind_eq_ok.mp h
  cases h
  rw [capacity_store, capacity_of_reserve ready]

variable (small : bank.capacity < addressable)
include small

theorem readWords_reported {fault : Fault} (h : bank.readWords offset length = .error fault) :
    fault.Reported := by
  cases checked : bank.check offset length with
  | ok _ =>
    rw [readWords_eq_ok small (check_eq_ok_iff.mp checked)] at h
    cases h
  | error refusal =>
    rw [readWords, checked] at h
    cases h
    exact check_reported checked

theorem reserve_reported {fault : Fault} (h : bank.reserve offset length = .error fault) :
    fault.Reported := by
  cases checked : bank.check offset length with
  | ok _ =>
    rw [reserve_eq_ok small (check_eq_ok_iff.mp checked)] at h
    cases h
  | error refusal =>
    rw [reserve, checked] at h
    cases h
    exact check_reported checked

theorem read_reported {fault : Fault} (h : bank.read offset length = .error fault) :
    fault.Reported := by
  rcases bind_eq_error.mp h with failed | ⟨_, _, finished⟩
  · exact readWords_reported small failed
  · cases finished

theorem write_reported {data : List UInt8} {fault : Fault}
    (h : bank.write offset data = .error fault) :
    fault.Reported := by
  rcases bind_eq_error.mp h with failed | ⟨_, _, finished⟩
  · exact reserve_reported small failed
  · cases finished

end Refusal
end Bank
end BankedRing
