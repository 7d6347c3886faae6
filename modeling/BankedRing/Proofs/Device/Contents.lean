import BankedRing.Proofs.Device.Bank
import BankedRing.Proofs.Device.Format

/-! The contents of a bank. It is materialised in words, and no further than its accesses need;
what an access can tell of it is an array of bytes of a fixed capacity, zeroed at first. Every
call overwrites the bytes that it brings and no others, so that a run of calls leaves at each
address what the last of them brought there. -/
namespace BankedRing

namespace Bytes
variable {data : List UInt8}

theorem getElem?_ofWords (words : List Word) {k : Nat} (inside : k / 8 < words.length) :
    (ofWords words)[k]? = some ((ofWord (words.getD (k / 8) 0)).getD (k % 8) 0) := by
  have byte : k % 8 < (ofWord words[k / 8]).length := by
    rw [length_ofWord]
    exact Nat.mod_lt k (by decide)
  have found : (words.flatMap ofWord)[k]? = (words[k / 8]?).bind fun w => (ofWord w)[k % 8]? :=
    getElem?_flatMap (by decide) (fun w _ => length_ofWord w) k
  rw [List.getElem?_eq_getElem inside, Option.bind_some, List.getElem?_eq_getElem byte] at found
  simp only [ofWords, found, List.getD_eq_getElem?_getD, List.getElem?_eq_getElem inside,
    List.getElem?_eq_getElem byte, Option.getD_some]

theorem ofWords_toWords_whole (whole : data.length % 8 = 0) : ofWords (toWords data) = data := by
  have all : data.length / 8 * 8 = data.length := by omega
  rw [ofWords_toWords, all, List.take_length]

theorem length_toWords_whole (whole : data.length % 8 = 0) :
    8 * (toWords data).length = data.length := by
  rw [← length_ofWords, ofWords_toWords_whole whole]

end Bytes

namespace Bank

section Bytes
variable {offset length : Nat} {data : List UInt8}

/-- The byte at an address. -/
def byteAt (bank : Bank) (address : Nat) : UInt8 :=
  (Bytes.ofWord (bank.wordAt (address / 8))).getD (address % 8) 0

/-- The bytes of a region, in address order. -/
def bytesAt (bank : Bank) (offset length : Nat) : List UInt8 :=
  (List.range length).map fun i => bank.byteAt (offset + i)

/-- The byte that comes to an address where bytes are placed from an offset on, if one does. -/
def placed (offset : Nat) (data : List UInt8) (address : Nat) : Option UInt8 :=
  if offset ≤ address then data[address - offset]? else none

theorem ofWords_wordsAt (bank : Bank) (aligned : offset % 8 = 0) (whole : length % 8 = 0) :
    Bytes.ofWords (bank.wordsAt offset length) = bank.bytesAt offset length := by
  apply List.ext_getElem?
  intro k
  rcases Nat.lt_or_ge k length with inside | outside
  · have word : offset / 8 + k / 8 = (offset + k) / 8 := by omega
    have byte : k % 8 = (offset + k) % 8 := by omega
    rw [Bytes.getElem?_ofWords _ (by rw [length_wordsAt]; omega),
      getD_wordsAt bank offset (by omega), word, byte,
      bytesAt, getElem?_map_range inside]
    rfl
  · rw [List.getElem?_eq_none (by rw [Bytes.length_ofWords, length_wordsAt]; omega),
      List.getElem?_eq_none (by simpa [bytesAt] using outside)]

/-- Whole words that are put over a bank are bytes that are placed over its bytes. -/
theorem byteAt_put (bank : Bank) (aligned : offset % 8 = 0) (whole : data.length % 8 = 0)
    (address : Nat) :
    (bank.put (offset / 8) (Bytes.toWords data)).byteAt address =
      (placed offset data address).getD (bank.byteAt address) := by
  have size := Bytes.length_toWords_whole whole
  rw [byteAt, wordAt_put, placed]
  by_cases inside : offset ≤ address ∧ address < offset + data.length
  · have word : address / 8 - offset / 8 = (address - offset) / 8 := by omega
    have byte : address % 8 = (address - offset) % 8 := by omega
    have brought : (address - offset) / 8 < (Bytes.toWords data).length := by omega
    have found := Bytes.getElem?_ofWords (Bytes.toWords data) brought
    rw [Bytes.ofWords_toWords_whole whole] at found
    rw [if_pos (by omega), if_pos inside.1, found, Option.getD_some, word, byte]
  · rw [if_neg (by omega)]
    split
    · rw [List.getElem?_eq_none (by omega)]
      rfl
    · rfl

end Bytes

section Access
variable {bank after : Bank} {offset length : Nat} {data : List UInt8}

theorem read_eq_ok_iff :
    bank.read offset length = .ok data ↔
      (bank.Grants offset length ∧ length < 9223372036854775808) ∧
      data = bank.bytesAt offset length := by
  constructor
  · intro h
    obtain ⟨words, copied, h⟩ := bind_eq_ok.mp h
    obtain ⟨accepted, rfl⟩ := readWords_eq_ok_iff.mp copied
    cases h
    exact ⟨accepted, ofWords_wordsAt bank accepted.1.1 accepted.1.2.1⟩
  · rintro ⟨accepted, rfl⟩
    rw [read, readWords_eq_ok_iff.mpr ⟨accepted, rfl⟩, ok_bind,
      ofWords_wordsAt bank accepted.1.1 accepted.1.2.1]
    rfl

theorem store_growTo (bank : Bank) (aligned : offset % 8 = 0) (whole : data.length % 8 = 0) :
    (bank.growTo ((offset + data.length) / 8)).store (offset / 8) (Bytes.toWords data) =
      bank.put (offset / 8) (Bytes.toWords data) := by
  have size := Bytes.length_toWords_whole whole
  have reach : (offset + data.length) / 8 = offset / 8 + (Bytes.toWords data).length := by omega
  rw [put, reach]

theorem write_eq_ok_iff :
    bank.write offset data = .ok after ↔
      (bank.Grants offset data.length ∧ offset + data.length < 9223372036854775808) ∧
        after = bank.put (offset / 8) (Bytes.toWords data) := by
  constructor
  · intro h
    obtain ⟨reserved, ready, h⟩ := bind_eq_ok.mp h
    obtain ⟨accepted, rfl⟩ := reserve_eq_ok_iff.mp ready
    cases h
    exact ⟨accepted, store_growTo bank accepted.1.1 accepted.1.2.1⟩
  · rintro ⟨accepted, rfl⟩
    rw [write, reserve_eq_ok_iff.mpr ⟨accepted, rfl⟩, ok_bind,
      ← store_growTo bank accepted.1.1 accepted.1.2.1]
    rfl

/-- What a region holds once bytes have been laid over its front. -/
def overlaid (bank : Bank) (offset length : Nat) (data : List UInt8) : List UInt8 :=
  (data ++ (bank.bytesAt offset length).drop data.length).take length

theorem length_overlaid (bank : Bank) (offset length : Nat) (data : List UInt8) :
    (bank.overlaid offset length data).length = length := by
  simp only [overlaid, bytesAt, List.length_take, List.length_append, List.length_drop,
    List.length_map,
    List.length_range]
  omega

theorem overlay_of_grants (grants : bank.Grants offset length)
    (room : offset + length < 9223372036854775808) :
    bank.overlay offset length data =
      .ok (bank.bytesAt offset length,
        bank.put (offset / 8) (Bytes.toWords (bank.overlaid offset length data))) := by
  have size := length_overlaid bank offset length data
  have stored := store_growTo bank grants.1 (size ▸ grants.2.1)
  have old : (bank.growTo ((offset + length) / 8)).wordsAt offset length =
      bank.wordsAt offset length := by
    simp only [wordsAt, wordAt_growTo]
  rw [size] at stored
  rw [overlay, reserve_of_grants grants room, ok_bind, old,
    ofWords_wordsAt bank grants.1 grants.2.1, ← stored]
  rfl

theorem overlay_eq_ok_iff {old : List UInt8} :
    bank.overlay offset length data = .ok (old, after) ↔
      (bank.Grants offset length ∧ offset + length < 9223372036854775808) ∧
      old = bank.bytesAt offset length ∧
        after = bank.put (offset / 8) (Bytes.toWords (bank.overlaid offset length data)) := by
  constructor
  · intro h
    obtain ⟨reserved, ready, _⟩ := bind_eq_ok.mp h
    have accepted := (reserve_eq_ok_iff.mp ready).1
    cases (overlay_of_grants accepted.1 accepted.2).symm.trans h
    exact ⟨accepted, rfl, rfl⟩
  · rintro ⟨⟨grants, room⟩, rfl, rfl⟩
    exact overlay_of_grants grants room

/-- Bytes that are laid over the front of a region are placed there, and the rest of the region
is placed over itself. -/
theorem placed_overlaid (bank : Bank) (offset length : Nat) (data : List UInt8) (address : Nat) :
    (placed offset (bank.overlaid offset length data) address).getD (bank.byteAt address) =
      (placed offset (data.take length) address).getD (bank.byteAt address) := by
  unfold placed
  split
  · rename_i behind
    rcases Nat.lt_or_ge (address - offset) length with inside | beyond
    · rw [overlaid, List.getElem?_take_of_lt inside, List.getElem?_take_of_lt inside,
        List.getElem?_append]
      split
      · rfl
      · rename_i past
        have place : data.length + (address - offset - data.length) = address - offset := by omega
        have same : offset + (address - offset) = address := by omega
        rw [List.getElem?_drop, place, bytesAt, getElem?_map_range inside, same,
          List.getElem?_eq_none (by omega)]
        rfl
    · rw [List.getElem?_eq_none (by rw [length_overlaid]; exact beyond),
        List.getElem?_eq_none (by rw [List.length_take]; omega)]
  · rfl

end Access

section Calls

/-- What a bank can be asked for, with all that the caller supplies. A caller of `overlay` who
overwrites the middle of the region only brings what he found before it, and then his own bytes. -/
inductive Call where
  | read (offset length : Nat)
  | write (offset : Nat) (data : List UInt8)
  | overlay (offset length : Nat) (data : List UInt8)

namespace Call

def offset : Call → Nat
  | .read offset _ | .write offset _ | .overlay offset _ _ => offset

def length : Call → Nat
  | .read _ length | .overlay _ length _ => length
  | .write _ data => data.length

/-- The bytes that a call lays over its region, from its start on. -/
def brings : Call → List UInt8
  | .read .. => []
  | .write _ data => data
  | .overlay _ length data => data.take length

/-- How many bytes the host has in one buffer for a call: the copy of a region that is read, or
else the bank up to the end of the region. -/
def buffer : Call → Nat
  | .read _ length => length
  | .write offset data => offset + data.length
  | .overlay offset length _ => offset + length

/-- A call for a region of whole words inside the capacity, for which the host has a buffer. -/
def Admitted (capacity : Nat) (call : Call) : Prop :=
  call.offset % 8 = 0 ∧ call.length % 8 = 0 ∧ call.offset + call.length ≤ capacity ∧
    call.buffer < 9223372036854775808

instance (capacity : Nat) (call : Call) : Decidable (call.Admitted capacity) :=
  inferInstanceAs (Decidable (_ ∧ _ ∧ _ ∧ _))

/-- The byte that a call writes at an address, if it goes through and writes one there. -/
def written (capacity address : Nat) (call : Call) : Option UInt8 :=
  if call.Admitted capacity then placed call.offset call.brings address else none

/-- What a call that goes through shows of a bank. -/
def shown (bank : Bank) : Call → List UInt8
  | .read offset length | .overlay offset length _ => bank.bytesAt offset length
  | .write .. => []

/-- The bank that a call leaves when it goes through. -/
def applied (bank : Bank) : Call → Bank
  | .read .. => bank
  | .write offset data => bank.put (offset / 8) (Bytes.toWords data)
  | .overlay offset length data =>
    bank.put (offset / 8) (Bytes.toWords (bank.overlaid offset length data))

end Call

/-- What the last of the calls that wrote at an address wrote there. -/
def lastWritten (capacity : Nat) (calls : List Call) (address : Nat) : Option UInt8 :=
  calls.reverse.findSome? (Call.written capacity address)

/-- The bytes of a region as the calls have left them: what was written there last, and zero
where nothing was. -/
def lastBytes (capacity : Nat) (calls : List Call) (offset length : Nat) : List UInt8 :=
  (List.range length).map fun i => (lastWritten capacity calls (offset + i)).getD 0

/-- What a call answers, with the bank that it leaves. -/
def ask (bank : Bank) : Call → Except Fault (List UInt8 × Bank)
  | .read offset length => do return (← bank.read offset length, bank)
  | .write offset data => do return ([], ← bank.write offset data)
  | .overlay offset length data => bank.overlay offset length data

/-- Every check of a call comes before the bank is materialised, so one that fails leaves it as
it was. -/
def next (bank : Bank) (call : Call) : Bank :=
  match bank.ask call with
  | .ok (_, after) => after
  | .error _ => bank

def run (bank : Bank) (calls : List Call) : Bank := calls.foldl next bank

/-- A bank that holds an array of bytes, as far as an access can tell. -/
structure Holds (capacity : Nat) (contents : Nat → UInt8) (bank : Bank) : Prop where
  capacity : bank.capacity = capacity
  bytes : ∀ address, bank.byteAt address = contents address

variable {bank other : Bank} {capacity : Nat} {contents : Nat → UInt8} {call : Call}

theorem Call.admitted_iff :
    call.Admitted bank.capacity ↔ bank.Grants call.offset call.length ∧
    call.buffer < 9223372036854775808 := by
  simp only [Admitted, Grants, and_assoc]

/-- A call goes through exactly when it is admitted, and in one way. -/
theorem ask_eq_ok_iff {answer : List UInt8 × Bank} :
    bank.ask call = .ok answer ↔ call.Admitted bank.capacity ∧
    answer = (call.shown bank, call.applied bank) := by
  rw [Call.admitted_iff]
  cases call with
  | read offset length =>
    constructor
    · intro h
      obtain ⟨_, copied, h⟩ := bind_eq_ok.mp h
      obtain ⟨admitted, rfl⟩ := read_eq_ok_iff.mp copied
      cases h
      exact ⟨admitted, rfl⟩
    · rintro ⟨admitted, rfl⟩
      have copied : bank.read offset length = .ok (bank.bytesAt offset length) :=
        read_eq_ok_iff.mpr ⟨admitted, rfl⟩
      rw [ask, copied]
      rfl
  | write offset data =>
    constructor
    · intro h
      obtain ⟨_, stored, h⟩ := bind_eq_ok.mp h
      obtain ⟨admitted, rfl⟩ := write_eq_ok_iff.mp stored
      cases h
      exact ⟨admitted, rfl⟩
    · rintro ⟨admitted, rfl⟩
      have stored : bank.write offset data = .ok (bank.put (offset / 8) (Bytes.toWords data)) :=
        write_eq_ok_iff.mpr ⟨admitted, rfl⟩
      rw [ask, stored]
      rfl
  | overlay offset length data =>
    constructor
    · intro h
      obtain ⟨admitted, old, after⟩ := overlay_eq_ok_iff.mp h
      exact ⟨admitted, Prod.ext old after⟩
    · rintro ⟨admitted, rfl⟩
      exact overlay_eq_ok_iff.mpr ⟨admitted, rfl, rfl⟩

theorem exists_ask_iff : (∃ answer, bank.ask call = .ok answer) ↔ call.Admitted bank.capacity := by
  constructor
  · rintro ⟨answer, through⟩
    exact (ask_eq_ok_iff.mp through).1
  · intro admitted
    exact ⟨_, ask_eq_ok_iff.mpr ⟨admitted, rfl⟩⟩

theorem next_eq (bank : Bank) (call : Call) :
    bank.next call = if call.Admitted bank.capacity then call.applied bank else bank := by
  unfold next
  split
  · rename_i through
    obtain ⟨admitted, same⟩ := ask_eq_ok_iff.mp through
    cases same
    rw [if_pos admitted]
  · rename_i failed
    rw [if_neg]
    intro admitted
    cases (ask_eq_ok_iff.mpr ⟨admitted, rfl⟩).symm.trans failed

theorem capacity_applied (call : Call) (bank : Bank) :
    (call.applied bank).capacity = bank.capacity := by
  cases call with
  | read => rfl
  | write => exact capacity_put _ _ _
  | overlay => exact capacity_put _ _ _

theorem byteAt_applied (admitted : call.Admitted capacity) (bank : Bank) (address : Nat) :
    (call.applied bank).byteAt address =
      (placed call.offset call.brings address).getD (bank.byteAt address) := by
  obtain ⟨aligned, whole, _⟩ := admitted
  cases call with
  | read offset length =>
    rw [Call.applied, Call.brings, placed, List.getElem?_nil, ite_self]
    rfl
  | write offset data => exact byteAt_put bank aligned whole address
  | overlay offset length data =>
    have size := length_overlaid bank offset length data
    exact (byteAt_put bank aligned (by rw [size]; exact whole) address).trans
      (placed_overlaid bank offset length data address)

/-- A call writes what it brings if it goes through, and changes no byte besides. -/
theorem next_holds (h : bank.Holds capacity contents) (call : Call) :
    (bank.next call).Holds capacity fun address =>
      (call.written capacity address).getD (contents address) := by
  rw [next_eq, h.capacity]
  by_cases admitted : call.Admitted capacity
  · rw [if_pos admitted]
    constructor
    · rw [capacity_applied, h.capacity]
    · intro address
      rw [byteAt_applied admitted, h.bytes, Call.written, if_pos admitted]
  · rw [if_neg admitted]
    constructor
    · exact h.capacity
    · intro address
      rw [h.bytes, Call.written, if_neg admitted]
      rfl

theorem holds_empty (capacity : Nat) : (empty capacity).Holds capacity fun _ => 0 := by
  constructor
  · rfl
  · intro address
    have word : (empty capacity).wordAt (address / 8) = 0 := rfl
    have bytes : Bytes.ofWord 0 = List.replicate 8 0 := rfl
    rw [byteAt, word, bytes, List.getD_eq_getElem?_getD, List.getElem?_replicate,
      if_pos (Nat.mod_lt _ (by decide))]
    rfl

theorem lastWritten_append (capacity : Nat) (calls later : List Call) (address : Nat) :
    lastWritten capacity (calls ++ later) address =
      (lastWritten capacity later address).or (lastWritten capacity calls address) := by
  rw [lastWritten, List.reverse_append, List.findSome?_append]
  rfl

theorem lastWritten_cons (capacity : Nat) (call : Call) (calls : List Call) (address : Nat) :
    lastWritten capacity (call :: calls) address =
      (lastWritten capacity calls address).or (call.written capacity address) := by
  rw [← List.singleton_append, lastWritten_append]
  congr 1
  exact List.findSome?_singleton

/-- After a run of calls each byte is what was written last at its address. -/
theorem run_holds (h : bank.Holds capacity contents) (calls : List Call) :
    (bank.run calls).Holds capacity fun address =>
      (lastWritten capacity calls address).getD (contents address) := by
  induction calls generalizing bank contents with
  | nil => exact h
  | cons call calls ih =>
    simp only [lastWritten_cons, Option.getD_or]
    exact ih (next_holds h call)

theorem empty_run_holds (capacity : Nat) (calls : List Call) :
    ((empty capacity).run calls).Holds capacity fun address =>
      (lastWritten capacity calls address).getD 0 :=
  run_holds (holds_empty capacity) calls

theorem bytesAt_run (capacity : Nat) (calls : List Call) (offset length : Nat) :
    ((empty capacity).run calls).bytesAt offset length =
      lastBytes capacity calls offset length := by
  simp only [bytesAt, lastBytes, (empty_run_holds capacity calls).bytes]

/-- Banks that hold the same array are read alike, however far each is materialised. -/
theorem read_of_holds (h : bank.Holds capacity contents) (h' : other.Holds capacity contents)
    (offset length : Nat) :
    bank.read offset length = other.read offset length := by
  have check : bank.check offset length = other.check offset length := by
    simp only [Bank.check, h.capacity, h'.capacity]
  rw [read, read, readWords, readWords, check]
  cases checked : other.check offset length with
  | error fault => rfl
  | ok _ =>
    obtain ⟨aligned, whole, _⟩ := check_eq_ok_iff.mp checked
    have bytes : Bytes.ofWords (bank.wordsAt offset length) =
        Bytes.ofWords (other.wordsAt offset length) := by
      rw [ofWords_wordsAt bank aligned whole, ofWords_wordsAt other aligned whole]
      simp only [bytesAt, h.bytes, h'.bytes]
    have words := congrArg Bytes.toWords bytes
    rw [Bytes.toWords_ofWords, Bytes.toWords_ofWords] at words
    rw [words]

theorem lastWritten_idle (idle : ∀ address, call.written capacity address = none)
    (calls later : List Call) :
    lastWritten capacity (calls ++ call :: later) = lastWritten capacity (calls ++ later) := by
  funext address
  rw [lastWritten_append, lastWritten_append, lastWritten_cons, idle, Option.or_none]

theorem written_of_idle (idle : ¬ call.Admitted capacity ∨ call.brings = []) (address : Nat) :
    call.written capacity address = none := by
  rw [Call.written]
  rcases idle with refused | empty
  · rw [if_neg refused]
  · rw [empty, placed, List.getElem?_nil, ite_self, ite_self]

/-- However a bank has been used, it answers like an array of bytes that was zeroed at first. A
call goes through exactly when its region is made of whole words inside the capacity and the host
has a buffer for it; what it shows is at each address what was written there last; and a call that
fails, or brings no bytes as a read does, can be left out of a run: no later read tells. -/
theorem contents_exact (capacity : Nat) (calls : List Call) :
    (∀ call, (∃ answer, ((empty capacity).run calls).ask call = .ok answer) ↔
      call.Admitted capacity) ∧
    (∀ offset length bytes, ((empty capacity).run calls).read offset length = .ok bytes →
      bytes = lastBytes capacity calls offset length) ∧
    (∀ offset length data old after, ((empty capacity).run calls).overlay offset length data =
      .ok (old, after) →
      old = lastBytes capacity calls offset length) ∧
    ∀ call, (¬ ∃ answer, ((empty capacity).run calls).ask call = .ok answer) ∨ call.brings = [] →
      ∀ later offset length, ((empty capacity).run (calls ++ call :: later)).read offset length =
        ((empty capacity).run (calls ++ later)).read offset length := by
  have holds := empty_run_holds capacity calls
  have succeeds : ∀ call, (∃ answer, ((empty capacity).run calls).ask call = .ok answer) ↔
      call.Admitted capacity := by
    intro call
    rw [exists_ask_iff, holds.capacity]
  refine ⟨succeeds, ?_, ?_, ?_⟩
  · intro offset length bytes through
    rw [(read_eq_ok_iff.mp through).2, bytesAt_run]
  · intro offset length data old after through
    rw [(overlay_eq_ok_iff.mp through).2.1, bytesAt_run]
  · intro call idle later offset length
    rw [succeeds] at idle
    have asked := empty_run_holds capacity (calls ++ call :: later)
    rw [lastWritten_idle (written_of_idle idle)] at asked
    exact read_of_holds asked (empty_run_holds capacity (calls ++ later)) offset length

/-- Calls that write a word, are lent two words far behind it and lay one byte over them, are lent
two more that they leave as they are, and are refused three times. -/
def patches : List Call :=
  [.write 8 [1, 2, 3, 4, 5, 6, 7, 8], .overlay 24 16 [9], .write 12 [1, 1, 1, 1, 1, 1, 1, 1],
    .overlay 40 16 [],
    .overlay 8 8 [7, 7], .read 56 16, .write 64 [1, 1, 1, 1, 1, 1, 1, 1]]

/-- A read across bytes that were written, a region that was only reserved and one that never was.
Without the call that reserved it the bank is read alike. -/
theorem contents_exact_patched :
    (∃ bytes, ((empty 64).run patches).read 0 64 = .ok bytes ∧
      bytes = List.replicate 8 0 ++ [7, 7, 3, 4, 5, 6, 7, 8] ++ List.replicate 8 0 ++ 9 ::
        List.replicate 39 0) ∧
    ((empty 64).run patches).residentBytes = 56 ∧
    ((empty 64).run (patches.eraseIdx 3)).residentBytes = 40 ∧
    (∀ offset length, ((empty 64).run patches).read offset length =
      ((empty 64).run (patches.eraseIdx 3)).read offset length) ∧
    ¬ ∃ answer, ((empty 64).run patches).ask (.read 56 12) = .ok answer := by
  obtain ⟨succeeds, reads, _⟩ := contents_exact 64 patches
  obtain ⟨_, _, _, unseen⟩ := contents_exact 64 (patches.take 3)
  obtain ⟨_, answered⟩ := (succeeds (.read 0 64)).mpr (by decide)
  obtain ⟨bytes, through, _⟩ := bind_eq_ok.mp answered
  refine ⟨⟨bytes, through, ?_⟩, rfl, rfl, unseen (.overlay 40 16 []) (.inr rfl) (patches.drop 4),
    ?_⟩
  · rw [reads 0 64 bytes through]
    decide
  · rw [succeeds]
    decide

/-- In a vast bank there is a word for which the host has no buffer. -/
theorem far_write_fails :
    ¬ ∀ capacity < 18446744073709551616, ∀ (calls : List Call) (call : Call),
      (∃ answer, ((empty capacity).run calls).ask call = .ok answer) ↔
        call.offset % 8 = 0 ∧ call.length % 8 = 0 ∧ call.offset + call.length ≤ capacity := by
  intro claimed
  have far :=
    claimed 18446744073709551615 (by decide) [] (.write 9223372036854775808 (List.replicate 8 0))
  obtain ⟨answer, through⟩ := far.mpr (by decide)
  cases through

end Calls

end Bank
end BankedRing
