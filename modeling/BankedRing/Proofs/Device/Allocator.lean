import BankedRing.Device.Allocator
import BankedRing.Proofs.Outcome

/-! The block allocator keeps its records in address order and apart from each other, and
a block is marked exactly when a record owns it. All queries are answered from the
marks; the invariant makes them answers about the live allocations. -/
namespace BankedRing.Allocator
variable {memory : Allocator}

/-- The first block of an address. -/
def block (memory : Allocator) (address : UInt32) : Nat := address.toNat / memory.blockBytes

/-- The blocks of a record. -/
def Owns (memory : Allocator) (record : UInt32 × Nat) (index : Nat) : Prop :=
  memory.block record.1 ≤ index ∧ index < memory.block record.1 + record.2

structure Valid (memory : Allocator) : Prop where
  positive : 0 < memory.blockBytes
  reach : memory.used.length * memory.blockBytes ≤ UInt32.size
  placed : ∀ r ∈ memory.records, 0 < r.2 ∧ r.1.toNat % memory.blockBytes = 0 ∧
    memory.block r.1 + r.2 ≤ memory.used.length
  ordered : memory.records.Pairwise fun r s => memory.block r.1 + r.2 ≤ memory.block s.1
  marked : ∀ i : Nat, memory.used[i]? = some true ↔ ∃ r ∈ memory.records, memory.Owns r i

/-- Geometries whose addresses fit their 32 bits start out valid. -/
theorem valid_ofGeometry (unit : Nat) {capacity : Nat} (reach : capacity ≤ UInt32.size)
    (blockBytes : Nat) :
    (ofGeometry unit capacity blockBytes).Valid where
  positive := Nat.lt_of_lt_of_le Nat.one_pos (Nat.le_max_right _ _)
  reach := by
    simp only [ofGeometry, List.length_replicate]
    exact Nat.le_trans (Nat.div_mul_le_self _ _) reach
  placed := nofun
  ordered := .nil
  marked := fun i => by simp [ofGeometry, List.getElem?_replicate]

namespace Valid

theorem owner_unique (valid : memory.Valid) {r s : UInt32 × Nat} {i : Nat} (hr : r ∈ memory.records)
    (hs : s ∈ memory.records) (ownsR : memory.Owns r i) (ownsS : memory.Owns s i) : r = s := by
  have ordered := valid.ordered
  unfold Owns at ownsR ownsS
  generalize memory.records = records at hr hs ordered
  induction ordered with
  | nil => cases hr
  | cons before _ ih =>
    rcases List.mem_cons.mp hr with rfl | later <;> rcases List.mem_cons.mp hs with rfl | behind
    · rfl
    · have := before _ behind
      omega
    · have := before _ later
      omega
    · exact ih later behind

theorem owns_block (valid : memory.Valid) {r : UInt32 × Nat} (h : r ∈ memory.records) :
    memory.Owns r (memory.block r.1) := by
  have := (valid.placed r h).1
  exact ⟨Nat.le_refl _, by omega⟩

theorem blocks_unique (valid : memory.Valid) {address : UInt32} {n k : Nat}
    (hn : (address, n) ∈ memory.records) (hk : (address, k) ∈ memory.records) : n = k :=
  congrArg Prod.snd (valid.owner_unique hn hk (valid.owns_block hn) (valid.owns_block hk))

theorem lookup_iff (valid : memory.Valid) {address : UInt32} {n : Nat} :
    memory.records.lookup address = some n ↔ (address, n) ∈ memory.records := by
  have found : ∀ {records : List (UInt32 × Nat)} {k : Nat}, records.lookup address = some k →
      (address, k) ∈ records := by
    intro records
    induction records with
    | nil => nofun
    | cons r rest ih =>
      intro k h
      rw [List.lookup_cons] at h
      split at h
      · rename_i same
        cases h
        simp [beq_iff_eq.mp same]
      · exact List.mem_cons_of_mem _ (ih h)
  refine ⟨found, ?_⟩
  intro member
  cases h : memory.records.lookup address with
  | some k => rw [valid.blocks_unique (found h) member]
  | none =>
    have absent := List.lookup_eq_none_iff.mp h _ member
    simp at absent

theorem toNat_eq (valid : memory.Valid) {r : UInt32 × Nat} (h : r ∈ memory.records) :
    r.1.toNat = memory.block r.1 * memory.blockBytes :=
  (Nat.div_mul_cancel (Nat.dvd_of_mod_eq_zero (valid.placed r h).2.1)).symm

theorem blocks_apart (valid : memory.Valid) {r s : UInt32 × Nat} (hr : r ∈ memory.records)
    (hs : s ∈ memory.records) (different : r.1 ≠ s.1) :
    memory.block r.1 + r.2 ≤ memory.block s.1 ∨ memory.block s.1 + s.2 ≤ memory.block r.1 := by
  have ownsFirst := valid.owns_block hr
  have ownsSecond := valid.owns_block hs
  rcases Nat.le_total (memory.block r.1) (memory.block s.1) with before | behind
  · exact .inl (Nat.le_of_not_lt fun meets =>
      different (congrArg Prod.fst (valid.owner_unique hr hs ⟨before, meets⟩ ownsSecond)))
  · exact .inr (Nat.le_of_not_lt fun meets =>
      different (congrArg Prod.fst (valid.owner_unique hr hs ownsFirst ⟨behind, meets⟩)))

end Valid

section Marking

theorem length_mark (value : Bool) {first count : Nat} {used : List Bool}
    (inside : first + count ≤ used.length) : (mark value first count used).length =
      used.length := by
  simp [mark]
  omega

theorem getElem?_mark (value : Bool) {first count : Nat} {used : List Bool}
    (inside : first + count ≤ used.length) (i : Nat) :
    (mark value first count used)[i]? =
      if first ≤ i ∧ i < first + count then some value else used[i]? := by
  have front : (used.take first).length = first := by rw [List.length_take]; omega
  rw [mark, List.append_assoc]
  by_cases before : i < first
  · rw [List.getElem?_append_left (by omega), List.getElem?_take_of_lt before, if_neg (by omega)]
  rw [List.getElem?_append_right (by omega), front]
  by_cases within : i < first + count
  · rw [List.getElem?_append_left (by rw [List.length_replicate]; omega), List.getElem?_replicate,
      if_pos (by omega), if_pos (by omega)]
  · rw [List.getElem?_append_right (by rw [List.length_replicate]; omega), List.length_replicate,
      List.getElem?_drop, if_neg (by omega)]
    congr 1
    omega

theorem mark_of_marked {value : Bool} {first count : Nat} {used : List Bool}
    (inside : first + count ≤ used.length)
    (marked : ∀ i, first ≤ i → i < first + count → used[i]? = some value) :
    mark value first count used = used := by
  apply List.ext_getElem?
  intro i
  rw [getElem?_mark value inside]
  split
  · rename_i within
    exact (marked i within.1 within.2).symm
  · rfl

theorem mark_mark (value other : Bool) {first count : Nat} {used : List Bool}
    (inside : first + count ≤ used.length) :
    mark value first count (mark other first count used) = mark value first count used := by
  apply List.ext_getElem?
  intro i
  rw [getElem?_mark value (by rwa [length_mark other inside]), getElem?_mark other inside,
    getElem?_mark value inside]
  split <;> rfl

theorem count_mark (first count : Nat) (used : List Bool) :
    (mark true first count used).count true = (mark false first count used).count true + count := by
  simp [mark, List.count_append, List.count_replicate]
  omega

end Marking

/-- A found run is free, lies inside, and does not start before the running count. -/
theorem firstFit_sound {needed index run first : Nat} {used : List Bool} (short : run < needed)
    (counted : run ≤ index) (h : firstFit needed index run used = some first) :
    index - run ≤ first ∧ first + needed ≤ index + used.length ∧
      ∀ i, index ≤ i → first ≤ i → i < first + needed → used[i - index]? = some false := by
  induction used generalizing index run with
  | nil => cases h
  | cons taken rest ih =>
    have behind : ∀ {i}, index + 1 ≤ i → i - index = (i - (index + 1)) + 1 := by
      intro i h
      omega
    cases taken with
    | true =>
      obtain ⟨low, high, free⟩ := ih (Nat.zero_lt_of_lt short) (Nat.zero_le _) h
      refine ⟨by omega, by simp only [List.length_cons]; omega, ?_⟩
      intro i _ after limit
      rw [behind (by omega), List.getElem?_cons_succ]
      exact free i (by omega) after limit
    | false =>
      simp only [firstFit] at h
      split at h
      · cases h
        refine ⟨by omega, by simp only [List.length_cons]; omega, ?_⟩
        intro i from' after limit
        have only : i - index = 0 := by omega
        rw [only, List.getElem?_cons_zero]
      · obtain ⟨low, high, free⟩ := ih (by omega) (by omega) h
        refine ⟨by omega, by simp only [List.length_cons]; omega, ?_⟩
        intro i from' after limit
        by_cases here : i = index
        · rw [here, Nat.sub_self, List.getElem?_cons_zero]
        · rw [behind (by omega), List.getElem?_cons_succ]
          exact free i (by omega) after limit

/-- A run of free blocks is found unless one that starts before it is. -/
theorem firstFit_complete {needed index run start : Nat} {used : List Bool} (short : run < needed)
    (counted : run ≤ index) (low : index - run ≤ start)
    (free : ∀ i, index ≤ i → start ≤ i → i < start + needed → used[i - index]? = some false) :
    ∃ first, firstFit needed index run used = some first ∧ first ≤ start := by
  induction used generalizing index run with
  | nil =>
    have last := free (start + needed - 1) (by omega) (by omega) (by omega)
    simp at last
  | cons taken rest ih =>
    have later : ∀ i, index + 1 ≤ i → start ≤ i → i < start + needed →
        rest[i - (index + 1)]? = some false := by
      intro i behind after limit
      have open' := free i (by omega) after limit
      rwa [show i - index = (i - (index + 1)) + 1 by omega, List.getElem?_cons_succ] at open'
    cases taken with
    | true =>
      -- The run cannot hold the block that is taken, so it starts behind it.
      have behind : index + 1 ≤ start := by
        refine Nat.lt_of_not_le fun holds => ?_
        have own := free index (Nat.le_refl _) holds (by omega)
        simp at own
      exact ih (by omega) (Nat.zero_le _) behind later
    | false =>
      simp only [firstFit]
      split
      · exact ⟨_, rfl, by omega⟩
      · exact ih (by omega) (by omega) (by omega) later

theorem firstFit_free {needed index run count : Nat} (short : run < needed)
    (enough : needed ≤ run + count) (counted : run ≤ index) :
    firstFit needed index run (List.replicate count false) = some (index - run) := by
  have free : ∀ i, index ≤ i → index - run ≤ i → i < index - run + needed →
      (List.replicate count false)[i - index]? = some false := by
    intro i behind _ limit
    rw [List.getElem?_replicate, if_pos (by omega)]
  obtain ⟨first, found, least⟩ := firstFit_complete short counted (Nat.le_refl _) free
  have low := (firstFit_sound short counted found).1
  rw [found, Nat.le_antisymm least low]

theorem blocksFor_pos (memory : Allocator) (size : Nat) : 0 < memory.blocksFor size :=
  Nat.lt_of_lt_of_le Nat.one_pos (Nat.le_max_right _ _)

theorem le_blocksFor (memory : Allocator) (positive : 0 < memory.blockBytes) (size : Nat) :
    size ≤ memory.blocksFor size * memory.blockBytes := by
  have rounded := Nat.div_add_mod (size + memory.blockBytes - 1) memory.blockBytes
  have remainder := Nat.mod_lt (size + memory.blockBytes - 1) positive
  have larger : (size + memory.blockBytes - 1) / memory.blockBytes * memory.blockBytes ≤
      memory.blocksFor size * memory.blockBytes :=
    Nat.mul_le_mul_right _ (Nat.le_max_left _ _)
  rw [Nat.mul_comm] at rounded
  omega

/-- Why a unit refuses an allocation: its size cannot be rounded up in a word, or there is no
room. -/
def refusal (unit blockBytes size : Nat) : Error :=
  if UInt64.size ≤ size + blockBytes then .trapped .overflow else .memoryExhausted unit size

theorem allocate_free {count size : Nat} (free : memory.used = List.replicate count false)
    (counted : size + memory.blockBytes < UInt64.size) (room : memory.blocksFor size ≤ count) :
    ∃ granted, memory.allocate size = .ok granted := by
  have first : firstFit (memory.blocksFor size) 0 0 memory.used = some 0 := by
    rw [free]
    exact firstFit_free (memory.blocksFor_pos size) (by omega) (Nat.le_refl 0)
  simp only [allocate, if_neg (Nat.not_le_of_lt counted), first]
  exact ⟨_, rfl⟩

section Recording
variable {address : UInt32} {blocks : Nat} {records : List (UInt32 × Nat)}

theorem mem_record (fresh : ∀ r ∈ records, r.1 ≠ address) {r : UInt32 × Nat} :
    r ∈ record address blocks records ↔ r = (address, blocks) ∨ r ∈ records := by
  induction records with
  | nil => simp [record]
  | cons s rest ih =>
    obtain ⟨other, owned⟩ := s
    have different : ¬ address = other := fun same => fresh (other, owned) (by simp) same.symm
    have later := ih fun r member => fresh r (by simp [member])
    unfold record
    split
    · simp
    · rw [List.mem_cons, later, List.mem_cons]
      exact or_left_comm

theorem perm_record (blocks : Nat) (fresh : ∀ r ∈ records, r.1 ≠ address) :
    (record address blocks records).Perm ((address, blocks) :: records) := by
  induction records with
  | nil => exact .refl _
  | cons s rest ih =>
    obtain ⟨other, owned⟩ := s
    have different : ¬ address = other := fun same => fresh (other, owned) (by simp) same.symm
    have later := ih fun r member => fresh r (by simp [member])
    unfold record
    split
    · exact .refl _
    · exact (later.cons _).trans (.swap _ _ _)

theorem filter_record (fresh : ∀ r ∈ records, r.1 ≠ address) :
    (record address blocks records).filter (fun r => r.1 ≠ address) = records := by
  induction records with
  | nil => simp [record]
  | cons s rest ih =>
    obtain ⟨other, owned⟩ := s
    have different : other ≠ address := fresh (other, owned) (by simp)
    have later : ∀ r ∈ rest, r.1 ≠ address := fun r member => fresh r (by simp [member])
    unfold record
    split
    · have kept : rest.filter (fun r => r.1 ≠ address) = rest :=
        List.filter_eq_self.mpr fun r member => decide_eq_true (later r member)
      rw [List.filter_cons_of_neg (by simp), List.filter_cons_of_pos (by simpa using different),
        kept]
    · rw [if_neg different.symm, List.filter_cons_of_pos (by simpa using different), ih later]

/-- An address whose blocks stand apart from all records is a new one. -/
theorem fresh_of_apart (memory : Allocator) (positive : 0 < blocks)
    (placed : ∀ r ∈ records, 0 < r.2)
    (apart : ∀ r ∈ records, memory.block r.1 + r.2 ≤ memory.block address ∨
      memory.block address + blocks ≤ memory.block r.1) : ∀ r ∈ records, r.1 ≠ address := by
  intro r member same
  have := placed r member
  have := apart r member
  rw [same] at this
  omega

theorem record_ordered (memory : Allocator) (positive : 0 < blocks)
    (placed : ∀ r ∈ records, 0 < r.2)
    (apart : ∀ r ∈ records, memory.block r.1 + r.2 ≤ memory.block address ∨
      memory.block address + blocks ≤ memory.block r.1)
    (ordered : records.Pairwise fun r s => memory.block r.1 + r.2 ≤ memory.block s.1) :
    (record address blocks records).Pairwise fun r s => memory.block r.1 + r.2 ≤
      memory.block s.1 := by
  have fresh := fresh_of_apart memory positive placed apart
  induction ordered with
  | nil => exact List.pairwise_singleton _ _
  | @cons s rest before _ ih =>
    have sPlaced := placed s (by simp)
    have sApart := apart s (by simp)
    have later :=
      ih (fun r member => placed r (by simp [member])) (fun r member => apart r (by simp [member]))
      fun r member => fresh r (by simp [member])
    have monotone : ∀ {x y : UInt32}, x ≤ y → memory.block x ≤ memory.block y := fun le =>
      Nat.div_le_div_right (UInt32.le_iff_toNat_le.mp le)
    unfold record
    split
    · rename_i less
      have := monotone (UInt32.le_of_lt less)
      have first : memory.block address + blocks ≤ memory.block s.1 := by omega
      refine .cons (fun r member => ?_) (.cons before ‹_›)
      rcases List.mem_cons.mp member with rfl | member
      · exact first
      · have := before r member
        dsimp only
        omega
    · rename_i less
      rw [if_neg fun same => fresh s (by simp) same.symm]
      have := monotone (UInt32.not_lt.mp less)
      refine .cons (fun r member => ?_) later
      rcases (mem_record fun r member => fresh r (by simp [member])).mp member with rfl | member
      · dsimp only
        omega
      · exact before r member

end Recording

namespace Valid

/-- Whatever owns a block of a run would have left a mark on it. -/
theorem apart_of_free (valid : memory.Valid) {first count : Nat} (positive : 0 < count)
    (free : ∀ i, first ≤ i → i < first + count → memory.used[i]? = some false) :
    ∀ r ∈ memory.records, memory.block r.1 + r.2 ≤ first ∨ first + count ≤ memory.block r.1 := by
  intro r member
  rcases Nat.lt_or_ge first (memory.block r.1 + r.2) with reaches | before
  · rcases Nat.lt_or_ge (memory.block r.1) (first + count) with starts | behind
    · have := (valid.placed r member).1
      have unmarked := free (max first (memory.block r.1)) (by omega) (by omega)
      have marked :=
        (valid.marked (max first (memory.block r.1))).mpr ⟨r, member, by unfold Owns; omega⟩
      rw [marked] at unmarked
      cases unmarked
    · exact .inr behind
  · exact .inl before

theorem toNat_ofNat (valid : memory.Valid) {first : Nat} (inside : first < memory.used.length) :
    (UInt32.ofNat (first * memory.blockBytes)).toNat = first * memory.blockBytes := by
  have reach := valid.reach
  have positive := valid.positive
  have bytes : (first + 1) * memory.blockBytes ≤ memory.used.length * memory.blockBytes :=
    Nat.mul_le_mul_right _ inside
  rw [Nat.succ_mul] at bytes
  exact UInt32.toNat_ofNat_of_lt' (by omega)

theorem granted (valid : memory.Valid) {address : UInt32} {blocks : Nat} (positive : 0 < blocks)
    (aligned : address.toNat % memory.blockBytes = 0)
    (inside : memory.block address + blocks ≤ memory.used.length)
    (apart : ∀ r ∈ memory.records, memory.block r.1 + r.2 ≤ memory.block address ∨
      memory.block address + blocks ≤ memory.block r.1) :
    Valid { memory with
      used := mark true (memory.block address) blocks memory.used
      records := record address blocks memory.records } := by
  have fresh := fresh_of_apart memory positive (fun r member => (valid.placed r member).1) apart
  refine ⟨valid.positive, ?_, ?_, ?_, ?_⟩
  · rw [length_mark true inside]
    exact valid.reach
  · intro r member
    dsimp only
    rw [length_mark true inside]
    rcases (mem_record fresh).mp member with rfl | member
    · exact ⟨positive, aligned, inside⟩
    · exact valid.placed r member
  · exact record_ordered memory positive (fun r member => (valid.placed r member).1)
      apart valid.ordered
  · intro i
    dsimp only
    rw [getElem?_mark true inside]
    split
    · rename_i within
      exact ⟨fun _ => ⟨_, (mem_record fresh).mpr (.inl rfl), within⟩, fun _ => rfl⟩
    · rename_i outside
      rw [valid.marked]
      constructor
      · rintro ⟨r, member, owns⟩
        exact ⟨r, (mem_record fresh).mpr (.inr member), owns⟩
      · rintro ⟨r, member, owns⟩
        rcases (mem_record fresh).mp member with rfl | member
        · exact absurd owns outside
        · exact ⟨r, member, owns⟩

end Valid

/-- What is granted is the first run that is long enough. -/
theorem granted_run {size : Nat} {address : UInt32} {after : Allocator}
    (h : memory.allocate size = .ok (address, after)) :
    ∃ first, firstFit (memory.blocksFor size) 0 0 memory.used = some first ∧
      address = UInt32.ofNat (first * memory.blockBytes) ∧
      after = { memory with
        used := mark true first (memory.blocksFor size) memory.used
        records := record address (memory.blocksFor size) memory.records } := by
  unfold allocate at h
  split at h
  · cases h
  dsimp only at h
  split at h
  · cases h
  rename_i first found
  cases h
  exact ⟨first, found, rfl, rfl⟩

/-- A granted allocation: fresh blocks at its address, marked and recorded. -/
theorem allocate_eq_ok (valid : memory.Valid) {size : Nat} {address : UInt32} {after : Allocator}
    (h : memory.allocate size = .ok (address, after)) :
    after.Valid ∧ after.blockBytes = memory.blockBytes ∧ after.used.length = memory.used.length ∧
      (∀ r ∈ memory.records, r.1 ≠ address) ∧
      ∀ r, r ∈ after.records ↔ r = (address, memory.blocksFor size) ∨ r ∈ memory.records := by
  obtain ⟨first, found, rfl, rfl⟩ := granted_run h
  have needed := memory.blocksFor_pos size
  obtain ⟨-, inside, free⟩ := firstFit_sound needed (Nat.le_refl 0) found
  rw [Nat.zero_add] at inside
  have value := valid.toNat_ofNat (show first < memory.used.length by omega)
  have start : first = memory.block (UInt32.ofNat (first * memory.blockBytes)) := by
    rw [block, value, Nat.mul_div_cancel _ valid.positive]
  have aligned : (UInt32.ofNat (first * memory.blockBytes)).toNat % memory.blockBytes = 0 := by
    rw [value, Nat.mul_mod_left]
  have apart := valid.apart_of_free needed fun i low high => free i (Nat.zero_le i) low high
  generalize UInt32.ofNat (first * memory.blockBytes) = address at start aligned
  subst start
  have fresh := fresh_of_apart memory needed (fun r member => (valid.placed r member).1) apart
  exact ⟨valid.granted needed aligned inside apart, rfl, length_mark true inside, fresh,
    fun r => mem_record fresh⟩

theorem allocate_records {size : Nat} {address : UInt32} {after : Allocator}
    (h : memory.allocate size = .ok (address, after)) :
    after.records = record address (memory.blocksFor size) memory.records := by
  obtain ⟨_, _, rfl, rfl⟩ := granted_run h
  rfl

/-- An allocation that is given back leaves everything as it was. -/
theorem deallocate_allocate (valid : memory.Valid) {size : Nat} {address : UInt32}
    {after : Allocator} (h : memory.allocate size = .ok (address, after)) :
    after.deallocate address = .ok memory := by
  obtain ⟨validAfter, _, length, fresh, members⟩ := allocate_eq_ok valid h
  have owned : (address, memory.blocksFor size) ∈ after.records := (members _).mpr (.inl rfl)
  have inside := (validAfter.placed _ owned).2.2
  have needed := memory.blocksFor_pos size
  obtain ⟨first, found, rfl, rfl⟩ := granted_run h
  obtain ⟨-, room, free⟩ := firstFit_sound needed (Nat.le_refl 0) found
  rw [Nat.zero_add] at room
  have start : (UInt32.ofNat (first * memory.blockBytes)).toNat / memory.blockBytes = first := by
    rw [valid.toNat_ofNat (show first < memory.used.length by omega),
      Nat.mul_div_cancel _ valid.positive]
  have marked : mark false first (memory.blocksFor size)
    (mark true first (memory.blocksFor size) memory.used) =
      memory.used :=
    (mark_mark false true room).trans (mark_of_marked room fun i low high =>
      free i (Nat.zero_le i) low high)
  rw [deallocate, validAfter.lookup_iff.mpr owned]
  dsimp only at inside ⊢
  rw [start, if_pos (by rwa [length_mark true room]), marked, filter_record fresh]

/-- The allocator without an allocation: neither its marks nor its record. -/
def cleared (memory : Allocator) (address : UInt32) (blocks : Nat) : Allocator :=
  { memory with
    used := mark false (memory.block address) blocks memory.used
    records := memory.records.filter fun record => record.1 ≠ address }

section Freeing
variable (valid : memory.Valid) {address : UInt32} {blocks : Nat}
    (live : (address, blocks) ∈ memory.records)
include valid live

/-- A live run of blocks can be unmarked when its record goes. -/
theorem Valid.cleared : (memory.cleared address blocks).Valid := by
  have inside : memory.block address + blocks ≤ memory.used.length := (valid.placed _ live).2.2
  refine ⟨valid.positive, ?_, ?_, valid.ordered.filter _, ?_⟩
  · simp only [Allocator.cleared, length_mark false inside]
    exact valid.reach
  · intro r member
    simp only [Allocator.cleared, length_mark false inside]
    exact valid.placed r ((List.mem_filter.mp member).1)
  · intro i
    simp only [Allocator.cleared, getElem?_mark false inside]
    split
    · rename_i within
      constructor
      · nofun
      · rintro ⟨r, member, owns⟩
        rw [List.mem_filter, decide_eq_true_eq] at member
        exact absurd (congrArg Prod.fst (valid.owner_unique member.1 live owns within)) member.2
    · rename_i outside
      rw [valid.marked]
      constructor
      · rintro ⟨r, member, owns⟩
        refine ⟨r, ?_, owns⟩
        rw [List.mem_filter, decide_eq_true_eq]
        refine ⟨member, fun same => outside ?_⟩
        have own : r = (address, blocks) := Prod.ext same (valid.blocks_unique (same ▸ member) live)
        rw [own] at owns
        exact owns
      · rintro ⟨r, member, owns⟩
        exact ⟨r, (List.mem_filter.mp member).1, owns⟩

theorem deallocate_live : memory.deallocate address = .ok (memory.cleared address blocks) := by
  rw [deallocate, valid.lookup_iff.mpr live]
  exact if_pos (valid.placed _ live).2.2

theorem deallocate_exact :
    ∃ after, memory.deallocate address = .ok after ∧
      after.records = memory.records.filter (fun record => record.1 ≠ address) ∧
      ∀ i : Nat, after.used[i]? = some true ↔ memory.used[i]? = some true ∧
        ¬ memory.Owns (address, blocks) i := by
  refine ⟨_, deallocate_live valid live, rfl, fun i => ?_⟩
  simp only [Allocator.cleared, getElem?_mark false (valid.placed _ live).2.2]
  split
  · rename_i own
    exact ⟨nofun, fun marked => absurd own marked.2⟩
  · rename_i out
    exact ⟨fun marked => ⟨marked, out⟩, fun marked => marked.1⟩

theorem deallocate_eq_ok :
    ∃ after, memory.deallocate address = .ok after ∧ after.Valid ∧
      after.blockBytes = memory.blockBytes ∧ after.used.length = memory.used.length ∧
      ∀ r, r ∈ after.records ↔ r ∈ memory.records ∧ r.1 ≠ address := by
  refine ⟨_, deallocate_live valid live, valid.cleared live, rfl,
    length_mark false (valid.placed _ live).2.2, ?_⟩
  intro r
  simp only [Allocator.cleared, List.mem_filter, decide_eq_true_eq]

end Freeing

theorem deallocate_dead {address : UInt32} (dead : memory.records.lookup address = none) :
    memory.deallocate address = .error (.invalidDeallocation memory.unit address) := by
  rw [deallocate, dead]

theorem cleared_of_deallocate (valid : memory.Valid) {address : UInt32} {after : Allocator}
    (h : memory.deallocate address = .ok after) :
    ∃ blocks, (address, blocks) ∈ memory.records ∧ after = memory.cleared address blocks := by
  cases found : memory.records.lookup address with
  | none => cases (deallocate_dead found).symm.trans h
  | some blocks =>
    have live := valid.lookup_iff.mp found
    cases (deallocate_live valid live).symm.trans h
    exact ⟨blocks, live, rfl⟩

theorem valid_after_deallocate (valid : memory.Valid) {address : UInt32} {after : Allocator}
    (h : memory.deallocate address = .ok after) :
    after.Valid ∧ after.blockBytes = memory.blockBytes ∧
    after.used.length = memory.used.length := by
  obtain ⟨blocks, live, rfl⟩ := cleared_of_deallocate valid h
  exact ⟨valid.cleared live, rfl, length_mark false (valid.placed _ live).2.2⟩

/-- In blocks, a byte range and a record meet when they have a block in common. -/
theorem Valid.apart_iff (valid : memory.Valid) {start length : Nat} (nonempty : length ≠ 0)
    {r : UInt32 × Nat} (member : r ∈ memory.records) :
    (r.1.toNat + r.2 * memory.blockBytes ≤ start ∨ start + length ≤ r.1.toNat) ↔
      ¬ (memory.block r.1 ≤ (start + length - 1) / memory.blockBytes ∧
        start / memory.blockBytes < memory.block r.1 + r.2) := by
  have low : memory.block r.1 ≤ (start + length - 1) / memory.blockBytes ↔ r.1.toNat ≤
      start + length - 1 := by
    rw [valid.toNat_eq member]
    exact Nat.le_div_iff_mul_le valid.positive
  have high : start / memory.blockBytes < memory.block r.1 + r.2 ↔
      start < r.1.toNat + r.2 * memory.blockBytes := by
    rw [valid.toNat_eq member, ← Nat.add_mul]
    exact Nat.div_lt_iff_lt_mul valid.positive
  rw [low, high]
  omega

theorem all_unmarked_iff (used : List Bool) (first last : Nat) :
    (((used.drop first).take (last + 1 - first)).all (!·)) = true ↔
      ∀ i, first ≤ i → i ≤ last → used[i]? ≠ some true := by
  rw [List.all_eq_true]
  constructor
  · intro all i low high marked
    have found : ((used.drop first).take (last + 1 - first))[i - first]? = some true := by
      rw [List.getElem?_take_of_lt (by omega), List.getElem?_drop,
        show first + (i - first) = i by omega]
      exact marked
    simpa using all true (List.mem_of_getElem? found)
  · intro none value member
    obtain ⟨k, found⟩ := List.getElem?_of_mem member
    have bound : k < last + 1 - first := by
      have := (List.getElem?_eq_some_iff.mp found).1
      rw [List.length_take] at this
      omega
    rw [List.getElem?_take_of_lt bound, List.getElem?_drop] at found
    cases value with
    | false => rfl
    | true => exact absurd found (none _ (by omega) (by omega))

/-- A byte range is free exactly when no live allocation meets it. -/
theorem isRangeFree_iff (valid : memory.Valid) (start length : Nat) :
    memory.isRangeFree start length = true ↔ length = 0 ∨ ∀ r ∈ memory.records,
      r.1.toNat + r.2 * memory.blockBytes ≤ start ∨ start + length ≤ r.1.toNat := by
  unfold isRangeFree
  split
  · rename_i empty
    simp [empty]
  rename_i nonempty
  dsimp only
  rw [all_unmarked_iff]
  simp only [nonempty, false_or]
  constructor
  · intro free r member
    rw [valid.apart_iff nonempty member]
    rintro ⟨low, high⟩
    have nonzero := (valid.placed r member).1
    have ordered : start / memory.blockBytes ≤ (start + length - 1) / memory.blockBytes :=
      Nat.div_le_div_right (by omega)
    exact free (max (start / memory.blockBytes) (memory.block r.1)) (by omega) (by omega)
      ((valid.marked _).mpr ⟨r, member, by unfold Owns; omega⟩)
  · intro apart i low high marked
    obtain ⟨r, member, ownLow, ownHigh⟩ := (valid.marked i).mp marked
    exact (valid.apart_iff nonempty member).mp (apart r member) (by omega)

end BankedRing.Allocator
