import BankedRing.Device.Stream
import BankedRing.Proofs.Device.Bank
import BankedRing.Proofs.Residue.Operation

/-! A streamed launch computes its operation on the whole region. Chunks are disjoint and
each holds the result for its own positions, so it does not matter which tasklet writes
a chunk or when: once every chunk is finished the region holds the whole result. -/
namespace BankedRing

namespace Scratch

/-- A reservation traps beyond a word, is granted inside the heap, and exhausts it otherwise. -/
theorem reserve_cases (scratch : Scratch) (bytes : Nat) :
    (UInt64.size ≤ scratch.used + bytes ∧ scratch.reserve bytes = .error (.trapped .overflow)) ∨
    (scratch.used + bytes ≤ scratch.capacity ∧
      scratch.reserve bytes = .ok (scratch.used, { scratch with used := scratch.used + bytes })) ∨
    (scratch.capacity < scratch.used + bytes ∧
      scratch.reserve bytes = .error (.heapExhausted bytes (scratch.capacity - scratch.used))) := by
  unfold reserve
  by_cases beyond : UInt64.size ≤ scratch.used + bytes
  · exact .inl ⟨beyond, if_pos beyond⟩
  by_cases fits : scratch.used + bytes ≤ scratch.capacity
  · exact .inr (.inl ⟨fits, by rw [if_neg beyond, if_pos fits]⟩)
  · exact .inr (.inr ⟨Nat.lt_of_not_le fits, by rw [if_neg beyond, if_neg fits]⟩)

theorem reserveCaches_eq_none {bytes count : Nat} {scratch : Scratch}
    (room : scratch.used + count * bytes ≤ scratch.capacity)
    (word : scratch.capacity < UInt64.size) :
    reserveCaches bytes count scratch =
      ({ scratch with used := scratch.used + count * bytes }, none) := by
  induction count generalizing scratch with
  | zero => simp [reserveCaches]
  | succ count ih =>
    have step : (count + 1) * bytes = count * bytes + bytes := Nat.succ_mul count bytes
    have granted : scratch.reserve bytes =
        .ok (scratch.used, { scratch with used := scratch.used + bytes }) := by
      rw [reserve, if_neg (by omega), if_pos (by omega)]
    simp only [reserveCaches, granted]
    have rest :
        ({ scratch with used := scratch.used + bytes } : Scratch).used + count * bytes ≤
          scratch.capacity := by
      dsimp only
      omega
    rw [ih rest word, step, Nat.add_assoc, Nat.add_comm bytes]

end Scratch

/-- Faults that a tasklet raises when it has a kernel to run. -/
def Fault.OfTasklets : Fault → Prop
  | .heapExhausted _ _ | .taskletTrapped _ => True
  | _ => False

theorem Fault.OfTasklets.reported {fault : Fault} (h : fault.OfTasklets) : fault.Reported := by
  rintro _ rfl
  exact h

/-- Shapes whose tasklets find room for three caches each in a scratch heap. -/
structure Shape.Fits (shape : Shape) (scratchBytes : Nat) : Prop where
  tasklets : 0 < shape.tasklets
  cache : shape.cacheBytes ≠ 0 ∧ shape.cacheBytes % 8 = 0
  room : 3 * shape.cacheBytes * shape.tasklets ≤ scratchBytes
  word : scratchBytes < UInt64.size

/-- The host can keep a record of each tasklet. -/
def Shape.Recorded (shape : Shape) : Prop :=
  Stream.taskletFootprint * shape.tasklets < 9223372036854775808

instance (shape : Shape) : Decidable shape.Recorded :=
  inferInstanceAs (Decidable (_ < _))

theorem Shape.Recorded.buffer {shape : Shape} (h : shape.Recorded) :
    Checked.buffer (Stream.taskletFootprint * max shape.tasklets 1) = .ok () := by
  unfold Recorded Stream.taskletFootprint at h
  refine Checked.buffer_eq_ok ?_
  unfold Stream.taskletFootprint
  omega

theorem Shape.buffer_of_not_recorded {shape : Shape} (h : ¬ shape.Recorded) :
    Checked.buffer (Stream.taskletFootprint * max shape.tasklets 1) = .error .oversized := by
  unfold Recorded Stream.taskletFootprint at h
  refine if_neg ?_
  unfold Stream.taskletFootprint
  omega

namespace Shape.Fits
variable {shape : Shape} {scratchBytes : Nat}

theorem cacheWords_pos (h : shape.Fits scratchBytes) : 0 < shape.cacheWords := by
  have := h.cache
  rw [cacheWords]
  omega

theorem cacheBytes_eq (h : shape.Fits scratchBytes) : 8 * shape.cacheWords = shape.cacheBytes := by
  have := h.cache
  rw [cacheWords]
  omega

end Shape.Fits

namespace Stream.Launch
variable {launch : Launch} {before bank : Bank} {whole : List Word} {finished : Nat → Prop}

/-- Every piece gives its part of one result, and the pieces make up all of it. -/
structure Computes (launch : Launch) (whole : List Word) : Prop where
  piece : ∀ k a b, launch.pieces[k]? = some (a, b) →
    k * launch.cacheWords < whole.length ∧
      launch.kernel a b = .ok (slice (k * launch.cacheWords) launch.cacheWords whole)
  all : ∀ k, k * launch.cacheWords < whole.length → k < launch.pieces.length

/-- A bank in which the finished chunks hold their part of a result, and nothing but the
region of the result has changed. -/
structure Holds (launch : Launch) (before : Bank) (whole : List Word) (finished : Nat → Prop)
    (bank : Bank) : Prop where
  capacity : bank.capacity = before.capacity
  size : bank.words.size = before.words.size
  inside : ∀ i, i < whole.length → finished (i / launch.cacheWords) →
    bank.wordAt (launch.destination / 8 + i) = whole.getD i 0
  outside : ∀ i, i < launch.destination / 8 ∨ launch.destination / 8 + whole.length ≤ i →
    bank.wordAt i = before.wordAt i

theorem Holds.weaken {fewer : Nat → Prop} (h : launch.Holds before whole finished bank)
    (sub : ∀ i, i < whole.length → fewer (i / launch.cacheWords) →
      finished (i / launch.cacheWords)) :
    launch.Holds before whole fewer bank :=
  ⟨h.capacity, h.size, fun i inside member => h.inside i inside (sub i inside member), h.outside⟩

section Steps
variable (positive : 0 < launch.cacheWords)
  (room : launch.destination / 8 + whole.length ≤ before.words.size)
include positive room

theorem Holds.store (h : launch.Holds before whole finished bank) {k : Nat}
    (start : k * launch.cacheWords < whole.length) :
    launch.Holds before whole (fun j => finished j ∨ j = k)
      (bank.store (launch.destination / 8 + k * launch.cacheWords)
        (slice (k * launch.cacheWords) launch.cacheWords whole)) := by
  have length := length_slice (k * launch.cacheWords) launch.cacheWords whole
  have fits : launch.destination / 8 + k * launch.cacheWords +
      (slice (k * launch.cacheWords) launch.cacheWords whole).length ≤ bank.words.size := by
    rw [h.size]
    omega
  refine ⟨by rw [Bank.capacity_store, h.capacity], by rw [Bank.size_store, h.size], ?_, ?_⟩
  · intro i inside member
    rw [Bank.wordAt_store fits, length]
    have chunk : i / launch.cacheWords = k ↔
        k * launch.cacheWords ≤ i ∧ i < k * launch.cacheWords + launch.cacheWords := by
      rw [Nat.div_eq_iff positive]
      omega
    split
    · have offset : launch.destination / 8 + i - (launch.destination / 8 + k * launch.cacheWords) =
          i - k * launch.cacheWords := by omega
      rw [offset, getD_slice (by omega)]
      congr 1
      omega
    · rename_i other
      exact h.inside i inside (member.resolve_right fun same => by have := chunk.mp same; omega)
  · intro i out
    rw [Bank.wordAt_store fits, length, if_neg (by omega)]
    exact h.outside i out

theorem walk_holds {pieces : List (Nat × List Word × List Word)}
    (parts : ∀ p ∈ pieces, p.1 * launch.cacheWords < whole.length ∧
      launch.kernel p.2.1 p.2.2 = .ok (slice (p.1 * launch.cacheWords) launch.cacheWords whole))
    (h : launch.Holds before whole finished bank) :
    ∃ after, launch.walk pieces bank = (after, none) ∧
      launch.Holds before whole (fun k => finished k ∨ ∃ p ∈ pieces, p.1 = k) after := by
  induction pieces generalizing bank finished with
  | nil => exact ⟨bank, rfl, h.weaken fun i _ member => by simpa using member⟩
  | cons p rest ih =>
    obtain ⟨start, result⟩ := parts p (by simp)
    obtain ⟨after, walked, holds⟩ := ih (fun q member => parts q (by simp [member]))
      (h.store positive room start)
    refine ⟨after, ?_, holds.weaken fun i _ member => ?_⟩
    · simp only [walk, result, walked]
    · simp only [List.mem_cons, exists_eq_or_imp] at member
      rcases member with done | same | later
      · exact .inl (.inl done)
      · exact .inl (.inr same.symm)
      · exact .inr later

end Steps

theorem mem_assigned {tasklet : Nat} {p : Nat × List Word × List Word} :
    p ∈ launch.assigned tasklet ↔ launch.pieces[p.1]? = some p.2 ∧
    p.1 % launch.tasklets = tasklet := by
  simp only [assigned, List.mem_filter, List.mem_map, decide_eq_true_eq]
  constructor
  · rintro ⟨⟨⟨piece, k⟩, member, rfl⟩, turn⟩
    exact ⟨List.mem_zipIdx_iff_getElem?.mp member, turn⟩
  · rintro ⟨piece, turn⟩
    exact ⟨⟨(p.2, p.1), List.mem_zipIdx_iff_getElem?.mpr piece, rfl⟩, turn⟩

/-- What a run of tasklets leaves: their reservations, and all of their chunks. -/
theorem runTasklets_holds (positive : 0 < launch.cacheWords)
    (room : launch.destination / 8 + whole.length ≤ before.words.size)
    (computes : launch.Computes whole) (tasklets : List Nat) {scratch : Scratch}
    (heap : scratch.used + tasklets.length * (launch.caches * (8 * launch.cacheWords)) ≤
      scratch.capacity)
    (word : scratch.capacity < UInt64.size) (h : launch.Holds before whole finished bank) :
    ∃ scratch' after, launch.runTasklets tasklets (scratch, bank) = ((scratch', after), none) ∧
      launch.Holds before whole (fun k => finished k ∨ k % launch.tasklets ∈ tasklets) after := by
  induction tasklets generalizing scratch bank finished with
  | nil => exact ⟨scratch, bank, rfl, h.weaken fun i _ member => by simpa using member⟩
  | cons tasklet rest ih =>
    rw [List.length_cons, Nat.succ_mul] at heap
    have own : scratch.used + launch.caches * (8 * launch.cacheWords) ≤ scratch.capacity := by omega
    have reserved := Scratch.reserveCaches_eq_none own word
    have parts : ∀ p ∈ launch.assigned tasklet, p.1 * launch.cacheWords < whole.length ∧
        launch.kernel p.2.1 p.2.2 = .ok (slice (p.1 * launch.cacheWords) launch.cacheWords whole) :=
      fun p member => computes.piece p.1 p.2.1 p.2.2 (mem_assigned.mp member).1
    obtain ⟨walked, walk, holds⟩ := walk_holds positive room parts h
    have left : ({ scratch with used := scratch.used + launch.caches * (8 * launch.cacheWords) } :
      Scratch).used +
        rest.length * (launch.caches * (8 * launch.cacheWords)) ≤ scratch.capacity := by
      dsimp only
      omega
    obtain ⟨scratch', after, later, holds⟩ := ih left word holds
    refine ⟨scratch', after, ?_, holds.weaken fun i inside member => ?_⟩
    · simp only [runTasklets, runTasklet, reserved, walk, later, Option.map_none, Option.none_or]
    · rcases member with done | turn
      · exact .inl (.inl done)
      · rcases List.mem_cons.mp turn with own | others
        · have start : i / launch.cacheWords * launch.cacheWords < whole.length :=
            Nat.lt_of_le_of_lt (Nat.div_mul_le_self _ _) inside
          have exists_piece := List.getElem?_eq_getElem (computes.all _ start)
          exact .inl (.inr ⟨(_, _), mem_assigned.mpr ⟨exists_piece, own⟩, rfl⟩)
        · exact .inr others

/-- What a kernel computes on every part of its operands it computes on the whole of them. -/
theorem computes_of_slices (positive : 0 < launch.cacheWords) {a b : List Word} {paired : Bool}
    (pieces : launch.pieces = (chunks launch.cacheWords a).zip
      (if paired then chunks launch.cacheWords b else (chunks launch.cacheWords a).map fun _ => []))
    (sizes : paired = true → b.length = a.length) (length : whole.length = a.length)
    (each : ∀ start, launch.kernel (slice start launch.cacheWords a)
      (if paired then slice start launch.cacheWords b else []) =
        .ok (slice start launch.cacheWords whole)) :
    launch.Computes whole := by
  constructor
  · intro k x y found
    rw [pieces, List.getElem?_zip_eq_some, getElem?_chunks positive] at found
    obtain ⟨first, other⟩ := found
    split at first
    · rename_i start
      cases first
      refine ⟨by omega, ?_⟩
      have piece := each (k * launch.cacheWords)
      cases paired with
      | true =>
        have same := sizes rfl
        simp only [if_pos] at other piece
        rw [getElem?_chunks positive, if_pos (by omega)] at other
        cases other
        exact piece
      | false =>
        simp only [Bool.false_eq_true, if_false, List.getElem?_map,
          Option.map_eq_some_iff] at other piece
        obtain ⟨_, _, rfl⟩ := other
        exact piece
    · cases first
  · intro k start
    have first := getElem?_chunks positive a k
    rw [if_pos (by omega)] at first
    have firstInside := (List.getElem?_eq_some_iff.mp first).1
    have secondInside : k < (if paired then chunks launch.cacheWords b
        else (chunks launch.cacheWords a).map fun _ => []).length := by
      cases paired with
      | true =>
        have same := sizes rfl
        simp only [if_pos]
        have other := getElem?_chunks positive b k
        rw [if_pos (by omega)] at other
        exact (List.getElem?_eq_some_iff.mp other).1
      | false => simpa using firstInside
    rw [pieces, List.length_zip]
    omega

theorem computes_of_kernel {operation : Operation} (positive : 0 < launch.cacheWords)
    (kernel : launch.kernel = operation.kernel) {a b : List Word} {paired : Bool}
    (pieces : launch.pieces = (chunks launch.cacheWords a).zip
      (if paired then chunks launch.cacheWords b else (chunks launch.cacheWords a).map fun _ => []))
    (second : if paired then b.length = a.length else operation.isBinary = false)
    (computed : operation.kernel a b = .ok whole) (length : whole.length = a.length) :
    launch.Computes whole := by
  refine computes_of_slices positive pieces (fun both => ?_) length fun start => ?_
  · rwa [both] at second
  · rw [kernel]
    cases paired with
    | true => exact Operation.kernel_slice computed _ _
    | false =>
      simp only [Bool.false_eq_true, if_false] at second ⊢
      rw [Operation.kernel_unary second _ [] (slice start launch.cacheWords b)]
      exact Operation.kernel_slice computed _ _

end Stream.Launch

namespace Stream
variable {region : Region} {bank : Bank} {shape : Shape} {scratchBytes : Nat}
  {prepare : Except Fault Kernel}

/-- Every range of a region lies in the bank. -/
structure Grants (region : Region) (bank : Bank) : Prop where
  first : bank.Grants region.a region.length
  second : ∀ b, region.b = some b → bank.Grants b region.length
  target : bank.Grants (target region) region.length

/-- The host has room for the target of a region, with all that lies before it. -/
def Reachable (region : Region) : Prop := target region + region.length < 9223372036854775808

theorem Grants.reachable (grants : Grants region bank) (small : bank.capacity < Bank.addressable) :
    Reachable region := Bank.room_of_grants small grants.target

/-- The words of the second operand, none where there is no such operand. -/
def secondWords (region : Region) (bank : Bank) : List Word :=
  match region.b with
  | some b => bank.wordsAt b region.length
  | none => []

theorem length_secondWords (paired : region.b ≠ none) :
    (secondWords region bank).length = region.length / 8 := by
  obtain ⟨b, present⟩ := Option.ne_none_iff_exists'.mp paired
  rw [secondWords, present, Bank.length_wordsAt]

theorem openRegion_eq_ok (reachable : Reachable region) (grants : Grants region bank) :
    openRegion region bank =
      .ok (bank.wordsAt region.a region.length, secondWords region bank)
        (bank.growTo ((target region + region.length) / 8)) := by
  obtain ⟨a, b, length, destination⟩ := region
  have short : length < 9223372036854775808 := Nat.lt_of_le_of_lt (Nat.le_add_left _ _) reachable
  have first := Bank.readWords_of_grants grants.first short
  have reserved := Bank.reserve_of_grants grants.target reachable
  simp only [openRegion, secondWords, run_get, reserved]
  cases b with
  | none => cases destination <;> simp only [first, Option.isSome, if_true, run_lift_ok] <;> rfl
  | some b =>
    have second := Bank.readWords_of_grants (grants.second b rfl) short
    cases destination <;>
      simp only [first, second, Option.isSome, if_true, run_lift_ok] <;> rfl

/-- The launch of a kernel over a region whose operands have been read. -/
def launchOf (shape : Shape) (region : Region) (kernel : Kernel) (a b : List Word) : Launch where
  kernel
  destination := target region
  cacheWords := shape.cacheWords
  tasklets := max shape.tasklets 1
  caches := if region.b.isSome then 3 else 2
  pieces := (chunks shape.cacheWords a).zip
    (if region.b.isSome then chunks shape.cacheWords b
      else (chunks shape.cacheWords a).map fun _ => [])

theorem computes_launchOf {operation : Operation} {whole : List Word}
    (positive : 0 < shape.cacheWords) (unary : region.b = none → operation.isBinary = false)
    (computed : operation.kernel (bank.wordsAt region.a region.length)
      (secondWords region bank) = .ok whole)
    (length : whole.length = region.length / 8) :
    (launchOf shape region operation.kernel (bank.wordsAt region.a region.length)
      (secondWords region bank)).Computes whole := by
  refine Launch.computes_of_kernel positive rfl rfl ?_ computed
    (by rw [length, Bank.length_wordsAt])
  split
  · rename_i present
    rw [length_secondWords (Option.isSome_iff_ne_none.mp present), Bank.length_wordsAt]
  · rename_i absent
    exact unary (Option.not_isSome_iff_eq_none.mp absent)

theorem caches_room (fits : shape.Fits scratchBytes) :
    max shape.tasklets 1 * ((if region.b.isSome then 3 else 2) * shape.cacheBytes) ≤
      scratchBytes := by
  have few : (if region.b.isSome then 3 else 2) ≤ 3 := by split <;> omega
  rw [Nat.max_eq_left fits.tasklets]
  calc shape.tasklets * ((if region.b.isSome then 3 else 2) * shape.cacheBytes)
      ≤ shape.tasklets * (3 * shape.cacheBytes) :=
        Nat.mul_le_mul_left _ (Nat.mul_le_mul_right _ few)
    _ = 3 * shape.cacheBytes * shape.tasklets := Nat.mul_comm _ _
    _ ≤ scratchBytes := fits.room

section Launching
variable {scratch : Scratch} {kernel : Kernel}
    (cache : shape.cacheBytes ≠ 0 ∧ shape.cacheBytes % 8 = 0)
  (recorded : shape.Recorded) (reachable : Reachable region) (grants : Grants region bank)
  (ready : prepare = .ok kernel)
include cache recorded reachable grants ready

theorem run_launch : run scratch shape region prepare bank =
    match (launchOf shape region kernel (bank.wordsAt region.a region.length)
      (secondWords region bank)).runTasklets
      (List.range (max shape.tasklets 1)) (scratch.reset,
        bank.growTo ((target region + region.length) / 8)) with
    | ((_, after), none) => .ok () after
    | ((_, after), some fault) => .error fault after := by
  have wellShaped : ¬ (shape.cacheBytes = 0 ∨ shape.cacheBytes % 8 ≠ 0) := by omega
  simp only [run, if_neg wellShaped, run_bind_ok (openRegion_eq_ok reachable grants),
    recorded.buffer, ready,
    run_lift_checked_ok, run_lift_ok, run_get, launchOf]
  generalize Launch.runTasklets _ _ _ = finished
  obtain ⟨⟨_, after⟩, fault⟩ := finished
  cases fault <;> rfl

/-- A launch with room for its caches puts what its pieces compute into the target of its
region, and nothing else changes. -/
theorem run_computes {whole : List Word}
    (computes : (launchOf shape region kernel (bank.wordsAt region.a region.length)
      (secondWords region bank)).Computes whole) (length : whole.length = region.length / 8)
    (room : max shape.tasklets 1 * ((if region.b.isSome then 3 else 2) * shape.cacheBytes) ≤
      scratch.capacity)
    (word : scratch.capacity < UInt64.size) :
    run scratch shape region prepare bank = .ok () (bank.put (target region / 8) whole) := by
  let launch :=
    launchOf shape region kernel (bank.wordsAt region.a region.length) (secondWords region bank)
  let grown := bank.growTo ((target region + region.length) / 8)
  have bytes : 8 * shape.cacheWords = shape.cacheBytes := by rw [Shape.cacheWords]; omega
  have positive : 0 < launch.cacheWords := by show 0 < shape.cacheWords; omega
  have end' : (target region + region.length) / 8 = target region / 8 + whole.length := by
    have := grants.target.1
    omega
  have inside : launch.destination / 8 + whole.length ≤ grown.words.size := by
    rw [Bank.size_growTo, end']
    exact Nat.le_max_right _ _
  have start : launch.Holds grown whole (fun _ => False) grown :=
    ⟨rfl, rfl, fun _ _ absurd => absurd.elim, fun _ _ => rfl⟩
  have heap : scratch.reset.used + (List.range (max shape.tasklets 1)).length *
      (launch.caches * (8 * launch.cacheWords)) ≤ scratch.reset.capacity := by
    rw [List.length_range, Scratch.reset, Nat.zero_add]
    show _ * ((if region.b.isSome then 3 else 2) * (8 * shape.cacheWords)) ≤ _
    rw [bytes]
    exact room
  obtain ⟨_, after, ran, holds⟩ := Launch.runTasklets_holds positive inside computes
    (List.range (max shape.tasklets 1)) heap word start
  have turn : ∀ i, i < whole.length →
      False ∨ i / launch.cacheWords % launch.tasklets ∈
        List.range (max shape.tasklets 1) := fun i _ =>
    .inr (List.mem_range.mpr (Nat.mod_lt _ (Nat.lt_of_lt_of_le Nat.one_pos (Nat.le_max_right _ _))))
  have final : after = bank.put (target region / 8) whole := by
    apply Bank.eq_of_wordAt
    · rw [holds.capacity, Bank.capacity_put]
      rfl
    · rw [holds.size, Bank.put, Bank.size_store, ← end']
    · intro i
      rw [Bank.wordAt_put]
      split
      · rename_i within
        have own := holds.inside (i - target region / 8) (by omega) (turn _ (by omega))
        rwa [show launch.destination / 8 + (i - target region / 8) = i by
          show target region / 8 + _ = _; omega] at own
      · rename_i without
        rw [holds.outside i (by show i < target region / 8 ∨ target region / 8 + _ ≤ i; omega),
          Bank.wordAt_growTo]
  rw [run_launch cache recorded reachable grants ready, ran, final]

end Launching

/-- A launch with room for its caches leaves the operation's result in the target of its
region and every other word as it was. -/
theorem run_eq_ok {operation : Operation} {whole : List Word} (fits : shape.Fits scratchBytes)
    (recorded : shape.Recorded) (small : bank.capacity < Bank.addressable)
    (grants : Grants region bank) (ready : prepare = .ok operation.kernel)
    (unary : region.b = none → operation.isBinary = false)
    (computed : operation.kernel (bank.wordsAt region.a region.length) (secondWords region bank) =
      .ok whole) (length : whole.length = region.length / 8) :
    ∃ after, run (Scratch.empty scratchBytes) shape region prepare bank = .ok () after ∧
      bank.Replaced (target region / 8) whole after := by
  have computes := computes_launchOf fits.cacheWords_pos unary computed length
  exact ⟨_, run_computes fits.cache recorded (grants.reachable small) grants ready computes length
    (caches_room fits) fits.word, Bank.replaced_put _ _ _⟩

/-- Without a record of each tasklet a launch traps before it prepares anything. -/
theorem run_unrecorded (prepare : Except Fault Kernel) (scratch : Scratch)
    (cache : shape.cacheBytes ≠ 0 ∧ shape.cacheBytes % 8 = 0)
    (unrecorded : ¬ shape.Recorded) (small : bank.capacity < Bank.addressable)
    (grants : Grants region bank) :
    run scratch shape region prepare bank =
      .error (.trapped .oversized) (bank.growTo ((target region + region.length) / 8)) := by
  have wellShaped : ¬ (shape.cacheBytes = 0 ∨ shape.cacheBytes % 8 ≠ 0) := by omega
  simp only [run, if_neg wellShaped, run_bind_ok (openRegion_eq_ok (grants.reachable small) grants),
    Shape.buffer_of_not_recorded unrecorded, run_lift_checked_error]
  rfl

/-- How a launch ends, by the stage that decides it. A launch that gets past the opening of its
regions has changed no word until its tasklets run. -/
inductive Ends (scratch : Scratch) (shape : Shape) (region : Region) (prepare : Except Fault Kernel)
    (bank : Bank) :
    EStateM.Result Fault Bank Unit → Prop where
  | misshapen (cache : shape.cacheBytes = 0 ∨ shape.cacheBytes % 8 ≠ 0) :
      Ends scratch shape region prepare bank (.error (.misaligned 0 shape.cacheBytes) bank)
  | refused {fault grown} (opened : openRegion region bank = .error fault grown) :
      Ends scratch shape region prepare bank (.error fault grown)
  | unrecorded {operands grown} (opened : openRegion region bank = .ok operands grown)
      (unrecorded : ¬ shape.Recorded) :
      Ends scratch shape region prepare bank (.error (.trapped .oversized) grown)
  | unprepared {operands grown fault} (opened : openRegion region bank = .ok operands grown)
      (refusal : prepare = .error fault) :
      Ends scratch shape region prepare bank (.error fault grown)
  | stopped {operands grown after kernel left fault} (cache : shape.cacheBytes ≠ 0 ∧
      shape.cacheBytes % 8 = 0)
      (recorded : shape.Recorded) (opened : openRegion region bank = .ok operands grown)
      (ready : prepare = .ok kernel)
      (ran : (launchOf shape region kernel operands.1 operands.2).runTasklets
        (List.range (max shape.tasklets 1))
        (scratch.reset, grown) = ((left, after), some fault)) :
      Ends scratch shape region prepare bank (.error fault after)
  | finished {operands grown after kernel left} (cache : shape.cacheBytes ≠ 0 ∧
      shape.cacheBytes % 8 = 0)
      (recorded : shape.Recorded) (opened : openRegion region bank = .ok operands grown)
      (ready : prepare = .ok kernel)
      (ran : (launchOf shape region kernel operands.1 operands.2).runTasklets
        (List.range (max shape.tasklets 1))
        (scratch.reset, grown) = ((left, after), none)) :
      Ends scratch shape region prepare bank (.ok () after)

theorem run_ends (scratch : Scratch) (shape : Shape) (region : Region)
    (prepare : Except Fault Kernel) (bank : Bank) :
    Ends scratch shape region prepare bank (run scratch shape region prepare bank) := by
  by_cases cache : shape.cacheBytes = 0 ∨ shape.cacheBytes % 8 ≠ 0
  · simp only [run, if_pos cache, run_throw_bind]
    exact .misshapen cache
  cases opened : openRegion region bank with
  | error fault grown =>
    simp only [run, if_neg cache, run_bind_error opened]
    exact .refused opened
  | ok operands grown =>
  by_cases recorded : shape.Recorded
  · cases prepare with
    | error fault =>
      simp only [run, if_neg cache, run_bind_ok opened, recorded.buffer, run_lift_checked_ok,
        run_lift_error]
      exact .unprepared opened rfl
    | ok kernel =>
      have aligned : shape.cacheBytes ≠ 0 ∧ shape.cacheBytes % 8 = 0 := by omega
      simp only [run, if_neg cache, run_bind_ok opened, recorded.buffer, run_lift_checked_ok,
        run_lift_ok, run_get]
      cases ran : (launchOf shape region kernel operands.1 operands.2).runTasklets
          (List.range (max shape.tasklets 1)) (scratch.reset, grown) with
      | mk state fault =>
      have finished := ran
      rw [launchOf] at finished
      rw [finished]
      cases fault with
      | none => exact .finished aligned recorded opened rfl ran
      | some fault => exact .stopped aligned recorded opened rfl ran
  · simp only [run, if_neg cache, run_bind_ok opened, Shape.buffer_of_not_recorded recorded,
      run_lift_checked_error]
    exact .unrecorded opened recorded

theorem prepared_of_run {scratch : Scratch} {after : Bank}
    (finished : run scratch shape region prepare bank = .ok () after) :
    ∃ kernel, prepare = .ok kernel := by
  have ends := run_ends scratch shape region prepare bank
  rw [finished] at ends
  cases ends with
  | finished _ _ _ ready => exact ⟨_, ready⟩

section Failure

theorem walk_capacity (launch : Launch) (pieces : List (Nat × List Word × List Word))
    (bank : Bank) :
    (launch.walk pieces bank).1.capacity = bank.capacity := by
  induction pieces generalizing bank with
  | nil => rfl
  | cons p rest ih =>
    simp only [Launch.walk]
    split
    · rw [ih, Bank.capacity_store]
    · rfl

theorem runTasklet_capacity (launch : Launch) (tasklet : Nat) (state : Scratch × Bank) :
    (launch.runTasklet tasklet state).1.2.capacity = state.2.capacity := by
  simp only [Launch.runTasklet]
  split
  · rfl
  · exact walk_capacity _ _ _

theorem runTasklets_capacity (launch : Launch) (tasklets : List Nat) (state : Scratch × Bank) :
    (launch.runTasklets tasklets state).1.2.capacity = state.2.capacity := by
  induction tasklets generalizing state with
  | nil => rfl
  | cons tasklet rest ih =>
    exact (ih (launch.runTasklet tasklet state).1).trans (runTasklet_capacity _ _ _)

theorem reserveCaches_fault (bytes count : Nat) (scratch : Scratch) (tasklet : Nat) :
    ∀ fault ∈ (Scratch.reserveCaches bytes count scratch).2,
      (Launch.reservationFault tasklet fault).OfTasklets := by
  induction count generalizing scratch with
  | zero => nofun
  | succ count ih =>
    intro fault raised
    rcases scratch.reserve_cases bytes with ⟨_, beyond⟩ | ⟨_, granted⟩ | ⟨_, exhausted⟩
    · rw [Scratch.reserveCaches, beyond] at raised
      cases raised
      trivial
    · rw [Scratch.reserveCaches, granted] at raised
      exact ih _ fault raised
    · rw [Scratch.reserveCaches, exhausted] at raised
      cases raised
      trivial

theorem runTasklet_faults (launch : Launch) (tasklet : Nat) (state : Scratch × Bank) :
    ∀ fault ∈ (launch.runTasklet tasklet state).2, fault.OfTasklets := by
  have reservations := reserveCaches_fault (8 * launch.cacheWords) launch.caches state.1 tasklet
  intro fault raised
  simp only [Launch.runTasklet] at raised
  cases reserved : Scratch.reserveCaches (8 * launch.cacheWords) launch.caches state.1 with
  | mk left refusal =>
    rw [reserved] at reservations raised
    cases refusal with
    | some refusal =>
      cases raised
      exact reservations refusal rfl
    | none =>
      obtain ⟨_, _, rfl⟩ := Option.map_eq_some_iff.mp raised
      trivial

theorem runTasklets_faults (launch : Launch) (tasklets : List Nat) (state : Scratch × Bank) :
    ∀ fault ∈ (launch.runTasklets tasklets state).2, fault.OfTasklets := by
  induction tasklets generalizing state with
  | nil => nofun
  | cons tasklet rest ih =>
    intro fault raised
    simp only [Launch.runTasklets] at raised
    rcases Option.or_eq_some_iff.mp raised with own | ⟨_, later⟩
    · exact runTasklet_faults launch tasklet state fault own
    · exact ih _ fault later

theorem openRegion_keeps_of {P : Bank → Prop} {E : Fault → Prop} (region : Region)
    (grown : ∀ bank after : Bank, P bank → bank.reserve (target region) region.length = .ok after →
      P after)
    (reserve : ∀ bank, P bank → Admits E (bank.reserve (target region) region.length))
    (read : ∀ bank offset, P bank → Admits E (bank.readWords offset region.length)) :
    Keeps P E (openRegion region) := by
  refine .get fun bank holds => ?_
  have write : ∀ a b : List Word, Keeps P E (do
      set (← bank.reserve (target region) region.length)
      return (a, b) : EStateM Fault Bank (List Word × List Word)) := fun a b =>
    .lift_bind (fun after reserved => .bind (.set (grown bank after holds reserved)) fun _ =>
      .pure _)
      (reserve bank holds)
  have rest : ∀ b, Keeps P E (do
      let b ← match (b : Option Nat) with
        | some offset => bank.readWords offset region.length
        | none => pure []
      set (← bank.reserve (target region) region.length)
      return (bank.wordsAt region.a region.length, b) :
          EStateM Fault Bank (List Word × List Word)) := by
    intro b
    cases b with
    | none => exact write _ []
    | some offset => exact .lift_bind (fun words _ => write _ words) (read bank offset holds)
  dsimp only
  split
  · exact .lift_bind (fun _ _ => rest region.b) (read bank region.a holds)
  · exact rest region.b

theorem operands_of_openRegion {operands : List Word × List Word} {after : Bank}
    (h : openRegion region bank = .ok operands after) :
    operands = (bank.wordsAt region.a region.length, secondWords region bank) := by
  have written : ∀ (b : List Word) (middle : Bank), (do
      set (← bank.reserve (target region) region.length)
      return (bank.wordsAt region.a region.length, b) :
        EStateM Fault Bank (List Word × List Word)) middle =
        .ok operands after → operands = (bank.wordsAt region.a region.length, b) := by
    intro b middle h
    obtain ⟨_, _, _, h⟩ := run_bind_eq_ok.mp h
    obtain ⟨_, _, _, h⟩ := run_bind_eq_ok.mp h
    cases h
    rfl
  have rest : ∀ middle : Bank, (do
      let b ← match region.b with
        | some offset => bank.readWords offset region.length
        | none => pure []
      set (← bank.reserve (target region) region.length)
      return (bank.wordsAt region.a region.length, b) :
        EStateM Fault Bank (List Word × List Word)) middle =
        .ok operands after → operands =
          (bank.wordsAt region.a region.length, secondWords region bank) := by
    intro middle h
    unfold secondWords
    cases second : region.b with
    | none =>
      simp only [second] at h
      exact written [] _ h
    | some offset =>
      simp only [second] at h
      cases read : bank.readWords offset region.length with
      | error fault =>
        rw [read, run_lift_error] at h
        cases h
      | ok words =>
        rw [read, run_lift_ok, Bank.words_of_readWords read] at h
        exact written _ _ h
  simp only [openRegion, run_get] at h
  split at h
  · obtain ⟨_, _, _, h⟩ := run_bind_eq_ok.mp h
    exact rest _ h
  · exact rest _ h

theorem length_of_openRegion {operands : List Word × List Word} {after : Bank}
    (h : openRegion region bank = .ok operands after) : operands.1.length = region.length / 8 := by
  rw [operands_of_openRegion h, Bank.length_wordsAt]

variable {capacity : Nat}

theorem openRegion_keeps (small : capacity < Bank.addressable) (region : Region) :
    Keeps (fun bank => bank.capacity = capacity) Fault.Reported (openRegion region) := by
  apply openRegion_keeps_of
  · intro bank after same reserved
    exact (Bank.capacity_of_reserve reserved).trans same
  · rintro bank rfl
    exact fun _ failed => Bank.reserve_reported small failed
  · rintro bank offset rfl
    exact fun _ failed => Bank.readWords_reported small failed

/-- A launch keeps the bank's capacity, and the host has no trap from it unless it cannot
record the tasklets. -/
theorem run_keeps (small : capacity < Bank.addressable) (recorded : shape.Recorded)
    (scratch : Scratch) (region : Region)
    (prepared : ∀ fault, prepare = .error fault → fault.Reported) :
    Keeps (fun bank => bank.capacity = capacity) Fault.Reported
      (run scratch shape region prepare) := by
  by_cases cache : shape.cacheBytes = 0 ∨ shape.cacheBytes % 8 ≠ 0
  · simp only [run, if_pos cache]
    exact .throw_bind nofun
  simp only [run, if_neg cache, recorded.buffer]
  refine .bind (openRegion_keeps small region) fun operands => ?_
  refine .lift_bind (fun kernel _ => .get fun bank same => ?_) prepared
  let launch := launchOf shape region kernel operands.1 operands.2
  have finished :=
    runTasklets_capacity launch (List.range (max shape.tasklets 1)) (scratch.reset, bank)
  refine .bind (.set (finished.trans same)) fun _ => ?_
  split
  · rename_i fault found
    exact .throw (runTasklets_faults launch _ _ fault found).reported
  · exact .pure _

end Failure

end Stream
end BankedRing
