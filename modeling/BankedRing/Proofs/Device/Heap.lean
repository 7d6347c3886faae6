import BankedRing.Proofs.Device.State

/-! Room for caches. Every tasklet reserves its caches out of one heap that is only reset as a
whole, so reservations of one size fill it without gaps, and the first that is refused finds
the remainder of the heap. Accepted settings leave room for three caches of every tasklet,
which no program exceeds. -/
namespace BankedRing

namespace Scratch

/-- Reservations of one size end with the remainder of the heap if they ask for more than all
of it. The end of the reservation that is refused has to fit a word. -/
theorem reserveCaches_exhausted {bytes taken : Nat} (count : Nat) (scratch : Scratch)
    (positive : 0 < bytes) (used : scratch.used = taken * bytes)
    (within : scratch.used ≤ scratch.capacity)
    (short : scratch.capacity < scratch.used + count * bytes)
    (word : (scratch.capacity / bytes + 1) * bytes < UInt64.size) :
    ∃ full, reserveCaches bytes count scratch =
      (full, some (.heapExhausted bytes (scratch.capacity % bytes))) := by
  induction count generalizing scratch taken with
  | zero => omega
  | succ count ih =>
    rw [Nat.succ_mul] at short
    have succ : (taken + 1) * bytes = scratch.used + bytes := by rw [Nat.succ_mul, used]
    by_cases granted : scratch.used + bytes ≤ scratch.capacity
    · have held : taken + 1 ≤ scratch.capacity / bytes := by
        rw [Nat.le_div_iff_mul_le positive, succ]
        exact granted
      have fits : scratch.used + bytes < UInt64.size := by
        rw [← succ]
        exact Nat.lt_of_le_of_lt (Nat.mul_le_mul_right _ (by omega)) word
      obtain ⟨full, exhausted⟩ := ih { scratch with used := scratch.used + bytes } succ.symm granted
        (by dsimp only; omega) word
      refine ⟨full, ?_⟩
      rw [reserveCaches, reserve, if_neg (by omega), if_pos granted]
      exact exhausted
    · have whole : scratch.capacity / bytes = taken := by
        refine Nat.div_eq_of_lt_le ?_ ?_
        · rw [← used]
          exact within
        · rw [succ]
          omega
      have remainder : scratch.capacity - scratch.used = scratch.capacity % bytes := by
        have split := Nat.div_add_mod' scratch.capacity bytes
        rw [whole, ← used] at split
        omega
      rw [whole, succ] at word
      refine ⟨scratch, ?_⟩
      rw [reserveCaches, reserve, if_neg (by omega), if_neg granted, remainder]

end Scratch

/-- Faults that no cache has a part in: the heap is not exhausted, and an access that is called
misaligned is so. -/
def Fault.SparesCaches : Fault → Prop
  | .heapExhausted _ _ => False
  | .misaligned offset length => offset % 8 ≠ 0 ∨ length % 8 ≠ 0
  | _ => True

theorem Fault.OfParameters.sparesCaches {fault : Fault} (h : fault.OfParameters) :
    fault.SparesCaches := by
  cases fault with
  | outOfBounds | misaligned | heapExhausted | symbolOverflow | taskletTrapped | trapped =>
    exact h.elim
  | _ => trivial

/-- Faults of an access to the bank. -/
def Fault.OfAccess : Fault → Prop
  | .misaligned offset length => offset % 8 ≠ 0 ∨ length % 8 ≠ 0
  | .outOfBounds _ _ _ | .trapped _ => True
  | _ => False

theorem Fault.OfAccess.sparesCaches {fault : Fault} (h : fault.OfAccess) : fault.SparesCaches := by
  cases fault with
  | misaligned => exact h
  | heapExhausted => exact h.elim
  | _ => trivial

namespace Bank

theorem check_faults (bank : Bank) (offset length : Nat) :
    Admits Fault.OfAccess (bank.check offset length) := by
  unfold check
  split
  · rename_i unaligned
    exact .error unaligned
  · split
    · exact .error trivial
    · exact .ok _

theorem buffer_faults (bytes : Nat) :
    Admits Fault.OfAccess (liftM (Checked.buffer bytes) : Except Fault Unit) := by
  unfold Checked.buffer
  split
  · exact .ok _
  · exact .error trivial

theorem readWords_faults (bank : Bank) (offset length : Nat) :
    Admits Fault.OfAccess (bank.readWords offset length) :=
  .bind (check_faults bank offset length) fun _ _ => .bind (buffer_faults length) fun _ _ => .ok _

theorem reserve_faults (bank : Bank) (offset length : Nat) :
    Admits Fault.OfAccess (bank.reserve offset length) :=
  .bind (check_faults bank offset length) fun _ _ => .bind (buffer_faults _) fun _ _ => .ok _

end Bank

namespace Stream

namespace Launch
variable {launch : Launch}

theorem runTasklets_spares (launch : Launch) (tasklets : List Nat) (scratch : Scratch) (bank : Bank)
    (heap : scratch.used + tasklets.length * (launch.caches * (8 * launch.cacheWords)) ≤
      scratch.capacity)
    (word : scratch.capacity < UInt64.size) :
    ∀ fault ∈ (launch.runTasklets tasklets (scratch, bank)).2, fault.SparesCaches := by
  induction tasklets generalizing scratch bank with
  | nil => nofun
  | cons tasklet rest ih =>
    rw [List.length_cons, Nat.succ_mul] at heap
    have reserved := Scratch.reserveCaches_eq_none
      (show scratch.used + launch.caches * (8 * launch.cacheWords) ≤ scratch.capacity by omega) word
    have later := ih { scratch with used := scratch.used + launch.caches * (8 * launch.cacheWords) }
      (launch.walk (launch.assigned tasklet) bank).1 (by dsimp only; omega) word
    intro fault member
    simp only [runTasklets, runTasklet, reserved] at member
    rcases Option.or_eq_some_iff.mp member with own | ⟨_, behind⟩
    · obtain ⟨_, _, rfl⟩ := Option.map_eq_some_iff.mp own
      trivial
    · exact later fault behind

theorem walk_eq_none (launch : Launch) {pieces : List (Nat × List Word × List Word)} (bank : Bank)
    (parts : ∀ p ∈ pieces, ∃ part, launch.kernel p.2.1 p.2.2 = .ok part) :
    (launch.walk pieces bank).2 = none := by
  induction pieces generalizing bank with
  | nil => rfl
  | cons p rest ih =>
    obtain ⟨part, result⟩ := parts p (by simp)
    rw [walk, result]
    exact ih _ fun q member => parts q (by simp [member])

/-- The heap is what stops tasklets that ask it for too much, as long as their kernel does not
trap. -/
theorem runTasklets_exhausted {whole : List Word} (positive : 0 < launch.cacheWords)
    (computes : launch.Computes whole) (tasklets : List Nat) (scratch : Scratch)
    {taken : Nat} (bank : Bank) (used : scratch.used = taken * (8 * launch.cacheWords))
    (within : scratch.used ≤ scratch.capacity)
    (short : scratch.capacity <
      scratch.used + tasklets.length * (launch.caches * (8 * launch.cacheWords)))
    (small : scratch.capacity < UInt64.size)
    (word : (scratch.capacity / (8 * launch.cacheWords) + 1) * (8 * launch.cacheWords) <
      UInt64.size) :
    (launch.runTasklets tasklets (scratch, bank)).2 =
      some (.heapExhausted (8 * launch.cacheWords)
        (scratch.capacity % (8 * launch.cacheWords))) := by
  induction tasklets generalizing scratch taken bank with
  | nil =>
    rw [List.length_nil] at short
    omega
  | cons tasklet rest ih =>
    rw [List.length_cons, Nat.succ_mul] at short
    by_cases own : scratch.used + launch.caches * (8 * launch.cacheWords) ≤ scratch.capacity
    · have reserved := Scratch.reserveCaches_eq_none own small
      have walked : (launch.walk (launch.assigned tasklet) bank).2 = none :=
        walk_eq_none launch bank fun p member =>
        ⟨_, (computes.piece p.1 p.2.1 p.2.2 (mem_assigned.mp member).1).2⟩
      have more : scratch.used + launch.caches * (8 * launch.cacheWords) =
          (taken + launch.caches) * (8 * launch.cacheWords) := by rw [Nat.add_mul, used]
      have later :=
        ih { scratch with used := scratch.used + launch.caches * (8 * launch.cacheWords) }
        (launch.walk (launch.assigned tasklet) bank).1 more own (by dsimp only; omega) small word
      simp only [runTasklets, runTasklet, reserved, walked, Option.map_none, Option.none_or]
      exact later
    · obtain ⟨full, exhausted⟩ :=
        Scratch.reserveCaches_exhausted launch.caches scratch (by omega) used within
        (by omega) word
      simp only [runTasklets, runTasklet, exhausted, reservationFault, Option.some_or]

end Launch

variable {region : Region} {bank : Bank} {shape : Shape} {scratch : Scratch}
    {prepare : Except Fault Kernel}

theorem openRegion_faults (region : Region) :
    Keeps (fun _ => True) Fault.OfAccess (openRegion region) :=
  openRegion_keeps_of region (fun _ _ _ _ => trivial) (fun bank _ => bank.reserve_faults _ _)
    fun bank _ _ => bank.readWords_faults _ _

theorem run_spares (fits : shape.Fits scratch.capacity)
    (prepared : Admits Fault.SparesCaches prepare) (region : Region) :
    Keeps (fun _ => True) Fault.SparesCaches (run scratch shape region prepare) := by
  refine fun bank _ => ⟨trivial, fun fault stopped failed => ?_⟩
  have ends := run_ends scratch shape region prepare bank
  rw [failed] at ends
  cases ends with
  | misshapen cache =>
    have aligned := fits.cache
    omega
  | refused opened => exact ((openRegion_faults region).of_error opened trivial).2.sparesCaches
  | unrecorded => trivial
  | unprepared _ refusal => exact prepared _ refusal
  | @stopped operands grown _ kernel _ _ _ _ _ _ ran =>
    have room : scratch.reset.used + (List.range (max shape.tasklets 1)).length *
        ((if region.b.isSome then 3 else 2) * (8 * shape.cacheWords)) ≤ scratch.capacity := by
      rw [List.length_range, Scratch.reset, Nat.zero_add, fits.cacheBytes_eq]
      exact caches_room fits
    exact Launch.runTasklets_spares (launchOf shape region kernel operands.1 operands.2) _
      scratch.reset grown room
      fits.word fault (congrArg Prod.snd ran)

section Demand
variable (cache : shape.cacheBytes ≠ 0 ∧ shape.cacheBytes % 8 = 0) (recorded : shape.Recorded)
  (reachable : Reachable region) (grants : Grants region bank)
include cache recorded reachable grants

/-- A launch of which nothing is refused runs out of heap exactly when its caches take more
than all of it. -/
theorem answer_run {kernel : Kernel} {whole : List Word} (ready : prepare = .ok kernel)
    (computes : (launchOf shape region kernel (bank.wordsAt region.a region.length)
      (secondWords region bank)).Computes whole) (length : whole.length = region.length / 8)
    (small : scratch.capacity < UInt64.size)
    (word : (scratch.capacity / shape.cacheBytes + 1) * shape.cacheBytes < UInt64.size) :
    answer (run scratch shape region prepare bank) =
      if scratch.capacity < max shape.tasklets 1 *
          ((if region.b.isSome then 3 else 2) * shape.cacheBytes) then
        .error (.heapExhausted shape.cacheBytes (scratch.capacity % shape.cacheBytes))
      else .ok () := by
  by_cases short : scratch.capacity <
      max shape.tasklets 1 * ((if region.b.isSome then 3 else 2) * shape.cacheBytes)
  · rw [if_pos short]
    let launch :=
      launchOf shape region kernel (bank.wordsAt region.a region.length) (secondWords region bank)
    have bytes : 8 * launch.cacheWords = shape.cacheBytes := by
      show 8 * (shape.cacheBytes / 8) = shape.cacheBytes
      omega
    have blank : scratch.reset.used = 0 * (8 * launch.cacheWords) := by
      rw [Scratch.reset, Nat.zero_mul]
    have exceeded : scratch.reset.capacity < scratch.reset.used +
        (List.range (max shape.tasklets 1)).length * (launch.caches * (8 * launch.cacheWords)) := by
      rw [bytes, List.length_range, Scratch.reset, Nat.zero_add]
      exact short
    have positive : 0 < launch.cacheWords := by omega
    have exhausted :=
      Launch.runTasklets_exhausted positive computes (List.range (max shape.tasklets 1))
      scratch.reset (bank.growTo ((target region + region.length) / 8)) blank (Nat.zero_le _)
        exceeded small
      (by rw [bytes]; exact word)
    rw [run_launch cache recorded reachable grants ready]
    rw [bytes] at exhausted
    cases outcome : launch.runTasklets (List.range (max shape.tasklets 1))
        (scratch.reset, bank.growTo ((target region + region.length) / 8)) with
    | mk state fault =>
      rw [outcome] at exhausted
      cases exhausted
      rfl
  · rw [if_neg short,
      run_computes cache recorded reachable grants ready computes length
        (Nat.le_of_not_lt short) small]
    rfl

end Demand
end Stream

namespace Device
variable {settings : Settings} {id : Nat} {device : Device} {order : Order}

/-- A launch streams its order and logs it; a stream that fails leaves no line. -/
theorem launch_eq_run (asked : device.order = .ok order) :
    launch device =
      match Stream.run (Scratch.empty device.scratchBytes) device.shape order.region
        (Operation.kernel <$> order.operation) device.bank with
      | .ok _ bank => .ok () { device with bank, log := device.log ++ [order.line] }
      | .error fault bank => .error fault { device with bank } := by
  have streams : device.program ≠ some .boot := by
    intro boots
    simp only [Device.order, boots] at asked
    cases asked
  rw [launch_eq_carryOut streams, asked, run_lift_ok, carryOut]
  cases outcome : Stream.run (Scratch.empty device.scratchBytes) device.shape order.region
      (Operation.kernel <$> order.operation) device.bank with
  | ok done bank =>
    have streamed : stream order.region (Operation.kernel <$> order.operation) device =
        .ok () { device with bank } := by rw [stream, outcome]
    rw [run_bind_ok streamed]
    rfl
  | error fault bank =>
    have streamed : stream order.region (Operation.kernel <$> order.operation) device =
        .error fault { device with bank } := by rw [stream, outcome]
    rw [run_bind_error streamed]

theorem answer_launch (asked : device.order = .ok order) :
    answer (launch device) = answer
      (Stream.run (Scratch.empty device.scratchBytes) device.shape order.region
      (Operation.kernel <$> order.operation) device.bank) := by
  rw [launch_eq_run asked]
  cases Stream.run (Scratch.empty device.scratchBytes) device.shape order.region
    (Operation.kernel <$> order.operation) device.bank <;> rfl

theorem launch_spares (accepted : settings.Accepted) (built : device.Built settings id)
    {fault : Fault} (failed : answer (launch device) = .error fault) : fault.SparesCaches := by
  by_cases boots : device.program = some .boot
  · rw [launch_eq_runBoot boots] at failed
    cases failed
  cases asked : device.order with
  | error refusal =>
    rw [launch_eq_carryOut boots, asked, run_lift_error] at failed
    cases failed
    exact (order_refuses device _ asked).sparesCaches
  | ok order =>
    rw [answer_launch asked, built.shape, built.scratch] at failed
    obtain ⟨_, failed⟩ := of_answer_error failed
    have prepared : Admits Fault.SparesCaches (Operation.kernel <$> order.operation) :=
      fun fault refused =>
      ((sensible_of_order asked).kernel_refuses fault refused).sparesCaches
    exact ((Stream.run_spares accepted.fits prepared order.region).of_error failed trivial).2

/-- A launch whose region lies in the bank, whose parameters are in order and whose operands
are reduced runs out of heap exactly when its caches take more than all of it. -/
theorem answer_launch_of_demand {operation : Operation} (asked : device.order = .ok order)
    (valid : order.operation = .ok operation) (grants : Stream.Grants order.region device.bank)
    (reachable : Stream.Reachable order.region)
    (first : ∀ x ∈ device.bank.wordsAt order.region.a order.region.length, x < operation.modulus)
    (second : ∀ y ∈ Stream.secondWords order.region device.bank, y < operation.modulus)
    (cache : device.shape.cacheBytes ≠ 0 ∧ device.shape.cacheBytes % 8 = 0)
    (recorded : device.shape.Recorded) (small : device.scratchBytes < UInt64.size)
    (word : (device.scratchBytes / device.shape.cacheBytes + 1) * device.shape.cacheBytes <
      UInt64.size) :
    answer (launch device) =
      if device.scratchBytes <
          max device.shape.tasklets 1 *
            ((if order.region.b.isSome then 3 else 2) * device.shape.cacheBytes) then
        .error (.heapExhausted device.shape.cacheBytes
          (device.scratchBytes % device.shape.cacheBytes))
      else .ok () := by
  have sensible := sensible_of_order asked
  have positive : 0 < device.shape.cacheWords := by
    rw [Shape.cacheWords]
    omega
  obtain ⟨whole, computed, length⟩ :=
    Operation.kernel_total (sensible.permitted operation valid) first fun _ => second
  rw [Bank.length_wordsAt] at length
  have ready : Operation.kernel <$> order.operation = .ok operation.kernel := by
    rw [valid]
    rfl
  rw [answer_launch asked]
  exact Stream.answer_run cache recorded reachable grants ready
    (Stream.computes_launchOf positive (sensible.unary operation valid) computed length)
      length small word

/-- Launches and the heap. On a unit built from accepted settings no program fails on account
of its caches, whatever its symbols and its bank hold. On any unit a launch of which nothing is
refused runs out of heap exactly when its caches take more than all of it; it then asked for
one more cache, of which the heap had the remainder left. The host needs room for one record
of each tasklet and for the bank up to the end of the target, and the reservation that is
refused has to end within a word. -/
theorem launch_heap :
    (∀ (settings : Settings) (id : Nat) (device : Device) (fault : Fault), settings.Accepted →
      device.Built settings id → answer (launch device) = .error fault → fault.SparesCaches) ∧
    ∀ (device : Device) (order : Order) (operation : Operation), device.order = .ok order →
      order.operation = .ok operation → Stream.Grants order.region device.bank →
      Stream.Reachable order.region →
      (∀ x ∈ device.bank.wordsAt order.region.a order.region.length, x < operation.modulus) →
      (∀ y ∈ Stream.secondWords order.region device.bank, y < operation.modulus) →
      device.shape.cacheBytes ≠ 0 ∧ device.shape.cacheBytes % 8 = 0 → device.shape.Recorded →
      device.scratchBytes < UInt64.size →
      (device.scratchBytes / device.shape.cacheBytes + 1) * device.shape.cacheBytes < UInt64.size →
      answer (launch device) =
        if device.scratchBytes < max device.shape.tasklets 1 *
            ((if order.region.b.isSome then 3 else 2) * device.shape.cacheBytes) then
          .error (.heapExhausted device.shape.cacheBytes
            (device.scratchBytes % device.shape.cacheBytes))
        else .ok () :=
  ⟨fun _ _ _ _ accepted built failed => launch_spares accepted built failed,
    fun _ _ _ asked valid grants reachable first second cache recorded small word =>
      answer_launch_of_demand asked valid grants reachable first second cache recorded small word⟩

/-- A unit whose modular program is asked for the parity of one word in its bank. -/
def parityUnit (bank : Bank) (start : Word) (scratchBytes : Nat) (shape : Shape) : Device where
  id := 0
  bank
  scratchBytes
  shape
  program := some .modular
  symbols := [(blockSymbol, ModularBlock.encode
    { operand := ⟨start, 8⟩, result := ⟨0, 8⟩, modulus := 97, p := 0, q := 0,
      form := .parity .inPlace })]
  log := []

theorem order_parityUnit (bank : Bank) (start : Word) (scratchBytes : Nat) (shape : Shape) :
    ∃ line, (parityUnit bank start scratchBytes shape).order =
      .ok ⟨⟨start.toNat, none, 8, none⟩, .ok (.parity 97), line⟩ := by
  let block : ModularBlock :=
    { operand := ⟨start, 8⟩, result := ⟨0, 8⟩, modulus := 97, p := 0, q := 0,
      form := .parity .inPlace }
  have decoded : ModularBlock.decode (block.encode ++ []) = .ok block := block.decode_encode []
  have valid : block.Valid := ⟨show Modulus.isSupported 97 = true by decide, trivial⟩
  have found : (parityUnit bank start scratchBytes shape).symbol blockSymbol =
      .ok block.encode := by
    simp only [symbol, parityUnit, List.lookup_cons, beq_self_eq_true, block]
  have program : (parityUnit bank start scratchBytes shape).program = some .modular := rfl
  rw [List.append_nil] at decoded
  simp only [Device.order, program, found, decoded, ok_bind, ModularBlock.order,
    ModularBlock.check_eq_ok valid]
  exact ⟨_, rfl⟩

theorem grants_parityUnit {bank : Bank} {start : Nat} (aligned : start % 8 = 0)
    (inside : start + 8 ≤ bank.capacity) :
    Stream.Grants ⟨start, none, 8, none⟩ bank :=
  ⟨⟨aligned, Nat.mod_self 8, inside⟩, nofun, ⟨aligned, Nat.mod_self 8, inside⟩⟩

theorem reduced_parityUnit {bank : Bank} {start : Nat} (reduced : bank.wordAt (start / 8) < 97) :
    ∀ x ∈ bank.wordsAt start 8, x < Operation.modulus (.parity 97) := by
  intro x member
  rw [List.mem_singleton.mp (show x ∈ [bank.wordAt (start / 8)] from member)]
  exact reduced

/-- A program that finds no parameters, and a heap that has room for two caches and a half. -/
theorem launch_heap_parity :
    (∃ fault, answer (launch ((parityUnit ⟨64, #[5]⟩ 0 24 ⟨1, 8⟩).load .modular)) = .error fault ∧
      fault.SparesCaches) ∧
    answer (launch (parityUnit ⟨64, #[5]⟩ 0 20 ⟨1, 8⟩)) = .ok () ∧
    answer (launch (parityUnit ⟨64, #[5]⟩ 0 20 ⟨2, 8⟩)) = .error (.heapExhausted 8 4) := by
  have accepted : ({ tasklets := 1, cacheBytes := 8, bankBytes := 64, scratchBytes := 24 } : Settings).Accepted :=
    ⟨rfl, by decide⟩
  have built : Built { tasklets := 1, cacheBytes := 8, bankBytes := 64, scratchBytes := 24 } 0
      ((parityUnit ⟨64, #[5]⟩ 0 24 ⟨1, 8⟩).load .modular) := ⟨rfl, rfl, rfl, rfl⟩
  have failed : answer (launch ((parityUnit ⟨64, #[5]⟩ 0 24 ⟨1, 8⟩).load .modular)) =
      .error (.invalidModulus 0) := rfl
  have grants : Stream.Grants ⟨0, none, 8, none⟩ ⟨64, #[5]⟩ := grants_parityUnit rfl (by decide)
  have reachable : Stream.Reachable ⟨0, none, 8, none⟩ := by
    unfold Stream.Reachable
    decide
  have reduced : ∀ x ∈ Bank.wordsAt ⟨64, #[5]⟩ 0 8, x < Operation.modulus (.parity 97) :=
    reduced_parityUnit (by decide)
  have demanded : ∀ tasklets, tasklets ≤ 2 →
    answer (launch (parityUnit ⟨64, #[5]⟩ 0 20 ⟨tasklets, 8⟩)) =
      if 20 < max tasklets 1 * ((if (none : Option Nat).isSome then 3 else 2) * 8) then
        .error (.heapExhausted 8 (20 % 8)) else .ok () := by
    intro tasklets few
    obtain ⟨line, asked⟩ := order_parityUnit ⟨64, #[5]⟩ 0 20 ⟨tasklets, 8⟩
    have recorded : Shape.Recorded ⟨tasklets, 8⟩ := by
      show 24 * tasklets < _
      omega
    exact launch_heap.2 _ _ _ asked rfl grants reachable reduced nofun
      (show 8 ≠ 0 ∧ 8 % 8 = 0 by decide) recorded (show 20 < UInt64.size by decide)
      (show (20 / 8 + 1) * 8 < UInt64.size by decide)
  exact ⟨⟨_, failed, launch_heap.1 _ _ _ _ accepted built failed⟩, demanded 1 (by decide),
    demanded 2 (by decide)⟩

/-- A unit of which a launch is asked that passes its checks, with caches that take more than
all of the heap. -/
def Overdrawn (device : Device) : Prop :=
  ∃ order operation, device.order = .ok order ∧ order.operation = .ok operation ∧
    Stream.Grants order.region device.bank ∧
    (∀ x ∈ device.bank.wordsAt order.region.a order.region.length, x < operation.modulus) ∧
    (∀ y ∈ Stream.secondWords order.region device.bank, y < operation.modulus) ∧
    (device.shape.cacheBytes ≠ 0 ∧ device.shape.cacheBytes % 8 = 0) ∧
    device.scratchBytes < max device.shape.tasklets 1 *
      ((if order.region.b.isSome then 3 else 2) * device.shape.cacheBytes)

theorem overdrawn_parityUnit {bank : Bank} {start : Word} {scratchBytes : Nat} {shape : Shape}
    (aligned : start.toNat % 8 = 0) (inside : start.toNat + 8 ≤ bank.capacity)
    (reduced : bank.wordAt (start.toNat / 8) < 97)
    (cache : shape.cacheBytes ≠ 0 ∧ shape.cacheBytes % 8 = 0)
    (short : scratchBytes < max shape.tasklets 1 * (2 * shape.cacheBytes)) :
    Overdrawn (parityUnit bank start scratchBytes shape) := by
  obtain ⟨line, asked⟩ := order_parityUnit bank start scratchBytes shape
  exact ⟨_, _, asked, rfl, grants_parityUnit aligned inside, reduced_parityUnit reduced,
    nofun, cache, short⟩

/-- The heap is not what stops a launch with more tasklets than the host can record, one whose
target ends where the host's buffers cannot reach, or one that asks for a cache that does not
end within a word. -/
theorem launch_heap_otherwise :
    (Overdrawn (parityUnit ⟨64, #[5]⟩ 0 64 ⟨400000000000000000, 8⟩) ∧
      answer (launch (parityUnit ⟨64, #[5]⟩ 0 64 ⟨400000000000000000, 8⟩)) =
        .error (.trapped .oversized)) ∧
    (Overdrawn (parityUnit (Bank.empty 9223372036854775808) 9223372036854775800 4 ⟨1, 8⟩) ∧
      answer (launch (parityUnit (Bank.empty 9223372036854775808) 9223372036854775800 4 ⟨1, 8⟩)) =
        .error (.trapped .oversized)) ∧
    (Overdrawn (parityUnit ⟨64, #[5]⟩ 0 18446744073709551615 ⟨1, 9223372036854775808⟩) ∧
      answer (launch (parityUnit ⟨64, #[5]⟩ 0 18446744073709551615 ⟨1, 9223372036854775808⟩)) =
        .error (.taskletTrapped 0)) := by
  have crowded : answer (launch (parityUnit ⟨64, #[5]⟩ 0 64 ⟨400000000000000000, 8⟩)) =
      .error (.trapped .oversized) := by
    obtain ⟨line, asked⟩ := order_parityUnit ⟨64, #[5]⟩ 0 64 ⟨400000000000000000, 8⟩
    rw [answer_launch asked]
    exact congrArg answer (Stream.run_unrecorded _ (Scratch.empty 64)
      (show 8 ≠ 0 ∧ 8 % 8 = 0 by decide) (by decide) (by decide)
        (grants_parityUnit rfl (by decide)))
  exact ⟨⟨overdrawn_parityUnit rfl (by decide) (by decide) (by decide) (by decide), crowded⟩,
    ⟨overdrawn_parityUnit rfl (by decide) (by decide) (by decide) (by decide), rfl⟩,
    ⟨overdrawn_parityUnit rfl (by decide) (by decide) (by decide) (by decide), rfl⟩⟩

end Device
end BankedRing
