import BankedRing.Proofs.Device.Intact
import BankedRing.Proofs.Transform.Evaluation
import BankedRing.Proofs.Word.Guarded

/-! Nothing traps on what is admitted. An operation with permitted parameters, and a transform
with tables that were built, end without a trap on reduced words. A launch over reduced words
therefore has one way left to lose a tasklet: a reservation that starts inside the scratch heap
and ends beyond a word, for which the caches of an accepted shape leave no room. -/
namespace BankedRing

namespace Scratch

/-- Among so many reservations of one size there is one that starts inside the heap and ends
beyond a word. -/
def Overruns (bytes count capacity : ℕ) : Prop :=
  ∃ granted < count, granted * bytes ≤ capacity ∧ UInt64.size ≤ (granted + 1) * bytes

theorem not_overruns {bytes count capacity : ℕ} (room : count * bytes ≤ capacity)
    (word : capacity < UInt64.size) :
    ¬ Overruns bytes count capacity := by
  rintro ⟨granted, below, _, beyond⟩
  have inside : (granted + 1) * bytes ≤ count * bytes := Nat.mul_le_mul_right bytes below
  omega

/-- Reservations of one size take whole multiples of it, and the one that traps ends beyond a
word. -/
theorem reserveCaches_taken {bytes taken : ℕ} (count : ℕ) (scratch : Scratch)
    (used : scratch.used = taken * bytes) (within : scratch.used ≤ scratch.capacity) :
    ∃ granted ≤ count,
      (reserveCaches bytes count scratch).1 = { scratch with used := (taken + granted) * bytes } ∧
      (taken + granted) * bytes ≤ scratch.capacity ∧
      ∀ fault ∈ (reserveCaches bytes count scratch).2, ∀ tasklet other,
        Stream.Launch.reservationFault tasklet fault = .taskletTrapped other →
        granted < count ∧ UInt64.size ≤ (taken + granted + 1) * bytes := by
  have succ : (taken + 1) * bytes = scratch.used + bytes := by rw [Nat.succ_mul, used]
  induction count generalizing scratch taken with
  | zero =>
    refine ⟨0, Nat.le_refl 0, ?_, used ▸ within, nofun⟩
    rw [reserveCaches, Nat.add_zero, ← used]
  | succ count ih =>
    rcases scratch.reserve_cases bytes with ⟨beyond, trapped⟩ | ⟨fits, granted⟩ | ⟨_, exhausted⟩
    · refine ⟨0, Nat.zero_le _, ?_, used ▸ within, fun _ _ _ _ _ => ⟨Nat.succ_pos count, ?_⟩⟩
      · rw [reserveCaches, trapped, Nat.add_zero, ← used]
      · rw [Nat.add_zero, succ]
        exact beyond
    · obtain ⟨more, few, state, inside, traps⟩ :=
        ih { scratch with used := scratch.used + bytes } succ.symm fits (by rw [Nat.succ_mul, succ])
      rw [Nat.add_assoc, Nat.add_comm 1] at state inside
      refine ⟨more + 1, by omega, ?_, inside, fun fault raised tasklet other trapped => ?_⟩
      · rw [reserveCaches, granted]
        exact state
      · rw [reserveCaches, granted] at raised
        obtain ⟨below, beyond⟩ := traps fault raised tasklet other trapped
        rw [Nat.add_assoc taken, Nat.add_comm 1] at beyond
        exact ⟨by omega, beyond⟩
    · refine ⟨0, Nat.zero_le _, ?_, used ▸ within, fun fault raised tasklet other trapped => ?_⟩
      · rw [reserveCaches, exhausted, Nat.add_zero, ← used]
      · rw [reserveCaches, exhausted] at raised
        cases raised
        cases trapped

end Scratch

namespace Stream

/-- Tasklets whose kernel computes are lost to the heap only. -/
theorem Launch.runTasklets_trapped {launch : Launch} {whole : List Word}
    (computes : launch.Computes whole) (tasklets : List ℕ) (scratch : Scratch)
    (taken : ℕ) (bank : Bank) (used : scratch.used = taken * (8 * launch.cacheWords))
    (within : scratch.used ≤ scratch.capacity) (tasklet : ℕ)
    (trapped : (launch.runTasklets tasklets (scratch, bank)).2 = some (.taskletTrapped tasklet)) :
    Scratch.Overruns (8 * launch.cacheWords) (taken + tasklets.length * launch.caches)
      scratch.capacity := by
  induction tasklets generalizing scratch taken bank with
  | nil => cases trapped
  | cons first rest ih =>
    obtain ⟨granted, few, left, inside, traps⟩ :=
      Scratch.reserveCaches_taken launch.caches scratch used within
    rw [List.length_cons, Nat.succ_mul rest.length]
    simp only [runTasklets, runTasklet] at trapped
    cases reserved : Scratch.reserveCaches (8 * launch.cacheWords) launch.caches scratch with
    | mk state refusal =>
    rw [reserved] at left traps trapped
    cases refusal with
    | some fault =>
      obtain ⟨below, beyond⟩ := traps fault rfl first tasklet (Option.some.inj trapped)
      exact ⟨taken + granted, by omega, inside, beyond⟩
    | none =>
      have walked : (launch.walk (launch.assigned first) bank).2 = none :=
        walk_eq_none launch bank fun p member =>
        ⟨_, (computes.piece p.1 p.2.1 p.2.2 (mem_assigned.mp member).1).2⟩
      simp only [walked, Option.map_none, Option.none_or] at trapped
      subst left
      obtain ⟨position, below, fits, beyond⟩ := ih _ _ _ rfl inside trapped
      exact ⟨position, by omega, fits, beyond⟩

variable {region : Region} {bank stopped : Bank} {shape : Shape} {scratch : Scratch}
    {prepare : Except Fault Kernel}

theorem run_trapped (refuses : Refuses prepare)
    (computes : ∀ kernel, prepare = .ok kernel → 0 < shape.cacheWords → ∃ whole,
      (launchOf shape region kernel (bank.wordsAt region.a region.length)
        (secondWords region bank)).Computes whole)
    {tasklet : ℕ} (failed : run scratch shape region prepare bank =
      .error (.taskletTrapped tasklet) stopped) :
    Scratch.Overruns shape.cacheBytes (max shape.tasklets 1 * if region.b.isSome then 3
      else 2) scratch.capacity := by
  have ends := run_ends scratch shape region prepare bank
  rw [failed] at ends
  cases ends with
  | refused opened => exact ((openRegion_faults region).of_error opened trivial).2.elim
  | unprepared _ refusal => exact (refuses _ refusal).elim
  | stopped cache _ opened ready ran =>
    have bytes : 8 * shape.cacheWords = shape.cacheBytes := by
      rw [Shape.cacheWords]
      omega
    obtain ⟨whole, pieces⟩ := computes _ ready (by omega)
    rw [operands_of_openRegion opened] at ran
    have traps :=
      Launch.runTasklets_trapped pieces (List.range (max shape.tasklets 1)) scratch.reset 0 _
      (by rw [Scratch.reset, Nat.zero_mul]) (Nat.zero_le _) tasklet (by rw [ran])
    simp only [launchOf, bytes, List.length_range, Nat.zero_add] at traps
    exact traps

end Stream

namespace RootTables
variable {root m : Word} {n : ℕ} {tables : RootTables}

/-- Built tables transform reduced words without a trap; what is refused is a list of another
length than theirs. -/
theorem answer_inPlace (built : ofRoot root n m = .ok tables) {values : List Word}
    (reduced : ∀ x ∈ values, x < m) :
    answer (forwardInPlace tables ⟨values⟩) = tables.checkLength values ∧
      answer (inverseInPlace tables ⟨values⟩) = tables.checkLength values := by
  obtain ⟨supported, bits, _, rfl, _, rootInverse, lengthInverse, _, inverted, _, _, _, _, same⟩ :=
    ofRoot_eq_ok built
  obtain ⟨rfl, psi', rooted⟩ := ofRoot_rooted built
  by_cases length : values.length = 2 ^ bits
  · have small := Modulus.lt_two_pow supported
    obtain ⟨r, computed, below, _⟩ := Residue.inverse_eq_ok (Modulus.two_le supported) (by omega)
      (UInt64.ofNat (2 ^ bits))
    cases computed.symm.trans inverted
    have represents : tables.lengthInverse.Represents tables.modulus lengthInverse.toNat := by
      have scales := congrArg RootTables.lengthInverse same
      rw [scales]
      exact represents_ofFactor below
    obtain ⟨_, ranForward, _⟩ := forwardInPlace_computes rooted length reduced
    obtain ⟨_, ranInverse, _⟩ := inverseInPlace_computes rooted represents length reduced
    rw [ranForward, ranInverse, checkLength_eq_ok rooted length]
    exact ⟨rfl, rfl⟩
  · rw [← rooted.length] at length
    have other : (⟨values⟩ : Array Word).size ≠ tables.length := length
    obtain ⟨refusedForward, refusedInverse⟩ := inPlace_refused other
    rw [refusedForward, refusedInverse, checkLength, if_neg length]
    exact ⟨rfl, rfl⟩

end RootTables

namespace Device
variable {device : Device}

/-- A unit whose bank holds reduced words wherever its symbols ask for operands. -/
def Reduced (device : Device) : Prop :=
  ∀ order operation, device.order = .ok order → order.operation = .ok operation →
    (∀ x ∈ device.bank.wordsAt order.region.a order.region.length, x < operation.modulus) ∧
      ∀ y ∈ Stream.secondWords order.region device.bank, y < operation.modulus

theorem exists_operation {order : Order} {kernel : Kernel}
    (ready : Operation.kernel <$> order.operation = .ok kernel) :
    ∃ operation, order.operation = .ok operation ∧ operation.kernel = kernel := by
  cases outcome : order.operation with
  | error refusal =>
    rw [outcome] at ready
    cases ready
  | ok operation =>
    rw [outcome] at ready
    cases ready
    exact ⟨operation, rfl, rfl⟩

/-- A launch over reduced words loses a tasklet to the heap only. -/
theorem overruns_of_trapped (reduced : device.Reduced) {tasklet : ℕ}
    (trapped : answer (launch device) = .error (.taskletTrapped tasklet)) :
    ∃ order, device.order = .ok order ∧ Scratch.Overruns device.shape.cacheBytes
      (max device.shape.tasklets 1 * if order.region.b.isSome then 3
        else 2) device.scratchBytes := by
  obtain ⟨stopped, failed⟩ := of_answer_error trapped
  rcases launch_eq_error failed with ⟨refused, _⟩ | ⟨order, bank, asked, _, streamed⟩
  · exact (order_refuses device _ refused).elim
  have sensible := sensible_of_order asked
  refine ⟨order, asked, Stream.run_trapped sensible.kernel_refuses (fun kernel ready positive => ?_)
    streamed⟩
  obtain ⟨operation, valid, rfl⟩ := exists_operation ready
  obtain ⟨first, second⟩ := reduced order operation asked valid
  obtain ⟨whole, computed, length⟩ :=
    Operation.kernel_total (sensible.permitted operation valid) first fun _ => second
  rw [Bank.length_wordsAt] at length
  exact ⟨whole, Stream.computes_launchOf positive (sensible.unary operation valid) computed length⟩

/-- No launch over reduced words loses a tasklet on a unit that was built from accepted settings. -/
theorem untrapped_of_accepted {settings : Settings} {id : ℕ} (accepted : settings.Accepted)
    (built : device.Built settings id) (reduced : device.Reduced) (tasklet : ℕ) :
    answer (launch device) ≠ .error (.taskletTrapped tasklet) := by
  intro trapped
  obtain ⟨order, _, overruns⟩ := overruns_of_trapped reduced trapped
  have fits := fits_of_built accepted built
  have room : max device.shape.tasklets 1 *
    ((if order.region.b.isSome then 3 else 2) * device.shape.cacheBytes) ≤
      device.scratchBytes := Stream.caches_room fits
  rw [← Nat.mul_assoc] at room
  exact Scratch.not_overruns room fits.word overruns

/-- Permitted operations on reduced words, on lists of any lengths and whatever their scalar,
exponent and constant, end without a trap; so do transforms with tables that were built, whose
positions and strides stay within a length below `2 ^ 60`, and the shifts and quotients of double
words. A launch over reduced words loses a tasklet only where one of its reservations starts
inside the scratch heap and ends beyond a word, so on no unit that was built from accepted
settings. -/
theorem admitted_never_traps :
    (∀ (operation : Operation) (a b destination : List Word), operation.Permitted →
      (∀ x ∈ a, x < operation.modulus) → (∀ y ∈ b, y < operation.modulus) →
      ∃ out, operation.apply a b destination = .ok out) ∧
    (∀ (root m : Word) (n : ℕ) (tables : RootTables) (values : List Word),
      RootTables.ofRoot root n m = .ok tables → (∀ x ∈ values, x < m) → n < 2 ^ 60 ∧
      answer (tables.forwardInPlace ⟨values⟩) = tables.checkLength values ∧
      answer (tables.inverseInPlace ⟨values⟩) = tables.checkLength values) ∧
    (∀ (x : DoubleWord) (amount : ℕ) (divisor : Word),
      x.checkedShiftRight amount = .ok (x.shiftRight amount) ∧
      x.checkedDivide divisor = .ok (x.divide divisor)) ∧
    (∀ (device : Device) (tasklet : ℕ), device.Reduced →
      answer (launch device) = .error (.taskletTrapped tasklet) →
      ∃ order, device.order = .ok order ∧ Scratch.Overruns device.shape.cacheBytes
        (max device.shape.tasklets 1 * if order.region.b.isSome then 3
          else 2) device.scratchBytes) ∧
    ∀ (settings : Settings) (id : ℕ) (device : Device), settings.Accepted →
      device.Built settings id →
      device.Reduced → ∀ tasklet, answer (launch device) ≠ .error (.taskletTrapped tasklet) := by
  refine ⟨fun operation a b destination permitted first second => ?_,
    fun root m n tables values built reduced => ⟨?_, RootTables.answer_inPlace built reduced⟩,
    fun x amount divisor => ⟨x.checkedShiftRight_eq_ok amount, x.checkedDivide_eq_ok divisor⟩,
    fun device tasklet reduced trapped => overruns_of_trapped reduced trapped,
    fun settings id device accepted => untrapped_of_accepted accepted⟩
  · obtain ⟨out, computed, _⟩ := Operation.apply_total permitted first (fun _ => second) destination
    exact ⟨out, computed⟩
  · obtain ⟨_, bits, short, rfl, _⟩ := RootTables.ofRoot_eq_ok built
    exact Nat.pow_lt_pow_right (by decide) short

/-- The parity of one reduced word, asked of a unit whose caches take half of the address space. -/
def vastUnit : Device := parityUnit ⟨64, #[5]⟩ 0 18446744073709551615 ⟨1, 9223372036854775808⟩

theorem reduced_five (scratchBytes : ℕ) (shape : Shape) :
    (parityUnit ⟨64, #[5]⟩ 0 scratchBytes shape).Reduced := by
  intro order operation asked valid
  obtain ⟨line, parity⟩ := order_parityUnit ⟨64, #[5]⟩ 0 scratchBytes shape
  cases parity.symm.trans asked
  cases valid
  have below : Bank.wordAt ⟨64, #[5]⟩ (0 / 8) < 97 := by decide
  exact ⟨reduced_parityUnit below, nofun⟩

theorem admitted_never_traps_vast :
    (∃ out, (Operation.combine .mul 97 5).apply [96, 3] [96] [0, 7] = .ok out) ∧
    (∃ tables, RootTables.ofRoot 2 4 17 = .ok tables ∧
      answer (tables.forwardInPlace ⟨[1, 0, 16, 3]⟩) = .ok ()) ∧
    (answer (launch vastUnit) = .error (.taskletTrapped 0) ∧
      ∃ order, vastUnit.order = .ok order ∧ Scratch.Overruns vastUnit.shape.cacheBytes
        (max vastUnit.shape.tasklets 1 * if order.region.b.isSome then 3
          else 2) vastUnit.scratchBytes) ∧
    answer (launch (parityUnit ⟨64, #[5]⟩ 0 24 ⟨1, 8⟩)) ≠ .error (.taskletTrapped 0) := by
  obtain ⟨operations, transforms, _, launches, settled⟩ := admitted_never_traps
  have permitted : (Operation.combine .mul 97 5).Permitted := ⟨by decide, trivial⟩
  have first : ∀ x ∈ ([96, 3] : List Word), x < 97 := by simp
  have second : ∀ y ∈ ([96] : List Word), y < 97 := by simp
  have values : ∀ x ∈ ([1, 0, 16, 3] : List Word), x < 17 := by simp
  obtain ⟨tables, built⟩ := RootTables.four_accepted
  have assembled : RootTables.ofRoot 2 (2 ^ 2) 17 = .ok tables := built
  obtain ⟨_, _, rooted⟩ := RootTables.ofRoot_rooted assembled
  obtain ⟨_, transformed, _⟩ := transforms 2 17 4 tables [1, 0, 16, 3] built values
  rw [RootTables.checkLength_eq_ok rooted rfl] at transformed
  have trapped : answer (launch vastUnit) = .error (.taskletTrapped 0) := rfl
  have accepted : ({ tasklets := 1, cacheBytes := 8, bankBytes := 64, scratchBytes := 24 } : Settings).Accepted :=
    ⟨rfl, by decide⟩
  exact ⟨operations _ _ _ [0, 7] permitted first second, ⟨tables, built, transformed⟩,
    ⟨trapped, launches vastUnit 0 (reduced_five _ _) trapped⟩,
    settled _ 0 _ accepted ⟨rfl, rfl, rfl, rfl⟩ (reduced_five _ _) 0⟩

/-- A launch over reduced words that loses a tasklet. -/
theorem reduced_launch_traps :
    ∃ (device : Device) (order : Order) (operation : Operation), device.order = .ok order ∧
      order.operation = .ok operation ∧ operation.Permitted ∧ device.Reduced ∧
      answer (launch device) = .error (.taskletTrapped 0) := by
  obtain ⟨line, asked⟩ :=
    order_parityUnit ⟨64, #[5]⟩ 0 18446744073709551615 ⟨1, 9223372036854775808⟩
  exact ⟨vastUnit, _, _, asked, rfl, ⟨by decide, trivial⟩, reduced_five _ _, rfl⟩

end Device
end BankedRing
