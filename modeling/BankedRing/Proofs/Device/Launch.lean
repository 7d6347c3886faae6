import BankedRing.Proofs.Device.State

/-! What a launch computes. Once its parameters are in place a program replaces its
target region by its operation's result on the operands that stood in the bank. -/
namespace BankedRing.Device
variable {settings : Settings} {id : Nat} {device : Device}

theorem symbol_setSymbol {name : String} {bytes old : List UInt8}
    (h : device.symbol name = .ok old) :
    (device.setSymbol name bytes).symbol name = .ok bytes := by
  unfold symbol setSymbol at *
  dsimp only at *
  generalize device.symbols = symbols at *
  induction symbols with
  | nil => cases h
  | cons entry rest ih =>
    obtain ⟨other, value⟩ := entry
    by_cases same : name = other
    · subst same
      simp
    · have apart : (name == other) = false := by simpa using same
      simp only [List.map_cons, List.lookup_cons, apart] at h ⊢
      exact ih h

theorem symbol_setSymbol_other {name other : String} (apart : other ≠ name) (bytes : List UInt8) :
    (device.setSymbol name bytes).symbol other = device.symbol other := by
  unfold symbol setSymbol
  dsimp only
  generalize device.symbols = symbols
  induction symbols with
  | nil => rfl
  | cons entry rest ih =>
    obtain ⟨found, value⟩ := entry
    simp only [List.map_cons, List.lookup_cons]
    by_cases same : other = found
    · subst same
      simp [apart]
    · have different : (other == found) = false := by simpa using same
      simp only [different]
      exact ih

section Receiving
variable {target : String} {offset : Nat} {data : List UInt8}

theorem receive_eq_ok {written : Device} (h : device.write target offset data = .ok written) :
    receive target offset data device = .ok () written := by
  simp only [receive, run_get, h, run_lift_ok]
  rfl

theorem receive_eq_error {fault : Fault} (h : device.write target offset data = .error fault) :
    receive target offset data device = .error fault device := by
  simp only [receive, run_get, h, run_lift_error]

end Receiving

theorem receive_symbol {name : String} {old data : List UInt8}
    (symbol : device.symbol name = .ok old) (length : data.length = old.length)
    (apart : name ≠ bankTarget) :
    receive name 0 data device = .ok () (device.setSymbol name data) := by
  have behind : old.drop (0 + data.length) = [] := List.drop_eq_nil_of_le (by omega)
  have written : device.write name 0 data = .ok (device.setSymbol name data) := by
    simp only [write, if_neg apart, symbol, ok_bind, behind, List.take_zero, List.nil_append,
      List.append_nil]
    rw [if_neg (by omega)]
    rfl
  exact receive_eq_ok written

theorem receive_bank {offset : Nat} {words : List Word}
    (small : device.bank.capacity < Bank.addressable)
    (grants : device.bank.Grants offset (8 * words.length)) :
    receive bankTarget offset (Bytes.ofWords words) device =
      .ok () { device with bank := device.bank.put (offset / 8) words } := by
  have written : device.write bankTarget offset (Bytes.ofWords words) =
      .ok { device with bank := device.bank.put (offset / 8) words } := by
    simp only [write, if_true, Bank.write_eq_ok small grants, ok_bind]
    rfl
  exact receive_eq_ok written

theorem grants_of_receive {offset : Nat} {data : List UInt8} {reached : Device}
    (h : receive bankTarget offset data device = .ok () reached) :
    device.bank.Grants offset data.length := by
  cases written : device.write bankTarget offset data with
  | ok stepped =>
    simp only [write, if_true] at written
    obtain ⟨bank, written, _⟩ := bind_eq_ok.mp written
    exact Bank.grants_of_write written
  | error fault => cases (receive_eq_error written).symm.trans h

theorem symbolWord_eq_ok {name : String} {w : Word}
    (h : device.symbol name = .ok (Bytes.ofWord w)) :
    device.symbolWord name = .ok w := by
  have read := Bytes.number_append [] (Bytes.length_ofWord w)
  have value : UInt64.ofNat (Bytes.toNat (Bytes.ofWord w)) = w := Bytes.toWord_ofWord w
  rw [List.append_nil] at read
  simp only [symbolWord, symbolNumber, h, ok_bind, read]
  exact congrArg Except.ok value

theorem symbolHalfWord_eq_ok {name : String} {n : Nat} (small : n < UInt32.size)
    (h : device.symbol name = .ok (Bytes.ofNat 4 n)) : device.symbolHalfWord name =
      .ok (UInt32.ofNat n) := by
  have read := Bytes.number_append [] (Bytes.length_ofNat 4 n)
  rw [List.append_nil, Bytes.toNat_ofNat,
    Nat.mod_eq_of_lt (show n < 1 <<< (8 * 4) from small)] at read
  simp only [symbolHalfWord, symbolNumber, h, ok_bind, read]
  rfl

theorem prepared_of_stream {region : Region} {prepare : Except Fault Kernel} {after : Device}
    (h : stream region prepare device = .ok () after) : ∃ kernel, prepare = .ok kernel := by
  unfold stream at h
  cases ran : Stream.run (Scratch.empty device.scratchBytes) device.shape region prepare
    device.bank with
  | ok _ bank => exact Stream.prepared_of_run ran
  | error fault bank =>
    rw [ran] at h
    cases h

theorem supported_of_launch_tower {family : Family} {m : Word} {after : Device}
    (program : device.program = some (.tower family))
    (modulus : device.symbol modulusSymbol = .ok (Bytes.ofWord m))
    (h : launch device = .ok () after) :
    Modulus.isSupported m = true := by
  simp only [launch, run_get, program, runTower, symbolWord_eq_ok modulus, run_lift_ok] at h
  cases length : device.symbolHalfWord lengthSymbol with
  | error fault =>
    simp only [length, run_lift_error] at h
    cases h
  | ok bytes =>
    simp only [length, run_lift_ok] at h
    obtain ⟨_, _, streamed, _⟩ := run_bind_eq_ok.mp h
    obtain ⟨kernel, ready⟩ := prepared_of_stream streamed
    obtain ⟨m', supported, _⟩ := bind_eq_ok.mp ready
    unfold supportedModulus at supported
    split at supported
    · assumption
    · cases supported

theorem grants_towerRegion {bank : Bank} {bytes : Nat} (aligned : bytes % 8 = 0)
    (inside : 2 * bytes ≤ bank.capacity) : Stream.Grants (towerRegion bytes) bank := by
  refine ⟨⟨rfl, aligned, ?_⟩, fun b same => ?_, ⟨rfl, aligned, ?_⟩⟩
  · show 0 + bytes ≤ _
    omega
  · cases same
    exact ⟨aligned, aligned, by show bytes + bytes ≤ _; omega⟩
  · show 0 + bytes ≤ _
    omega

theorem launch_tower_eq {family : Family} {m : Word} {bytes : Nat}
    (program : device.program = some (.tower family))
    (modulus : device.symbol modulusSymbol = .ok (Bytes.ofWord m))
    (length : device.symbol lengthSymbol = .ok (Bytes.ofNat 4 bytes)) (word : bytes < UInt32.size) :
    launch device = (do
      stream (towerRegion bytes) do
        let m ← supportedModulus m
        let mu ← constantFor family m
        return (Operation.combine family m mu).kernel
      logLine s!"{(Program.tower family).name}: {bytes / 8} residues mod {m}" :
      Step Unit) device := by
  have value : (UInt32.ofNat bytes).toNat = bytes := UInt32.toNat_ofNat_of_lt' word
  simp only [launch, run_get, program, runTower, symbolWord_eq_ok modulus,
    symbolHalfWord_eq_ok word length, run_lift_ok, value, towerRegion]

section Accepted
variable (accepted : settings.Accepted) (built : device.Built settings id)
include accepted built

theorem fits_of_built : device.shape.Fits device.scratchBytes := by
  rw [built.shape, built.scratch]
  exact accepted.fits

theorem stream_eq_ok (recorded : settings.shape.Recorded) {region : Region}
    (grants : Stream.Grants region device.bank) {prepare : Except Fault Kernel}
    {operation : Operation} {whole : List Word} (ready : prepare = .ok operation.kernel)
    (unary : region.b = none → operation.isBinary = false)
    (computed : operation.kernel (device.bank.wordsAt region.a region.length)
      (Stream.secondWords region device.bank) = .ok whole) (length :
      whole.length = region.length / 8) :
    ∃ bank, stream region prepare device = .ok () { device with bank } ∧
      device.bank.Replaced (Stream.target region / 8) whole bank := by
  obtain ⟨bank, ran, replaced⟩ :=
    Stream.run_eq_ok (fits_of_built accepted built) (built.shape ▸ recorded)
    (small_of_built accepted built) grants ready unary computed length
  refine ⟨bank, ?_, replaced⟩
  rw [stream, ran]

theorem stream_unrecorded (unrecorded : ¬ settings.shape.Recorded) {region : Region}
    (grants : Stream.Grants region device.bank) (prepare : Except Fault Kernel) :
    ∃ stopped, stream region prepare device = .error (.trapped .oversized) stopped := by
  have fits := fits_of_built accepted built
  have stopped := Stream.run_unrecorded prepare (Scratch.empty device.scratchBytes)
    (by have := fits.cache; omega) (built.shape ▸ unrecorded) (small_of_built accepted built) grants
  exact ⟨_, by rw [stream, stopped]⟩

omit built in
theorem word_of_inside (capacity : device.bank.capacity = settings.bankBytes) {bytes : Nat}
    (inside : 2 * bytes ≤ device.bank.capacity) : bytes < UInt32.size := by
  have small := accepted.bank_small
  unfold Bank.addressable at small
  simp only [UInt32.size]
  omega

/-- The tower program combines the operand at the bank's start with the one behind it. -/
theorem launch_tower (recorded : settings.shape.Recorded) {family : Family} {m : Word} {bytes : Nat}
    (program : device.program = some (.tower family))
    (modulus : device.symbol modulusSymbol = .ok (Bytes.ofWord m))
    (length : device.symbol lengthSymbol = .ok (Bytes.ofNat 4 bytes)) (aligned : bytes % 8 = 0)
    (inside : 2 * bytes ≤ device.bank.capacity) (supported : Modulus.isSupported m = true)
    {a b : List Word} (first : device.bank.wordsAt 0 bytes = a)
    (second : device.bank.wordsAt bytes bytes = b) (ha : ∀ x ∈ a, x < m) (hb : ∀ y ∈ b, y < m) :
    ∃ bank, launch device = .ok () { device with
        bank
        log := device.log ++ [s!"{(Program.tower family).name}: {bytes / 8} residues mod {m}"] } ∧
      device.bank.Replaced 0 (family.combined m a b) bank := by
  have sizes : b.length = a.length := by
    rw [← first, ← second, Bank.length_wordsAt, Bank.length_wordsAt]
  have ready : (do
      let m ← supportedModulus m
      let mu ← constantFor family m
      return (Operation.combine family m mu).kernel : Except Fault Kernel) =
        .ok (Operation.combine family m (family.constant m)).kernel := by
    rw [supportedModulus, if_pos supported, ok_bind, constantFor_eq_ok family supported]
    rfl
  have computed : (Operation.combine family m (family.constant m)).kernel
      (device.bank.wordsAt (towerRegion bytes).a (towerRegion bytes).length)
      (Stream.secondWords (towerRegion bytes) device.bank) = .ok (family.combined m a b) := by
    show Operation.kernel _ (device.bank.wordsAt 0 bytes) (device.bank.wordsAt bytes bytes) = _
    rw [first, second]
    exact Operation.kernel_combine supported sizes ha hb
  obtain ⟨bank, streamed, replaced⟩ := stream_eq_ok accepted built recorded
    (grants_towerRegion aligned inside) ready nofun computed
    (by rw [family.length_combined m sizes, ← first, Bank.length_wordsAt]; rfl)
  have start : Stream.target (towerRegion bytes) / 8 = 0 := Nat.zero_div 8
  refine ⟨bank, ?_, start ▸ replaced⟩
  rw [launch_tower_eq program modulus length (word_of_inside accepted built.bank inside),
    run_bind_ok streamed]
  rfl

theorem launch_tower_unrecorded (unrecorded : ¬ settings.shape.Recorded)
    {family : Family} {m : Word} {bytes : Nat} (program : device.program = some (.tower family))
    (modulus : device.symbol modulusSymbol = .ok (Bytes.ofWord m))
    (length : device.symbol lengthSymbol = .ok (Bytes.ofNat 4 bytes)) (aligned : bytes % 8 = 0)
    (inside : 2 * bytes ≤ device.bank.capacity) :
    ∃ stopped, launch device = .error (.trapped .oversized) stopped := by
  obtain ⟨stopped, streamed⟩ := stream_unrecorded accepted built unrecorded
    (grants_towerRegion aligned inside) (do
      let m ← supportedModulus m
      let mu ← constantFor family m
      return (Operation.combine family m mu).kernel)
  refine ⟨stopped, ?_⟩
  rw [launch_tower_eq program modulus length (word_of_inside accepted built.bank inside),
    run_bind_error streamed]

end Accepted
end BankedRing.Device
