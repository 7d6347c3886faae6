import BankedRing.Proofs.Device.Footprint

/-! What a program brings along. A unit with a program loaded has the symbols that the program
declares, in their sizes, and no transfer and no launch changes that. Whether a transfer goes
through is decided by the capacity of the bank and the sizes of the symbols alone. -/
namespace BankedRing

/-- The symbols of a unit, with a program loaded or without one. -/
def Program.declared : Option Program → List (String × Nat)
  | some program => program.symbols
  | none => []

theorem Program.lookup_declared {loaded : Option Program} {name : String} {size : Nat}
    (h : (name, size) ∈ declared loaded) : (declared loaded).lookup name = some size := by
  cases loaded with
  | none => cases h
  | some program =>
    cases program with
    | boot => cases h
    | tower family =>
      rcases List.mem_cons.mp h with same | later
      · cases same
        rfl
      · cases List.mem_singleton.mp later
        rfl
    | elementwise _ | modular =>
      cases List.mem_singleton.mp h
      rfl

namespace Device
variable {loaded : Option Program} {device : Device}

/-- The symbols of a unit with their sizes. -/
def sizes (device : Device) : List (String × Nat) :=
  device.symbols.map fun (name, bytes) => (name, bytes.length)

/-- A unit as a program has left it when it was loaded, but for what its symbols hold. -/
structure Furnished (loaded : Option Program) (device : Device) : Prop where
  program : device.program = loaded
  sizes : device.sizes = Program.declared loaded

theorem furnished_load (program : Program) (device : Device) :
    (device.load program).Furnished (some program) := by
  refine ⟨rfl, ?_⟩
  simp only [sizes, load, List.map_map]
  refine (List.map_congr_left fun entry _ => ?_).trans (List.map_id _)
  simp

theorem lookup_sizes (device : Device) (name : String) :
    device.sizes.lookup name = (device.symbols.lookup name).map List.length := by
  unfold sizes
  generalize device.symbols = symbols
  induction symbols with
  | nil => rfl
  | cons entry rest ih =>
    obtain ⟨other, bytes⟩ := entry
    simp only [List.map_cons, List.lookup_cons, ih]
    cases name == other <;> rfl

theorem sizes_setSymbol (furnished : device.Furnished loaded) {name : String}
    {old bytes : List UInt8} (symbol : device.symbol name = .ok old)
    (length : bytes.length = old.length) :
    (device.setSymbol name bytes).sizes = device.sizes := by
  have size : device.sizes.lookup name = some old.length := by
    unfold Device.symbol at symbol
    cases found : device.symbols.lookup name with
    | none =>
      rw [found] at symbol
      cases symbol
    | some held =>
      rw [found] at symbol
      cases symbol
      rw [lookup_sizes, found]
      rfl
  simp only [Device.sizes, setSymbol, List.map_map]
  refine List.map_congr_left fun (other, held) member => ?_
  by_cases same : other = name
  · subst same
    have declared : (other, held.length) ∈ device.sizes := List.mem_map.mpr ⟨_, member, rfl⟩
    rw [furnished.sizes] at size declared
    have unique := size.symm.trans (Program.lookup_declared declared)
    simp only [Function.comp, if_true, length, Option.some.inj unique]
  · simp only [Function.comp, if_neg same]

theorem receive_furnished (target : String) (offset : Nat) (data : List UInt8) :
    Keeps (Furnished loaded) (fun _ => True) (receive target offset data) := by
  refine .get fun device furnished => .lift_bind (fun after written => .set ?_) fun _ _ => trivial
  unfold write at written
  split at written
  · obtain ⟨bank, _, written⟩ := bind_eq_ok.mp written
    cases written
    exact ⟨furnished.program, furnished.sizes⟩
  · obtain ⟨old, symbol, written⟩ := bind_eq_ok.mp written
    obtain ⟨inside, written⟩ := guard_eq_ok.mp written
    cases written
    refine ⟨furnished.program, (sizes_setSymbol furnished symbol ?_).trans furnished.sizes⟩
    simp only [List.length_append, List.length_take, List.length_drop]
    omega

section Launching

theorem after_stream (region : Region) (prepare : Except Fault Kernel) (device : Device) :
    ∃ bank, after (stream region prepare device) = { device with bank } := by
  unfold stream
  cases Stream.run (Scratch.empty device.scratchBytes) device.shape region prepare device.bank with
  | ok _ bank => exact ⟨bank, rfl⟩
  | error _ bank => exact ⟨bank, rfl⟩

theorem after_carryOut (order : Order) (device : Device) :
    ∃ bank log, after (carryOut order device) = { device with bank, log } := by
  obtain ⟨bank, streamed⟩ := after_stream order.region (Operation.kernel <$> order.operation) device
  unfold carryOut
  cases outcome : stream order.region (Operation.kernel <$> order.operation) device with
  | ok _ reached =>
    rw [outcome] at streamed
    rw [run_bind_ok outcome]
    cases streamed
    exact ⟨bank, _, rfl⟩
  | error _ reached =>
    rw [outcome] at streamed
    rw [run_bind_error outcome]
    cases streamed
    exact ⟨bank, _, rfl⟩

/-- A launch changes the bank and the log at most, whatever its outcome. -/
theorem after_launch (device : Device) :
    ∃ bank log, after (launch device) = { device with bank, log } := by
  by_cases boots : device.program = some .boot
  · rw [launch_eq_runBoot boots]
    exact ⟨device.bank, _, rfl⟩
  · rw [launch_eq_carryOut boots]
    cases asked : device.order with
    | ok order => exact after_carryOut order device
    | error fault => exact ⟨device.bank, device.log, rfl⟩

theorem launch_furnished : Keeps (Furnished loaded) (fun _ => True) launch := by
  intro device furnished
  obtain ⟨bank, log, same⟩ := after_launch device
  rw [same]
  exact ⟨⟨furnished.program, furnished.sizes⟩, fun _ _ _ => trivial⟩

end Launching

section Deciding
variable {target : String} {offset length : Nat}

/-- What decides a transfer that takes a buffer of its own in the bank. -/
def verdict (capacity : Nat) (sizes : List (String × Nat)) (target : String)
    (offset length buffer : Nat) :
    Except Fault Unit :=
  if target = bankTarget then do
    (Bank.empty capacity).check offset length
    Checked.buffer buffer
  else
    match sizes.lookup target with
    | some size =>
      if size < offset + length then .error (.symbolOverflow target offset length size) else .ok ()
    | none => .error (.unknownSymbol target)

theorem symbol_verdict (apart : target ≠ bankTarget) (buffer : Nat) :
    verdict device.bank.capacity device.sizes target offset length buffer = (do
      let bytes ← device.symbol target
      if bytes.length < offset +
          length then throw (.symbolOverflow target offset length bytes.length)) := by
  rw [verdict, if_neg apart, lookup_sizes, symbol]
  cases device.symbols.lookup target with
  | none => rfl
  | some bytes => rfl

theorem write_decided (device : Device) (target : String) (offset : Nat) (data : List UInt8) :
    ∃ written, device.write target offset data = (do
      verdict device.bank.capacity device.sizes target offset data.length (offset + data.length)
      return written) := by
  by_cases bank : target = bankTarget
  · let grown := device.bank.growTo ((offset + data.length) / 8)
    refine ⟨{ device with bank := grown.store (offset / 8) (Bytes.toWords data) }, ?_⟩
    simp only [write, if_pos bank, verdict, Bank.write, Bank.reserve, bind_assoc, pure_bind]
    rfl
  · cases found : device.symbol target with
    | error fault =>
      refine ⟨device, ?_⟩
      rw [symbol_verdict bank, write, if_neg bank, found]
      rfl
    | ok old =>
      refine ⟨device.setSymbol target (old.take offset ++ data ++ old.drop (offset + data.length)),
        ?_⟩
      rw [symbol_verdict bank, write, if_neg bank, found]
      simp only [ok_bind]
      split <;> rfl

theorem read_decided (device : Device) (target : String) (offset length : Nat) :
    ∃ bytes, device.read target offset length = (do
      verdict device.bank.capacity device.sizes target offset length length
      return bytes) := by
  by_cases bank : target = bankTarget
  · refine ⟨Bytes.ofWords (device.bank.wordsAt offset length), ?_⟩
    simp only [read, if_pos bank, verdict, Bank.read, Bank.readWords, bind_assoc, pure_bind]
    rfl
  · cases found : device.symbol target with
    | error fault =>
      refine ⟨[], ?_⟩
      rw [symbol_verdict bank, read, if_neg bank, found]
      rfl
    | ok old =>
      refine ⟨(old.drop offset).take length, ?_⟩
      rw [symbol_verdict bank, read, if_neg bank, found]
      simp only [ok_bind]
      split <;> rfl

/-- A transfer is let through or refused; the only trap is a region inside the bank with too
large a buffer. -/
theorem verdict_cases (capacity : Nat) (sizes : List (String × Nat)) (target : String)
    (offset length buffer : Nat) :
    verdict capacity sizes target offset length buffer = .ok () ∨
      (∃ fault : Fault, fault.Reported ∧
        verdict capacity sizes target offset length buffer = .error fault) ∨
      verdict capacity sizes target offset length buffer = .error (.trapped .oversized) ∧
        target = bankTarget ∧ offset + length ≤ capacity ∧ 9223372036854775808 ≤ buffer := by
  unfold verdict
  by_cases bank : target = bankTarget
  · simp only [if_pos bank]
    cases placed : (Bank.empty capacity).check offset length with
    | error fault => exact .inr (.inl ⟨fault, Bank.check_reported placed, rfl⟩)
    | ok _ =>
      have inside : offset + length ≤ capacity := (Bank.check_eq_ok_iff.mp placed).2.2
      by_cases small : buffer < 9223372036854775808
      · exact .inl (by rw [ok_bind, Checked.buffer_eq_ok small]; rfl)
      · refine .inr (.inr ⟨?_, bank, inside, Nat.le_of_not_lt small⟩)
        rw [ok_bind, Checked.buffer, if_neg small]
        rfl
  · simp only [if_neg bank]
    cases sizes.lookup target with
    | none => exact .inr (.inl ⟨.unknownSymbol target, nofun, rfl⟩)
    | some size =>
      dsimp only
      split
      · exact .inr (.inl ⟨.symbolOverflow target offset length size, nofun, rfl⟩)
      · exact .inl rfl

end Deciding
end Device
end BankedRing
