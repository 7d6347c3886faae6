import BankedRing.Proofs.Device.Footprint
import BankedRing.Proofs.Device.Heap

/-! Launches that fail leave their unit as it was. Every check of a launch comes before its
tasklets run, and what comes before them reads the bank and materialises it, which no read can
tell. A fault of the tasklets themselves is the exception: what they had finished stays. -/
namespace BankedRing

/-- A bank that differs nowhere answers every access as before. -/
theorem Bank.Confined.read {bank after : Bank} (h : bank.Confined (fun _ => False) after)
    (offset length : Nat) :
    after.read offset length = bank.read offset length := by
  have words : after.wordsAt offset length = bank.wordsAt offset length := h.wordsAt fun _ _ => id
  simp only [Bank.read, readWords, check, h.capacity, words]

namespace Stream
variable {region : Region} {bank stopped : Bank} {shape : Shape} {scratch : Scratch}
    {prepare : Except Fault Kernel}
  {fault : Fault}

/-- A launch that stops before its tasklets run changes no word. -/
theorem run_untouched (failed : run scratch shape region prepare bank = .error fault stopped)
    (early : ¬ fault.OfTasklets) : bank.Confined (fun _ => False) stopped := by
  have opening : bank.Confined (fun _ => False) (after (openRegion region bank)) :=
    openRegion_confined region bank
  have ends := run_ends scratch shape region prepare bank
  rw [failed] at ends
  cases ends with
  | misshapen => exact .refl bank
  | refused opened | unrecorded opened | unprepared opened =>
    rw [opened] at opening
    exact opening
  | stopped _ _ _ _ ran =>
    -- All checks are passed, so the fault is one of the tasklets.
    exact absurd (runTasklets_faults _ _ _ fault (congrArg Prod.snd ran)) early

end Stream

namespace Device
variable {device stopped : Device} {fault : Fault}

theorem launch_eq_error (failed : launch device = .error fault stopped) :
    device.order = .error fault ∧ stopped = device ∨
      ∃ order bank, device.order = .ok order ∧ stopped = { device with bank } ∧
        Stream.run (Scratch.empty device.scratchBytes) device.shape order.region
          (Operation.kernel <$> order.operation) device.bank = .error fault bank := by
  cases asked : device.order with
  | error refusal =>
    by_cases boots : device.program = some .boot
    · rw [launch_eq_runBoot boots] at failed
      cases failed
    rw [launch_eq_carryOut boots, asked, run_lift_error] at failed
    cases failed
    exact .inl ⟨rfl, rfl⟩
  | ok order =>
    rw [launch_eq_run asked] at failed
    refine .inr ⟨order, ?_⟩
    cases outcome : Stream.run (Scratch.empty device.scratchBytes) device.shape order.region
        (Operation.kernel <$> order.operation) device.bank with
    | ok _ bank =>
      rw [outcome] at failed
      cases failed
    | error refusal bank =>
      rw [outcome] at failed
      cases failed
      exact ⟨bank, rfl, rfl, rfl⟩

/-- A unit that differs from another in nothing that the host can read, nor in its program,
its symbols and its log. -/
structure Intact (before after : Device) : Prop where
  reads : ∀ offset length, after.bank.read offset length = before.bank.read offset length
  symbols : after.symbols = before.symbols
  program : after.program = before.program
  log : after.log = before.log

theorem intact_of_bank {bank : Bank} (untouched : device.bank.Confined (fun _ => False) bank) :
    device.Intact { device with bank } :=
  ⟨untouched.read, rfl, rfl, rfl⟩

/-- Whatever a unit has loaded and holds, a launch that ends in a fault of other than its
tasklets leaves every read of the bank, the symbols, the program and the log as they were. -/
theorem launch_fault_intact (failed : launch device = .error fault stopped)
    (early : ¬ fault.OfTasklets) :
    device.Intact stopped := by
  rcases launch_eq_error failed with ⟨_, same⟩ | ⟨order, bank, _, rfl, streamed⟩
  · rw [same]
    exact intact_of_bank (.refl device.bank)
  · exact intact_of_bank (Stream.run_untouched streamed early)

/-- A unit whose modular program is asked for the parity of two words under a modulus. -/
def pairUnit (modulus : Word) (scratchBytes tasklets : Nat) : Device where
  id := 0
  bank := ⟨64, #[5]⟩
  scratchBytes
  shape := ⟨tasklets, 8⟩
  program := some .modular
  symbols := [(blockSymbol, ModularBlock.encode
    { operand := ⟨0, 16⟩, result := ⟨0, 16⟩, modulus, p := 0, q := 0, form := .parity .inPlace })]
  log := ["boot"]

/-- A modulus that is refused once the bank has been materialised up to its second word, which
no read can tell. -/
theorem launch_fault_intact_grown :
    ∃ stopped, launch (pairUnit 1 64 2) = .error (.invalidModulus 1) stopped ∧
      ¬ (Fault.invalidModulus 1).OfTasklets ∧ stopped.bank.words = #[5, 0] ∧
      (pairUnit 1 64 2).Intact stopped := by
  have failed : launch (pairUnit 1 64 2) =
      .error (.invalidModulus 1) { pairUnit 1 64 2 with bank := ⟨64, #[5, 0]⟩ } := rfl
  have early : ¬ (Fault.invalidModulus 1).OfTasklets := nofun
  exact ⟨_, failed, early, rfl, launch_fault_intact failed early⟩

/-- A tasklet that finds no room for its caches does not undo what the one before it wrote. -/
example : answer (launch (pairUnit 97 20 2)) = .error (.heapExhausted 8 4) ∧
    (after (launch (pairUnit 97 20 2))).bank.words = #[1, 0] := ⟨by cbv, by cbv⟩

end Device
end BankedRing
