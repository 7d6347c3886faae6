import BankedRing.Device.State
import BankedRing.Proofs.Device.Block
import BankedRing.Proofs.Device.Stream

/-! What is checked before a unit computes. Accepted settings leave room for the caches of all
tasklets. A program refuses moduli that it cannot compute with, blocks that ask for a
meaningless operation, and symbols that it cannot read; all these are faults of its
parameters, and the host learns of them as such. -/
namespace BankedRing

/-- Settings that pass their check; the scratch heap is addressed by a word. -/
structure Settings.Accepted (settings : Settings) : Prop where
  valid : settings.validate = .ok ()
  word : settings.scratchBytes < UInt64.size

namespace Settings.Accepted
variable {settings : Settings}

theorem checks (h : settings.Accepted) :
    settings.units ≠ .count 0 ∧ settings.tasklets ≠ 0 ∧
      ¬ (settings.cacheBytes = 0 ∨ settings.cacheBytes % 8 ≠ 0) ∧
      ¬ (settings.bankBytes = 0 ∨ UInt32.size ≤ settings.bankBytes) ∧
      ¬ settings.scratchBytes < 3 * settings.cacheBytes * settings.tasklets := by
  have valid := h.valid
  unfold validate at valid
  by_cases units : settings.units = .count 0
  · simp only [if_pos units] at valid
    cases valid
  by_cases tasklets : settings.tasklets = 0
  · simp only [if_neg units, if_pos tasklets] at valid
    cases valid
  by_cases cache : settings.cacheBytes = 0 ∨ settings.cacheBytes % 8 ≠ 0
  · simp only [if_neg units, if_neg tasklets, if_pos cache] at valid
    cases valid
  by_cases bank : settings.bankBytes = 0 ∨ UInt32.size ≤ settings.bankBytes
  · simp only [if_neg units, if_neg tasklets, if_neg cache, if_pos bank] at valid
    cases valid
  by_cases room : settings.scratchBytes < 3 * settings.cacheBytes * settings.tasklets
  · simp only [if_neg units, if_neg tasklets, if_neg cache, if_neg bank, if_pos room] at valid
    cases valid
  exact ⟨units, tasklets, cache, bank, room⟩

theorem fits (h : settings.Accepted) : settings.shape.Fits settings.scratchBytes := by
  obtain ⟨_, tasklets, cache, _, room⟩ := h.checks
  exact ⟨Nat.pos_of_ne_zero tasklets, by simp only [shape]; omega, Nat.le_of_not_lt room, h.word⟩

theorem bank_small (h : settings.Accepted) : settings.bankBytes < Bank.addressable := by
  obtain ⟨_, _, _, bank, _⟩ := h.checks
  simp only [UInt32.size] at bank
  unfold Bank.addressable
  omega

end Settings.Accepted

/-- Outcomes without a trap of the host. -/
abbrev Reports {α : Type} (outcome : Except Fault α) : Prop := Admits Fault.Reported outcome

/-- Faults that a program finds in its symbols. -/
def Fault.OfParameters : Fault → Prop
  | .unknownKernel _ | .divisionByZero _ | .invalidModulus _ | .unknownSymbol _ | .badSymbol _ |
      .noProgram => True
  | _ => False

/-- Outcomes that fail on account of a program's symbols only. -/
abbrev Refuses {α : Type} (outcome : Except Fault α) : Prop := Admits Fault.OfParameters outcome

theorem Refuses.reports {α : Type} {outcome : Except Fault α} (h : Refuses outcome) :
    Reports outcome := by
  intro fault failed trap same
  have own := h fault failed
  rw [same] at own
  exact own

section Checks

theorem supportedModulus_refuses (m : Word) : Refuses (supportedModulus m) := by
  unfold supportedModulus
  split
  · exact .ok m
  · exact .error trivial

theorem constantFor_eq_ok (family : Family) {m : Word} (supported : Modulus.isSupported m = true) :
    constantFor family m = .ok (family.constant m) := by
  cases family with
  | mul =>
    rw [constantFor, Modulus.barrettConstant_eq_ok supported]
    rfl
  | _ => rfl

theorem supportedModulus_eq_ok {m : Word} (supported : Modulus.isSupported m = true) :
    supportedModulus m = .ok m := if_pos supported

/-- Blocks that the modular program goes on with. -/
def ModularBlock.Valid (block : ModularBlock) : Prop :=
  Modulus.isSupported block.modulus = true ∧
    match block.form with
    | .switchModulus | .changeModulus _ => Modulus.isSupported block.p = true
    | .scaleAndRound _ => block.q ≠ 0
    | .divideAndRound _ => block.p ≠ 0
    | _ => True

theorem ModularBlock.check_eq_ok {block : ModularBlock} (valid : block.Valid) :
    block.check = .ok () := by
  obtain ⟨supported, valid⟩ := valid
  rw [check, supportedModulus_eq_ok supported, ok_bind]
  cases form : block.form with
  | switchModulus =>
    simp only [form] at valid
    rw [supportedModulus_eq_ok valid]
    rfl
  | changeModulus =>
    simp only [form] at valid
    dsimp only
    rw [supportedModulus_eq_ok valid]
    split <;> rfl
  | scaleAndRound | divideAndRound =>
    simp only [form] at valid
    exact if_neg valid
  | _ => rfl

theorem supportedModulus_inv {m n : Word} (h : supportedModulus m = .ok n) :
    n = m ∧ Modulus.isSupported m = true := by
  unfold supportedModulus at h
  split at h
  · cases h
    exact ⟨rfl, ‹_›⟩
  · cases h

theorem isSupported_of_ok {m n : Word} (h : supportedModulus m = .ok n) :
    Modulus.isSupported m = true :=
  (supportedModulus_inv h).2

/-- The program goes on with valid blocks only. -/
theorem ModularBlock.valid_of_check {block : ModularBlock} (h : block.check = .ok ()) :
    block.Valid := by
  obtain ⟨_, supported, h⟩ := bind_eq_ok.mp h
  refine ⟨isSupported_of_ok supported, ?_⟩
  cases form : block.form with
  | switchModulus =>
    simp only [form] at h
    obtain ⟨_, new, _⟩ := bind_eq_ok.mp h
    exact isSupported_of_ok new
  | changeModulus =>
    simp only [form] at h
    split at h
    · obtain ⟨_, new, _⟩ := bind_eq_ok.mp h
      exact isSupported_of_ok new
    · rename_i parity
      show Modulus.isSupported block.p = true
      rw [not_not.mp parity]
      decide
  | scaleAndRound | divideAndRound =>
    simp only [form] at h
    intro zero
    rw [if_pos zero] at h
    cases h
  | _ => exact trivial

namespace ModularBlock
variable {block : ModularBlock}

theorem admitted_operation (valid : block.Valid) : block.operation.Admitted := by
  obtain ⟨supported, valid⟩ := valid
  unfold operation
  cases form : block.form with
  | _ =>
    simp only [form] at valid
    exact ⟨supported, valid⟩

theorem isBinary_operation (block : ModularBlock) : block.operation.isBinary = false := by
  unfold operation
  cases block.form <;> rfl

end ModularBlock

theorem ModularBlock.check_refuses (block : ModularBlock) : Refuses block.check := by
  unfold check
  refine .bind (supportedModulus_refuses _) fun _ _ => ?_
  cases block.form with
  | switchModulus => exact .bind (supportedModulus_refuses _) fun _ _ => .ok _
  | changeModulus =>
    dsimp only
    split
    · exact .bind (supportedModulus_refuses _) fun _ _ => .ok _
    · exact .ok _
  | scaleAndRound | divideAndRound =>
    dsimp only
    split
    · exact .error trivial
    · exact .ok _
  | _ => exact .ok _

theorem ElementwiseBlock.decode_refuses (bytes : List UInt8) : Refuses (decode bytes) := by
  unfold decode
  split
  · exact .error trivial
  · refine .bind ?_ fun _ _ => .ok _
    unfold ElementwiseForm.ofSelector
    split
    · exact .ok _
    · exact .error trivial

theorem ModularBlock.decode_refuses (bytes : List UInt8) : Refuses (decode bytes) := by
  unfold decode
  split
  · exact .error trivial
  · refine .bind ?_ fun _ _ => .ok _
    unfold ModularForm.ofSelector
    split
    · exact .ok _
    · exact .error trivial

end Checks

namespace Device

theorem symbol_refuses (device : Device) (name : String) : Refuses (device.symbol name) := by
  unfold symbol
  split
  · exact .ok _
  · exact .error trivial

theorem symbolNumber_refuses (device : Device) (name : String) (width : Nat) :
    Refuses (device.symbolNumber name width) := by
  refine .bind (symbol_refuses device name) fun bytes _ => ?_
  split
  · exact .ok _
  · exact .error trivial

end Device
end BankedRing
