import BankedRing.Proofs.Device.Order

/-! One unit under the host's steps. No step changes how a unit was built, and no fault
of a unit built from accepted settings is a trap of the host. A launch of a program
whose parameters are in place replaces its target region by the operation's result. -/
namespace BankedRing

namespace Device
variable {settings : Settings} {id : Nat} {device : Device}

/-- What a unit keeps from its acquisition on. -/
structure Built (settings : Settings) (id : Nat) (device : Device) : Prop where
  id : device.id = id
  bank : device.bank.capacity = settings.bankBytes
  scratch : device.scratchBytes = settings.scratchBytes
  shape : device.shape = settings.shape

theorem logLine_keeps (line : String) :
    Keeps (Built settings id) Fault.Reported (logLine line) :=
  .change fun _ built => ⟨built.id, built.bank, built.scratch, built.shape⟩

section Accepted
variable (accepted : settings.Accepted)
include accepted

theorem small_of_built (built : device.Built settings id) :
    device.bank.capacity < Bank.addressable := by
  rw [built.bank]
  exact accepted.bank_small

theorem stream_keeps (recorded : settings.shape.Recorded) (region : Region)
    {prepare : Except Fault Kernel} (prepared : Reports prepare) :
    Keeps (Built settings id) Fault.Reported (stream region prepare) := by
  intro device built
  have kept := Stream.run_keeps (small_of_built accepted built) (built.shape ▸ recorded)
    (Scratch.empty device.scratchBytes) region prepared device.bank rfl
  unfold stream
  cases outcome : Stream.run (Scratch.empty device.scratchBytes) device.shape region prepare
    device.bank with
  | ok _ bank =>
    rw [outcome] at kept
    exact ⟨⟨built.id, kept.1.trans built.bank, built.scratch, built.shape⟩, nofun⟩
  | error fault bank =>
    rw [outcome] at kept
    refine ⟨⟨built.id, kept.1.trans built.bank, built.scratch, built.shape⟩, ?_⟩
    intro _ _ same
    cases same
    exact kept.2 fault bank rfl

theorem carryOut_keeps (recorded : settings.shape.Recorded) {order : Order}
    (sensible : order.Sensible) :
    Keeps (Built settings id) Fault.Reported (carryOut order) :=
  .bind (stream_keeps accepted recorded _ sensible.kernel_refuses.reports) fun _ => logLine_keeps _

theorem write_reports (built : device.Built settings id) (target : String) (offset : Nat)
    (data : List UInt8) :
    Reports (device.write target offset data) := by
  unfold write
  split
  · refine .bind (fun fault failed => ?_) fun _ _ => .ok _
    exact Bank.write_reported (small_of_built accepted built) failed
  · refine .bind (symbol_refuses device target).reports fun old _ => ?_
    dsimp only
    split
    · exact .error nofun
    · exact .ok _

theorem read_reports (built : device.Built settings id) (target : String) (offset length : Nat) :
    Reports (device.read target offset length) := by
  unfold read
  split
  · exact fun fault failed => Bank.read_reported (small_of_built accepted built) failed
  · refine .bind (symbol_refuses device target).reports fun bytes _ => ?_
    dsimp only
    split
    · exact .error nofun
    · exact .ok _

theorem receive_keeps (target : String) (offset : Nat) (data : List UInt8) :
    Keeps (Built settings id) Fault.Reported (receive target offset data) := by
  refine .get fun device built => .lift_bind (fun after written => .set ?_)
    (write_reports accepted built target offset data)
  unfold write at written
  split at written
  · obtain ⟨bank, stored, same⟩ := bind_eq_ok.mp written
    cases same
    exact ⟨built.id, (Bank.capacity_of_write stored).trans built.bank, built.scratch, built.shape⟩
  · obtain ⟨old, _, written⟩ := bind_eq_ok.mp written
    dsimp only at written
    split at written
    · cases written
    · cases written
      exact ⟨built.id, built.bank, built.scratch, built.shape⟩

/-- A launch keeps the unit as it was built, and none of its faults is a trap of the host. -/
theorem launch_keeps (recorded : settings.shape.Recorded) :
    Keeps (Built settings id) Fault.Reported launch := by
  intro device built
  by_cases boots : device.program = some .boot
  · rw [launch_eq_runBoot boots]
    exact Keeps.get (fun _ _ => logLine_keeps _) device built
  · rw [launch_eq_carryOut boots]
    exact Keeps.lift_bind (fun _ asked =>
      carryOut_keeps accepted recorded (sensible_of_order asked))
      (order_refuses device).reports device built

end Accepted
end Device
end BankedRing
