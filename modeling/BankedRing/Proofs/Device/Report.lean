import BankedRing.Proofs.Device.Intact

/-! What a launch reports. A unit that finishes its launch has added one line to its log, and a
unit that does not has added none. Only a unit that boots finishes without a record of its
tasklets, so where one unit traps no other has a line of the same program to report. -/
namespace BankedRing.Device
variable {settings : Settings} {id : Nat} {device reached stopped : Device}

/-- The launch of a unit goes through. -/
def finishes (device : Device) : Bool := (answer (launch device)).toOption.isSome

/-- What a launch adds to the log of its unit. -/
def lines (device : Device) : List String := (after (launch device)).log.drop device.log.length

section Outcome

theorem launch_eq_ok (ran : launch device = .ok () reached) :
    (device.program = some .boot ∧ ∃ line, reached = { device with log := device.log ++ [line] }) ∨
      ∃ order bank, device.order = .ok order ∧
        reached = { device with bank, log := device.log ++ [order.line] } ∧
        Stream.run (Scratch.empty device.scratchBytes) device.shape order.region
          (Operation.kernel <$> order.operation) device.bank = .ok () bank := by
  by_cases boots : device.program = some .boot
  · rw [launch_eq_runBoot boots] at ran
    cases ran
    exact .inl ⟨boots, _, rfl⟩
  cases asked : device.order with
  | error refusal =>
    rw [launch_eq_carryOut boots, asked, run_lift_error] at ran
    cases ran
  | ok order =>
    rw [launch_eq_run asked] at ran
    refine .inr ⟨order, ?_⟩
    cases outcome : Stream.run (Scratch.empty device.scratchBytes) device.shape order.region
        (Operation.kernel <$> order.operation) device.bank with
    | ok _ bank =>
      rw [outcome] at ran
      cases ran
      exact ⟨bank, rfl, rfl, rfl⟩
    | error refusal bank =>
      rw [outcome] at ran
      cases ran

theorem log_of_ok (ran : launch device = .ok () reached) :
    ∃ line, reached.log = device.log ++ [line] := by
  rcases launch_eq_ok ran with ⟨_, line, rfl⟩ | ⟨order, bank, _, rfl, _⟩
  · exact ⟨line, rfl⟩
  · exact ⟨order.line, rfl⟩

theorem log_of_error {fault : Fault} (failed : launch device = .error fault stopped) :
    stopped.log = device.log := by
  rcases launch_eq_error failed with ⟨_, rfl⟩ | ⟨_, _, _, rfl, _⟩ <;> rfl

theorem finishes_of_ok (ran : launch device = .ok () reached) : device.finishes = true := by
  rw [finishes, ran]
  rfl

theorem finishes_of_error {fault : Fault} (failed : launch device = .error fault stopped) :
    device.finishes = false := by
  rw [finishes, failed]
  rfl

theorem lines_of_error {fault : Fault} (failed : launch device = .error fault stopped) :
    device.lines = [] := by
  rw [lines, failed]
  exact List.drop_eq_nil_of_le (Nat.le_of_eq (congrArg List.length (log_of_error failed)))

/-- A launch leaves the old log in front of its own lines. -/
theorem log_after_launch (device : Device) :
    (after (launch device)).log = device.log ++ device.lines := by
  cases outcome : launch device with
  | ok _ reached =>
    obtain ⟨line, grown⟩ := log_of_ok outcome
    have own : device.lines = [line] := by
      rw [lines, outcome]
      show reached.log.drop _ = _
      rw [grown, List.drop_left]
    show reached.log = _
    rw [own, grown]
  | error fault stopped =>
    rw [lines_of_error outcome, List.append_nil]
    exact log_of_error outcome

theorem length_lines (device : Device) :
    device.lines.length = if device.finishes then 1 else 0 := by
  cases outcome : launch device with
  | ok _ reached =>
    obtain ⟨line, grown⟩ := log_of_ok outcome
    rw [finishes_of_ok outcome, if_pos rfl, lines, outcome, List.length_drop]
    show reached.log.length - _ = _
    rw [grown, List.length_append, Nat.add_sub_cancel_left]
    rfl
  | error fault stopped =>
    rw [finishes_of_error outcome, lines_of_error outcome]
    rfl

end Outcome

theorem receive_log {log : List String} (target : String) (offset : Nat) (data : List UInt8) :
    Keeps (fun device => device.log = log) (fun _ => True) (receive target offset data) := by
  refine .get fun device same => .lift_bind (fun after written => .set ?_) fun _ _ => trivial
  unfold write at written
  split at written
  · obtain ⟨bank, _, written⟩ := bind_eq_ok.mp written
    cases written
    exact same
  · obtain ⟨old, _, written⟩ := bind_eq_ok.mp written
    obtain ⟨_, written⟩ := guard_eq_ok.mp written
    cases written
    exact same

section Trap

/-- A program other than the boot program finishes only where the tasklets are recorded. -/
theorem recorded_of_ok (streams : device.program ≠ some .boot)
    (ran : launch device = .ok () reached) :
    device.shape.Recorded := by
  rcases launch_eq_ok ran with ⟨boots, _⟩ | ⟨order, bank, _, _, streamed⟩
  · exact absurd boots streams
  · have ends := Stream.run_ends (Scratch.empty device.scratchBytes) device.shape order.region
      (Operation.kernel <$> order.operation) device.bank
    rw [streamed] at ends
    cases ends with
    | finished _ recorded => exact recorded

/-- A trap of an accepted unit comes from a program that streams without a record of its
tasklets. -/
theorem streams_of_trap (accepted : settings.Accepted) (built : device.Built settings id)
    {trap : Trap} (trapped : launch device = .error (.trapped trap) stopped) :
    device.program ≠ some .boot ∧ ¬ settings.shape.Recorded := by
  constructor
  · intro boots
    rw [launch_eq_runBoot boots] at trapped
    cases trapped
  · intro recorded
    exact (launch_keeps accepted recorded device built).2 _ _ trapped trap rfl

theorem log_of_unrecorded (streams : device.program ≠ some .boot)
    (unrecorded : ¬ device.shape.Recorded) :
    (after (launch device)).log = device.log := by
  cases outcome : launch device with
  | ok _ reached => exact absurd (recorded_of_ok streams outcome) unrecorded
  | error fault stopped => exact log_of_error outcome

end Trap
end BankedRing.Device
