import BankedRing.Proofs.Host.Registry
import BankedRing.Proofs.Host.Tenancy

/-! Operations on resident vectors. A valid operation becomes one request behind the lock;
it writes the host kernel's result over its target on all units and nothing else. -/
namespace BankedRing.Resident
variable {v : Resident} {m : Word} {action : Action} {result : Option Resident}

/-- The operation on residues that an action stands for. -/
def Action.operation (m : Word) : Action → Operation
  | .combine family (.vector _) => .combine family m (family.constant m)
  | .combine family (.scalar value) => .combineScalar family value m (family.constant m)
  | .changeModulus new => .changeModulus m new
  | .parity => .parity m
  | .power exponent => .power exponent m
  | .inverse => .inverse m
  | .scaleAndRound p q => .scaleAndRound m p q
  | .divideAndRound q => .divideAndRound m q

/-- The vector on the right-hand side. -/
def Action.peer : Action → Option Resident
  | .combine _ (.vector other) => some other
  | _ => none

/-- Parameters that an action can be asked with: a supported new modulus, a divisor that is not
zero. -/
def Action.Valid : Action → Prop
  | .changeModulus new => Modulus.isSupported new = true
  | .scaleAndRound _ q | .divideAndRound q => q ≠ 0
  | _ => True

theorem Action.modulus_operation (m : Word) (action : Action) :
    (action.operation m).modulus = m := by
  cases action with
  | combine family argument => cases argument <;> rfl
  | _ => rfl

theorem Action.isBinary_operation (m : Word) (action : Action) :
    (action.operation m).isBinary = action.peer.isSome := by
  cases action with
  | combine family argument => cases argument <;> rfl
  | _ => rfl

theorem Action.admitted_operation (supported : Modulus.isSupported m = true)
    (valid : action.Valid) :
    (action.operation m).Admitted := by
  cases action with
  | combine family argument => cases argument <;> exact ⟨supported, rfl⟩
  | _ => exact ⟨supported, valid⟩

/-- The region of an operation on a vector's share. -/
def region (v : Resident) (peer result : Option Resident) : Region where
  a := v.address.toNat
  b := peer.map (·.address.toNat)
  length := v.bytes
  destination := result.map (·.address.toNat)

theorem toNat_start (v : Resident) : v.operand.start.toNat = v.address.toNat := by
  have small := v.address.toNat_lt
  exact UInt64.toNat_ofNat_of_lt' (Nat.lt_trans small (by decide))

theorem toNat_size (word : v.bytes < UInt32.size) : v.operand.size.toNat = v.bytes :=
  UInt32.toNat_ofNat_of_lt' word

theorem destination_eq (form : Placement) (placed : form = placementOf result) :
    (if form = .inPlace then none else some (resultOperand result).start.toNat) =
      result.map (·.address.toNat) := by
  subst placed
  cases result with
  | none => rfl
  | some r => exact congrArg some (toNat_start r)

theorem size_eq (same : ∀ r, result = some r → r.perUnit = v.perUnit) (form : Placement)
    (placed : form = placementOf result) : form = .separate →
    (resultOperand result).size = v.operand.size := by
  subst placed
  cases result with
  | none => nofun
  | some r =>
    intro _
    rw [resultOperand, operand, operand, bytes, bytes, same r rfl]

/-- The block of a modular form on a vector's share. -/
def modularBlock (v : Resident) (form : ModularForm) (m p q : Word) (result : Option Resident) :
    ModularBlock where
  operand := v.operand
  result := resultOperand result
  modulus := m
  p
  q
  form

/-- The block of a combination on a vector's share. -/
def elementwiseBlock (v : Resident) (family : Family) (second : Operand)
    (form : ElementwiseForm) (m : Word) (result : Option Resident) : ElementwiseBlock where
  first := v.operand
  second
  result := resultOperand result
  modulus := m
  mu := family.constant m
  form

/-- What turns an operation on a vector into one request to all units. -/
def Requests (v : Resident) (step : Step Unit) (region : Region) (operation : Operation) : Prop :=
  ∃ program block, Program.Asks program block region operation ∧
    step = Registry.locked v.handle (Controller.runBlock program block)

section Completing
variable {step : Step Unit} {registry reached : Registry}

theorem complete_of_ok (ran : step registry = .ok () reached) :
    v.complete step registry = .ok v reached := by
  simp only [complete, ran]

/-- A vector that is not completed gives its memory back. -/
theorem complete_of_error {e : Error} (failed : step registry = .error e reached) :
    v.complete step registry = .error e (after (v.release reached)) := by
  simp only [complete, failed]
  cases v.release reached <;> rfl

theorem after_release (v : Resident) (registry : Registry) : after (v.release registry) =
    after (Registry.locked v.handle (Controller.deallocate v.address) registry) := by
  unfold release
  cases Registry.locked v.handle (Controller.deallocate v.address) registry <;> rfl

theorem handle_of_reserve {handle : Handle} {length : Nat} {left : Registry}
    (h : reserve handle length registry = .ok v left) : v.handle = handle := by
  obtain ⟨c, _, _, ran, _⟩ := Registry.locked_inv h
  rw [run_get] at ran
  obtain ⟨perUnit, _, _, ran⟩ := run_bind_eq_ok.mp ran
  obtain ⟨address, _, _, ran⟩ := run_bind_eq_ok.mp ran
  cases ran
  rfl

end Completing

section Requests
variable (word : v.bytes < UInt32.size) (supported : Modulus.isSupported m = true)
  (same : ∀ r, result = some r → r.perUnit = v.perUnit)
include word supported same

theorem runModular_requests {form : ModularForm} {p q : Word}
    (placed : form.placement = placementOf result)
    (checked : (v.modularBlock form m p q result).check = .ok ()) :
    v.Requests (v.runModular form m p q result) (v.region none result)
      (v.modularBlock form m p q result).operation := by
  have asks := Device.modular_asks (size_eq same _ placed) checked
  have region : (v.modularBlock form m p q result).region = v.region none result := by
    simp only [ModularBlock.region, Resident.region, Region.mk.injEq]
    exact ⟨toNat_start v, rfl, toNat_size word, destination_eq _ placed⟩
  have accepted : ¬ (!Modulus.isSupported m) = true := by simp [supported]
  rw [region] at asks
  refine ⟨_, _, asks, funext fun registry => ?_⟩
  simp only [runModular, if_neg accepted]
  rfl

theorem combine_requests {family : Family} {argument : Argument}
    (peer : ∀ other, argument = .vector other →
      other.handle = v.handle ∧ other.length = v.length ∧ other.perUnit = v.perUnit) :
    v.Requests (v.combine family argument m result)
      (v.region (Action.combine family argument).peer result)
      ((Action.combine family argument).operation m) := by
  have accepted : ¬ (!Modulus.isSupported m) = true := by simp [supported]
  cases argument with
  | scalar value =>
    let block := v.elementwiseBlock family ⟨value, 0⟩ (.scalar (placementOf result)) m result
    have asks : Program.Asks (.elementwise family) block.encode block.region
        (block.operation family) :=
      Device.elementwise_asks nofun (size_eq same _ rfl) supported rfl
    have region : block.region = v.region none result := by
      simp only [ElementwiseBlock.region, Resident.region, Region.mk.injEq]
      exact ⟨toNat_start v, rfl, toNat_size word, destination_eq _ rfl⟩
    rw [region] at asks
    refine ⟨_, _, asks, funext fun registry => ?_⟩
    simp only [combine, if_neg accepted, run_pure_bind]
    cases family with
    | mul =>
      simp only [Modulus.barrettConstant_eq_ok supported]
      rfl
    | _ => rfl
  | vector other =>
    obtain ⟨handle, length, perUnit⟩ := peer other rfl
    let block := v.elementwiseBlock family other.operand (.vector (placementOf result)) m result
    have size : other.operand.size = v.operand.size := by
      rw [operand, operand, bytes, bytes, perUnit]
    have asks : Program.Asks (.elementwise family) block.encode block.region
        (block.operation family) :=
      Device.elementwise_asks (fun _ => size) (size_eq same _ rfl) supported rfl
    have region : block.region = v.region (some other) result := by
      simp only [ElementwiseBlock.region, Resident.region, Region.mk.injEq]
      exact ⟨toNat_start v, congrArg some (toNat_start other), toNat_size word,
        destination_eq _ rfl⟩
    have checked : v.checkPeer other = .ok () := by
      have own : ¬ v.handle ≠ other.handle := not_not.mpr handle.symm
      have long : ¬ v.length ≠ other.length := not_not.mpr length.symm
      simp only [checkPeer, if_neg own, if_neg long]
      rfl
    rw [region] at asks
    refine ⟨_, _, asks, funext fun registry => ?_⟩
    simp only [combine, if_neg accepted, checked, run_lift_ok]
    cases family with
    | mul =>
      simp only [Modulus.barrettConstant_eq_ok supported]
      rfl
    | _ => rfl

theorem perform_requests (valid : action.Valid)
    (peer : ∀ other, action.peer = some other →
      other.handle = v.handle ∧ other.length = v.length ∧ other.perUnit = v.perUnit) :
    v.Requests (v.perform m action result) (v.region action.peer result) (action.operation m) := by
  cases action with
  | combine family argument =>
    exact combine_requests word supported same fun other argued => peer other (by rw [argued]; rfl)
  | _ =>
    exact runModular_requests word supported same rfl (ModularBlock.check_eq_ok ⟨supported, valid⟩)

omit same in
theorem switchModulus_requests {new : Word} (valid : Modulus.isSupported new = true) :
    v.Requests (v.switchModulus m new) (v.region none none) (.switchModulus m new) := by
  have alone : ∀ r : Resident, none = some r → r.perUnit = v.perUnit := nofun
  exact runModular_requests word supported alone rfl (ModularBlock.check_eq_ok ⟨supported, valid⟩)

end Requests

section Computing
variable {settings : Settings} {count : Nat} {c : Controller} {peer : Option Resident}
    {operation : Operation}

/-- The words of a live vector, in order. -/
def words (v : Resident) (c : Controller) : List Word := c.words v.address v.perUnit

/-- The words of the second operand, none where there is no such operand. -/
def peerWords (peer : Option Resident) (c : Controller) : List Word :=
  match peer with
  | some other => other.words c
  | none => []

theorem length_words (even : v.length = v.perUnit * c.units) : (v.words c).length = v.length := by
  rw [words, Controller.words, length_flatMap fun device _ => by
    rw [Bank.length_wordsAt, Nat.mul_div_cancel _ (by decide)], even, Nat.mul_comm]
  rfl

theorem share_eq (v : Resident) {i : Nat} {device : Device}
    (found : c.pool.devices[i]? = some device) :
    device.bank.wordsAt v.address.toNat v.bytes = slice (i * v.perUnit) v.perUnit (v.words c) := by
  rw [words, Controller.words, slice_flatMap (fun device _ => by
    rw [Bank.length_wordsAt, Nat.mul_div_cancel _ (by decide)]) found]
  rfl

theorem bytes_lt (accepted : settings.Accepted) (placed : v.Placed settings c.units) :
    v.bytes < UInt32.size := by
  have room := placed.inside
  have small := accepted.bank_small
  unfold Bank.addressable at small
  simp only [UInt32.size, bytes]
  omega

theorem counted_of_placed (accepted : settings.Accepted) (placed : v.Placed settings c.units) :
    v.perUnit * 8 + Allocator.standardBlockBytes < UInt64.size := by
  have small := bytes_lt accepted placed
  simp only [UInt32.size, bytes] at small
  simp only [UInt64.size, Allocator.standardBlockBytes]
  omega

variable (sound : c.Sound settings count) (placed : v.Placed settings c.units)
  (second : ∀ other, peer = some other → other.Placed settings c.units ∧ other.perUnit = v.perUnit)
  (target : ∀ r, result = some r → r.Placed settings c.units ∧ r.perUnit = v.perUnit)
include sound placed second target

/-- All regions of an operation on placed vectors lie in the banks. -/
theorem grants_region {i : Nat} {device : Device} (found : c.pool.devices[i]? = some device) :
    Stream.Grants (v.region peer result) device.bank := by
  have capacity := (sound.pool.units i device found).bank
  have grants : ∀ w : Resident, w.Placed settings c.units → w.perUnit = v.perUnit →
      device.bank.Grants w.address.toNat v.bytes := by
    intro w own perUnit
    have room := own.inside
    rw [perUnit] at room
    exact ⟨own.aligned, Nat.mul_mod_left _ _, by rw [capacity]; exact room⟩
  refine ⟨grants v placed rfl, fun b same => ?_, ?_⟩
  · cases peer with
    | none => cases same
    | some other =>
      cases same
      exact grants other (second other rfl).1 (second other rfl).2
  · cases result with
    | none => exact grants v placed rfl
    | some r => exact grants r (target r rfl).1 (target r rfl).2

/-- A request on reduced operands writes the host kernel's result on all units, and is
refused by the log at most. -/
theorem request_written (accepted : settings.Accepted) (recorded : settings.shape.Recorded)
    {program : Program} {block : List UInt8}
    (asks : Program.Asks program block (v.region peer result) operation)
    (admitted : operation.Admitted) (binary : operation.isBinary = peer.isSome)
    (reduced : ∀ x ∈ v.words c, x < operation.modulus)
    (reducedSecond : ∀ other, peer = some other → ∀ y ∈ other.words c, y < operation.modulus) :
    ∃ out after, operation.kernel (v.words c) (peerWords peer c) = .ok out ∧ out.length = v.length ∧
      c.Wrote (result.getD v).address.toNat (fun i => slice (i * v.perUnit) v.perUnit out) after ∧
      (Controller.runBlock program block c = .ok () after ∧ after.Logging ∨
        ¬ c.Logging ∧ ∃ refusal, Controller.runBlock program block c =
          .error (.logFile refusal) after) := by
  have counted := sound.count_eq
  have reducedPeer : operation.isBinary = true → ∀ y ∈ peerWords peer c, y < operation.modulus := by
    intro reads
    cases peer with
    | none => simp [binary] at reads
    | some other => exact reducedSecond other rfl
  obtain ⟨out, computed, length⟩ := Operation.kernel_total admitted.permitted reduced reducedPeer
  rw [length_words placed.even] at length
  have rows : ∀ (i : Nat) (device : Device), c.pool.devices[i]? = some device →
      operation.kernel (device.bank.wordsAt (v.region peer result).a (v.region peer result).length)
        (Stream.secondWords (v.region peer result) device.bank) =
          .ok (slice (i * v.perUnit) v.perUnit out) := by
    intro i device found
    show operation.kernel (device.bank.wordsAt v.address.toNat v.bytes) _ = _
    rw [share_eq v found, ← Operation.kernel_slice computed]
    cases peer with
    | none => exact Operation.kernel_unary binary _ _ _
    | some other =>
      have perUnit := (second other rfl).2
      have share := share_eq other found
      rw [bytes, perUnit] at share
      exact congrArg (operation.kernel _) share
  obtain ⟨after, wrote, outcome⟩ := Controller.runBlock_written accepted sound asks
    (fun i device found => grants_region sound placed second target found) recorded rows
    fun i inside => by
      show _ = v.bytes / 8
      rw [length_slice_even (length.trans placed.even) inside, bytes,
        Nat.mul_div_cancel _ (by decide)]
  refine ⟨out, after, computed, length, ?_, outcome⟩
  cases result with
  | none => exact wrote
  | some r => exact wrote

end Computing

section Behind
variable {settings : Settings} {count : Nat} {c : Controller} {registry : Registry}
    {peer : Option Resident}
  {operation : Operation} (accepted : settings.Accepted) (sound : c.Sound settings count)
include accepted sound

theorem toList_eq_ok (found : registry[v.handle]? = some ⟨c, false⟩)
    (placed : v.Placed settings c.units) :
    v.toList registry = .ok (v.words c) registry := by
  have read := Controller.copyFrom_eq_ok accepted sound placed.aligned placed.inside
  have ran : (do (← get).copyFrom v.address v.perUnit : Controller.Step (List Word)) c =
      .ok (v.words c) c := by
    rw [run_get, read]
    rfl
  rw [toList, Registry.locked_ok found ran, Registry.set_entry found]

/-- A requested operation computes what the host kernel computes, over its target. -/
theorem requested_eq_ok (recorded : settings.shape.Recorded)
    (found : registry[v.handle]? = some ⟨c, false⟩) (logging : c.Logging)
    (housed : v.Housed c.units c.records)
    (second : ∀ other, peer = some other → other.Housed c.units c.records ∧
      other.perUnit = v.perUnit)
    (target : ∀ r, result = some r → r.Housed c.units c.records ∧ r.perUnit = v.perUnit)
    {step : Step Unit} (requests : v.Requests step (v.region peer result) operation)
    (admitted : operation.Admitted) (binary : operation.isBinary = peer.isSome)
    (reduced : ∀ x ∈ v.words c, x < operation.modulus)
    (reducedSecond : ∀ other, peer = some other → ∀ y ∈ other.words c, y < operation.modulus) :
    ∃ out after, operation.kernel (v.words c) (peerWords peer c) = .ok out ∧
      step registry = .ok () (registry.set v.handle ⟨after, false⟩) ∧ after.Sound settings count ∧
      after.units = c.units ∧ after.records = c.records ∧ after.Logging ∧
      (result.getD v).words after = out ∧
      ∀ w : Resident, w.Housed c.units c.records → w.address ≠ (result.getD v).address →
        w.words after = w.words c := by
  obtain ⟨program, block, asks, behind⟩ := requests
  have placed := fun {w : Resident} => Controller.placed_of_housed (v := w) sound
  obtain ⟨out, after, computed, length, wrote, ⟨ran, still⟩ | ⟨refused, _⟩⟩ :=
    request_written sound (placed housed)
    (fun other same => ⟨placed (second other same).1, (second other same).2⟩)
    (fun r same => ⟨placed (target r same).1, (target r same).2⟩) accepted recorded asks
      admitted binary reduced
    reducedSecond
  swap
  · exact absurd logging refused
  have goal : (result.getD v).Housed c.units c.records ∧ (result.getD v).perUnit = v.perUnit := by
    cases result with
    | none => exact ⟨housed, rfl⟩
    | some r => exact target r rfl
  have even : out.length = v.perUnit * c.units := length.trans housed.even
  have sizes : ∀ i, i < c.units →
      (slice (i * v.perUnit) v.perUnit out).length = (result.getD v).perUnit :=
    fun i inside => (length_slice_even even inside).trans goal.2.symm
  refine ⟨out, after, computed, ?_,
    (Controller.runBlock_keeps accepted recorded program block).of_ok ran sound,
    wrote.units, ?_, still, ?_, fun w own different => ?_⟩
  · rw [behind, Registry.locked_ok found ran]
  · rw [Controller.records, wrote.memories, ← Controller.records]
  · rw [words, wrote.words sizes, flatMap_slices even]
  · exact wrote.words_of_disjoint sizes (Controller.apart_of_housed sound own goal.1 different)

section Reserving
variable {handle : Handle} (known : registry[handle]? = some ⟨c, false⟩) {length perUnit : Nat}
  (even : length = perUnit * c.units)
include known even
omit accepted

omit sound known in
theorem evenShare_eq_ok (units : 0 < c.units) : c.evenShare length = .ok perUnit := by
  have whole : ¬ length % c.units ≠ 0 := by
    rw [even]
    exact not_not.mpr (Nat.mul_mod_left _ _)
  simp only [Controller.evenShare, if_neg (Nat.ne_of_gt units), if_neg whole]
  rw [even, Nat.mul_div_cancel _ units]
  rfl

theorem reserve_eq {outcome : EStateM.Result Error Controller UInt32}
    (allocated : Controller.allocate (perUnit * 8) c = outcome) :
    reserve handle length registry = match outcome with
      | .ok address after =>
        .ok ⟨handle, address, length, perUnit⟩ (registry.set handle ⟨after, false⟩)
      | .error e after => .error e (registry.set handle ⟨after, e.isTrap⟩) := by
  have share := evenShare_eq_ok even (sound.count_eq.symm ▸ sound.units)
  cases outcome with
  | ok address after =>
    refine Registry.locked_ok known ?_
    simp only [run_get, share, run_lift_ok]
    exact run_bind_ok allocated
  | error e after =>
    refine Registry.locked_error known ?_
    simp only [run_get, share, run_lift_ok]
    exact run_bind_error allocated

theorem reserve_cases :
    (∃ address after, reserve handle length registry =
        .ok ⟨handle, address, length, perUnit⟩ (registry.set handle ⟨after, false⟩) ∧
      after = { c with memories := after.memories } ∧ after.Sound settings count ∧
      (∀ r ∈ c.records, r.1 ≠ address) ∧
      ∃ blocks, perUnit * 8 ≤ blocks * Allocator.standardBlockBytes ∧
        ∀ r, r ∈ after.records ↔ r = (address, blocks) ∨ r ∈ c.records) ∨
    ∃ e, reserve handle length registry = .error e (registry.set handle ⟨c, e.isTrap⟩) ∧
      (perUnit * 8 + Allocator.standardBlockBytes < UInt64.size →
        e = .memoryExhausted 0 (perUnit * 8)) := by
  rcases Controller.allocate_cases sound (perUnit * 8) with
    ⟨address, after, ran, same, kept, fresh, grown⟩ | refused
  · exact .inl ⟨address, after, reserve_eq sound known even ran, same, kept, fresh, grown⟩
  · exact .inr ⟨_, reserve_eq sound known even refused,
      fun counted => if_neg (Nat.not_le_of_lt counted)⟩

end Reserving

omit accepted in
/-- A reservation is a grant to a vector that is dealt out evenly, or changes nothing. -/
theorem reserve_outcomes {handle : Handle} (known : registry[handle]? = some ⟨c, false⟩)
    (length : Nat) :
    (∃ perUnit address grown, length = perUnit * c.units ∧
      Controller.allocate (perUnit * 8) c = .ok address grown ∧
      reserve handle length registry =
        .ok ⟨handle, address, length, perUnit⟩ (registry.set handle ⟨grown, false⟩)) ∨
    ∃ e, reserve handle length registry = .error e (registry.set handle ⟨c, e.isTrap⟩) := by
  have some : c.units ≠ 0 := sound.count_eq.symm ▸ Nat.ne_of_gt sound.units
  by_cases uneven : length % c.units ≠ 0
  · have share : c.evenShare length = .error (.unevenPartition length c.units) := by
      simp only [Controller.evenShare, if_neg some, if_pos uneven]
      rfl
    refine .inr ⟨.unevenPartition length c.units, Registry.locked_error known ?_⟩
    simp only [run_get, share, run_lift_error]
  have even : length = length / c.units * c.units :=
    (Nat.div_mul_cancel (Nat.dvd_of_mod_eq_zero (not_not.mp uneven))).symm
  rcases Controller.allocate_cases sound (length / c.units * 8) with ⟨address, grown,
    ran, _⟩ | refused
  · exact .inl ⟨_, address, grown, even, ran, reserve_eq sound known even ran⟩
  · exact .inr ⟨_, reserve_eq sound known even refused⟩

theorem ofValues_eq_ok {handle : Handle} (found : registry[handle]? = some ⟨c, false⟩)
    {values : List Word} {perUnit : Nat} (even : values.length = perUnit * c.units)
    {left : Registry} (reserved : reserve handle values.length registry = .ok v left) :
    ∃ after, ofValues handle values registry = .ok v (registry.set handle ⟨after, false⟩) ∧
      after.Sound settings count ∧ (c.Logging → after.Logging) ∧ v.handle = handle ∧
      v.Housed after.units after.records ∧ v.words after = values := by
  rcases reserve_cases sound found even with
    ⟨address, grown, ran, same, kept, fresh, blocks, room, members⟩ | ⟨_, refused, _⟩
  · cases ran.symm.trans reserved
    have units : grown.units = c.units := by rw [same]; rfl
    have housed : (⟨handle, address, values.length, perUnit⟩ : Resident).Housed grown.units
        grown.records :=
      ⟨by rw [units]; exact even, blocks, (members _).mpr (.inl rfl), room⟩
    obtain ⟨aligned, inside⟩ := Controller.room_of_housed kept housed
    have length : values.length = perUnit * count := by rw [even, sound.count_eq]
    have written := Controller.copyTo_scatter_eq_ok accepted kept aligned inside length
    have wrote := grown.wrote_put address.toNat fun unit => slice (unit * perUnit) perUnit values
    refine ⟨grown.put address.toNat fun unit => slice (unit * perUnit) perUnit values, ?_,
      (Controller.copyTo_keeps accepted values address .scatter).of_ok written kept, fun logging =>
        ?_, rfl, ?_, ?_⟩
    · have copied := Registry.locked_ok (Registry.getElem?_set_handle found ⟨grown, false⟩) written
      rw [List.set_set] at copied
      refine (run_bind_ok reserved).trans ?_
      exact complete_of_ok copied
    · have log : grown.executionLog = c.executionLog := by rw [same]
      exact fun entry opened => logging entry (log.symm.trans opened)
    · rw [wrote.units, Controller.records, wrote.memories, ← Controller.records]
      exact housed
    · rw [← units] at even
      exact (wrote.words fun i inside => length_slice_even even inside).trans (flatMap_slices even)
  · cases refused.symm.trans reserved

end Behind
end BankedRing.Resident
