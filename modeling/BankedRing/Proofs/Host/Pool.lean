import Mathlib.Data.List.Forall2
import BankedRing.Host.Pool
import BankedRing.Proofs.Device.Launch

/-! The pool as a whole. A call to the units takes each one on or leaves it, so what every
step keeps of its unit the pool keeps of all: they stay as they were built and none of their
failures is a trap. When every unit's step goes through, the pool has taken each unit one step
on. -/
namespace BankedRing

/-- Errors that a caller gets to see; a trap ends the caller instead. -/
def Error.Returned (e : Error) : Prop := e.isTrap = false

theorem Error.returned_ofFault {describe : Fault → Error} {fault : Fault} (h : fault.Reported)
    (returned : ∀ fault, (describe fault).Returned) : (Error.ofFault describe fault).Returned := by
  cases fault with
  | trapped trap => exact absurd rfl (h trap)
  | _ => exact returned _

namespace Schedule
variable {schedule : Schedule} {failures : List (Nat × Fault)} {faults : List (Option Fault)}

theorem report_mem {failure : Nat × Fault} (h : schedule.report failures = some failure) :
    failure ∈ failures := by
  have inside : failure ∈ if failures.filter (·.2.isTrap) = [] then failures
      else failures.filter (·.2.isTrap) := by
    cases schedule with
    | inOrder => exact List.mem_of_head? h
    | chosen ran reported =>
      rcases Option.or_eq_some_iff.mp h with preferred | ⟨_, first⟩
      · exact List.mem_of_find?_eq_some preferred
      · exact List.mem_of_head? first
  split at inside
  · exact inside
  · exact (List.mem_filter.mp inside).1

theorem report_eq_none : schedule.report failures = none ↔ failures = [] := by
  constructor
  · intro h
    have urgent : (if failures.filter (·.2.isTrap) = [] then failures
        else failures.filter (·.2.isTrap)) = [] := by
      cases schedule with
      | inOrder => exact List.head?_eq_none_iff.mp h
      | chosen ran reported => exact List.head?_eq_none_iff.mp (Option.or_eq_none_iff.mp h).2
    split at urgent
    · exact urgent
    · rename_i trapped
      exact absurd urgent trapped
  · rintro rfl
    cases schedule <;> rfl

theorem turns_of_faultless (faultless : ∀ fault ∈ faults, fault = none) (unit : Nat) :
    schedule.turns faults unit = true := by
  cases schedule with
  | inOrder =>
    refine List.all_eq_true.mpr fun fault member => ?_
    rw [faultless fault (List.mem_of_mem_take member)]
    rfl
  | chosen ran reported =>
    refine Bool.or_eq_true_iff.mpr (.inr (List.all_eq_true.mpr fun other _ => ?_))
    cases found : faults[other]? with
    | none => rfl
    | some fault =>
      rw [faultless fault (List.mem_of_getElem? found)]
      rfl

/-- Where units would fail, one of them gets its turn. -/
theorem exists_turn (schedule : Schedule) {unit : Nat} {fault : Fault}
    (failing : faults[unit]? = some (some fault)) :
    ∃ unit fault, faults[unit]? = some (some fault) ∧ schedule.turns faults unit = true := by
  cases schedule with
  | inOrder =>
    -- A failing unit without a turn has a failing one in front.
    induction unit using Nat.strong_induction_on generalizing fault with
    | h unit ih =>
      cases turn : Schedule.turns faults .inOrder unit with
      | true => exact ⟨unit, fault, failing, turn⟩
      | false =>
        obtain ⟨earlier, member, stops⟩ := List.all_eq_false.mp turn
        obtain ⟨place, found⟩ := List.mem_iff_getElem?.mp member
        rw [List.getElem?_take] at found
        cases earlier with
        | none => exact absurd rfl stops
        | some earlier =>
          split at found
          · rename_i before
            exact ih place before found
          · cases found
  | chosen ran reported =>
    cases chosen : ran.all fun other => (faults[other]?.join).isNone with
    | true => exact ⟨unit, fault, failing, Bool.or_eq_true_iff.mpr (.inr chosen)⟩
    | false =>
      obtain ⟨other, member, fails⟩ := List.all_eq_false.mp chosen
      obtain ⟨fault, found⟩ :=
        Option.ne_none_iff_exists'.mp (fun none => fails (Option.isNone_iff_eq_none.mpr none))
      exact ⟨other, fault, Option.join_eq_some_iff.mp found,
        Bool.or_eq_true_iff.mpr (.inl (List.contains_iff_mem.mpr member))⟩

end Schedule

namespace Pool
variable {settings : Settings} {start : Nat} {devices : List Device}

/-- Units built in the order of their numbers. -/
def Row (settings : Settings) (start : Nat) (devices : List Device) : Prop :=
  ∀ i (device : Device), devices[i]? = some device → device.Built settings (start + i)

theorem row_cons {device : Device} {rest : List Device} :
    Row settings start (device :: rest) ↔ device.Built settings start ∧
    Row settings (start + 1) rest := by
  constructor
  · intro h
    refine ⟨h 0 device rfl, ?_⟩
    intro i other found
    have shift : start + 1 + i = start + (i + 1) := by omega
    rw [shift]
    exact h (i + 1) other found
  · rintro ⟨first, later⟩ i other found
    cases i with
    | zero =>
      cases found
      exact first
    | succ i =>
      have shift : start + 1 + i = start + (i + 1) := by omega
      rw [← shift]
      exact later i other found

/-- A pool of accepted settings: its units in order, each as it was built. -/
structure Built (settings : Settings) (count : Nat) (pool : Pool) : Prop where
  count : pool.devices.length = count
  units : Row settings 0 pool.devices

section Turns
variable {R : Device → Device → Prop} {P : Device → Prop} {pool reached : Pool}
    {later : List Device}

theorem row_of_related (h : List.Forall₂ R devices later)
    (keeps : ∀ device next, R device next → ∀ id, device.Built settings id → next.Built settings id)
    (row : Row settings start devices) : Row settings start later := by
  induction h generalizing start with
  | nil => exact row
  | cons own _ ih =>
    obtain ⟨first, rest⟩ := row_cons.mp row
    exact row_cons.mpr ⟨keeps _ _ own start first, ih rest⟩

theorem every_of_related (h : List.Forall₂ (fun device next => P device → P next) devices later)
    (every : ∀ device ∈ devices, P device) : ∀ device ∈ later, P device := by
  induction h with
  | nil => exact every
  | cons own _ ih =>
    obtain ⟨first, rest⟩ := List.forall_mem_cons.mp every
    exact List.forall_mem_cons.mpr ⟨own first, ih rest⟩

/-- A unit has taken its step, or it has had no turn. -/
theorem stepEach_related {steps : List (Device.Step Unit)} (stays : ∀ device, R device device)
    (each : ∀ step ∈ steps, ∀ device, R device (after (step device))) :
    List.Forall₂ R devices (stepEach steps devices).1 := by
  induction steps generalizing devices with
  | nil => exact List.forall₂_same.mpr fun device _ => stays device
  | cons step steps ih =>
    cases devices with
    | nil => exact .nil
    | cons device rest =>
      have own := each step (by simp) device
      simp only [stepEach]
      cases outcome : step device with
      | ok _ stepped =>
        rw [outcome] at own
        exact .cons own (ih fun s member => each s (by simp [member]))
      | error fault stepped =>
        rw [outcome] at own
        exact .cons own (List.forall₂_same.mpr fun device _ => stays device)

theorem stepEach_fault {steps : List (Device.Step Unit)} {unit : Nat} {fault : Fault}
    (h : (stepEach steps devices).2 = some (unit, fault)) :
    ∃ step ∈ steps, ∃ device ∈ devices, ∃ stopped, step device = .error fault stopped ∧
      stopped.id = unit := by
  induction steps generalizing devices with
  | nil => cases h
  | cons step steps ih =>
    cases devices with
    | nil => cases h
    | cons device rest =>
      simp only [stepEach] at h
      cases outcome : step device with
      | ok _ stepped =>
        rw [outcome] at h
        obtain ⟨next, member, other, here, stopped, failed, own⟩ := ih h
        exact ⟨next, by simp [member], other, by simp [here], stopped, failed, own⟩
      | error fault stopped =>
        rw [outcome] at h
        cases h
        exact ⟨step, by simp, device, by simp, stopped, outcome, rfl⟩

section Attempts
variable {schedule : Schedule}

theorem forall₂_mapIdx {f : Nat → Device → Device}
    (each : ∀ (unit : Nat) (device : Device), devices[unit]? = some device →
      R device (f unit device)) :
    List.Forall₂ R devices (devices.mapIdx f) := by
  induction devices generalizing f with
  | nil => exact .nil
  | cons device rest ih =>
    rw [List.mapIdx_cons]
    exact .cons (each 0 device rfl) (ih fun unit other found => each (unit + 1) other found)

theorem attempt_fst (device : Device) : (attempt device).1 = after (Device.launch device) := by
  rw [attempt]
  cases Device.launch device <;> rfl

theorem attempt_snd_eq_some {device : Device} {fault : Fault} :
    (attempt device).2 = some fault ↔ ∃ stopped, Device.launch device = .error fault stopped := by
  rw [attempt]
  cases Device.launch device with
  | ok _ reached => exact ⟨nofun, nofun⟩
  | error other stopped =>
    constructor
    · intro same
      cases same
      exact ⟨stopped, rfl⟩
    · rintro ⟨_, same⟩
      cases same
      rfl

theorem attempt_snd_eq_none {device : Device} :
    (attempt device).2 = none ↔ ∃ reached, Device.launch device = .ok () reached := by
  rw [attempt]
  cases Device.launch device with
  | ok _ reached => exact ⟨fun _ => ⟨reached, rfl⟩, fun _ => rfl⟩
  | error fault stopped => exact ⟨nofun, nofun⟩

/-- The units that get their turn in a launch. -/
def turns (schedule : Schedule) (devices : List Device) : Nat → Bool :=
  schedule.turns (devices.map fun device => (attempt device).2)

/-- What a launch makes of the units, one by one. -/
def attempts (schedule : Schedule) (devices : List Device) : List (Device × Option Fault) :=
  devices.mapIdx fun unit device =>
    if turns schedule devices unit then attempt device else (device, none)

theorem launchEach_eq_attempts : launchEach schedule devices =
    ((attempts schedule devices).map (·.1),
      schedule.report ((attempts schedule devices).filterMap fun unit =>
        unit.2.map (unit.1.id, ·))) := by
  have tried : ((devices.map fun device => (device, attempt device)).mapIdx fun unit tried =>
      if turns schedule devices unit then tried.2 else (tried.1, none)) =
        attempts schedule devices := by
    rw [← mapIdx_eq_map, List.mapIdx_mapIdx]
    rfl
  rw [launchEach, List.map_map, ← tried]
  rfl

theorem devices_launchEach : (launchEach schedule devices).1 = devices.mapIdx fun unit device =>
    if turns schedule devices unit then after (Device.launch device) else device := by
  rw [launchEach_eq_attempts, attempts, ← mapIdx_eq_map, List.mapIdx_mapIdx]
  refine congrArg (List.mapIdx · devices) (funext₂ fun unit device => ?_)
  simp only [Function.comp_apply]
  split
  · exact attempt_fst device
  · rfl

/-- The reported failure is that of a unit that had its turn. -/
theorem failed_of_launchEach {id : Nat} {fault : Fault}
    (h : (launchEach schedule devices).2 = some (id, fault)) :
    ∃ (unit : Nat) (device : Device), devices[unit]? = some device ∧
      turns schedule devices unit = true ∧
      ∃ stopped, Device.launch device = .error fault stopped ∧ stopped.id = id := by
  rw [launchEach_eq_attempts] at h
  obtain ⟨⟨reached, failure⟩, member, same⟩ := List.mem_filterMap.mp (Schedule.report_mem h)
  obtain ⟨unit, found⟩ := List.mem_iff_getElem?.mp member
  obtain ⟨device, here, tried⟩ :=
    Option.map_eq_some_iff.mp ((List.getElem?_mapIdx).symm.trans found)
  obtain ⟨_, rfl, same⟩ := Option.map_eq_some_iff.mp same
  split at tried
  · rename_i turn
    obtain ⟨stopped, failed⟩ := attempt_snd_eq_some.mp (congrArg Prod.snd tried)
    have left : reached = stopped := by
      rw [← show (attempt device).1 = reached from congrArg Prod.fst tried, attempt_fst, failed]
      rfl
    cases same
    exact ⟨unit, device, here, turn, stopped, failed, by rw [left]⟩
  · cases tried

theorem launchEach_ok (h : (launchEach schedule devices).2 = none) :
    ∀ device ∈ devices, ∃ launched, Device.launch device = .ok () launched := by
  intro device member
  cases outcome : (attempt device).2 with
  | none => exact attempt_snd_eq_none.mp outcome
  | some fault =>
    obtain ⟨unit, found⟩ := List.mem_iff_getElem?.mp member
    have failing : (devices.map fun device => (attempt device).2)[unit]? = some (some fault) := by
      rw [List.getElem?_map, found, ← outcome]
      rfl
    obtain ⟨unit, fault, failing, turn⟩ := Schedule.exists_turn schedule failing
    obtain ⟨failed, here, outcome⟩ :=
      Option.map_eq_some_iff.mp ((List.getElem?_map).symm.trans failing)
    rw [launchEach_eq_attempts] at h
    have tried : (attempts schedule devices)[unit]? = some (attempt failed) := by
      rw [attempts, List.getElem?_mapIdx, here, Option.map_some, turns, turn]
      rfl
    have settled :=
      List.filterMap_eq_nil_iff.mp (Schedule.report_eq_none.mp h) _ (List.mem_of_getElem? tried)
    rw [outcome] at settled
    cases settled

end Attempts

/-- A launched unit has had its turn, or it is as it was. -/
theorem launchEach_related {schedule : Schedule} (stays : ∀ device, R device device)
    (each : ∀ device ∈ devices, R device (after (Device.launch device))) :
    List.Forall₂ R devices (launchEach schedule devices).1 := by
  rw [devices_launchEach]
  refine forall₂_mapIdx fun unit device found => ?_
  split
  · exact each device (List.mem_of_getElem? found)
  · exact stays device

theorem launchEach_fault {schedule : Schedule} {unit : Nat} {fault : Fault}
    (h : (launchEach schedule devices).2 = some (unit, fault)) :
    ∃ device ∈ devices, ∃ stopped, Device.launch device = .error fault stopped ∧
      stopped.id = unit := by
  obtain ⟨place, device, found, _, stopped, failed, own⟩ := failed_of_launchEach h
  exact ⟨device, List.mem_of_getElem? found, stopped, failed, own⟩

theorem settle_devices (describe : Nat → Fault → Error) (pool : Pool) (devices : List Device)
    (failure : Option (Nat × Fault)) :
    (after (settle describe pool devices failure)).devices = devices := by
  cases failure <;> rfl

theorem settle_loaded (describe : Nat → Fault → Error) (pool : Pool) (devices : List Device)
    (failure : Option (Nat × Fault)) :
    (after (settle describe pool devices failure)).loaded = pool.loaded := by
  cases failure <;> rfl

theorem settle_eq_error {describe : Nat → Fault → Error} {failure : Option (Nat × Fault)}
    {e : Error} (h : settle describe pool devices failure = .error e reached) :
    ∃ unit fault, failure = some (unit, fault) ∧ e = .ofFault (describe unit) fault := by
  cases failure with
  | none => cases h
  | some found =>
    cases h
    exact ⟨found.1, found.2, rfl, rfl⟩

section Visit
variable {describe : Nat → Fault → Error} {steps : List (Device.Step Unit)}

theorem visit_related (stays : ∀ device, R device device)
    (each : ∀ step ∈ steps, ∀ device, R device (after (step device))) :
    List.Forall₂ R pool.devices (after (visit describe steps pool)).devices := by
  rw [visit, settle_devices]
  exact stepEach_related stays each

theorem loaded_visit : (after (visit describe steps pool)).loaded = pool.loaded :=
  settle_loaded _ _ _ _

theorem units_visit : (after (visit describe steps pool)).units = pool.units :=
  (visit_related (R := fun _ _ => True) (fun _ => trivial) fun _ _ _ => trivial).length_eq.symm

theorem visit_fault {e : Error} (h : visit describe steps pool = .error e reached) :
    ∃ step ∈ steps, ∃ device ∈ pool.devices, ∃ fault stopped, step device = .error fault stopped ∧
      e = .ofFault (describe stopped.id) fault := by
  obtain ⟨_, fault, failed, rfl⟩ := settle_eq_error h
  obtain ⟨step, member, device, here, stopped, own, rfl⟩ := stepEach_fault failed
  exact ⟨step, member, device, here, fault, stopped, own, rfl⟩

end Visit

section Launch

theorem launch_related (stays : ∀ device, R device device)
    (each : ∀ device ∈ pool.devices, R device (after (Device.launch device))) :
    List.Forall₂ R pool.devices (after (launch pool)).devices := by
  unfold launch
  split
  · exact List.forall₂_same.mpr fun device _ => stays device
  · rw [settle_devices]
    exact launchEach_related stays each

theorem loaded_launch : (after (launch pool)).loaded = pool.loaded := by
  unfold launch
  split
  · rfl
  · exact settle_loaded _ _ _ _

theorem units_launch : (after (launch pool)).units = pool.units :=
  (launch_related (R := fun _ _ => True) (fun _ => trivial) fun _ _ => trivial).length_eq.symm

theorem launch_fault {e : Error} (h : launch pool = .error e reached) :
    e = .noProgramLoaded ∨ ∃ device ∈ pool.devices, ∃ fault stopped,
      Device.launch device = .error fault stopped ∧ e = .ofFault (.execution stopped.id) fault := by
  unfold launch at h
  split at h
  · cases h
    exact .inl rfl
  · obtain ⟨_, fault, failed, rfl⟩ := settle_eq_error h
    obtain ⟨device, here, stopped, own, rfl⟩ := launchEach_fault failed
    exact .inr ⟨device, here, fault, stopped, own, rfl⟩

theorem launched_of_ok (h : launch pool = .ok () reached) :
    ∀ device ∈ pool.devices, ∃ launched, Device.launch device = .ok () launched := by
  unfold launch at h
  split at h
  · cases h
  · cases failure : (launchEach (pool.schedules.headD .inOrder) pool.devices).2 with
    | none => exact launchEach_ok failure
    | some failed =>
      simp only [failure] at h
      cases h

end Launch
end Turns

section Keeping
variable {pool reached : Pool} {count : Nat}

theorem Built.related (built : pool.Built settings count)
    (h : List.Forall₂ (fun device next => ∀ id, device.Built settings id → next.Built settings id)
      pool.devices reached.devices) : reached.Built settings count :=
  ⟨h.length_eq.symm.trans built.count, row_of_related h (fun _ _ => id) built.units⟩

theorem Built.device (built : pool.Built settings count) {device : Device}
    (member : device ∈ pool.devices) :
    ∃ id, device.Built settings id := by
  obtain ⟨i, found⟩ := List.getElem?_of_mem member
  exact ⟨_, built.units i device found⟩

theorem visit_keeps {describe : Nat → Fault → Error} {steps : List (Device.Step Unit)}
    (returned : ∀ unit fault, (describe unit fault).Returned)
    (each : ∀ step ∈ steps, ∀ id, Keeps (Device.Built settings id) Fault.Reported step) :
    Keeps (Built settings count) Error.Returned (visit describe steps) := by
  intro pool built
  refine ⟨built.related (visit_related (fun _ _ => id) fun step member device id own =>
    (each step member id device own).1), ?_⟩
  intro e reached failed
  obtain ⟨step, member, device, here, fault, stopped, own, rfl⟩ := visit_fault failed
  obtain ⟨id, unit⟩ := built.device here
  exact Error.returned_ofFault ((each step member id device unit).2 fault stopped own) (returned _)

theorem load_keeps (path : Path) : Keeps (Built settings count) Error.Returned (load path) := by
  unfold load
  split
  · exact .throw rfl
  · rename_i program _
    refine .change fun pool built => ⟨by simp [built.count], fun i device found => ?_⟩
    rw [List.getElem?_map] at found
    obtain ⟨old, before, rfl⟩ := Option.map_eq_some_iff.mp found
    have kept := built.units i old before
    exact ⟨kept.id, kept.bank, kept.scratch, kept.shape⟩

variable (accepted : settings.Accepted)
include accepted

theorem broadcast_keeps (target : String) (offset : Nat) (bytes : List UInt8) :
    Keeps (Built settings count) Error.Returned (broadcast target offset bytes) := by
  refine .get fun pool _ => visit_keeps (fun _ _ => rfl) fun step member id => ?_
  rw [List.eq_of_mem_replicate member]
  exact Device.receive_keeps accepted target offset bytes

theorem scatter_keeps (target : String) (offset : Nat) (buffers : List (List UInt8)) :
    Keeps (Built settings count) Error.Returned (scatter target offset buffers) := by
  refine .get fun pool _ => .guard rfl fun _ =>
    visit_keeps (fun _ _ => rfl) fun step member id => ?_
  obtain ⟨buffer, _, rfl⟩ := List.mem_map.mp member
  exact Device.receive_keeps accepted target offset buffer

theorem launch_keeps (recorded : settings.shape.Recorded) :
    Keeps (Built settings count) Error.Returned launch := by
  intro pool built
  refine ⟨built.related (launch_related (fun _ _ => id) fun device _ id own =>
    (Device.launch_keeps accepted recorded device own).1), ?_⟩
  intro e reached failed
  rcases launch_fault failed with rfl | ⟨device, here, fault, stopped, own, rfl⟩
  · rfl
  · obtain ⟨id, unit⟩ := built.device here
    exact Error.returned_ofFault ((Device.launch_keeps accepted recorded device unit).2 fault
      stopped own) fun _ => rfl

theorem gather_returned {pool : Pool} (built : pool.Built settings count) {target : String}
    {offset length : Nat} {e : Error} (h : pool.gather target offset length = .error e) :
    e.Returned := by
  obtain ⟨device, member, failed⟩ := exists_of_mapM_error h
  obtain ⟨id, unit⟩ := built.device member
  have reports := Device.read_reports accepted unit target offset length
  cases outcome : device.read target offset length with
  | ok bytes =>
    rw [outcome] at failed
    cases failed
  | error fault =>
    rw [outcome] at failed
    cases failed
    exact Error.returned_ofFault (reports fault outcome) fun _ => rfl

end Keeping

section Acquisition

theorem grant_pos {offered granted : Nat} {request : UnitRequest}
    (h : Settings.grant offered request = .ok granted) : 0 < granted := by
  have nonzero : ∀ units : Nat, (do
      if units = 0 then throw .noUnits
      return units : Except AllocationRefusal Nat) = .ok granted → 0 < granted := by
    intro units h
    by_cases none : units = 0
    · simp only [if_pos none] at h
      cases h
    · simp only [if_neg none] at h
      cases h
      exact Nat.pos_of_ne_zero none
  cases request with
  | all => exact nonzero offered h
  | count n =>
    by_cases enough : n ≤ offered
    · simp only [Settings.grant, if_pos enough] at h
      exact nonzero n h
    · simp only [Settings.grant, if_neg enough] at h
      cases h

theorem built_new (settings : Settings) (count : Nat) (schedules : List Schedule) :
    Built settings count ⟨(List.range count).map fun id =>
      Device.new id settings.bankBytes settings.scratchBytes settings.shape, none, schedules⟩ := by
  refine ⟨by simp, ?_⟩
  intro i device found
  rw [List.getElem?_map] at found
  obtain ⟨id, here, rfl⟩ := Option.map_eq_some_iff.mp found
  obtain ⟨inside, rfl⟩ := List.getElem?_eq_some_iff.mp here
  rw [List.getElem_range, Nat.zero_add]
  exact ⟨rfl, rfl, rfl, rfl⟩

theorem acquire_eq_ok {request : UnitRequest} {profile : String} {before after : Pool} {count : Nat}
    (h : acquire settings request profile before = .ok count after) :
    0 < count ∧ deviceFootprint * count < 9223372036854775808 ∧
      after = ⟨(List.range count).map fun id =>
        Device.new id settings.bankBytes settings.scratchBytes settings.shape, none,
        before.schedules⟩ := by
  unfold acquire at h
  dsimp only at h
  cases checked : Settings.checkProfile profile with
  | error refusal =>
    simp only [checked, error_bind] at h
    cases h
  | ok _ =>
    cases granted : Settings.grant settings.poolSize request with
    | error refusal =>
      simp only [checked, granted, ok_bind] at h
      cases h
    | ok units =>
      simp only [checked, granted, ok_bind, Except.mapError, run_lift_ok] at h
      by_cases host : deviceFootprint * units < 9223372036854775808
      · rw [Checked.buffer_eq_ok host, run_lift_checked_ok] at h
        cases h
        exact ⟨grant_pos granted, host, rfl⟩
      · rw [Checked.buffer, if_neg host] at h
        cases h

end Acquisition

section Success
variable {pool : Pool}

theorem stepEach_eq {steps : List (Device.Step Unit)} {before after : Nat → Device → Device}
    (length : steps.length = devices.length)
    (each : ∀ i (step : Device.Step Unit) (device : Device), steps[i]? = some step →
      devices[i]? = some device →
      step (before i device) = .ok () (after i device)) :
    stepEach steps (devices.mapIdx before) = (devices.mapIdx after, none) := by
  induction steps generalizing devices before after with
  | nil =>
    cases devices with
    | nil => rfl
    | cons device rest => simp at length
  | cons step steps ih =>
    cases devices with
    | nil => simp at length
    | cons device rest =>
      have later := ih
        (Nat.succ.inj length) fun i s d hs hd => each (i + 1) s d hs hd
      simp only [List.mapIdx_cons, stepEach, each 0 step device rfl rfl, later]

variable {before after : Nat → Device → Device} {loaded : Option Program}
    {schedules : List Schedule}

theorem visit_eq_ok {describe : Nat → Fault → Error} {steps : List (Device.Step Unit)}
    (length : steps.length = devices.length)
    (each : ∀ i (step : Device.Step Unit) (device : Device), steps[i]? = some step →
      devices[i]? = some device →
      step (before i device) = .ok () (after i device)) :
    visit describe steps ⟨devices.mapIdx before, loaded, schedules⟩ =
      .ok () ⟨devices.mapIdx after, loaded, schedules⟩ := by
  simp only [visit, stepEach_eq length each, settle]

theorem broadcast_eq_ok {target : String} {offset : Nat} {bytes : List UInt8}
    (each : ∀ i (device : Device), devices[i]? = some device →
      Device.receive target offset bytes (before i device) = .ok () (after i device)) :
    broadcast target offset bytes ⟨devices.mapIdx before, loaded, schedules⟩ =
      .ok () ⟨devices.mapIdx after, loaded, schedules⟩ := by
  simp only [broadcast, run_get]
  apply visit_eq_ok (by simp [units])
  intro i step device hs hd
  rw [List.eq_of_mem_replicate (List.mem_of_getElem? hs)]
  exact each i device hd

theorem scatter_eq_ok {target : String} {offset : Nat} {buffer : Nat → List UInt8}
    (each : ∀ i (device : Device), devices[i]? = some device →
      Device.receive target offset (buffer i) (before i device) = .ok () (after i device)) :
    scatter target offset ((List.range devices.length).map buffer) ⟨devices.mapIdx before,
      loaded, schedules⟩ =
      .ok () ⟨devices.mapIdx after, loaded, schedules⟩ := by
  simp only [scatter, run_get, units, List.length_map, List.length_range, List.length_mapIdx, ne_eq,
    not_true_eq_false, if_false]
  apply visit_eq_ok (by simp)
  intro i step device hs hd
  rw [List.map_map, List.getElem?_map] at hs
  obtain ⟨j, found, rfl⟩ := Option.map_eq_some_iff.mp hs
  obtain ⟨inside, rfl⟩ := List.getElem?_eq_some_iff.mp found
  rw [List.getElem_range]
  exact each i device hd

theorem stepEach_ok {steps : List (Device.Step Unit)} {reached : List Device}
    (h : stepEach steps devices = (reached, none)) {i : Nat} {step : Device.Step Unit}
    {device : Device} (hs : steps[i]? = some step) (hd : devices[i]? = some device) :
    ∃ stepped, step device = .ok () stepped := by
  induction steps generalizing devices reached i with
  | nil => cases hs
  | cons first steps ih =>
    cases devices with
    | nil => cases hd
    | cons own rest =>
      simp only [stepEach] at h
      cases outcome : first own with
      | error fault stepped =>
        rw [outcome] at h
        cases h
      | ok _ stepped =>
        simp only [outcome, Prod.mk.injEq] at h
        cases i with
        | zero =>
          cases hs
          cases hd
          exact ⟨stepped, outcome⟩
        | succ i => exact ih (Prod.ext rfl h.2) hs hd

theorem received_of_scatter {target : String} {offset : Nat} {buffers : List (List UInt8)}
    {reached : Pool} (h : scatter target offset buffers pool = .ok () reached) {i : Nat}
    {buffer : List UInt8} {device : Device} (hb : buffers[i]? = some buffer)
    (hd : pool.devices[i]? = some device) :
    ∃ stepped, Device.receive target offset buffer device = .ok () stepped := by
  simp only [scatter, run_get] at h
  split at h
  · cases h
  · simp only [visit] at h
    cases visited : stepEach (buffers.map (Device.receive target offset)) pool.devices with
    | mk devices failure =>
      rw [visited] at h
      cases failure with
      | none => exact stepEach_ok visited (by rw [List.getElem?_map, hb]; rfl) hd
      | some found => cases h

theorem turns_of_ok {schedule : Schedule}
    (each : ∀ device ∈ devices, ∃ launched, Device.launch device = .ok () launched) (unit : Nat) :
    turns schedule devices unit = true := by
  refine Schedule.turns_of_faultless (fun fault member => ?_) unit
  obtain ⟨device, here, rfl⟩ := List.mem_map.mp member
  exact attempt_snd_eq_none.mpr (each device here)

theorem launchEach_eq {schedule : Schedule} {f : Device → Device}
    (each : ∀ device ∈ devices, Device.launch device = .ok () (f device)) :
    launchEach schedule devices = (devices.map f, none) := by
  refine Prod.ext ?_ (Option.eq_none_iff_forall_ne_some.mpr fun ⟨unit, fault⟩ failed => ?_)
  · rw [devices_launchEach]
    refine List.mapIdx_eq_iff.mpr fun unit => ?_
    rw [List.getElem?_map]
    refine Option.map_congr fun device found => ?_
    rw [turns_of_ok (fun device member => ⟨_, each device member⟩), if_pos rfl,
      each device (List.mem_of_getElem? found)]
    rfl
  · obtain ⟨device, member, stopped, failed, _⟩ := launchEach_fault failed
    cases (each device member).symm.trans failed

theorem launch_eq_ok {f : Device → Device} (loaded : pool.loaded.isNone = false)
    (each : ∀ device ∈ pool.devices, Device.launch device = .ok () (f device)) :
    launch pool = .ok () { pool with devices := pool.devices.map f, schedules := pool.schedules.tail } := by
  simp only [launch, loaded, launchEach_eq each, settle]
  rfl

theorem gather_eq_ok {target : String} {offset length : Nat} {f : Device → List UInt8}
    (each : ∀ device ∈ pool.devices, device.read target offset length = .ok (f device)) :
    pool.gather target offset length = .ok (pool.devices.map f) := by
  apply mapM_eq_ok
  intro device member
  rw [each device member]
  rfl

end Success
end Pool
end BankedRing
