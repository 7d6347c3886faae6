import BankedRing.Proofs.Device.Furnishing
import BankedRing.Proofs.Host.Footprint
import BankedRing.Proofs.Host.Start

/-! Pools of units that are all alike. An acquired pool stays one: every call leaves the units
as they were built and with the program that the pool has on record. So one unit decides for
all of them whether a transfer goes through, and no transfer stops halfway. -/
namespace BankedRing

theorem Error.ofFault_reported {describe : Fault → Error} {fault : Fault}
    (reported : fault.Reported) :
    ofFault describe fault = describe fault := by
  cases fault with
  | trapped trap => exact absurd rfl (reported trap)
  | _ => rfl

namespace Pool
variable {settings : Settings} {pool : Pool} {devices : List Device} {P : Device → Prop}
    {loaded : Option Program}

/-- A program, or none, that the pool has on record and every unit has loaded. -/
structure Furnished (loaded : Option Program) (pool : Pool) : Prop where
  record : pool.loaded = loaded
  units : pool.Every (Device.Furnished loaded)

section Furnishing

theorem visit_furnished {describe : Nat → Fault → Error} {steps : List (Device.Step Unit)}
    (each : ∀ step ∈ steps, Keeps (Device.Furnished loaded) (fun _ => True) step) :
    Keeps (Furnished loaded) (fun _ => True) (visit describe steps) := by
  intro pool furnished
  exact ⟨⟨loaded_visit.trans furnished.record, (visit_every each pool furnished.units).1⟩,
    fun _ _ _ => trivial⟩

theorem scatter_furnished (target : String) (offset : Nat) (buffers : List (List UInt8)) :
    Keeps (Furnished loaded) (fun _ => True) (scatter target offset buffers) := by
  refine .get fun _ _ => .guard trivial fun _ => visit_furnished fun step member => ?_
  obtain ⟨buffer, _, rfl⟩ := List.mem_map.mp member
  exact Device.receive_furnished target offset buffer

theorem broadcast_furnished (target : String) (offset : Nat) (bytes : List UInt8) :
    Keeps (Furnished loaded) (fun _ => True) (broadcast target offset bytes) := by
  refine .get fun _ _ => visit_furnished fun step member => ?_
  rw [List.eq_of_mem_replicate member]
  exact Device.receive_furnished target offset bytes

theorem launch_furnished : Keeps (Furnished loaded) (fun _ => True) launch := by
  intro pool furnished
  have kept := (launch_every Device.launch_furnished pool furnished.units).1
  exact ⟨⟨loaded_launch.trans furnished.record, kept⟩, fun _ _ _ => trivial⟩

/-- A path names a program, which all units then have, or it is refused. -/
theorem load_cases (path : Path) (pool : Pool) :
    (Program.ofPath? path = none ∧ load path pool = .error (.unknownBinary path) pool) ∨
      ∃ program, Program.ofPath? path = some program ∧
        load path pool = .ok () (Controller.loaded program pool) := by
  unfold load
  cases Program.ofPath? path with
  | none => exact .inl ⟨rfl, rfl⟩
  | some program => exact .inr ⟨program, rfl, rfl⟩

theorem furnished_load (program : Program) (pool : Pool) :
    Furnished (some program) (Controller.loaded program pool) := by
  refine ⟨rfl, fun device member => ?_⟩
  obtain ⟨old, _, rfl⟩ := List.mem_map.mp member
  exact Device.furnished_load program old

theorem furnished_drainLogs (furnished : pool.Furnished loaded) :
    pool.drainLogs.2.Furnished loaded := by
  refine ⟨furnished.record, fun device member => ?_⟩
  obtain ⟨old, here, rfl⟩ := List.mem_map.mp member
  obtain ⟨program, sizes⟩ := furnished.units old here
  exact ⟨program, sizes⟩

end Furnishing

/-- At least one unit, and all of them alike: built from the settings under their numbers, and
with what the program on record declares. -/
structure Homogeneous (settings : Settings) (pool : Pool) : Prop where
  inhabited : pool.devices ≠ []
  row : Row settings 0 pool.devices
  furnished : pool.Furnished pool.loaded

/-- The calls that a pool takes once it has been acquired. -/
inductive Call where
  | load (path : Path)
  | broadcast (target : String) (offset : Nat) (bytes : List UInt8)
  | scatter (target : String) (offset : Nat) (buffers : List (List UInt8))
  | gather (target : String) (offset length : Nat)
  | launch
  | drainLogs

def Call.run : Call → Step Unit
  | .load path => Pool.load path
  | .broadcast target offset bytes => Pool.broadcast target offset bytes
  | .scatter target offset buffers => Pool.scatter target offset buffers
  | .gather target offset length => do
    let _ ← (← get).gather target offset length
  | .launch => Pool.launch
  | .drainLogs => modify fun pool => pool.drainLogs.2

/-- Pools that calls lead to from an acquired one, whether they go through or not. -/
inductive Reached (settings : Settings) (request : UnitRequest) (profile : String) : Pool → Prop
  | acquired {before pool : Pool} {count : Nat} :
    acquire settings request profile before = .ok count pool → Reached settings request profile pool
  | called {pool : Pool} (call : Call) :
    Reached settings request profile pool → Reached settings request profile (after (call.run pool))

section Calling

theorem Call.confined (call : Call) (pool : Pool) : pool.Confined (fun _ => True)
    (after (call.run pool)) := by
  cases call with
  | load path => exact (load_confined path pool (.refl pool)).1
  | broadcast target offset bytes =>
    exact (broadcast_confined (fun _ _ _ => trivial) pool (.refl pool)).1
  | scatter target offset buffers =>
    exact (scatter_confined (fun _ _ _ _ _ => trivial) pool (.refl pool)).1
  | gather target offset length =>
    simp only [Call.run, run_get]
    cases pool.gather target offset length <;> exact .refl pool
  | launch => exact launch_confined fun _ _ _ _ _ _ _ => trivial
  | drainLogs =>
    exact List.forall₂_map_right_iff.mpr (List.forall₂_same.mpr fun device _ =>
      ⟨rfl, rfl, rfl, .refl _⟩)

theorem Call.furnished (call : Call) (furnished : pool.Furnished pool.loaded) :
    ∃ loaded, (after (call.run pool)).Furnished loaded := by
  cases call with
  | load path =>
    simp only [Call.run]
    rcases load_cases path pool with ⟨_, refused⟩ | ⟨program, _, loads⟩
    · rw [refused]
      exact ⟨_, furnished⟩
    · rw [loads]
      exact ⟨_, furnished_load program pool⟩
  | broadcast target offset bytes =>
    exact ⟨_, (broadcast_furnished target offset bytes pool furnished).1⟩
  | scatter target offset buffers =>
    exact ⟨_, (scatter_furnished target offset buffers pool furnished).1⟩
  | gather target offset length =>
    simp only [Call.run, run_get]
    cases pool.gather target offset length <;> exact ⟨_, furnished⟩
  | launch => exact ⟨_, (launch_furnished pool furnished).1⟩
  | drainLogs => exact ⟨_, furnished_drainLogs furnished⟩

theorem Homogeneous.called (homogeneous : pool.Homogeneous settings) (call : Call) :
    (after (call.run pool)).Homogeneous settings := by
  have confined := call.confined pool
  obtain ⟨loaded, furnished⟩ := call.furnished homogeneous.furnished
  refine ⟨?_, row_of_related confined (fun _ _ own _ => own.built) homogeneous.row,
    furnished.record ▸ furnished⟩
  intro none
  have length := confined.length_eq
  rw [none] at length
  exact homogeneous.inhabited (List.length_eq_zero_iff.mp length)

theorem homogeneous_acquired {request : UnitRequest} {profile : String}
    {before : Pool} {count : Nat} (h : acquire settings request profile before = .ok count pool) :
    pool.Homogeneous settings := by
  obtain ⟨units, _, rfl⟩ := acquire_eq_ok h
  refine ⟨?_, (built_new settings count _).units, ?_⟩
  · intro none
    have length := congrArg List.length none
    simp only [List.length_map, List.length_range, List.length_nil] at length
    omega
  · refine ⟨rfl, fun device member => ?_⟩
    obtain ⟨id, _, rfl⟩ := List.mem_map.mp member
    exact ⟨rfl, rfl⟩

theorem Reached.homogeneous {request : UnitRequest} {profile : String}
    (reached : Reached settings request profile pool) :
    pool.Homogeneous settings := by
  induction reached with
  | acquired h => exact homogeneous_acquired h
  | called call _ ih => exact ih.called call

end Calling

/-- How a transfer ends that all units take part in or none. It goes through on each of them; or
all of them refuse it, and the first one is reported; or it asks for too large a buffer. -/
inductive AllOrNothing {α : Type} (pool : Pool) (target : String) (oversized : Prop)
    (transfer : Nat → Device → Except Fault α) : Except Error (List α) → Prop
  | through (values : List α) : values.length = pool.units →
    (∀ i device, pool.devices[i]? = some device → ∃ value, values[i]? = some value ∧
      transfer i device = .ok value) →
    AllOrNothing pool target oversized transfer (.ok values)
  | refused (fault : Fault) : fault.Reported →
    (∀ i device, pool.devices[i]? = some device → transfer i device = .error fault) →
    AllOrNothing pool target oversized transfer (.error (.transfer target (.onUnit 0 fault)))
  | trapped : oversized → AllOrNothing pool target oversized transfer (.error (.trapped .oversized))

theorem AllOrNothing.congr {α : Type} {target : String} {oversized : Prop}
    {transfer other : Nat → Device → Except Fault α} {outcome : Except Error (List α)}
    (h : pool.AllOrNothing target oversized transfer outcome)
    (same : ∀ i device, pool.devices[i]? = some device → transfer i device = other i device) :
    pool.AllOrNothing target oversized other outcome := by
  cases h with
  | through values length each =>
    refine .through values length fun i device found => ?_
    obtain ⟨value, here, ran⟩ := each i device found
    exact ⟨value, here, same i device found ▸ ran⟩
  | refused fault reported each =>
    exact .refused fault reported fun i device found => same i device found ▸ each i device found
  | trapped oversized => exact .trapped oversized

/-- All units are changed, or none is. -/
def commit (pool : Pool) : Except Error (List Device) → EStateM.Result Error Pool Unit
  | .ok devices => .ok () { pool with devices }
  | .error e => .error e pool

/-- A region of the bank, inside it, that takes a buffer larger than the host can have. -/
def Oversized (settings : Settings) (target : String) (offset length buffer : Nat) : Prop :=
  target = bankTarget ∧ offset + length ≤ settings.bankBytes ∧ 9223372036854775808 ≤ buffer

section Visiting
variable {target : String} {offset : Nat} {buffers : List (List UInt8)}

theorem getElem?_getD {i : Nat} (inside : i < buffers.length) :
    buffers[i]? = some (buffers.getD i []) := by
  rw [List.getD_eq_getElem?_getD, List.getElem?_eq_getElem inside]
  rfl

theorem scatter_eq_visit (count : buffers.length = pool.units) :
    scatter target offset buffers pool =
    visit (transferError target) (buffers.map (Device.receive target offset)) pool := by
  rw [scatter, run_get, if_neg (not_not.mpr count)]

theorem broadcast_eq_scatter (target : String) (offset : Nat) (bytes : List UInt8) (pool : Pool) :
    broadcast target offset bytes pool =
      scatter target offset (List.replicate pool.units bytes) pool := by
  rw [scatter_eq_visit List.length_replicate, List.map_replicate]
  rfl

variable (count : buffers.length = pool.units)
include count

/-- A visit ends where it begins if the first unit refuses its buffer. -/
theorem scatter_stopped {first : Device} {rest : List Device} {fault : Fault}
    (shape : pool.devices = first :: rest)
    (refused : first.write target offset (buffers.getD 0 []) = .error fault) :
    scatter target offset buffers pool =
      .error (.ofFault (transferError target first.id) fault) pool := by
  rw [scatter_eq_visit count]
  cases buffers with
  | nil =>
    rw [units, shape] at count
    cases count
  | cons buffer others =>
    have failed := Device.receive_eq_error refused
    obtain ⟨devices, loaded, schedules⟩ := pool
    cases shape
    simp only [visit, List.map_cons, stepEach]
    rw [List.getD_cons_zero] at failed
    rw [failed]
    rfl

theorem scatter_through {written : Nat → Device → Device}
    (received : ∀ i (device : Device), pool.devices[i]? = some device →
      device.write target offset (buffers.getD i []) = .ok (written i device)) :
    scatter target offset buffers pool =
      .ok () { pool with devices := pool.devices.mapIdx written } := by
  have same : pool.devices.mapIdx (fun _ device => device) = pool.devices := by
    rw [List.mapIdx_eq_iff]
    exact fun _ => Option.map_id'.symm
  have visited : visit (transferError target) (buffers.map (Device.receive target offset))
      ⟨pool.devices.mapIdx fun _ device => device, pool.loaded, pool.schedules⟩ =
        .ok () ⟨pool.devices.mapIdx written, pool.loaded, pool.schedules⟩ := by
    refine visit_eq_ok ((List.length_map _).trans count) fun i step device asked found => ?_
    rw [List.getElem?_map, getElem?_getD (count ▸ (List.getElem?_eq_some_iff.mp found).1)] at asked
    cases asked
    exact Device.receive_eq_ok (received i device found)
  rw [same] at visited
  rw [scatter_eq_visit count]
  exact visited

end Visiting

section Transfers
variable (homogeneous : pool.Homogeneous settings) (target : String) (offset length : Nat)
include homogeneous

theorem Homogeneous.verdict_eq {i : Nat} {device : Device} (found : pool.devices[i]? = some device)
    (buffer : Nat) :
    Device.verdict device.bank.capacity device.sizes target offset length buffer =
      Device.verdict settings.bankBytes (Program.declared pool.loaded) target offset
        length buffer := by
  rw [(homogeneous.row i device found).bank,
    (homogeneous.furnished.units device (List.mem_of_getElem? found)).sizes]

theorem Homogeneous.first : ∃ device rest, pool.devices = device :: rest ∧ device.id = 0 := by
  cases shape : pool.devices with
  | nil => exact absurd shape homogeneous.inhabited
  | cons device rest =>
    have built := homogeneous.row 0 device (by rw [shape]; rfl)
    exact ⟨device, rest, rfl, built.id⟩

/-- What all units answer to a transfer of one length. -/
theorem Homogeneous.decided {α : Type} {transfer : Nat → Device → Except Fault α} {buffer : Nat}
    (decided : ∀ i device, pool.devices[i]? = some device → ∃ value, transfer i device = (do
      Device.verdict device.bank.capacity device.sizes target offset length buffer
      return value)) :
    (∀ i device, pool.devices[i]? = some device → ∃ value, transfer i device = .ok value) ∨
      ∃ fault : Fault, (∀ i device, pool.devices[i]? = some device →
        transfer i device = .error fault) ∧
        (fault.Reported ∨ fault = .trapped .oversized ∧
          Oversized settings target offset length buffer) := by
  have alike : ∀ i device, pool.devices[i]? = some device → ∃ value, transfer i device = (do
      Device.verdict settings.bankBytes (Program.declared pool.loaded) target offset length buffer
      return value) := by
    intro i device found
    obtain ⟨value, same⟩ := decided i device found
    rw [homogeneous.verdict_eq target offset length found] at same
    exact ⟨value, same⟩
  have stops : ∀ fault, Device.verdict settings.bankBytes (Program.declared pool.loaded) target
    offset length buffer =
      .error fault → ∀ i device, pool.devices[i]? = some device →
      transfer i device = .error fault := by
    intro fault refused i device found
    obtain ⟨_, same⟩ := alike i device found
    rw [same, refused, error_bind]
  rcases Device.verdict_cases settings.bankBytes (Program.declared pool.loaded) target offset
    length buffer with
    through | ⟨fault, reported, refused⟩ | ⟨trapped, oversized⟩
  · refine .inl fun i device found => ?_
    obtain ⟨value, same⟩ := alike i device found
    exact ⟨value, by rw [same, through, ok_bind]; rfl⟩
  · exact .inr ⟨fault, stops fault refused, .inl reported⟩
  · exact .inr ⟨_, stops _ trapped, .inr ⟨rfl, oversized⟩⟩

theorem scatter_all_or_nothing (buffers : List (List UInt8)) (count : buffers.length = pool.units)
    (even : ∀ buffer ∈ buffers, buffer.length = length) :
    ∃ outcome, pool.AllOrNothing target (Oversized settings target offset length (offset + length))
        (fun i device => device.write target offset (buffers.getD i [])) outcome ∧
      scatter target offset buffers pool = pool.commit outcome := by
  obtain ⟨first, rest, shape, id⟩ := homogeneous.first
  have here : pool.devices[0]? = some first := by rw [shape]; rfl
  have decided : ∀ i (device : Device), pool.devices[i]? = some device →
      ∃ written, device.write target offset (buffers.getD i []) = (do
        Device.verdict device.bank.capacity device.sizes target offset length (offset + length)
        return written) := by
    intro i device found
    have inside : i < buffers.length := count ▸ (List.getElem?_eq_some_iff.mp found).1
    have size := even _ (List.mem_of_getElem? (getElem?_getD inside))
    rw [← size]
    exact device.write_decided target offset _
  rcases homogeneous.decided target offset length decided with through | ⟨fault, refused, kind⟩
  · let written : Nat → Device → Device :=
      fun i device => after (Device.receive target offset (buffers.getD i []) device)
    have received : ∀ i (device : Device), pool.devices[i]? = some device →
        device.write target offset (buffers.getD i []) = .ok (written i device) := by
      intro i device found
      obtain ⟨reached, ran⟩ := through i device found
      have same : written i device = reached := congrArg after (Device.receive_eq_ok ran)
      rw [ran, same]
    refine ⟨.ok (pool.devices.mapIdx written),
      .through _ List.length_mapIdx fun i device found => ?_,
      scatter_through count received⟩
    refine ⟨written i device, ?_, received i device found⟩
    rw [List.getElem?_mapIdx, found]
    rfl
  · have stopped := scatter_stopped count shape (refused 0 first here)
    rw [id] at stopped
    rcases kind with reported | ⟨rfl, oversized⟩
    · rw [Error.ofFault_reported reported] at stopped
      exact ⟨_, .refused fault reported refused, stopped⟩
    · exact ⟨_, .trapped oversized, stopped⟩

theorem gather_all_or_nothing :
    pool.AllOrNothing target (Oversized settings target offset length length)
      (fun _ device => device.read target offset length) (pool.gather target offset length) := by
  obtain ⟨first, rest, shape, id⟩ := homogeneous.first
  have here : pool.devices[0]? = some first := by rw [shape]; rfl
  have stopped : ∀ fault, first.read target offset length = .error fault →
      pool.gather target offset length = .error (.ofFault (transferError target 0) fault) := by
    intro fault failed
    rw [gather, shape, List.mapM_cons, failed, id]
    rfl
  rcases homogeneous.decided target offset length fun i device _ =>
    device.read_decided target offset length with
    through | ⟨fault, refused, reported | ⟨rfl, oversized⟩⟩
  · let bytes : Device → List UInt8 :=
      fun device => (device.read target offset length).toOption.getD []
    have gathered : ∀ (i : Nat) (device : Device), pool.devices[i]? = some device →
        device.read target offset length = .ok (bytes device) := by
      intro i device found
      obtain ⟨held, ran⟩ := through i device found
      have same : bytes device = held := by simp only [bytes, ran]; rfl
      rw [ran, same]
    have whole : pool.gather target offset length = .ok (pool.devices.map bytes) := by
      refine gather_eq_ok fun device member => ?_
      obtain ⟨i, found⟩ := List.mem_iff_getElem?.mp member
      exact gathered i device found
    rw [whole]
    refine .through _ (List.length_map _) fun i device found =>
      ⟨bytes device, ?_, gathered i device found⟩
    rw [List.getElem?_map, found]
    rfl
  · rw [stopped fault (refused 0 first here), Error.ofFault_reported reported]
    exact .refused fault reported refused
  · rw [stopped _ (refused 0 first here)]
    exact .trapped oversized

theorem broadcast_all_or_nothing (bytes : List UInt8) :
    ∃ outcome, pool.AllOrNothing target
      (Oversized settings target offset bytes.length (offset + bytes.length))
        (fun _ device => device.write target offset bytes) outcome ∧
      broadcast target offset bytes pool = pool.commit outcome := by
  obtain ⟨outcome, whole, ran⟩ := scatter_all_or_nothing homogeneous target offset bytes.length
    (List.replicate pool.units bytes) List.length_replicate fun buffer member => by
      rw [List.eq_of_mem_replicate member]
  refine ⟨outcome, whole.congr fun i device found => ?_,
    (broadcast_eq_scatter target offset bytes pool).trans ran⟩
  have inside : i < pool.units := (List.getElem?_eq_some_iff.mp found).1
  rw [List.getD_eq_getElem?_getD, List.getElem?_replicate_of_lt inside]
  rfl

end Transfers

/-- In every state of a pool its units are alike, so a transfer of one length goes through on
all of them or changes none: a broadcast and a gathering always, and a scattering whenever it is
given one buffer for each unit, all of one length. -/
theorem transfers_all_or_nothing {request : UnitRequest} {profile : String}
    (reached : Reached settings request profile pool) :
    pool.Homogeneous settings ∧
    (∀ target offset bytes, ∃ outcome,
      pool.AllOrNothing target (Oversized settings target offset bytes.length
        (offset + bytes.length))
        (fun _ device => device.write target offset bytes) outcome ∧
      broadcast target offset bytes pool = pool.commit outcome) ∧
    (∀ target offset length buffers, buffers.length = pool.units →
      (∀ buffer ∈ buffers, buffer.length = length) →
      ∃ outcome, pool.AllOrNothing target
        (Oversized settings target offset length (offset + length))
          (fun i device => device.write target offset (buffers.getD i [])) outcome ∧
        scatter target offset buffers pool = pool.commit outcome) ∧
    ∀ target offset length, pool.AllOrNothing target
      (Oversized settings target offset length length)
      (fun _ device => device.read target offset length) (pool.gather target offset length) := by
  have homogeneous := reached.homogeneous
  refine ⟨homogeneous, fun target offset bytes => ?_, fun target offset length buffers => ?_,
    fun target offset length => ?_⟩
  · exact broadcast_all_or_nothing homogeneous target offset bytes
  · exact scatter_all_or_nothing homogeneous target offset length buffers
  · exact gather_all_or_nothing homogeneous target offset length

section Examples

/-- One unit whose bank has every address of the host. -/
def vast : Settings := { units := .count 1, bankBytes := 18446744073709551615 }

/-- A unit with a program for towers refuses what would end behind its modulus, and so does the
whole pool. -/
theorem transfers_all_or_nothing_standard :
    ∃ pool, Reached {} (.count 2) "" pool ∧ pool.Homogeneous {} ∧ pool.units = 2 ∧
      broadcast modulusSymbol 4 (List.replicate 8 0) pool =
        .error (.transfer modulusSymbol (.onUnit 0 (.symbolOverflow modulusSymbol 4 8 8))) pool ∧
      pool.AllOrNothing modulusSymbol (Oversized {} modulusSymbol 0 8 8)
        (fun _ device => device.read modulusSymbol 0 8)
          (.ok (List.replicate 2 (List.replicate 8 0))) := by
  have acquired : acquire {} (.count 2) "" (empty []) = .ok 2 _ :=
    acquire_of_granted rfl rfl (by decide) []
  have reached := (Reached.acquired acquired).called (.load (Program.path (.tower .add) "programs"))
  simp only [Call.run, load, Program.ofPath?_path] at reached
  obtain ⟨homogeneous, _, _, gathers⟩ := transfers_all_or_nothing reached
  refine ⟨_, reached, homogeneous, rfl, rfl, gathers modulusSymbol 0 8⟩

/-- A store of one word far into a vast bank is inside it, and ends neither way. -/
theorem broadcast_neither_way :
    ¬ ∀ (settings : Settings) (request : UnitRequest) (profile : String) (pool : Pool),
      Reached settings request profile pool → ∀ target offset bytes,
        (∃ reached, broadcast target offset bytes pool = .ok () reached) ∨
        ∃ fault, broadcast target offset bytes pool =
          .error (.transfer target (.onUnit 0 fault)) pool := by
  intro claimed
  have acquired : acquire vast (.count 1) "" (empty []) = .ok 1 _ :=
    acquire_of_granted rfl rfl (by decide) []
  rcases claimed vast _ _ _ (.acquired acquired) bankTarget 9223372036854775808
    (List.replicate 8 0) with
    ⟨reached, through⟩ | ⟨fault, refused⟩
  · cases through
  · cases refused

end Examples
end Pool
end BankedRing
