import BankedRing.Proofs.Device.Program
import BankedRing.Proofs.Host.Invariant

/-! Batches of towers. A batch on a sound controller goes through exactly when its towers
are of one shape, its shares find units and room, and every modulus is supported; its
results are then the combined towers, whatever the units were doing before. -/
namespace BankedRing

/-- Two non-empty lists of towers of one length, with equal moduli pair by pair. -/
structure Tower.Conform (a b : List Tower) (length : Nat) : Prop where
  nonempty : a ≠ []
  moduli : a.map (·.modulus) = b.map (·.modulus)
  first : ∀ tower ∈ a, tower.values.length = length
  second : ∀ tower ∈ b, tower.values.length = length
  positive : 0 < length

/-- The tower of the combined residues of two towers. -/
def Tower.combine (family : Family) (x y : Tower) : Tower :=
  { x with values := family.combined x.modulus x.values y.values }

namespace Tower.Conform
variable {a b : List Tower} {length : Nat}

theorem count (h : Conform a b length) : a.length = b.length := by
  have := congrArg List.length h.moduli
  rwa [List.length_map, List.length_map] at this

theorem modulus_eq (h : Conform a b length) {t : Nat} {x y : Tower} (first : a[t]? = some x)
    (second : b[t]? = some y) : y.modulus = x.modulus := by
  have moduli := congrArg (·[t]?) h.moduli
  simp only [List.getElem?_map, first, second, Option.map_some, Option.some.injEq] at moduli
  exact moduli.symm

end Tower.Conform

namespace Controller
variable {settings : Settings} {count : Nat} {c : Controller} {a b : List Tower} {split : Nat}

section Preparing

theorem find?_pairs_eq_none (counts : a.length = b.length) :
    ((a.zip b).zipIdx.find? fun ((x, y), _) => x.modulus ≠ y.modulus) = none ↔
      a.map (·.modulus) = b.map (·.modulus) := by
  rw [List.find?_eq_none]
  constructor
  · intro none
    apply List.ext_getElem?
    intro i
    rw [List.getElem?_map, List.getElem?_map]
    rcases Nat.lt_or_ge i a.length with inside | outside
    · have paired : ((a.zip b).zipIdx)[i]? = some ((a[i], b[i]), i) := by
        rw [List.getElem?_zipIdx, List.getElem?_eq_getElem (by rw [List.length_zip]; omega)]
        simp
      have same := none _ (List.mem_of_getElem? paired)
      rw [List.getElem?_eq_getElem inside, List.getElem?_eq_getElem (by omega)]
      simpa using same
    · rw [List.getElem?_eq_none outside, List.getElem?_eq_none (by omega)]
  · rintro same ⟨⟨x, y⟩, i⟩ member
    have paired := List.mem_zipIdx_iff_getElem?.mp member
    obtain ⟨first, second⟩ := List.getElem?_zip_eq_some.mp paired
    have moduli := congrArg (·[i]?) same
    simp only [List.getElem?_map, first, second, Option.map_some, Option.some.injEq] at moduli
    simp [moduli]

/-- Operands that do not go together are refused before there is a partition. -/
theorem prepare_misshapen (apart : a.length = b.length → a.map (·.modulus) ≠ b.map (·.modulus))
    (split : Nat) (c : Controller) :
    ∃ defect, c.prepare a b split = .error (.shapeMismatch defect) := by
  unfold prepare
  by_cases counts : a.length = b.length
  · simp only [if_neg (show ¬ a.length ≠ b.length from fun different => different counts)]
    cases agree : (a.zip b).zipIdx.find? fun ((x, y), _) => x.modulus ≠ y.modulus with
    | some differing => exact ⟨_, rfl⟩
    | none => exact absurd ((find?_pairs_eq_none counts).mp agree) (apart counts)
  · exact ⟨_, if_pos counts⟩

theorem prepared {batch : Batch} (h : c.prepare a b split = .ok batch) :
    ∃ length, Tower.Conform a b length ∧ 0 < split ∧ split ∣ length ∧ a.length * split ≤ c.units ∧
      batch.partition.towers = a.length ∧ batch.partition.towerLength = length ∧
      batch.partition.split = split ∧ batch.towerModuli = a.map (·.modulus) ∧
      batch.partition.unitModuli (a.map (·.modulus)) c.units = .ok batch.unitModuli ∧
      batch.partition.stage (a.map (·.values)) c.units = .ok batch.a ∧
      batch.partition.stage (b.map (·.values)) c.units = .ok batch.b := by
  obtain ⟨counts, moduli⟩ : a.length = b.length ∧ a.map (·.modulus) = b.map (·.modulus) := by
    by_contra apart
    obtain ⟨defect, refused⟩ := prepare_misshapen (not_and.mp apart) split c
    cases h.symm.trans refused
  have agree := (find?_pairs_eq_none counts).mpr moduli
  unfold prepare at h
  simp only [if_neg (show ¬ a.length ≠ b.length from fun different => different counts), agree] at h
  obtain ⟨partition, made, h⟩ := bind_eq_ok.mp h
  obtain ⟨unitModuli, assigned, h⟩ := bind_eq_ok.mp h
  obtain ⟨first, stagedFirst, h⟩ := bind_eq_ok.mp h
  obtain ⟨second, stagedSecond, h⟩ := bind_eq_ok.mp h
  cases h
  obtain ⟨nonempty, even, towers, towerLength, splits⟩ := Partition.new_eq_ok_iff.mp made
  obtain ⟨enough, shapedFirst⟩ := Partition.shaped_of_stage stagedFirst
  obtain ⟨_, shapedSecond⟩ := Partition.shaped_of_stage stagedSecond
  rw [Partition.unitsRequired, towers, splits] at enough
  refine ⟨partition.towerLength, ⟨?_, moduli, fun tower member => ?_, fun tower member => ?_,
    ?_⟩, by omega, ?_,
    enough, towers, rfl, splits, rfl, assigned, stagedFirst, stagedSecond⟩
  · rintro rfl
    exact nonempty (.inl rfl)
  · exact shapedFirst.2 _ (List.mem_map_of_mem member)
  · exact shapedSecond.2 _ (List.mem_map_of_mem member)
  · omega
  · exact Nat.dvd_of_mod_eq_zero (towerLength ▸ even)

/-- The batch that a partition makes of two lists of towers, with a row for each unit. -/
def batchOf (partition : Partition) (units : Nat) (a b : List Tower) : Batch where
  partition
  towerModuli := a.map (·.modulus)
  unitModuli := (List.range units).map (partition.unitModulus (a.map (·.modulus)))
  a := (List.range units).map (partition.row (a.map (·.values)))
  b := (List.range units).map (partition.row (b.map (·.values)))

/-- The partition of towers that a split cuts evenly, and what is prepared under it. -/
theorem exists_partition {length : Nat} (nonempty : a ≠ [])
    (long : ∀ tower ∈ a, tower.values.length = length) (somewhere : 0 < length)
    (positive : 0 < split) (even : split ∣ length) :
    ∃ partition : Partition, partition.towers = a.length ∧ partition.towerLength = length ∧
      partition.split = split ∧ ∀ (b : List Tower) (c : Controller), a.length = b.length →
        a.map (·.modulus) = b.map (·.modulus) → c.prepare a b split = do
          let unitModuli ← partition.unitModuli (a.map (·.modulus)) c.units
          let first ← partition.stage (a.map (·.values)) c.units
          let second ← partition.stage (b.map (·.values)) c.units
          return { partition, unitModuli, towerModuli := a.map (·.modulus), a := first, b := second } := by
  obtain ⟨tower, rest, rfl⟩ := List.exists_cons_of_ne_nil nonempty
  have first := long tower (by simp)
  have someTower : (tower :: rest).length ≠ 0 := List.length_eq_zero_iff.not.mpr nonempty
  let partition : Partition :=
    ⟨(tower :: rest).length, length, split, by omega, Nat.mod_eq_zero_of_dvd even⟩
  have made : Partition.new (tower :: rest).length length split = .ok partition :=
    Partition.new_eq_ok_iff.mpr ⟨partition.nonempty, partition.even, rfl, rfl, rfl⟩
  refine ⟨partition, rfl, rfl, rfl, fun b c counts moduli => ?_⟩
  have agree := (find?_pairs_eq_none counts).mpr moduli
  have counted : ¬ (tower :: rest).length ≠ b.length := fun different => different counts
  unfold prepare
  simp only [if_neg counted, agree, first, made, ok_bind]

theorem prepare_eq_ok {length : Nat} (conform : Tower.Conform a b length) (positive : 0 < split)
    (even : split ∣ length) (enough : a.length * split ≤ c.units)
    (host : Pool.deviceFootprint * c.units < 9223372036854775808) :
    ∃ partition : Partition, partition.towers = a.length ∧ partition.towerLength = length ∧
      partition.split = split ∧ c.prepare a b split = .ok (batchOf partition c.units a b) := by
  have rows : Partition.rowFootprint * c.units < 9223372036854775808 := by
    unfold Pool.deviceFootprint at host
    unfold Partition.rowFootprint
    omega
  have words : 8 * c.units < 9223372036854775808 := by
    unfold Pool.deviceFootprint at host
    omega
  obtain ⟨partition, towers, towerLength, splits, prepared⟩ :=
    exists_partition conform.nonempty conform.first conform.positive positive even
  have required : partition.unitsRequired ≤ c.units := by
    rw [Partition.unitsRequired, towers, splits]
    exact enough
  have shapedFirst : partition.Shaped (a.map (·.values)) :=
    ⟨by rw [List.length_map, towers], by simpa [towerLength] using conform.first⟩
  have shapedSecond : partition.Shaped (b.map (·.values)) :=
    ⟨by rw [List.length_map, towers, ← conform.count], by simpa [towerLength] using conform.second⟩
  have moduli : (a.map (·.modulus)).length = partition.towers := by rw [List.length_map, towers]
  refine ⟨partition, towers, towerLength, splits, ?_⟩
  rw [prepared b c conform.count conform.moduli, Partition.unitModuli_eq_ok moduli required words,
    ok_bind,
    Partition.stage_eq_ok shapedFirst required rows, ok_bind,
    Partition.stage_eq_ok shapedSecond required rows]
  rfl

end Preparing

section Staging

theorem onPool_eq_ok {α : Type} {step : Pool.Step α} {value : α} {before after : Pool}
    (h : step before = .ok value after) (c : Controller) :
    onPool step { c with pool := before } = .ok value { c with pool := after } := by
  simp only [onPool, h]

/-- A pool whose units have just loaded a program. -/
def loaded (program : Program) (pool : Pool) : Pool :=
  { pool with devices := pool.devices.map (·.load program), loaded := some program }

theorem load_eq_ok (program : Program) :
    load program c = .ok () { c with
      pool := loaded program c.pool
      loadedPath := some (program.path c.settings.programDirectory) } := by
  have found : Pool.load (program.path c.settings.programDirectory) c.pool =
      .ok () (loaded program c.pool) := by
    rw [Pool.load, Program.ofPath?_path]
    rfl
  simp only [load, run_get, loadPath, run_bind_ok (onPool_eq_ok found c)]
  rfl

end Staging
end Controller

namespace Device
variable {device : Device} {family : Family}

theorem symbol_load_modulus (device : Device) (family : Family) :
    (device.load (.tower family)).symbol modulusSymbol = .ok (List.replicate 8 0) := rfl

theorem symbol_load_length (device : Device) (family : Family) :
    (device.load (.tower family)).symbol lengthSymbol = .ok (List.replicate 4 0) := rfl

/-- A unit that has received its share of a batch. -/
def staged (device : Device) (family : Family) (m : Word) (bytes : Nat) (a b : List Word) :
    Device :=
  { ((device.load (.tower family)).setSymbol modulusSymbol (Bytes.ofWord m)).setSymbol lengthSymbol
      (Bytes.ofNat 4 bytes) with
    bank := (device.bank.put 0 a).put (bytes / 8) b }

theorem symbol_staged (device : Device) (family : Family) (m : Word) (bytes : Nat)
    (a b : List Word) :
    (device.staged family m bytes a b).symbol modulusSymbol = .ok (Bytes.ofWord m) :=
  (symbol_setSymbol_other (by decide) _).trans
    (symbol_setSymbol (symbol_load_modulus device family))

theorem supported_of_launch_staged {m : Word} {bytes : Nat} {a b : List Word} {launched : Device}
    (h : launch (device.staged family m bytes a b) = .ok () launched) :
    Modulus.isSupported m = true :=
  supported_of_launch_tower rfl (symbol_staged device family m bytes a b) h

section Staged
variable {settings : Settings} {id : Nat} {m : Word} {bytes : Nat} {a b : List Word}

theorem built_staged (built : device.Built settings id) :
    (device.staged family m bytes a b).Built settings id :=
  ⟨built.id, (Bank.capacity_put _ _ _).trans ((Bank.capacity_put _ _ _).trans built.bank),
    built.scratch,
    built.shape⟩

theorem symbol_staged_length : (device.staged family m bytes a b).symbol lengthSymbol =
    .ok (Bytes.ofNat 4 bytes) :=
  symbol_setSymbol ((symbol_setSymbol_other (by decide) _).trans (symbol_load_length device family))

/-- A unit on its way to a batch: with its modulus, its length and its first share. -/
def withModulus (device : Device) (family : Family) (m : Word) : Device :=
  (device.load (.tower family)).setSymbol modulusSymbol (Bytes.ofWord m)

def withLength (device : Device) (family : Family) (m : Word) (bytes : Nat) : Device :=
  (device.withModulus family m).setSymbol lengthSymbol (Bytes.ofNat 4 bytes)

def withFirst (device : Device) (family : Family) (m : Word) (bytes : Nat) (a : List Word) :
    Device :=
  { device.withLength family m bytes with bank := device.bank.put 0 a }

theorem receive_modulus : receive modulusSymbol 0 (Bytes.ofWord m) (device.load (.tower family)) =
    .ok () (device.withModulus family m) :=
  receive_symbol (symbol_load_modulus device family) (by simp) (by decide)

theorem receive_length : receive lengthSymbol 0 (Bytes.ofNat 4 bytes)
    (device.withModulus family m) =
    .ok () (device.withLength family m bytes) :=
  receive_symbol ((symbol_setSymbol_other (by decide) _).trans (symbol_load_length device family))
    (by simp) (by decide)

theorem receive_first (small : device.bank.capacity < Bank.addressable)
    (room : 8 * a.length ≤ device.bank.capacity) :
    receive bankTarget 0 (Bytes.ofWords a) (device.withLength family m bytes) =
      .ok () (device.withFirst family m bytes a) := by
  have own : (device.withLength family m bytes).bank = device.bank := rfl
  apply receive_bank (own ▸ small)
  exact ⟨rfl, Nat.mul_mod_right _ _, by rwa [Nat.zero_add]⟩

theorem receive_second (small : device.bank.capacity < Bank.addressable) (aligned : bytes % 8 = 0)
    (room : bytes + 8 * b.length ≤ device.bank.capacity) :
    receive bankTarget bytes (Bytes.ofWords b) (device.withFirst family m bytes a) =
      .ok () (device.staged family m bytes a b) := by
  have capacity : (device.withFirst family m bytes a).bank.capacity = device.bank.capacity :=
    Bank.capacity_put _ _ _
  apply receive_bank (by rwa [capacity])
  exact ⟨aligned, Nat.mul_mod_right _ _, by rwa [capacity]⟩

variable (accepted : settings.Accepted) (built : device.Built settings id)
  (lengthFirst : 8 * a.length = bytes) (room : 2 * bytes ≤ settings.bankBytes)
include accepted built lengthFirst room

theorem launch_staged (recorded : settings.shape.Recorded)
    (supported : Modulus.isSupported m = true) (lengthSecond : 8 * b.length = bytes)
    (ha : ∀ x ∈ a, x < m) (hb : ∀ y ∈ b, y < m) :
    ∃ launched, launch (device.staged family m bytes a b) = .ok () launched ∧
      launched.bank.capacity = settings.bankBytes ∧
      launched.bank.wordsAt 0 bytes = family.combined m a b := by
  have stagedBuilt : (device.staged family m bytes a b).Built settings id := built_staged built
  have secondPut := (device.bank.put 0 a).replaced_put (bytes / 8) b
  have first : (device.staged family m bytes a b).bank.wordsAt 0 bytes = a := by
    rw [staged, secondPut.wordsAt_of_disjoint (by omega)]
    exact (device.bank.replaced_put 0 a).wordsAt (by omega)
  have second : (device.staged family m bytes a b).bank.wordsAt bytes bytes = b :=
    secondPut.wordsAt (by omega)
  obtain ⟨bank, ran, replaced⟩ := launch_tower accepted stagedBuilt recorded (m := m) rfl
    (symbol_staged device family m bytes a b) symbol_staged_length
    (by omega) (by rw [stagedBuilt.bank]; exact room) supported first second ha hb
  refine ⟨_, ran, (launch_keeps accepted recorded).of_ok ran stagedBuilt |>.bank, ?_⟩
  exact replaced.wordsAt (by rw [family.length_combined m (by omega)]; omega)

theorem launch_staged_unrecorded (unrecorded : ¬ settings.shape.Recorded) :
    ∃ stopped, launch (device.staged family m bytes a b) = .error (.trapped .oversized) stopped :=
  launch_tower_unrecorded accepted (built_staged built) unrecorded rfl
    (symbol_staged device family m bytes a b)
    symbol_staged_length (by omega) (by rw [(built_staged built).bank]; exact room)

end Staged

end Device

namespace Controller
variable {settings : Settings} {count : Nat} {c : Controller}

section Transfers
variable {family : Family} {moduli : Nat → Word} {first second : Nat → List Word}
    {pool : Pool} {bytes : Nat}

/-- A pool on its way to a batch, each unit as far as the transfers have come. -/
def underway (family : Family) (pool : Pool) (stage : Nat → Device → Device) : Pool :=
  { pool with devices := pool.devices.mapIdx stage, loaded := some (.tower family) }

theorem loaded_eq_underway (family : Family) (pool : Pool) :
    loaded (.tower family) pool = underway family pool fun _ device =>
      device.load (.tower family) := by
  rw [loaded, underway, List.mapIdx_eq_iff.mpr fun i => List.getElem?_map]

theorem sendModuli_eq_ok :
    Pool.scatter modulusSymbol 0 (((List.range pool.devices.length).map moduli).map Bytes.ofWord)
        (loaded (.tower family) pool) =
      .ok () (underway family pool fun i device => device.withModulus family (moduli i)) := by
  rw [loaded_eq_underway, List.map_map]
  exact Pool.scatter_eq_ok fun _ _ _ => Device.receive_modulus

theorem sendLength_eq_ok :
    Pool.broadcast lengthSymbol 0 (Bytes.ofNat 4 bytes)
        (underway family pool fun i device => device.withModulus family (moduli i)) =
      .ok () (underway family pool fun i device => device.withLength family (moduli i) bytes) :=
  Pool.broadcast_eq_ok fun _ _ _ => Device.receive_length

variable (small : ∀ device ∈ pool.devices, device.bank.capacity < Bank.addressable)
  (room : ∀ device ∈ pool.devices, 2 * bytes ≤ device.bank.capacity)
include small room

theorem sendFirst_eq_ok (share : ∀ i, 8 * (first i).length = bytes) :
    Pool.scatter bankTarget 0 (((List.range pool.devices.length).map first).map Bytes.ofWords)
        (underway family pool fun i device => device.withLength family (moduli i) bytes) =
      .ok () (underway family pool fun i device =>
        device.withFirst family (moduli i) bytes (first i)) := by
  rw [List.map_map]
  refine Pool.scatter_eq_ok fun i device found => ?_
  have member := List.mem_of_getElem? found
  have fits := room device member
  exact Device.receive_first (small device member) (by rw [share i]; omega)

theorem sendSecond_eq_ok (aligned : bytes % 8 = 0) (share : ∀ i, 8 * (second i).length = bytes) :
    Pool.scatter bankTarget bytes (((List.range pool.devices.length).map second).map Bytes.ofWords)
        (underway family pool fun i device => device.withFirst family (moduli i) bytes (first i)) =
      .ok () (underway family pool fun i device => device.staged family (moduli i) bytes (first i)
        (second i)) := by
  rw [List.map_map]
  refine Pool.scatter_eq_ok fun i device found => ?_
  have member := List.mem_of_getElem? found
  have fits := room device member
  exact Device.receive_second (small device member) aligned (by rw [share i]; omega)

end Transfers

/-- The transfers of a batch put its rows into the units that have loaded its program. -/
theorem copyIn_eq_ok (accepted : settings.Accepted) (sound : c.Sound settings count)
    (family : Family) (batch : Batch) {moduli : Nat → Word} {first second : Nat → List Word}
    (free : ∀ memory ∈ c.memories, memory.isRangeFree 0 (2 * batch.partition.operandBytes) = true)
    (room : 2 * batch.partition.operandBytes ≤ settings.bankBytes)
    (unitModuli : batch.unitModuli = (List.range count).map moduli)
    (a : batch.a = (List.range count).map first) (b : batch.b = (List.range count).map second)
    (lengthFirst : ∀ i, (first i).length = batch.partition.share)
    (lengthSecond : ∀ i, (second i).length = batch.partition.share) :
    copyIn batch { c with pool := loaded (.tower family) c.pool } =
      .ok () { c with pool := { c.pool with
      devices := c.pool.devices.mapIdx fun i device =>
        device.staged family (moduli i) batch.partition.operandBytes (first i) (second i)
      loaded := some (.tower family) } } := by
  have small := accepted.bank_small
  have clear : c.memories.find?
    (fun memory => !memory.isRangeFree 0 (2 * batch.partition.operandBytes)) =
      none := List.find?_eq_none.mpr fun memory member => by simp [free memory member]
  have word : ¬ UInt32.size ≤ batch.partition.operandBytes := by
    unfold Bank.addressable at small
    simp only [UInt32.size]
    omega
  have capacity : ∀ device ∈ c.pool.devices, device.bank.capacity = settings.bankBytes := by
    intro device member
    obtain ⟨i, found⟩ := List.getElem?_of_mem member
    exact (sound.pool.units i device found).bank
  have allSmall : ∀ device ∈ c.pool.devices, device.bank.capacity < Bank.addressable :=
    fun device member => by rwa [capacity device member]
  have allRoom : ∀ device ∈ c.pool.devices,
      2 * batch.partition.operandBytes ≤ device.bank.capacity :=
    fun device member => by rwa [capacity device member]
  have aligned : batch.partition.operandBytes % 8 = 0 := Nat.mul_mod_left _ _
  have share : ∀ row : List Word, row.length = batch.partition.share →
      8 * row.length = batch.partition.operandBytes := by
    intro row length
    rw [length, Nat.mul_comm]
    rfl
  simp only [copyIn, run_get, clear, if_neg word]
  rw [unitModuli, a, b, ← sound.pool.count]
  exact (run_bind_ok (onPool_eq_ok sendModuli_eq_ok c)).trans <|
    (run_bind_ok (onPool_eq_ok sendLength_eq_ok c)).trans <|
    (run_bind_ok (onPool_eq_ok (sendFirst_eq_ok allSmall allRoom fun i => share _ (lengthFirst i))
      c)).trans <|
    onPool_eq_ok (sendSecond_eq_ok allSmall allRoom aligned fun i => share _ (lengthSecond i)) c

/-- Every write to the execution log succeeds. -/
def Logging (c : Controller) : Prop := ∀ log, c.executionLog = some log → log.refusal = none

theorem append_eq_ok (logging : c.Logging) (text : String) :
    ∃ executionLog, c.executionLog.mapM (·.append text) = .ok executionLog ∧
      ∀ log, executionLog = some log → log.refusal = none := by
  cases found : c.executionLog with
  | none => exact ⟨none, rfl, nofun⟩
  | some log =>
    have open' := logging log found
    refine ⟨some { log with content := log.content ++ text }, ?_, fun longer same => ?_⟩
    · simp only [Option.mapM_some, ExecutionLog.append, open']
      rfl
    · cases same
      exact open'

theorem refusal_of_not_logging (h : ¬ c.Logging) :
    ∃ log, c.executionLog = some log ∧ ∃ refusal, log.refusal = some refusal := by
  simp only [Logging, not_forall] at h
  obtain ⟨log, opened, refused⟩ := h
  exact ⟨log, opened, Option.ne_none_iff_exists'.mp refused⟩

/-- A unit after its log has been drained. -/
def drained (device : Device) : Device := { device with log := [] }

theorem execute_eq_ok {f : Device → Device} (loaded : c.pool.loaded.isNone = false)
    (logging : c.Logging) (each : ∀ device ∈ c.pool.devices, Device.launch device = .ok ()
      (f device)) :
    ∃ executionLog lastLogs, execute c = .ok () { c with
        pool := ⟨(c.pool.devices.map f).map drained, c.pool.loaded, c.pool.schedules.tail⟩
        launches := c.launches + 1
        executionLog
        lastLogs } ∧ ∀ log, executionLog = some log → log.refusal = none := by
  obtain ⟨executionLog, appended, still⟩ := append_eq_ok logging
    (launchRecord (c.launches + 1) c.loadedPath ((c.pool.devices.map f).map (·.log)) true)
  refine ⟨executionLog, (c.pool.devices.map f).map (·.log), ?_, still⟩
  simp only [execute, Pool.launch_eq_ok loaded each, conclude, Pool.drainLogs,
    Option.isNone_none, appended]
  rfl

/-- A launch that every unit gets through is refused by the log at most, and is done all the
same. -/
theorem execute_finished {f : Device → Device} (loaded : c.pool.loaded.isNone = false)
    (each : ∀ device ∈ c.pool.devices, Device.launch device = .ok () (f device)) :
    ∃ finished, finished.pool = ⟨(c.pool.devices.map f).map drained, c.pool.loaded,
      c.pool.schedules.tail⟩ ∧
      finished.memories = c.memories ∧ finished.settings = c.settings ∧
      (execute c = .ok () finished ∧ finished.Logging ∨
        ¬ c.Logging ∧ ∃ refusal, execute c = .error (.logFile refusal) finished) := by
  by_cases logging : c.Logging
  · obtain ⟨executionLog, lastLogs, ran, still⟩ := execute_eq_ok loaded logging each
    refine ⟨_, ?_, ?_, ?_, .inl ⟨ran, still⟩⟩ <;> rfl
  · obtain ⟨log, opened, refusal, refused⟩ := refusal_of_not_logging logging
    refine ⟨{ c with
      pool := ⟨(c.pool.devices.map f).map drained, c.pool.loaded, c.pool.schedules.tail⟩
      launches := c.launches + 1
      lastLogs := (c.pool.devices.map f).map (·.log) }, rfl, rfl, rfl, .inr ⟨logging, refusal, ?_⟩⟩
    simp only [execute, Pool.launch_eq_ok loaded each, conclude, Pool.drainLogs, opened,
      Option.mapM_some,
      ExecutionLog.append, refused]
    rfl

/-- A launch ends in a trap where every unit runs into it, whichever unit comes first. -/
theorem execute_trapped (loaded : c.pool.loaded.isNone = false) {trap : Trap}
    (populated : 0 < c.pool.devices.length)
    (each : ∀ device ∈ c.pool.devices, ∃ stopped,
      Device.launch device = .error (.trapped trap) stopped) :
    ∃ reached, execute c = .error (.trapped trap) reached := by
  have launched : ∃ reached, Pool.launch c.pool = .error (.trapped trap) reached := by
    simp only [Pool.launch, loaded]
    cases failure : (Pool.launchEach (c.pool.schedules.headD .inOrder) c.pool.devices).2 with
    | none =>
      have first := List.getElem_mem populated
      obtain ⟨_, trapped⟩ := each _ first
      obtain ⟨_, finished⟩ := Pool.launchEach_ok failure _ first
      cases finished.symm.trans trapped
    | some failed =>
      obtain ⟨id, fault⟩ := failed
      obtain ⟨device, member, _, failed, _⟩ := Pool.launchEach_fault failure
      obtain ⟨_, trapped⟩ := each device member
      cases trapped.symm.trans failed
      exact ⟨_, rfl⟩
  obtain ⟨reached, launched⟩ := launched
  refine ⟨{ c with pool := reached }, ?_⟩
  simp only [execute, launched]

theorem conclude_ne_ok (e : Error) (c after : Controller) : conclude (some e) c ≠ .ok () after := by
  intro h
  simp only [conclude] at h
  split at h
  · rename_i none
    cases none
  all_goals cases h

theorem logging_of_conclude {outcome : Option Error} {c after : Controller}
    (h : conclude outcome c = .ok () after) :
    c.Logging := by
  intro log found
  cases open' : log.refusal with
  | none => rfl
  | some refusal =>
    have refused : (c.executionLog.mapM
      (·.append (launchRecord (c.launches + 1) c.loadedPath c.pool.drainLogs.1
        outcome.isNone)) : Except Error (Option ExecutionLog)) = .error (.logFile refusal) := by
      rw [found]
      simp only [Option.mapM_some, ExecutionLog.append, open']
      rfl
    cases outcome with
    | none =>
      simp only [conclude, refused] at h
      cases h
    | some e => exact absurd h (conclude_ne_ok e c after)

theorem launch_of_execute {after : Controller} (h : execute c = .ok () after) :
    ∃ pool, Pool.launch c.pool = .ok () pool ∧ conclude none { c with pool } = .ok () after := by
  unfold execute at h
  cases ran : Pool.launch c.pool with
  | error e pool =>
    rw [ran] at h
    cases e with
    | trapped trap => cases h
    | _ => exact absurd h (conclude_ne_ok _ _ _)
  | ok _ pool =>
    rw [ran] at h
    exact ⟨pool, rfl, h⟩

theorem logging_of_execute {after : Controller} (h : execute c = .ok () after) : c.Logging := by
  obtain ⟨pool, _, concluded⟩ := launch_of_execute h
  intro log found
  exact logging_of_conclude concluded log found

theorem launched_of_execute {after : Controller} (h : execute c = .ok () after) :
    ∀ device ∈ c.pool.devices, ∃ launched, Device.launch device = .ok () launched := by
  obtain ⟨pool, ran, _⟩ := launch_of_execute h
  exact Pool.launched_of_ok ran

section Combining
variable {partition : Partition} {a b : List Tower} {length : Nat} {family : Family}

theorem getD_combined (conform : Tower.Conform a b length) {t : Nat} (inside : t < a.length) :
    ((List.zipWith (Tower.combine family) a b).map (·.values)).getD t [] =
      family.combined ((a.map (·.modulus)).getD t 0) ((a.map (·.values)).getD t [])
        ((b.map (·.values)).getD t []) := by
  have other : t < b.length := by have := conform.count; omega
  simp [List.getD_eq_getElem?_getD, inside, other, Tower.combine]

theorem shaped_combined (towers : partition.towers = a.length)
    (towerLength : partition.towerLength = length) (conform : Tower.Conform a b length) :
    partition.Shaped ((List.zipWith (Tower.combine family) a b).map (·.values)) := by
  have count := conform.count
  refine ⟨by rw [List.length_map, List.length_zipWith, towers]; omega, ?_⟩
  intro values member
  obtain ⟨tower, combined, rfl⟩ := List.mem_map.mp member
  obtain ⟨t, found⟩ := List.mem_iff_getElem?.mp combined
  rw [List.getElem?_zipWith_eq_some] at found
  obtain ⟨x, y, first, second, rfl⟩ := found
  have hx := conform.first x (List.mem_of_getElem? first)
  have hy := conform.second y (List.mem_of_getElem? second)
  rw [towerLength, Tower.combine, family.length_combined _ (hy.trans hx.symm), hx]

theorem shaped_first (towers : partition.towers = a.length)
    (towerLength : partition.towerLength = length) (conform : Tower.Conform a b length) :
    partition.Shaped (a.map (·.values)) :=
  ⟨by rw [List.length_map, towers], by simpa [towerLength] using conform.first⟩

theorem shaped_second (towers : partition.towers = a.length)
    (towerLength : partition.towerLength = length) (conform : Tower.Conform a b length) :
    partition.Shaped (b.map (·.values)) :=
  ⟨by rw [List.length_map, towers, conform.count], by simpa [towerLength] using conform.second⟩

/-- A busy unit computes its part of the combined towers. -/
theorem row_combined (towers : partition.towers = a.length) (conform : Tower.Conform a b length)
    {unit : Nat} (busy : unit < partition.unitsRequired) :
    family.combined (partition.unitModulus (a.map (·.modulus)) unit)
      (partition.row (a.map (·.values)) unit)
        (partition.row (b.map (·.values)) unit) =
      partition.row ((List.zipWith (Tower.combine family) a b).map (·.values)) unit := by
  have carried : partition.unitTower? unit = some (unit / partition.split) := by
    rw [Partition.unitTower?, if_pos busy]
  have inside : unit / partition.split < a.length := towers ▸ Partition.unitTower?_lt carried
  simp only [Partition.row, Partition.unitModulus, carried, Option.getD_some]
  rw [getD_combined conform inside, family.combined_slice]

theorem unitModulus_mem (towers : partition.towers = a.length) (unit : Nat) :
    ∃ t, ∃ inside : t < a.length, (partition.unitTower? unit).getD 0 = t ∧
      partition.unitModulus (a.map (·.modulus)) unit = a[t].modulus := by
  have inside : (partition.unitTower? unit).getD 0 < a.length := by
    cases carried : partition.unitTower? unit with
    | none => exact towers ▸ partition.towers_pos
    | some t => exact towers ▸ Partition.unitTower?_lt carried
  exact ⟨_, inside, rfl, by simp [Partition.unitModulus, List.getD_eq_getElem?_getD, inside]⟩

theorem row_reduced (towers : partition.towers = a.length) {values : List (List Word)}
    (reduced : ∀ t (inside : t < a.length), ∀ x ∈ values.getD t [], x < a[t].modulus)
    (supported : ∀ tower ∈ a, Modulus.isSupported tower.modulus = true) (unit : Nat) :
    ∀ x ∈ partition.row values unit, x < partition.unitModulus (a.map (·.modulus)) unit := by
  intro x member
  obtain ⟨t, inside, carried, modulus⟩ := unitModulus_mem (a := a) towers unit
  rw [modulus]
  rcases Partition.mem_row member with rfl | ⟨t', own, member⟩
  · exact UInt64.lt_iff_toNat_lt.mpr (Modulus.pos (supported _ (List.getElem_mem inside)))
  · rw [own, Option.getD_some] at carried
    subst carried
    exact reduced t' inside x member

theorem moduli_combined (conform : Tower.Conform a b length) :
    (List.zipWith (Tower.combine family) a b).map (·.modulus) = a.map (·.modulus) := by
  apply List.ext_getElem?
  intro t
  rw [List.getElem?_map, List.getElem?_map, List.getElem?_zipWith]
  rcases Nat.lt_or_ge t a.length with inside | outside
  · have other : t < b.length := by have := conform.count; omega
    simp only [List.getElem?_eq_getElem inside, List.getElem?_eq_getElem other, Option.map_some,
      Tower.combine]
  · simp only [List.getElem?_eq_none outside, Option.map_none]

/-- The rows of the combined towers fill blank towers with them. -/
theorem fill_combined (towers : partition.towers = a.length)
    (towerLength : partition.towerLength = length) (conform : Tower.Conform a b length)
    (rows : List (List Word)) (enough : partition.unitsRequired ≤ rows.length)
    (same : ∀ unit, unit < partition.unitsRequired → rows[unit]? =
      some (partition.row ((List.zipWith (Tower.combine family) a b).map (·.values)) unit)) :
    BatchResult.fill ⟨partition, a.map (·.modulus), rows⟩
        ((a.map (·.modulus)).map fun modulus => Tower.zero modulus partition.towerLength) =
      .ok () (List.zipWith (Tower.combine family) a b) := by
  have blanks : partition.Shaped
      (((a.map (·.modulus)).map fun modulus => Tower.zero modulus partition.towerLength).map
        (·.values)) := by
    refine ⟨by rw [List.length_map, List.length_map, List.length_map, towers], ?_⟩
    intro values member
    simp only [List.map_map, List.mem_map] at member
    obtain ⟨tower, _, rfl⟩ := member
    exact List.length_replicate
  have moduli : ((a.map (·.modulus)).map fun modulus =>
    Tower.zero modulus partition.towerLength).map
      (·.modulus) = a.map (·.modulus) := by
    rw [List.map_map]
    exact List.map_id _
  have rebuilt : ∀ towers : List Tower, ((towers.map (·.modulus)).zip (towers.map (·.values))).map
      (fun pair => Tower.mk pair.1 pair.2) = towers := by
    intro towers
    rw [List.zip_map', List.map_map]
    exact List.map_id towers
  have scattered :=
    Partition.scatter_eq_ok enough blanks (shaped_combined towers towerLength conform) same
  simp only [BatchResult.fill, moduli, scattered, ne_eq, not_true_eq_false, if_false]
  rw [← moduli_combined conform, rebuilt]

end Combining

end Controller
end BankedRing
