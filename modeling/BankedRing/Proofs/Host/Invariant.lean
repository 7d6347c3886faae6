import BankedRing.Host.Controller
import BankedRing.Proofs.Device.Allocator
import BankedRing.Proofs.Host.Pool
import BankedRing.Proofs.Partition

/-! What holds of a controller in every state that its commands lead to: the units are as
they were built, and the allocators of all units agree and are valid. A command on such
a controller may fail, but a controller that can record its tasklets traps only where it is
asked for more bytes than a word can count. -/
namespace BankedRing

/-- Outcomes without a trap. -/
abbrev Returns {α : Type} (outcome : Except Error α) : Prop := Admits Error.Returned outcome

namespace Allocator

/-- The same allocator on another unit. -/
def onUnit (memory : Allocator) (unit : Nat) : Allocator := { memory with unit }

theorem allocate_onUnit (memory : Allocator) (unit size : Nat) :
    (memory.onUnit unit).allocate size =
      match memory.allocate size with
      | .ok (address, after) => .ok (address, after.onUnit unit)
      | .error _ => .error (refusal unit memory.blockBytes size) := by
  by_cases uncounted : UInt64.size ≤ size + memory.blockBytes
  · have stopped : memory.allocate size = .error (.trapped .overflow) := if_pos uncounted
    rw [stopped, refusal, if_pos uncounted]
    exact if_pos uncounted
  · rw [allocate, allocate, if_neg uncounted]
    refine (if_neg uncounted).trans ?_
    simp only [onUnit, blocksFor, refusal, if_neg uncounted]
    split <;> rfl

theorem deallocate_onUnit {memory : Allocator} (valid : memory.Valid) (unit : Nat)
    (address : UInt32) :
    (memory.onUnit unit).deallocate address =
      match memory.deallocate address with
      | .ok after => .ok (after.onUnit unit)
      | .error _ => .error (.invalidDeallocation unit address) := by
  cases live : memory.records.lookup address with
  | none => simp only [deallocate, onUnit, live]
  | some blocks =>
    have inside := (valid.placed _ (valid.lookup_iff.mp live)).2.2
    have inside : address.toNat / memory.blockBytes + blocks ≤ memory.used.length := inside
    simp only [deallocate, onUnit, live, if_pos inside]
    exact if_pos inside

end Allocator

namespace Controller
variable {settings : Settings} {count : Nat}

/-- One allocator for the banks of all units. -/
structure Shared (settings : Settings) (memory : Allocator) : Prop where
  valid : memory.Valid
  blockBytes : memory.blockBytes = Allocator.standardBlockBytes
  inside : memory.used.length * memory.blockBytes ≤ settings.bankBytes

/-- Allocators of units that all stand the same. -/
def allocators (memory : Allocator) (count : Nat) : List Allocator :=
  (List.range count).map memory.onUnit

structure Sound (settings : Settings) (count : Nat) (c : Controller) : Prop where
  configured : c.settings = settings
  units : 0 < count
  host : Pool.deviceFootprint * count < 9223372036854775808
  pool : c.pool.Built settings count
  memories : ∃ memory, Shared settings memory ∧ c.memories = allocators memory count

namespace Sound

variable {c : Controller}

theorem count_eq (sound : c.Sound settings count) : c.units = count := sound.pool.count

theorem withPool (sound : c.Sound settings count) {pool : Pool}
    (built : pool.Built settings count) :
    Sound settings count { c with pool } :=
  ⟨sound.configured, sound.units, sound.host, built, sound.memories⟩

theorem withMemory (sound : c.Sound settings count) {memory after : Allocator}
    (shared : Shared settings memory) (valid : after.Valid)
    (blockBytes : after.blockBytes = memory.blockBytes)
    (length : after.used.length = memory.used.length) :
    Sound settings count { c with memories := allocators after count } := by
  refine ⟨sound.configured, sound.units, sound.host, sound.pool, after, ⟨valid, ?_, ?_⟩, rfl⟩
  · exact blockBytes.trans shared.blockBytes
  · rw [length, blockBytes]
    exact shared.inside

end Sound

section Memories

theorem allocateEach_of_error {memory : Allocator} {bytes : Nat} {e : Error}
    (failed : memory.allocate bytes = .error e) (unit : Nat) (units : List Nat) :
    allocateEach bytes ((unit :: units).map memory.onUnit) =
      ((unit :: units).map memory.onUnit, [],
        some (Allocator.refusal unit memory.blockBytes bytes)) := by
  simp only [List.map_cons, allocateEach, Allocator.allocate_onUnit, failed]

theorem allocateEach_of_ok {memory after : Allocator} {bytes : Nat} {address : UInt32}
    (granted : memory.allocate bytes = .ok (address, after)) (units : List Nat) :
    allocateEach bytes (units.map memory.onUnit) =
      (units.map after.onUnit, units.map fun _ => address, none) := by
  induction units with
  | nil => rfl
  | cons unit units ih =>
    simp only [List.map_cons, allocateEach, Allocator.allocate_onUnit, granted, ih]

theorem deallocateEach_of_ok {memory after : Allocator} (valid : memory.Valid) {address : UInt32}
    (freed : memory.deallocate address = .ok after) (units : List Nat) :
    deallocateEach address (units.map memory.onUnit) = (units.map after.onUnit, none) := by
  induction units with
  | nil => rfl
  | cons unit units ih =>
    simp only [List.map_cons, deallocateEach, Allocator.deallocate_onUnit valid, freed, ih]

theorem deallocateEach_of_error {memory : Allocator} (valid : memory.Valid)
    {address : UInt32} {e : Error} (failed : memory.deallocate address = .error e) (unit : Nat)
    (units : List Nat) :
    deallocateEach address ((unit :: units).map memory.onUnit) =
      ((unit :: units).map memory.onUnit, some (.invalidDeallocation unit address)) := by
  induction units generalizing unit with
  | nil =>
    simp only [List.map_cons, List.map_nil, deallocateEach,
      Allocator.deallocate_onUnit valid, failed]
  | cons next units ih =>
    rw [List.map_cons, deallocateEach, ih next]
    simp only [Allocator.deallocate_onUnit valid, failed]

theorem allocators_eq_cons (memory : Allocator) (positive : 0 < count) :
    ∃ units, allocators memory count = (0 :: units).map memory.onUnit := by
  cases count with
  | zero => cases positive
  | succ count => exact ⟨_, by rw [allocators, List.range_succ_eq_map]⟩

variable {c : Controller} {memory : Allocator}

theorem allocate_of_ok (positive : 0 < count) (same : c.memories = allocators memory count)
    {bytes : Nat} {address : UInt32} {after : Allocator}
    (granted : memory.allocate bytes = .ok (address, after)) :
    allocate bytes c = .ok address { c with memories := allocators after count } := by
  have each := allocateEach_of_ok granted (List.range count)
  rw [← allocators, ← allocators, ← same] at each
  obtain ⟨others, addresses⟩ :
      ∃ others, ((List.range count).map fun _ => address) = address :: others := by
    obtain ⟨rest, shape⟩ : ∃ rest, List.range count = 0 :: rest := by
      cases count with
      | zero => cases positive
      | succ count => exact ⟨_, List.range_succ_eq_map⟩
    exact ⟨_, by rw [shape, List.map_cons]⟩
  have agree : others.all (· = address) = true := by
    apply List.all_eq_true.mpr
    intro other member
    have member : other ∈ (List.range count).map fun _ => address := by simp [addresses, member]
    obtain ⟨_, _, rfl⟩ := List.mem_map.mp member
    simp
  rw [addresses] at each
  simp only [allocate, run_get, each]
  rw [if_pos agree]
  rfl

theorem allocate_of_error (positive : 0 < count) (same : c.memories = allocators memory count)
    {bytes : Nat} {e : Error} (failed : memory.allocate bytes = .error e) :
    allocate bytes c = .error (Allocator.refusal 0 memory.blockBytes bytes) c := by
  obtain ⟨units, shape⟩ := allocators_eq_cons memory positive
  have each := allocateEach_of_error failed 0 units
  rw [← shape, ← same] at each
  have kept : rollBack c.memories [] = c.memories := by cases c.memories <;> rfl
  simp only [allocate, run_get, each, kept]
  rfl

theorem deallocate_of_ok (same : c.memories = allocators memory count) (valid : memory.Valid)
    {address : UInt32} {after : Allocator} (freed : memory.deallocate address = .ok after) :
    deallocate address c = .ok () { c with memories := allocators after count } := by
  have each := deallocateEach_of_ok valid freed (List.range count)
  rw [← allocators, ← allocators, ← same] at each
  simp only [deallocate, run_get, each]
  rfl

theorem deallocate_of_error (positive : 0 < count) (same : c.memories = allocators memory count)
    (valid : memory.Valid) {address : UInt32} {e : Error}
    (failed : memory.deallocate address = .error e) :
    deallocate address c = .error (.invalidDeallocation 0 address) c := by
  obtain ⟨units, shape⟩ := allocators_eq_cons memory positive
  have each := deallocateEach_of_error valid failed 0 units
  rw [← shape, ← same] at each
  simp only [deallocate, run_get, each]
  rfl

end Memories

section Returning

theorem new_returns (towers towerLength split : Nat) :
    Returns (Partition.new towers towerLength split) := by
  unfold Partition.new
  split
  · exact .error rfl
  · split
    · exact .ok _
    · exact .error rfl

theorem checkUnits_returns (partition : Partition) (units : Nat) :
    Returns (partition.checkUnits units) := by
  unfold Partition.checkUnits
  split
  · exact .error rfl
  · exact .ok _

theorem stage_returns (partition : Partition) (towers : List (List Word)) {units : Nat}
    (host : Pool.deviceFootprint * units < 9223372036854775808) :
    Returns (partition.stage towers units) := by
  have rows : Partition.rowFootprint * units < 9223372036854775808 := by
    unfold Pool.deviceFootprint at host
    unfold Partition.rowFootprint
    omega
  refine .bind (checkUnits_returns partition units) fun _ _ => .bind ?_ fun _ _ => ?_
  · unfold Partition.checkTowers
    split
    · exact .error rfl
    · split
      · exact .error rfl
      · exact .ok _
  · rw [Checked.buffer_eq_ok rows]
    exact .ok _

theorem unitModuli_returns (partition : Partition) {moduli : List Word} {units : Nat}
    (length : moduli.length = partition.towers)
    (host : Pool.deviceFootprint * units < 9223372036854775808) :
    Returns (partition.unitModuli moduli units) := by
  have words : 8 * units < 9223372036854775808 := by
    unfold Pool.deviceFootprint at host
    omega
  rcases Nat.lt_or_ge units partition.unitsRequired with few | enough
  · have refused : partition.unitModuli moduli units = .error
      (.insufficientUnits partition.unitsRequired units) := by
      rw [Partition.unitModuli, Partition.checkUnits, if_pos few]
      rfl
    rw [refused]
    exact .error rfl
  · rw [Partition.unitModuli_eq_ok length enough words]
    exact .ok _

theorem prepare_returns {c : Controller} (sound : c.Sound settings count) (a b : List Tower)
    (split : Nat) :
    Returns (c.prepare a b split) := by
  have host := sound.host
  rw [← sound.count_eq] at host
  unfold prepare
  refine .guard rfl fun _ => ?_
  dsimp only
  split
  · exact .error rfl
  refine .bind (new_returns _ _ _) fun partition made => ?_
  have towers : (a.map (·.modulus)).length = partition.towers := by
    rw [List.length_map, (Partition.new_eq_ok_iff.mp made).2.2.1]
  exact .bind (unitModuli_returns partition towers host) fun _ _ =>
    .bind (stage_returns partition _ host) fun _ _ =>
      .bind (stage_returns partition _ host) fun _ _ => .ok _

theorem fill_returns (partition : Partition) (rows towers : List (List Word)) :
    Returns (partition.fill rows towers).2 := by
  induction towers generalizing rows with
  | nil => exact .ok _
  | cons tower rest ih =>
    unfold Partition.fill
    split
    · exact .error rfl
    · exact ih _

theorem scatter_keeps (partition : Partition) (rows : List (List Word)) :
    Keeps (fun _ => True) Error.Returned (partition.scatter rows) := by
  refine .lift_bind (fun _ _ => ?_) (checkUnits_returns partition rows.length)
  dsimp only
  split
  · exact .throw_bind rfl
  refine .get fun towers _ => .guard rfl fun _ => ?_
  exact .bind (.set trivial) fun _ => .lift (fill_returns partition rows towers)

theorem results_keep (results : BatchResult) :
    Keeps (fun _ => True) Error.Returned results.fill := by
  intro towers _
  refine ⟨trivial, ?_⟩
  intro e after failed
  simp only [BatchResult.fill] at failed
  split at failed
  · cases failed
    rfl
  · split at failed
    · cases failed
    · rename_i refused
      cases failed
      exact (scatter_keeps _ _ _ trivial).2 _ _ refused

end Returning

section Keeping

/-- What a step keeps of the pool, it keeps of the controller's. -/
theorem onPool_keeps_of {α : Type} {P : Pool → Prop} {E : Error → Prop} {step : Pool.Step α}
    (h : Keeps P E step) :
    Keeps (fun c => P c.pool) E (onPool step) := by
  intro c holds
  obtain ⟨kept, admitted⟩ := h c.pool holds
  unfold onPool
  cases outcome : step c.pool with
  | ok value pool =>
    rw [outcome] at kept
    exact ⟨kept, fun _ _ same => by cases same⟩
  | error e pool =>
    rw [outcome] at kept admitted
    refine ⟨kept, fun _ _ same => ?_⟩
    cases same
    exact admitted _ _ rfl

theorem onPool_keeps {α : Type} {step : Pool.Step α}
    (h : Keeps (Pool.Built settings count) Error.Returned step) :
    Keeps (Sound settings count) Error.Returned (onPool step) := by
  intro c sound
  obtain ⟨kept, returned⟩ := h c.pool sound.pool
  cases outcome : step c.pool with
  | ok value pool =>
    rw [outcome] at kept
    have ran : onPool step c = .ok value { c with pool } := by simp only [onPool, outcome]
    rw [ran]
    exact ⟨sound.withPool kept, fun _ _ same => by cases same⟩
  | error e pool =>
    rw [outcome] at kept returned
    have ran : onPool step c = .error e { c with pool } := by simp only [onPool, outcome]
    rw [ran]
    refine ⟨sound.withPool kept, ?_⟩
    intro _ _ same
    cases same
    exact returned _ _ rfl

theorem loadPath_keeps (path : Path) :
    Keeps (Sound settings count) Error.Returned (loadPath path) :=
  .bind (onPool_keeps (Pool.load_keeps path)) fun _ =>
    .change fun _ sound => ⟨sound.configured, sound.units, sound.host, sound.pool, sound.memories⟩

theorem load_keeps (program : Program) :
    Keeps (Sound settings count) Error.Returned (load program) :=
  .get fun _ _ => loadPath_keeps _

theorem drainLogs_built {pool : Pool} (built : pool.Built settings count) :
    pool.drainLogs.2.Built settings count := by
  refine ⟨by simp [Pool.drainLogs, built.count], ?_⟩
  intro i device found
  simp only [Pool.drainLogs, List.getElem?_map] at found
  obtain ⟨old, before, rfl⟩ := Option.map_eq_some_iff.mp found
  have kept := built.units i old before
  exact ⟨kept.id, kept.bank, kept.scratch, kept.shape⟩

theorem append_refused (log : ExecutionLog) (text : String) :
    Admits (fun e => ∃ refusal, e = .logFile refusal) (log.append text) := by
  unfold ExecutionLog.append
  split
  · exact .ok _
  · exact .error ⟨_, rfl⟩

theorem mapM_append_refused (log : Option ExecutionLog) (text : String) :
    Admits (fun e => ∃ refusal, e = .logFile refusal) (log.mapM (·.append text)) := by
  cases log with
  | none => exact .ok _
  | some log =>
    intro e failed
    cases appended : log.append text with
    | ok longer =>
      simp only [Option.mapM_some, appended] at failed
      cases failed
    | error refusal =>
      simp only [Option.mapM_some, appended] at failed
      cases failed
      exact append_refused log text _ appended

section Launching
variable {P : Controller → Prop} {E : Error → Prop}
  (concluded : ∀ (c : Controller) (lastLogs : List (List String)) (launches : Nat)
    (executionLog : Option ExecutionLog), P c →
    P { c with pool := c.pool.drainLogs.2, lastLogs, launches, executionLog })
  (refused : ∀ refusal, E (.logFile refusal))
include concluded refused

theorem conclude_keeps_of {outcome : Option Error} (own : ∀ e, outcome = some e → E e) :
    Keeps P E (conclude outcome) := by
  intro c kept
  have appended := mapM_append_refused c.executionLog
    (launchRecord (c.launches + 1) c.loadedPath c.pool.drainLogs.1 outcome.isNone)
  simp only [conclude]
  split
  · exact ⟨concluded c _ _ _ kept, fun _ _ same => by cases same⟩
  · refine ⟨concluded c _ _ _ kept, fun _ _ same => ?_⟩
    cases same
    exact own _ rfl
  · rename_i failed
    refine ⟨concluded c _ _ _ kept, fun _ _ same => ?_⟩
    cases same
    obtain ⟨refusal, rfl⟩ := appended _ failed
    exact refused refusal
  · refine ⟨concluded c _ _ _ kept, fun _ _ same => ?_⟩
    cases same
    exact own _ rfl

theorem execute_keeps_of (launching : Keeps P E (onPool Pool.launch)) : Keeps P E execute := by
  intro c holds
  obtain ⟨kept, admitted⟩ := launching c holds
  unfold execute
  cases outcome : Pool.launch c.pool with
  | ok value pool =>
    have ran : onPool Pool.launch c = .ok value { c with pool } := by simp only [onPool, outcome]
    rw [ran] at kept
    exact conclude_keeps_of concluded refused (fun _ same => by cases same) _ kept
  | error e pool =>
    have ran : onPool Pool.launch c = .error e { c with pool } := by simp only [onPool, outcome]
    rw [ran] at kept admitted
    have own := admitted _ _ rfl
    cases e with
    | trapped trap =>
      refine ⟨kept, fun _ _ same => ?_⟩
      cases same
      exact own
    | _ =>
      refine conclude_keeps_of concluded refused (fun _ same => ?_) _ kept
      cases same
      exact own

end Launching

variable (accepted : settings.Accepted)
include accepted

theorem execute_keeps (recorded : settings.shape.Recorded) :
    Keeps (Sound settings count) Error.Returned execute :=
  execute_keeps_of (fun _ _ _ _ sound =>
      ⟨sound.configured, sound.units, sound.host, drainLogs_built sound.pool, sound.memories⟩)
    (fun _ => rfl) (onPool_keeps (Pool.launch_keeps accepted recorded))

omit accepted in
theorem copyIn_keeps_of {P : Controller → Prop} {E : Error → Prop} {batch : Batch}
    (moduli : Keeps P E (onPool (Pool.scatter modulusSymbol 0 (batch.unitModuli.map Bytes.ofWord))))
    (length : Keeps P E (onPool
      (Pool.broadcast lengthSymbol 0 (Bytes.ofNat 4 batch.partition.operandBytes))))
    (first : Keeps P E (onPool (Pool.scatter bankTarget 0 (batch.a.map Bytes.ofWords))))
    (second : Keeps P E (onPool (Pool.scatter bankTarget batch.partition.operandBytes
      (batch.b.map Bytes.ofWords))))
    (exhausted : ∀ unit bytes, E (.memoryExhausted unit bytes))
    (large : ∀ bytes, E (.invalidParameters (.operandTooLarge bytes))) :
    Keeps P E (copyIn batch) := by
  refine .get fun c _ => ?_
  have transfers : Keeps P E (do
      if UInt32.size ≤ batch.partition.operandBytes then
        throw (.invalidParameters (.operandTooLarge batch.partition.operandBytes))
      onPool (Pool.scatter modulusSymbol 0 (batch.unitModuli.map Bytes.ofWord))
      onPool (Pool.broadcast lengthSymbol 0 (Bytes.ofNat 4 batch.partition.operandBytes))
      onPool (Pool.scatter bankTarget 0 (batch.a.map Bytes.ofWords))
      onPool (Pool.scatter bankTarget batch.partition.operandBytes (batch.b.map Bytes.ofWords)) :
      Step Unit) :=
    .guard (large _) fun _ => .bind moduli fun _ => .bind length fun _ =>
      .bind first fun _ => second
  dsimp only
  split
  · exact .throw_bind (exhausted _ _)
  · exact transfers

theorem copyIn_keeps (batch : Batch) : Keeps (Sound settings count) Error.Returned (copyIn batch) :=
  copyIn_keeps_of (onPool_keeps (Pool.scatter_keeps accepted _ _ _))
    (onPool_keeps (Pool.broadcast_keeps accepted _ _ _))
      (onPool_keeps (Pool.scatter_keeps accepted _ _ _))
    (onPool_keeps (Pool.scatter_keeps accepted _ _ _)) (fun _ _ => rfl) fun _ => rfl

theorem copyTo_keeps (values : List Word) (offset : UInt32) (distribution : Distribution) :
    Keeps (Sound settings count) Error.Returned (copyTo values offset distribution) := by
  cases distribution with
  | broadcast => exact onPool_keeps (Pool.broadcast_keeps accepted _ _ _)
  | scatter =>
    refine .get fun c sound => .lift_bind (fun share _ => ?_) fun e failed => ?_
    · exact onPool_keeps (Pool.scatter_keeps accepted _ _ _)
    · have units : c.units ≠ 0 := by rw [sound.count_eq]; exact Nat.ne_of_gt sound.units
      simp only [evenShare, if_neg units] at failed
      split at failed
      · cases failed
        rfl
      · cases failed

theorem send_keeps (symbol : String) (bytes : List UInt8) :
    Keeps (Sound settings count) Error.Returned (send symbol bytes) :=
  onPool_keeps (Pool.broadcast_keeps accepted _ _ _)

theorem runBlock_keeps (recorded : settings.shape.Recorded) (program : Program)
    (block : List UInt8) :
    Keeps (Sound settings count) Error.Returned (runBlock program block) :=
  .bind (load_keeps program) fun _ => .bind (send_keeps accepted _ _) fun _ =>
    execute_keeps accepted recorded

omit accepted in
/-- Only bytes that a word cannot count make an allocation trap. -/
theorem allocate_keeps (bytes : Nat) : Keeps (Sound settings count)
    (fun e => e.Returned ∨ UInt64.size ≤ bytes + Allocator.standardBlockBytes)
      (allocate bytes) := by
  intro c sound
  obtain ⟨memory, shared, same⟩ := sound.memories
  cases outcome : memory.allocate bytes with
  | ok granted =>
    obtain ⟨address, after⟩ := granted
    obtain ⟨valid, blockBytes, length, _⟩ := Allocator.allocate_eq_ok shared.valid outcome
    rw [allocate_of_ok sound.units same outcome]
    exact ⟨sound.withMemory shared valid blockBytes length, fun _ _ same => by cases same⟩
  | error e =>
    rw [allocate_of_error sound.units same outcome, shared.blockBytes]
    refine ⟨sound, fun refused _ same => ?_⟩
    have refusal : refused = Allocator.refusal 0 Allocator.standardBlockBytes bytes :=
      (EStateM.Result.error.inj same).1.symm
    rcases Nat.lt_or_ge (bytes + Allocator.standardBlockBytes) UInt64.size with counted | uncounted
    · rw [refusal, Allocator.refusal, if_neg (Nat.not_le_of_lt counted)]
      exact .inl rfl
    · exact .inr uncounted

omit accepted in
theorem deallocate_keeps (address : UInt32) :
    Keeps (Sound settings count) Error.Returned (deallocate address) := by
  intro c sound
  obtain ⟨memory, shared, same⟩ := sound.memories
  cases outcome : memory.deallocate address with
  | ok after =>
    obtain ⟨valid, blockBytes, length⟩ := Allocator.valid_after_deallocate shared.valid outcome
    rw [deallocate_of_ok same shared.valid outcome]
    exact ⟨sound.withMemory shared valid blockBytes length, fun _ _ same => by cases same⟩
  | error e =>
    rw [deallocate_of_error sound.units same shared.valid outcome]
    exact ⟨sound, fun _ _ same => by cases same; rfl⟩

omit accepted in
theorem collect_keeps_of {P : Controller → Prop} {E : Error → Prop} (batch : Batch)
    (read : ∀ c e, P c → c.copyOut batch = .error e → E e)
    (filled : ∀ c results blank e towers, P c → c.copyOut batch = .ok results →
      BatchResult.fill results blank = .error e towers → E e) : Keeps P E (do
    let results ← (← get).copyOut batch
    let blank := batch.towerModuli.map fun modulus => Tower.zero modulus batch.partition.towerLength
    match results.fill blank with
    | .ok _ towers => return towers
    | .error e _ => throw e : Step (List Tower)) := by
  refine .get fun c holds => .lift_bind (fun results collected => ?_) fun e failed =>
    read c e holds failed
  dsimp only
  split
  · exact .pure _
  · rename_i failed
    exact .throw (filled c results _ _ _ holds collected failed)

theorem runTowers_keeps (recorded : settings.shape.Recorded) (a b : List Tower) (program : Program)
    (split : Nat) :
    Keeps (Sound settings count) Error.Returned (runTowers a b program split) := by
  refine .guard rfl fun _ => .get fun c sound => .lift_bind (fun batch _ => ?_)
    (prepare_returns sound a b split)
  refine .bind (load_keeps program) fun _ => .bind (copyIn_keeps accepted batch) fun _ =>
    .bind (execute_keeps accepted recorded) fun _ =>
      collect_keeps_of batch (fun c e sound failed => ?_) ?_
  · rcases bind_eq_error.mp failed with failed | ⟨_, _, done⟩
    · exact Pool.gather_returned accepted sound.pool failed
    · cases done
  · exact fun _ results blank e _ _ _ failed => (results_keep results blank trivial).2 e _ failed

end Keeping

/-- What a holder of a controller can ask of it. -/
inductive Command where
  | load (path : Path)
  | copyIn (batch : Batch)
  | execute
  | runTowers (a b : List Tower) (program : Program) (split : Nat)
  | copyTo (values : List Word) (offset : UInt32) (distribution : Distribution)
  | send (symbol : String) (bytes : List UInt8)
  | runBlock (program : Program) (block : List UInt8)
  | allocate (bytes : Nat)
  | deallocate (address : UInt32)

def Command.run : Command → Step Unit
  | .load path => loadPath path
  | .copyIn batch => Controller.copyIn batch
  | .execute => Controller.execute
  | .runTowers a b program split => do
    let _ ← Controller.runTowers a b program split
  | .copyTo values offset distribution => Controller.copyTo values offset distribution
  | .send symbol bytes => Controller.send symbol bytes
  | .runBlock program block => Controller.runBlock program block
  | .allocate bytes => do
    let _ ← Controller.allocate bytes
  | .deallocate address => Controller.deallocate address

/-- How a command may fail. -/
def Command.Refuses : Command → Error → Prop
  | .allocate bytes, e => e.Returned ∨ UInt64.size ≤ bytes + Allocator.standardBlockBytes
  | _, e => e.Returned

/-- The states that commands lead to, failing commands included. Between two commands writes to
the execution log may begin or cease to succeed. -/
inductive Reachable (settings : Settings) : Controller → Prop
  | start {openLog : Path → Except FileRefusal ExecutionLog} {schedules : List Schedule}
      {c : Controller} :
    start settings openLog schedules = .ok c → Reachable settings c
  | command {c : Controller} (command : Command) :
    Reachable settings c → Reachable settings (after (command.run c))
  | relog {c : Controller} (executionLog : Option ExecutionLog) :
    Reachable settings c → Reachable settings { c with executionLog }

section Reaching
variable (accepted : settings.Accepted) (recorded : settings.shape.Recorded)
include accepted recorded

theorem Command.keeps (command : Command) :
    Keeps (Sound settings count) command.Refuses command.run := by
  cases command with
  | load path => exact loadPath_keeps path
  | copyIn batch => exact copyIn_keeps accepted batch
  | execute => exact execute_keeps accepted recorded
  | runTowers a b program split =>
    exact .bind (runTowers_keeps accepted recorded a b program split) fun _ => .pure _
  | copyTo values offset distribution => exact copyTo_keeps accepted values offset distribution
  | send symbol bytes => exact send_keeps accepted symbol bytes
  | runBlock program block => exact runBlock_keeps accepted recorded program block
  | allocate bytes => exact .bind (allocate_keeps bytes) fun _ => .pure _
  | deallocate address => exact deallocate_keeps address

theorem sound_of_start {openLog : Path → Except FileRefusal ExecutionLog}
    {schedules : List Schedule} {c : Controller} (h : start settings openLog schedules = .ok c) :
    ∃ count, c.Sound settings count := by
  unfold start at h
  rw [accepted.valid, ok_bind] at h
  cases acquired : Pool.acquire settings settings.units settings.profile (Pool.empty schedules) with
  | error e pool =>
    rw [acquired] at h
    cases h
  | ok granted pool =>
    rw [acquired] at h
    dsimp only at h
    obtain ⟨log, _, h⟩ := bind_eq_ok.mp h
    obtain ⟨units, host, rfl⟩ := Pool.acquire_eq_ok acquired
    have shared : Shared settings
        (Allocator.ofGeometry 0 settings.bankBytes Allocator.standardBlockBytes) := by
      have small := accepted.bank_small
      refine ⟨Allocator.valid_ofGeometry 0 (Nat.le_of_lt small) _, rfl, ?_⟩
      simp only [Allocator.ofGeometry, List.length_replicate]
      exact Nat.div_mul_le_self _ _
    have booted : Keeps (Sound settings granted) Error.Returned (do load .boot; execute : Step Unit) :=
      .bind (load_keeps _) fun _ => execute_keeps accepted recorded
    split at h
    · rename_i ran
      cases h
      exact ⟨granted, booted.of_ok ran
        ⟨rfl, units, host, Pool.built_new settings granted _, _, shared, rfl⟩⟩
    · cases h

theorem sound_of_reachable {c : Controller} (h : Reachable settings c) :
    ∃ count, c.Sound settings count := by
  induction h with
  | start started => exact sound_of_start accepted recorded started
  | command command _ ih =>
    obtain ⟨count, sound⟩ := ih
    exact ⟨count, (command.keeps accepted recorded _ sound).1⟩
  | relog _ _ ih =>
    obtain ⟨count, sound⟩ := ih
    exact ⟨count, sound.configured, sound.units, sound.host, sound.pool, sound.memories⟩

end Reaching
end Controller
end BankedRing
