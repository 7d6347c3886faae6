import BankedRing.Proofs.Host.Start

/-! Whole batches. `Deals` lists what a batch needs of its operands and of the controller
to reach the units, and `Takes` adds that its moduli are supported. A batch is answered
exactly when the controller takes it; the answer is then the combined towers. -/
namespace BankedRing.Controller
variable {settings : Settings} {count : Nat} {c : Controller} {a b : List Tower}
    {length split : Nat}
  {family : Family} {partition : Partition}

/-- What a batch needs to reach the units. -/
structure Deals (c : Controller) (a b : List Tower) (length split : Nat) : Prop where
  conform : Tower.Conform a b length
  positive : 0 < split
  even : split ∣ length
  enough : a.length * split ≤ c.units
  free : ∀ memory ∈ c.memories, ∀ live ∈ memory.live, ∀ byte,
    ¬ (live.1.toNat ≤ byte ∧ byte < live.1.toNat + live.2 ∧ byte < 16 * (length / split))
  room : 16 * (length / split) ≤ c.settings.bankBytes

/-- What a batch needs of its operands and of the controller's units and banks. -/
structure Takes (c : Controller) (a b : List Tower) (length split : Nat) : Prop
    extends Deals c a b length split where
  supported : ∀ tower ∈ a, Modulus.isSupported tower.modulus = true

/-- A controller whose units have loaded the program and received their rows. -/
def dealt (c : Controller) (family : Family) (partition : Partition) (a b : List Tower) :
    Controller :=
  { c with
    loadedPath := some ((Program.tower family).path c.settings.programDirectory)
    pool := { c.pool with
      devices := c.pool.devices.mapIdx fun i device => device.staged family
        (partition.unitModulus (a.map (·.modulus)) i) partition.operandBytes
        (partition.row (a.map (·.values)) i) (partition.row (b.map (·.values)) i)
      loaded := some (.tower family) } }

/-- The second half of a batch: a launch, and its results put into blank towers. -/
def collect (batch : Batch) : Step (List Tower) := do
  execute
  let results ← (← get).copyOut batch
  let blank := batch.towerModuli.map fun modulus => Tower.zero modulus batch.partition.towerLength
  match results.fill blank with
  | .ok _ towers => return towers
  | .error e _ => throw e

theorem isRangeFree_iff_live {memory : Allocator} (valid : memory.Valid) {bytes : Nat}
    (positive : 0 < bytes) :
    memory.isRangeFree 0 bytes = true ↔ ∀ live ∈ memory.live, ∀ byte,
      ¬ (live.1.toNat ≤ byte ∧ byte < live.1.toNat + live.2 ∧ byte < bytes) := by
  rw [Allocator.isRangeFree_iff valid, Allocator.live]
  constructor
  · rintro (empty | apart) live member byte
    · omega
    · obtain ⟨r, owned, rfl⟩ := List.mem_map.mp member
      have := apart r owned
      dsimp only
      omega
  · intro apart
    refine .inr fun r member => ?_
    have meets := apart _ (List.mem_map_of_mem member) r.1.toNat
    have bytes : 0 < r.2 * memory.blockBytes := Nat.mul_pos (valid.placed r member).1 valid.positive
    dsimp only at meets
    omega

theorem valid_of_mem (sound : c.Sound settings count) {memory : Allocator}
    (member : memory ∈ c.memories) :
    memory.Valid := by
  obtain ⟨base, shared, same⟩ := sound.memories
  rw [same] at member
  obtain ⟨unit, _, rfl⟩ := List.mem_map.mp member
  have valid := shared.valid
  exact ⟨valid.positive, valid.reach, valid.placed, valid.ordered, valid.marked⟩

theorem stagingBytes (towerLength : partition.towerLength = length)
    (splits : partition.split = split) :
    2 * partition.operandBytes = 16 * (length / split) := by
  rw [Partition.operandBytes, Partition.share, towerLength, splits]
  omega

theorem free_iff (sound : c.Sound settings count) (towerLength : partition.towerLength = length)
    (splits : partition.split = split) :
    (∀ memory ∈ c.memories, memory.isRangeFree 0 (2 * partition.operandBytes) = true) ↔
      ∀ memory ∈ c.memories, ∀ live ∈ memory.live, ∀ byte,
        ¬ (live.1.toNat ≤ byte ∧ byte < live.1.toNat + live.2 ∧ byte < 16 * (length / split)) := by
  have share := partition.share_pos
  have some : 0 < 2 * partition.operandBytes := by unfold Partition.operandBytes; omega
  rw [← stagingBytes towerLength splits]
  exact forall₂_congr fun memory member => isRangeFree_iff_live (valid_of_mem sound member) some

theorem deals_of_blank (sound : c.Sound settings count)
    (memories : c.memories = allocators (blank settings) count) (conform : Tower.Conform a b length)
    (positive : 0 < split) (even : split ∣ length) (enough : a.length * split ≤ count)
    (room : 16 * (length / split) ≤ settings.bankBytes) :
    c.Deals a b length split := by
  refine ⟨conform, positive, even, sound.count_eq.symm ▸ enough, fun memory member live own => ?_,
    sound.configured.symm ▸ room⟩
  rw [memories] at member
  obtain ⟨unit, _, rfl⟩ := List.mem_map.mp member
  cases own

section Batches
variable (accepted : settings.Accepted)
include accepted

theorem stage_eq_ok (sound : c.Sound settings count) (deals : c.Deals a b length split)
    (family : Family) :
    ∃ partition : Partition, partition.towers = a.length ∧ partition.towerLength = length ∧
      partition.split = split ∧ c.prepare a b split = .ok (batchOf partition count a b) ∧
      (do load (.tower family); copyIn (batchOf partition count a b) : Step Unit) c =
        .ok () (c.dealt family partition a b) := by
  have counted := sound.count_eq
  obtain ⟨partition, towers, towerLength, splits, prepared⟩ :=
    prepare_eq_ok deals.conform deals.positive deals.even
    deals.enough (counted.symm ▸ sound.host)
  have room : 2 * partition.operandBytes ≤ settings.bankBytes := by
    rw [stagingBytes towerLength splits, ← sound.configured]
    exact deals.room
  let onPath : Controller :=
    { c with loadedPath := some ((Program.tower family).path c.settings.programDirectory) }
  have onPathSound : onPath.Sound settings count :=
    ⟨sound.configured, sound.units, sound.host, sound.pool, sound.memories⟩
  have transferred := copyIn_eq_ok accepted onPathSound family (batchOf partition count a b)
    ((free_iff sound towerLength splits).mpr deals.free) room rfl rfl rfl
    (Partition.length_row (shaped_first towers towerLength deals.conform))
    (Partition.length_row (shaped_second towers towerLength deals.conform))
  rw [counted] at prepared
  exact ⟨partition, towers, towerLength, splits, prepared,
    (run_bind_ok (load_eq_ok _)).trans transferred⟩

theorem runTowers_dealt (sound : c.Sound settings count) (deals : c.Deals a b length split)
    (family : Family) :
    ∃ partition : Partition, partition.towers = a.length ∧ partition.towerLength = length ∧
      partition.split = split ∧
      runTowers a b (.tower family) split c =
        collect (batchOf partition count a b) (c.dealt family partition a b) := by
  obtain ⟨partition, towers, towerLength, splits, prepared, staged⟩ :=
    stage_eq_ok accepted sound deals family
  obtain ⟨_, onProgram, loading, copying⟩ := run_bind_eq_ok.mp staged
  have isTower : ¬ (!(Program.tower family).isTower) = true := Bool.false_ne_true
  refine ⟨partition, towers, towerLength, splits, ?_⟩
  simp only [runTowers, if_neg isTower, run_get, prepared, run_lift_ok]
  exact (run_bind_ok loading).trans (run_bind_ok copying)

theorem copyOut_eq_ok (batch : Batch) {row : Nat → List Word}
    (room : batch.partition.operandBytes ≤ settings.bankBytes)
    (each : ∀ i (device : Device), c.pool.devices[i]? = some device →
      device.bank.capacity = settings.bankBytes ∧
      device.bank.wordsAt 0 batch.partition.operandBytes = row i) :
    c.copyOut batch = .ok ⟨batch.partition, batch.towerModuli, (List.range c.units).map row⟩ := by
  have aligned : batch.partition.operandBytes % 8 = 0 := Nat.mul_mod_left _ _
  have read := Pool.gather_eq_ok
    (f := fun device => Bytes.ofWords (device.bank.wordsAt 0 batch.partition.operandBytes))
      fun device member => by
      obtain ⟨i, found⟩ := List.mem_iff_getElem?.mp member
      have capacity := (each i device found).1
      refine (if_pos rfl).trans (Bank.read_eq_ok ?_ ⟨rfl, aligned, ?_⟩)
      · rw [capacity]
        exact accepted.bank_small
      · rw [capacity]
        omega
  have rows : (c.pool.devices.map fun device =>
      Bytes.ofWords (device.bank.wordsAt 0 batch.partition.operandBytes)).map Bytes.toWords =
        (List.range c.units).map row := by
    apply List.ext_getElem?
    intro i
    simp only [List.getElem?_map]
    rcases Nat.lt_or_ge i c.pool.devices.length with inside | outside
    · rw [List.getElem?_eq_getElem inside, List.getElem?_range (n := c.units) inside,
        Option.map_some,
        Option.map_some, Bytes.toWords_ofWords, (each i _ (List.getElem?_eq_getElem inside)).2,
        Option.map_some]
    · rw [List.getElem?_eq_none outside,
        List.getElem?_eq_none (by simpa [units, Pool.units] using outside)]
      rfl
  rw [copyOut, read, ok_bind, rows]
  rfl

/-- A unit that has received its rows computes its row of the combined towers. -/
theorem launch_rows (family : Family) {device : Device} {id : Nat}
    (recorded : settings.shape.Recorded) (built : device.Built settings id)
    (takes : c.Takes a b length split) (towers : partition.towers = a.length)
    (towerLength : partition.towerLength = length)
    (room : 2 * partition.operandBytes ≤ settings.bankBytes)
    (reducedFirst : ∀ tower ∈ a, tower.Reduced) (reducedSecond : ∀ tower ∈ b, tower.Reduced)
    (unit : Nat) :
    ∃ launched, Device.launch (device.staged family (partition.unitModulus (a.map (·.modulus)) unit)
        partition.operandBytes (partition.row (a.map (·.values)) unit)
          (partition.row (b.map (·.values)) unit)) =
          .ok () launched ∧
      launched.bank.capacity = settings.bankBytes ∧
      launched.bank.wordsAt 0 partition.operandBytes =
        family.combined (partition.unitModulus (a.map (·.modulus)) unit)
          (partition.row (a.map (·.values)) unit) (partition.row (b.map (·.values)) unit) := by
  have conform := takes.conform
  have supported : Modulus.isSupported (partition.unitModulus (a.map (·.modulus)) unit) = true := by
    obtain ⟨t, inside, _, modulus⟩ := unitModulus_mem (a := a) towers unit
    rw [modulus]
    exact takes.supported _ (List.getElem_mem inside)
  refine Device.launch_staged accepted built
    (partition.wide (Partition.length_row (shaped_first towers towerLength conform) unit)) room
      recorded supported
    (partition.wide (Partition.length_row (shaped_second towers towerLength conform) unit))
    (row_reduced towers (fun t inside x member => ?_) takes.supported unit)
    (row_reduced towers (fun t inside x member => ?_) takes.supported unit)
  · exact reducedFirst _ (List.getElem_mem inside) x
      (by simpa [List.getD_eq_getElem?_getD, inside] using member)
  · have other : t < b.length := by have := conform.count; omega
    rw [← conform.modulus_eq (List.getElem?_eq_getElem inside) (List.getElem?_eq_getElem other)]
    exact reducedSecond _ (List.getElem_mem other) x
      (by simpa [List.getD_eq_getElem?_getD, other] using member)

theorem collect_eq_ok {finished : Controller} (conform : Tower.Conform a b length)
    (towers : partition.towers = a.length) (towerLength : partition.towerLength = length)
    (room : partition.operandBytes ≤ settings.bankBytes)
    (required : partition.unitsRequired ≤ finished.units) (executed : execute c = .ok () finished)
    (each : ∀ i (device : Device), finished.pool.devices[i]? = some device →
      device.bank.capacity = settings.bankBytes ∧ device.bank.wordsAt 0 partition.operandBytes =
        family.combined (partition.unitModulus (a.map (·.modulus)) i)
          (partition.row (a.map (·.values)) i) (partition.row (b.map (·.values)) i)) :
    collect (batchOf partition count a b) c =
      .ok (List.zipWith (Tower.combine family) a b) finished := by
  have copied := copyOut_eq_ok accepted (batchOf partition count a b) room each
  have filled := fill_combined towers towerLength conform
    ((List.range finished.units).map fun i =>
      family.combined (partition.unitModulus (a.map (·.modulus)) i)
      (partition.row (a.map (·.values)) i) (partition.row (b.map (·.values)) i))
    (by rw [List.length_map, List.length_range]; exact required) fun unit busy => by
      rw [getElem?_map_range (Nat.lt_of_lt_of_le busy required), row_combined towers conform busy]
  refine (run_bind_ok executed).trans ((run_bind_ok (run_lift copied)).trans ?_)
  dsimp only [batchOf]
  rw [filled]
  rfl

/-- A batch that the controller takes ends in the combined towers. -/
theorem runTowers_eq_ok (sound : c.Sound settings count) (recorded : settings.shape.Recorded)
    (logging : c.Logging) (takes : c.Takes a b length split)
    (reducedFirst : ∀ tower ∈ a, tower.Reduced) (reducedSecond : ∀ tower ∈ b, tower.Reduced) :
    ∃ after, runTowers a b (.tower family) split c =
      .ok (List.zipWith (Tower.combine family) a b) after := by
  obtain ⟨partition, towers, towerLength, splits, collected⟩ :=
    runTowers_dealt accepted sound takes.toDeals family
  have room : 2 * partition.operandBytes ≤ settings.bankBytes := by
    rw [stagingBytes towerLength splits, ← sound.configured]
    exact takes.room
  have runs := fun i (device : Device) (found : c.pool.devices[i]? = some device) =>
    launch_rows accepted family recorded (sound.pool.units i device found) takes towers towerLength
      room reducedFirst reducedSecond i
  have each : ∀ device ∈ (c.dealt family partition a b).pool.devices,
      Device.launch device = .ok () (BankedRing.after (Device.launch device)) := by
    intro device member
    obtain ⟨i, found⟩ := List.mem_iff_getElem?.mp member
    rw [dealt, List.getElem?_mapIdx] at found
    obtain ⟨old, before, rfl⟩ := Option.map_eq_some_iff.mp found
    obtain ⟨launched, ran, _⟩ := runs i old before
    rw [ran]
    rfl
  obtain ⟨executionLog, lastLogs, executed, -⟩ :=
    execute_eq_ok (c := c.dealt family partition a b) rfl logging each
  have required : partition.unitsRequired ≤ c.units := by
    rw [Partition.unitsRequired, towers, splits]
    exact takes.enough
  refine ⟨_, collected.trans (collect_eq_ok accepted takes.conform towers towerLength (by omega)
    ?_ executed ?_)⟩
  · simp only [Controller.units, Pool.units, dealt, List.length_map, List.length_mapIdx]
    exact required
  · intro i device found
    simp only [dealt, List.getElem?_map, List.getElem?_mapIdx, Option.map_map] at found
    obtain ⟨old, before, rfl⟩ := Option.map_eq_some_iff.mp found
    obtain ⟨launched, ran, kept⟩ := runs i old before
    simp only [Function.comp_apply, ran, BankedRing.after, drained]
    exact kept

/-- A controller that cannot record its tasklets traps in the launch of any batch. -/
theorem runTowers_unrecorded (sound : c.Sound settings count)
    (unrecorded : ¬ settings.shape.Recorded) (deals : c.Deals a b length split) :
    ∃ stopped, runTowers a b (.tower family) split c = .error (.trapped .oversized) stopped := by
  obtain ⟨partition, towers, towerLength, splits, collected⟩ :=
    runTowers_dealt accepted sound deals family
  have room : 2 * partition.operandBytes ≤ settings.bankBytes := by
    rw [stagingBytes towerLength splits, ← sound.configured]
    exact deals.room
  have populated : 0 < (c.dealt family partition a b).pool.devices.length := by
    rw [dealt, List.length_mapIdx, sound.pool.count]
    exact sound.units
  obtain ⟨stopped, executed⟩ :=
    execute_trapped (c := c.dealt family partition a b) rfl populated fun device member => by
    obtain ⟨i, found⟩ := List.mem_iff_getElem?.mp member
    rw [dealt, List.getElem?_mapIdx] at found
    obtain ⟨old, before, rfl⟩ := Option.map_eq_some_iff.mp found
    exact Device.launch_staged_unrecorded accepted (sound.pool.units i old before)
      (partition.wide (Partition.length_row (shaped_first towers towerLength deals.conform) i))
        room unrecorded
  exact ⟨stopped, collected.trans (run_bind_error executed)⟩

theorem free_of_copyIn (sound : c.Sound settings count) {batch : Batch} {after : Controller}
    {second : Nat → List Word} (b : batch.b = (List.range count).map second)
    (lengthSecond : ∀ i, (second i).length = batch.partition.share)
    (h : copyIn batch c = .ok () after) :
    (∀ memory ∈ c.memories, memory.isRangeFree 0 (2 * batch.partition.operandBytes) = true) ∧
      2 * batch.partition.operandBytes ≤ settings.bankBytes := by
  simp only [copyIn, run_get] at h
  cases taken : c.memories.find? fun memory =>
    !memory.isRangeFree 0 (2 * batch.partition.operandBytes) with
  | some memory =>
    simp only [taken] at h
    cases h
  | none =>
  simp only [taken] at h
  refine ⟨fun memory member => by simpa using List.find?_eq_none.mp taken memory member, ?_⟩
  split at h
  · cases h
  obtain ⟨_, _, sent, h⟩ := run_bind_eq_ok.mp h
  have sound := (onPool_keeps (Pool.scatter_keeps accepted _ _ _)).of_ok sent sound
  obtain ⟨_, _, sent, h⟩ := run_bind_eq_ok.mp h
  have sound := (onPool_keeps (Pool.broadcast_keeps accepted _ _ _)).of_ok sent sound
  obtain ⟨_, last, sent, h⟩ := run_bind_eq_ok.mp h
  have sound := (onPool_keeps (Pool.scatter_keeps accepted _ _ _)).of_ok sent sound
  -- The last transfer reaches furthest; its first unit shows the room of all.
  cases scattered : Pool.scatter bankTarget batch.partition.operandBytes (batch.b.map Bytes.ofWords)
    last.pool with
  | error e pool =>
    simp only [onPool, scattered] at h
    cases h
  | ok _ pool =>
    have populated : 0 < last.pool.devices.length := sound.pool.count.symm ▸ sound.units
    have found := List.getElem?_eq_getElem populated
    have buffer : (batch.b.map Bytes.ofWords)[0]? = some (Bytes.ofWords (second 0)) := by
      rw [b, List.map_map, getElem?_map_range sound.units]
      rfl
    obtain ⟨_, received⟩ := Pool.received_of_scatter scattered buffer found
    have grants := (Device.grants_of_receive received).2.2
    rw [Bytes.length_ofWords, lengthSecond, (sound.pool.units 0 _ found).bank] at grants
    unfold Partition.operandBytes at *
    omega

/-- A batch that went through has reached the units. -/
theorem deals_of_runTowers (sound : c.Sound settings count) {out : List Tower} {after : Controller}
    (h : runTowers a b (.tower family) split c = .ok out after) :
    ∃ length, c.Deals a b length split := by
  have isTower : ¬ (!(Program.tower family).isTower) = true := Bool.false_ne_true
  simp only [runTowers, if_neg isTower, run_get] at h
  cases ready : c.prepare a b split with
  | error e =>
    simp only [ready, run_lift_error] at h
    cases h
  | ok batch =>
  simp only [ready, run_lift_ok] at h
  obtain ⟨length, conform, positive, even, enough, _⟩ := prepared ready
  obtain ⟨partition, towers, towerLength, splits, same⟩ :=
    prepare_eq_ok conform positive even enough (sound.count_eq.symm ▸ sound.host)
  rw [same] at ready
  cases ready
  rw [sound.count_eq] at h
  obtain ⟨_, onProgram, loadedProgram, h⟩ := run_bind_eq_ok.mp h
  cases (load_eq_ok _).symm.trans loadedProgram
  obtain ⟨_, _, transferred, _⟩ := run_bind_eq_ok.mp h
  obtain ⟨free, room⟩ :=
    free_of_copyIn accepted ((load_keeps (.tower family)).of_ok (load_eq_ok _) sound) rfl
    (Partition.length_row (shaped_second towers towerLength conform)) transferred
  refine ⟨length, conform, positive, even, enough, (free_iff sound towerLength splits).mp free, ?_⟩
  rw [← stagingBytes towerLength splits, sound.configured]
  exact room

/-- A batch that went through is one that the controller takes. -/
theorem takes_of_runTowers (sound : c.Sound settings count) {out : List Tower} {after : Controller}
    (h : runTowers a b (.tower family) split c = .ok out after) :
    ∃ length, c.Takes a b length split := by
  obtain ⟨length, deals⟩ := deals_of_runTowers accepted sound h
  obtain ⟨partition, towers, towerLength, splits, collected⟩ :=
    runTowers_dealt accepted sound deals family
  rw [collected] at h
  obtain ⟨_, _, executed, _⟩ := run_bind_eq_ok.mp h
  have launched := launched_of_execute executed
  refine ⟨length, deals, ?_⟩
  intro tower member
  obtain ⟨t, inside, rfl⟩ := List.mem_iff_getElem.mp member
  -- The first unit of the tower has its modulus.
  have carrying : t < partition.towers := towers ▸ inside
  have carried : partition.unitModulus (a.map (·.modulus)) (t * partition.split + 0) =
      a[t].modulus := by
    rw [Partition.unitModulus, Partition.unitTower?_busy carrying partition.split_pos]
    simp [List.getD_eq_getElem?_getD, inside]
  have there : t * partition.split + 0 < c.pool.devices.length := by
    refine Nat.lt_of_lt_of_le (partition.unit_lt carrying partition.split_pos) ?_
    rw [Partition.unitsRequired, towers, splits]
    exact deals.enough
  obtain ⟨_, ran⟩ := launched _ (List.mem_of_getElem? (by
    rw [dealt, List.getElem?_mapIdx, List.getElem?_eq_getElem there]
    rfl))
  rw [← carried]
  exact Device.supported_of_launch_staged ran

/-- The answer of a batch, whatever the controller's log. -/
theorem combined_of_runTowers (sound : c.Sound settings count) (recorded : settings.shape.Recorded)
    (reducedFirst : ∀ tower ∈ a, tower.Reduced) (reducedSecond : ∀ tower ∈ b, tower.Reduced)
    {out : List Tower} {after : Controller}
    (h : runTowers a b (.tower family) split c = .ok out after) :
    out = List.zipWith (Tower.combine family) a b := by
  obtain ⟨length, takes⟩ := takes_of_runTowers accepted sound h
  obtain ⟨partition, _, _, _, collected⟩ := runTowers_dealt accepted sound takes.toDeals family
  obtain ⟨_, _, executed, _⟩ := run_bind_eq_ok.mp (collected.symm.trans h)
  have logging : c.Logging := fun log found =>
    logging_of_execute (c := c.dealt family partition a b) executed log found
  obtain ⟨reached, answered⟩ :=
    runTowers_eq_ok accepted sound recorded logging takes reducedFirst reducedSecond
  cases answered.symm.trans h
  rfl

end Batches

theorem value_of_combine {x y : Tower} (reduced : y.Reduced) (same : y.modulus = x.modulus)
    (positive : 0 < x.modulus.toNat) {i : Nat} {u v w : Word} (first : x.values[i]? = some u)
    (second : y.values[i]? = some v) (combined : (Tower.combine family x y).values[i]? = some w) :
    (w.toNat : Int) = family.inRing (u.toNat : Int) v.toNat % x.modulus.toNat := by
  have below : v.toNat < x.modulus.toNat :=
    UInt64.lt_iff_toNat_lt.mp (same ▸ reduced v (List.mem_of_getElem? second))
  have paired : (x.values.zip y.values)[i]? = some (u, v) :=
    List.getElem?_zip_eq_some.mpr ⟨first, second⟩
  rw [Tower.combine, Family.combined, List.getElem?_map, paired, Option.map_some,
    Option.some.injEq] at combined
  rw [← combined, toNat_residue _ positive]
  exact family.number_emod below

/-- A batch of reduced towers is answered exactly when the controller takes it. Each word
of the answer is the combined residue of its place modulo the modulus of its tower. -/
theorem runTowers_exact (accepted : settings.Accepted) (recorded : settings.shape.Recorded)
    (reachable : Reachable settings c) (logging : c.Logging) (family : Family)
    (reducedFirst : ∀ tower ∈ a, tower.Reduced) (reducedSecond : ∀ tower ∈ b, tower.Reduced)
    (split : Nat) :
    ((∃ out after, runTowers a b (.tower family) split c = .ok out after) ↔
      ∃ length, c.Takes a b length split) ∧
    ∀ out after, runTowers a b (.tower family) split c = .ok out after →
      out.map (·.modulus) = a.map (·.modulus) ∧
      ∀ (t : Nat) (x y z : Tower), a[t]? = some x → b[t]? = some y → out[t]? = some z →
        z.values.length = x.values.length ∧
        ∀ (i : Nat) (u v w : Word), x.values[i]? = some u → y.values[i]? = some v →
          z.values[i]? = some w →
          (w.toNat : Int) = family.inRing (u.toNat : Int) v.toNat % x.modulus.toNat := by
  obtain ⟨count, sound⟩ := sound_of_reachable accepted recorded reachable
  refine ⟨⟨?_, ?_⟩, fun out after ran => ?_⟩
  · rintro ⟨out, after, ran⟩
    exact takes_of_runTowers accepted sound ran
  · rintro ⟨length, takes⟩
    exact ⟨_, runTowers_eq_ok accepted sound recorded logging takes reducedFirst reducedSecond⟩
  · obtain ⟨length, takes⟩ := takes_of_runTowers accepted sound ran
    have conform := takes.conform
    cases combined_of_runTowers accepted sound recorded reducedFirst reducedSecond ran
    refine ⟨moduli_combined conform, ?_⟩
    intro t x y z first second answer
    have member := List.mem_of_getElem? first
    have same := conform.modulus_eq first second
    have combined : (List.zipWith (Tower.combine family) a b)[t]? =
        some (Tower.combine family x y) :=
      List.getElem?_zipWith_eq_some.mpr ⟨x, y, first, second, rfl⟩
    cases combined.symm.trans answer
    refine ⟨?_, fun i u v w hu hv hw =>
      value_of_combine (reducedSecond y (List.mem_of_getElem? second)) same
      (Modulus.pos (takes.supported x member)) hu hv hw⟩
    exact family.length_combined _
      ((conform.second y (List.mem_of_getElem? second)).trans (conform.first x member).symm)

/-- Two residues on two of the four standard units. -/
theorem runTowers_exact_standard :
    ∃ c, Reachable {} c ∧ c.Logging ∧ ∃ out after,
      runTowers [⟨97, [1, 2]⟩] [⟨97, [96, 5]⟩] (.tower .add) 2 c = .ok out after ∧
        out.map (·.modulus) = [97] := by
  obtain ⟨c, started, sound, logging, memories⟩ := standard_starts (fun _ => .error .notFound) []
  have reachable : Reachable {} c := .start started
  have takes : c.Takes [⟨97, [1, 2]⟩] [⟨97, [96, 5]⟩] 2 2 := by
    refine ⟨deals_of_blank sound memories ?_ (by decide) (by decide) (by decide) (by decide), ?_⟩
    · exact ⟨by decide, rfl, by decide, by decide, by decide⟩
    · decide
  have answer := runTowers_exact standard_accepted standard_recorded reachable logging .add
    (a := [⟨97, [1, 2]⟩]) (b := [⟨97, [96, 5]⟩]) (by decide) (by decide) 2
  obtain ⟨out, after, ran⟩ := answer.1.mpr ⟨2, takes⟩
  exact ⟨c, reachable, logging, out, after, ran, (answer.2 out after ran).1⟩

/-- Accepted settings do not suffice: with more tasklets than the host can record, a batch
that the controller takes ends in a trap. -/
theorem runTowers_crowded :
    ∃ c, crowded.Accepted ∧ Reachable crowded c ∧ c.Logging ∧
      (∀ tower ∈ [(⟨97, [1]⟩ : Tower)], tower.Reduced) ∧ c.Takes [⟨97, [1]⟩] [⟨97, [1]⟩] 1 1 ∧
      ¬ ∃ out after, runTowers [⟨97, [1]⟩] [⟨97, [1]⟩] (.tower .add) 1 c = .ok out after := by
  obtain ⟨c, started, sound, logging, memories⟩ := crowded_starts (fun _ => .error .notFound) []
  have takes : c.Takes [⟨97, [1]⟩] [⟨97, [1]⟩] 1 1 := by
    refine ⟨deals_of_blank sound memories ?_ (by decide) (by decide) (by decide) (by decide), ?_⟩
    · exact ⟨by decide, rfl, by decide, by decide, by decide⟩
    · decide
  refine ⟨c, crowded_accepted, .start started, logging, by decide, takes, ?_⟩
  rintro ⟨out, after, ran⟩
  obtain ⟨stopped, trapped⟩ :=
    runTowers_unrecorded crowded_accepted sound crowded_unrecorded takes.toDeals
  cases trapped.symm.trans ran

end BankedRing.Controller
