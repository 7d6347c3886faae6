import Mathlib.Data.List.Forall2
import BankedRing.Proofs.Device.Footprint
import BankedRing.Proofs.Host.Request

/-! What a step of the host may write. Every step leaves the units as they were built and
changes no words but those of a span: transfers the regions that they name, a launch the
targets that the units' symbols give it, and a run over towers the staging area, once no live
allocation is in it. None of this asks for the step to go through. -/
namespace BankedRing

theorem Partition.length_of_stage {partition : Partition} {towers rows : List (List Word)}
    {units : Nat} (h : partition.stage towers units = .ok rows) :
    ∀ row ∈ rows, row.length = partition.share := by
  obtain ⟨enough, shaped⟩ := shaped_of_stage h
  have host : rowFootprint * units < 9223372036854775808 := by
    obtain ⟨_, _, h⟩ := bind_eq_ok.mp h
    obtain ⟨_, _, h⟩ := bind_eq_ok.mp h
    obtain ⟨_, counted, _⟩ := bind_eq_ok.mp h
    exact Checked.buffer_eq_ok_iff.mp (lift_eq_ok counted)
  cases (stage_eq_ok shaped enough host).symm.trans h
  intro row member
  obtain ⟨unit, _, rfl⟩ := List.mem_map.mp member
  exact length_row shaped unit

namespace Pool
variable {span wide : Nat → Prop} {pool middle reached : Pool} {devices : List Device}

/-- Unit by unit, no words differ but those of a span. -/
def Confined (span : Nat → Prop) (before after : Pool) : Prop :=
  List.Forall₂ (Device.Confined span) before.devices after.devices

namespace Confined

theorem refl (pool : Pool) : pool.Confined span pool :=
  List.forall₂_same.mpr fun device _ => .refl device

theorem trans (h : pool.Confined span middle) (h' : middle.Confined span reached) :
    pool.Confined span reached := by
  unfold Confined at *
  generalize pool.devices = first at h
  generalize middle.devices = second at h h'
  generalize reached.devices = third at h'
  induction h generalizing third with
  | nil => exact h'
  | cons own _ ih =>
    cases h' with
    | cons next later => exact .cons (own.trans next) (ih _ later)

theorem mono (h : pool.Confined span reached) (wider : ∀ i, span i → wide i) :
    pool.Confined wide reached :=
  h.imp fun _ _ confined => confined.mono wider

theorem device (h : pool.Confined span reached) {i : Nat} {device : Device}
    (found : pool.devices[i]? = some device) :
    ∃ after, reached.devices[i]? = some after ∧ device.Confined span after := by
  unfold Confined at h
  generalize pool.devices = before at h found
  generalize reached.devices = devices at h
  induction h generalizing i with
  | nil => cases found
  | cons own _ ih =>
    cases i with
    | zero =>
      cases found
      exact ⟨_, rfl, own⟩
    | succ i => exact ih found

theorem built {settings : Settings} {count : Nat} (h : pool.Confined span reached)
    (built : pool.Built settings count) : reached.Built settings count :=
  built.related (h.imp fun _ _ confined _ => confined.built)

end Confined

section Steps

theorem visit_confined {describe : Nat → Fault → Error} {steps : List (Device.Step Unit)}
    (each : ∀ step ∈ steps, ∀ device : Device, Keeps (device.Confined span) (fun _ => True) step) :
    Keeps (pool.Confined span) (fun _ => True) (visit describe steps) := by
  intro current confined
  refine ⟨confined.trans (visit_related .refl fun step member device => ?_), fun _ _ _ => trivial⟩
  exact (each step member device device (.refl device)).1

theorem broadcast_confined {target : String} {offset : Nat} {bytes : List UInt8}
    (inside : target = bankTarget → ∀ i, Bank.Run (offset / 8) (bytes.length / 8) i → span i) :
    Keeps (pool.Confined span) (fun _ => True) (broadcast target offset bytes) := by
  refine .get fun current _ => visit_confined fun step member device => ?_
  rw [List.eq_of_mem_replicate member]
  exact Device.receive_confined target offset bytes inside

theorem scatter_confined {target : String} {offset : Nat} {buffers : List (List UInt8)}
    (inside : target = bankTarget → ∀ buffer ∈ buffers, ∀ i, Bank.Run (offset / 8)
      (buffer.length / 8) i → span i) :
    Keeps (pool.Confined span) (fun _ => True) (scatter target offset buffers) := by
  refine .get fun current _ => .guard trivial fun _ => visit_confined fun step member device => ?_
  obtain ⟨buffer, own, rfl⟩ := List.mem_map.mp member
  exact Device.receive_confined target offset buffer fun named => inside named buffer own

theorem load_confined (path : Path) : Keeps (pool.Confined span) (fun _ => True) (load path) := by
  unfold load
  split
  · exact .throw trivial
  · refine .change fun current confined => confined.trans ?_
    exact List.forall₂_map_right_iff.mpr (List.forall₂_same.mpr fun device _ =>
      ⟨rfl, rfl, rfl, .refl _⟩)

/-- Launched units write their own targets. Those behind a fault are not launched. -/
theorem launch_confined
    (aimed : ∀ device ∈ pool.devices, ∀ region, device.aim = .ok region → device.shape.Recorded →
      ∀ i, Stream.Writes region i → span i) : pool.Confined span (after (launch pool)) :=
  launch_related .refl fun device member => Device.launch_confined (aimed device member)

end Steps
end Pool

namespace Controller
variable {span wide : Nat → Prop} {settings : Settings} {count : Nat}
    {c middle reached : Controller}

/-- The controller has the same allocators as before, and no words of its banks differ but
those of a span. -/
structure Confined (span : Nat → Prop) (before after : Controller) : Prop where
  settings : after.settings = before.settings
  memories : after.memories = before.memories
  pool : before.pool.Confined span after.pool

namespace Confined

theorem refl (c : Controller) : c.Confined span c := ⟨rfl, rfl, .refl _⟩

theorem trans (h : c.Confined span middle) (h' : middle.Confined span reached) :
    c.Confined span reached :=
  ⟨h'.settings.trans h.settings, h'.memories.trans h.memories, h.pool.trans h'.pool⟩

theorem mono (h : c.Confined span reached) (wider : ∀ i, span i → wide i) :
    c.Confined wide reached :=
  ⟨h.settings, h.memories, h.pool.mono wider⟩

theorem units (h : c.Confined span reached) : reached.units = c.units := h.pool.length_eq.symm

theorem sound (h : c.Confined span reached) (sound : c.Sound settings count) :
    reached.Sound settings count := by
  refine ⟨h.settings.trans sound.configured, sound.units, sound.host, h.pool.built sound.pool, ?_⟩
  rw [h.memories]
  exact sound.memories

theorem words (h : c.Confined span reached) {address : UInt32} {perUnit : Nat}
    (apart : ∀ i, Bank.Run (address.toNat / 8) perUnit i → ¬ span i) :
    reached.words address perUnit = c.words address perUnit := by
  have size : perUnit * 8 / 8 = perUnit := Nat.mul_div_cancel _ (by decide)
  have rows : ∀ {before after : List Device}, List.Forall₂ (Device.Confined span) before after →
      (after.flatMap fun device => device.bank.wordsAt address.toNat (perUnit * 8)) =
        before.flatMap fun device => device.bank.wordsAt address.toNat (perUnit * 8) := by
    intro before after confined
    induction confined with
    | nil => rfl
    | cons own _ ih =>
      rw [List.flatMap_cons, List.flatMap_cons, ih, own.bank.wordsAt (by rw [size]; exact apart)]
  exact rows h.pool

end Confined

section Steps

theorem after_onPool {α : Type} (step : Pool.Step α) (c : Controller) :
    after (onPool step c) = { c with pool := after (step c.pool) } := by
  unfold onPool
  cases step c.pool <;> rfl

theorem pool_onPool {α : Type} (step : Pool.Step α) (c : Controller) :
    (after (onPool step c)).pool = after (step c.pool) := by
  rw [after_onPool]

theorem onPool_confined {α : Type} {step : Pool.Step α}
    (keeps : ∀ pool : Pool, Keeps (pool.Confined span) (fun _ => True) step) :
    Keeps (c.Confined span) (fun _ => True) (onPool step) := by
  intro current confined
  have kept := (keeps c.pool current.pool confined.pool).1
  unfold onPool
  cases outcome : step current.pool with
  | ok value pool =>
    rw [outcome] at kept
    exact ⟨⟨confined.settings, confined.memories, kept⟩, fun _ _ _ => trivial⟩
  | error e pool =>
    rw [outcome] at kept
    exact ⟨⟨confined.settings, confined.memories, kept⟩, fun _ _ _ => trivial⟩

theorem loadPath_confined (path : Path) : Keeps (c.Confined span) (fun _ => True) (loadPath path) :=
  .bind (onPool_confined fun _ => Pool.load_confined path) fun _ =>
    .change fun _ confined => ⟨confined.settings, confined.memories, confined.pool⟩

theorem load_confined (program : Program) : Keeps (c.Confined span) (fun _ => True)
    (load program) :=
  .get fun _ _ => loadPath_confined _

theorem conclude_confined (outcome : Option Error) : Keeps (c.Confined span) (fun _ => True)
    (conclude outcome) := by
  refine conclude_keeps_of (fun current _ _ _ confined => ?_) (fun _ => trivial) fun _ _ => trivial
  have drained : current.pool.Confined span current.pool.drainLogs.2 :=
    List.forall₂_map_right_iff.mpr (List.forall₂_same.mpr fun device _ => ⟨rfl, rfl, rfl, .refl _⟩)
  exact ⟨confined.settings, confined.memories, confined.pool.trans drained⟩

theorem execute_confined
    (aimed : ∀ device ∈ c.pool.devices, ∀ region, device.aim = .ok region → device.shape.Recorded →
      ∀ i, Stream.Writes region i → span i) : c.Confined span (after (execute c)) := by
  have launched := Pool.launch_confined aimed
  unfold execute
  cases outcome : Pool.launch c.pool with
  | ok _ pool =>
    rw [outcome] at launched
    have confined : c.Confined span { c with pool } := ⟨rfl, rfl, launched⟩
    exact (conclude_confined none { c with pool } confined).1
  | error e pool =>
    rw [outcome] at launched
    have confined : c.Confined span { c with pool } := ⟨rfl, rfl, launched⟩
    cases e with
    | trapped trap => exact confined
    | _ => exact (conclude_confined _ { c with pool } confined).1

theorem runBlock_confined {program : Program} {block : List UInt8}
    (symbols : program.symbols = [(blockSymbol, block.length)])
    (aimed : ∀ device ∈ c.pool.devices, ∀ region, (device.asked program block).aim = .ok region →
      device.shape.Recorded → ∀ i, Stream.Writes region i → span i) :
    c.Confined span (after (runBlock program block c)) := by
  rw [runBlock_eq symbols]
  have asked : c.Confined span (c.asked program block) := by
    refine ⟨rfl, rfl, ?_⟩
    have same : (c.asked program block).pool.devices =
        c.pool.devices.map fun device => device.asked program block := by
      rw [Controller.asked, List.mapIdx_eq_iff.mpr fun i => List.getElem?_map]
    unfold Pool.Confined
    rw [same]
    exact List.forall₂_map_right_iff.mpr (List.forall₂_same.mpr fun device _ =>
      ⟨rfl, rfl, rfl, .refl _⟩)
  refine asked.trans (execute_confined fun device member => ?_)
  obtain ⟨i, found⟩ := List.mem_iff_getElem?.mp member
  rw [Controller.asked, List.getElem?_mapIdx] at found
  obtain ⟨old, before, rfl⟩ := Option.map_eq_some_iff.mp found
  exact aimed old (List.mem_of_getElem? before)

end Steps

end Controller

namespace Device
variable {family : Family} {bytes : Nat} {device : Device}

/-- A unit with a tower program, whose length symbol holds four bytes. -/
structure Loaded (family : Family) (device : Device) : Prop where
  program : device.program = some (.tower family)
  symbol : ∃ old : List UInt8, device.symbol lengthSymbol = .ok old ∧ old.length = 4

/-- A unit with a tower program that has been told the length of its operands. -/
structure Armed (family : Family) (bytes : Nat) (device : Device) : Prop where
  program : device.program = some (.tower family)
  symbol : device.symbol lengthSymbol = .ok (Bytes.ofNat 4 bytes)

theorem loaded_load (family : Family) (device : Device) :
    (device.load (.tower family)).Loaded family :=
  ⟨rfl, _, symbol_load_length device family, rfl⟩

/-- A launch of an armed unit writes over the first operand. -/
theorem aim_armed (armed : device.Armed family bytes) (word : bytes < UInt32.size) {region : Region}
    (h : device.aim = .ok region) : region = towerRegion bytes := by
  simp only [aim, armed.program, symbolHalfWord_eq_ok word armed.symbol, ok_bind] at h
  obtain ⟨_, _, h⟩ := bind_eq_ok.mp h
  obtain ⟨_, _, h⟩ := bind_eq_ok.mp h
  cases h
  rw [UInt32.toNat_ofNat_of_lt' word]

theorem writes_towerRegion (bytes : Nat) :
    Stream.Writes (towerRegion bytes) = Bank.Run 0 (bytes / 8) :=
  congrArg (Bank.Run · _) (Nat.zero_div 8)

theorem symbols_of_write_bank {offset : Nat} {data : List UInt8} {after : Device}
    (h : device.write bankTarget offset data = .ok after) :
    after.program = device.program ∧ after.symbols = device.symbols := by
  simp only [write, if_true] at h
  obtain ⟨bank, _, h⟩ := bind_eq_ok.mp h
  cases h
  exact ⟨rfl, rfl⟩

theorem receive_bank_armed (offset : Nat) (data : List UInt8) :
    Keeps (Armed family bytes) (fun _ => True) (receive bankTarget offset data) := by
  refine .get fun device armed => .lift_bind (fun after written => .set ?_) fun _ _ => trivial
  obtain ⟨program, symbols⟩ := symbols_of_write_bank written
  refine ⟨program.trans armed.program, ?_⟩
  rw [symbol, symbols]
  exact armed.symbol

theorem receive_modulus_loaded (data : List UInt8) :
    Keeps (Loaded family) (fun _ => True) (receive modulusSymbol 0 data) := by
  refine .get fun device loaded => .lift_bind (fun after written => .set ?_) fun _ _ => trivial
  rw [write, if_neg (by decide)] at written
  obtain ⟨_, _, written⟩ := bind_eq_ok.mp written
  dsimp only at written
  split at written
  · cases written
  · cases written
    obtain ⟨old, symbol, length⟩ := loaded.symbol
    exact ⟨loaded.program, old, (symbol_setSymbol_other (by decide) _).trans symbol, length⟩

theorem receive_length_armed (bytes : Nat) (loaded : device.Loaded family) :
    ∃ armed, receive lengthSymbol 0 (Bytes.ofNat 4 bytes) device = .ok () armed ∧
      armed.Armed family bytes := by
  obtain ⟨old, symbol, length⟩ := loaded.symbol
  exact ⟨_, receive_symbol symbol (by rw [length, Bytes.length_ofNat]) (by decide), loaded.program,
    symbol_setSymbol symbol⟩

end Device

namespace Pool
variable {P Q : Device → Prop} {pool : Pool} {devices : List Device}

/-- A property of all units. -/
def Every (P : Device → Prop) (pool : Pool) : Prop := ∀ device ∈ pool.devices, P device

theorem stepEach_leads {step : Device.Step Unit}
    (leads : ∀ device, P device → ∃ next, step device = .ok () next ∧ Q next)
    (every : ∀ device ∈ devices, P device) :
    ∀ device ∈ (stepEach (List.replicate devices.length step) devices).1, Q device := by
  induction devices with
  | nil => nofun
  | cons device rest ih =>
    obtain ⟨own, later⟩ := List.forall_mem_cons.mp every
    obtain ⟨next, stepped, reached⟩ := leads device own
    simp only [List.length_cons, List.replicate_succ, stepEach, stepped]
    exact List.forall_mem_cons.mpr ⟨reached, ih later⟩

theorem visit_every {describe : Nat → Fault → Error} {steps : List (Device.Step Unit)}
    (each : ∀ step ∈ steps, Keeps P (fun _ => True) step) :
    Keeps (Every P) (fun _ => True) (visit describe steps) := by
  intro pool every
  refine ⟨every_of_related (visit_related (fun _ => id) fun step member device own => ?_) every,
    fun _ _ _ => trivial⟩
  exact (each step member device own).1

theorem launch_every (each : Keeps P (fun _ => True) Device.launch) :
    Keeps (Every P) (fun _ => True) launch := by
  intro pool every
  refine ⟨every_of_related (launch_related (fun _ => id) fun device _ own => ?_) every,
    fun _ _ _ => trivial⟩
  exact (each device own).1

theorem scatter_every {target : String} {offset : Nat} {buffers : List (List UInt8)}
    (each : ∀ data, Keeps P (fun _ => True) (Device.receive target offset data)) :
    Keeps (Every P) (fun _ => True) (scatter target offset buffers) := by
  refine .get fun _ _ => .guard trivial fun _ => visit_every fun step member => ?_
  obtain ⟨buffer, _, rfl⟩ := List.mem_map.mp member
  exact each buffer

theorem broadcast_every {target : String} {offset : Nat} {bytes : List UInt8}
    (each : Keeps P (fun _ => True) (Device.receive target offset bytes)) :
    Keeps (Every P) (fun _ => True) (broadcast target offset bytes) := by
  refine .get fun _ _ => visit_every fun step member => ?_
  rw [List.eq_of_mem_replicate member]
  exact each

theorem broadcast_leads {target : String} {offset : Nat} {bytes : List UInt8}
    (leads : ∀ device, P device → ∃ next, Device.receive target offset bytes device = .ok () next ∧
      Q next)
    (every : pool.Every P) : Every Q (after (broadcast target offset bytes pool)) := by
  simp only [broadcast, run_get, visit]
  unfold Every
  rw [settle_devices]
  exact stepEach_leads leads every

end Pool

namespace Controller
variable {settings : Settings} {count : Nat} {c after : Controller} {family : Family}
    {batch : Batch}
  {P : Device → Prop}

theorem onPool_every {α : Type} {step : Pool.Step α}
    (keeps : Keeps (Pool.Every P) (fun _ => True) step) :
    Keeps (fun c => c.pool.Every P) (fun _ => True) (onPool step) :=
  onPool_keeps_of keeps

/-- A batch that has gone in found its staging area free, and has told every unit its length. -/
theorem armed_of_copyIn (loaded : c.pool.Every (Device.Loaded family))
    (h : copyIn batch c = .ok () after) :
    after.pool.Every (Device.Armed family batch.partition.operandBytes) ∧
      batch.partition.operandBytes < UInt32.size := by
  simp only [copyIn, run_get] at h
  cases taken : c.memories.find? fun memory =>
    !memory.isRangeFree 0 (2 * batch.partition.operandBytes) with
  | some memory =>
    simp only [taken] at h
    cases h
  | none =>
  simp only [taken] at h
  split at h
  · cases h
  rename_i word
  obtain ⟨_, first, sent, h⟩ := run_bind_eq_ok.mp h
  have loaded :=
    (onPool_every (Pool.scatter_every fun data => Device.receive_modulus_loaded data)).of_ok
      sent loaded
  obtain ⟨_, second, sent, h⟩ := run_bind_eq_ok.mp h
  have armed : second.pool.Every (Device.Armed family batch.partition.operandBytes) := by
    have told := Pool.broadcast_leads (fun device loaded =>
      Device.receive_length_armed batch.partition.operandBytes loaded) loaded
    rw [← pool_onPool, sent] at told
    exact told
  obtain ⟨_, third, sent, h⟩ := run_bind_eq_ok.mp h
  have armed :=
    (onPool_every (Pool.scatter_every fun data => Device.receive_bank_armed 0 data)).of_ok
      sent armed
  have armed :=
    (onPool_every (Pool.scatter_every fun data => Device.receive_bank_armed _ data)).of_ok h armed
  exact ⟨armed, Nat.lt_of_not_le word⟩

section Towers

theorem copyIn_confined (first : ∀ row ∈ batch.a, row.length = batch.partition.share)
    (second : ∀ row ∈ batch.b, row.length = batch.partition.share) :
    Keeps (c.Confined (Bank.Run 0 (2 * batch.partition.share))) (fun _ => True) (copyIn batch) := by
  have bytes : batch.partition.operandBytes / 8 = batch.partition.share :=
    Nat.mul_div_cancel _ (by decide)
  apply copyIn_keeps_of
  · exact onPool_confined fun _ => Pool.scatter_confined fun named => absurd named (by decide)
  · exact onPool_confined fun _ => Pool.broadcast_confined fun named => absurd named (by decide)
  · refine onPool_confined fun _ => Pool.scatter_confined fun _ buffer member i own => ?_
    obtain ⟨row, staged, rfl⟩ := List.mem_map.mp member
    rw [Bytes.length_ofWords, first row staged] at own
    unfold Bank.Run at *
    omega
  · refine onPool_confined fun _ => Pool.scatter_confined fun _ buffer member i own => ?_
    obtain ⟨row, staged, rfl⟩ := List.mem_map.mp member
    rw [Bytes.length_ofWords, second row staged, bytes] at own
    unfold Bank.Run at *
    omega
  · exact fun _ _ => trivial
  · exact fun _ => trivial

theorem every_load (family : Family) {reached : Controller}
    (h : load (.tower family) c = .ok () reached) :
    reached.pool.Every (Device.Loaded family) := by
  cases (load_eq_ok _).symm.trans h
  intro device member
  obtain ⟨old, _, rfl⟩ := List.mem_map.mp member
  exact Device.loaded_load family old

/-- A launch of armed units writes over the first operand of their batch. -/
theorem execute_armed {bytes : Nat} (armed : c.pool.Every (Device.Armed family bytes))
    (word : bytes < UInt32.size) :
    c.Confined (Bank.Run 0 (bytes / 8)) (BankedRing.after (execute c)) := by
  refine execute_confined fun device member region aimed _ i own => ?_
  cases Device.aim_armed (armed device member) word aimed
  rwa [Device.writes_towerRegion] at own

theorem execute_bind_confined {α : Type} {rest : Unit → Step α} {bytes : Nat}
    (armed : c.pool.Every (Device.Armed family bytes)) (word : bytes < UInt32.size)
    (reads : ∀ u, Keeps (c.Confined (Bank.Run 0 (bytes / 8))) (fun _ => True) (rest u)) :
    c.Confined (Bank.Run 0 (bytes / 8)) (BankedRing.after ((execute >>= rest) c)) := by
  have launched := execute_armed armed word
  refine after_bind (fun e stopped ran => ?_) fun u finished ran => (reads u finished ?_).1
  · rwa [ran] at launched
  · rwa [ran] at launched

theorem copyIn_refused
    (taken : ¬ ∀ memory ∈ c.memories,
      memory.isRangeFree 0 (2 * batch.partition.operandBytes) = true) :
    ∃ e, copyIn batch c = .error e c := by
  cases found : c.memories.find? fun memory =>
    !memory.isRangeFree 0 (2 * batch.partition.operandBytes) with
  | none =>
    exact absurd (fun memory member => by simpa using List.find?_eq_none.mp found memory member)
      taken
  | some memory =>
    simp only [copyIn, run_get, found]
    exact ⟨_, rfl⟩

/-- A run over towers, finished or not, writes the staging area of its batch at most, and
only where no unit has a live allocation in it. -/
theorem runTowers_confined (a b : List Tower) (program : Program) (split : Nat) (c : Controller) :
    ∃ share, (∀ memory ∈ c.memories, memory.isRangeFree 0 (16 * share) = true) ∧
      c.Confined (Bank.Run 0 (2 * share)) (BankedRing.after (runTowers a b program split c)) := by
  have nothing : ∀ {e : Error}, runTowers a b program split c = .error e c →
      ∃ share, (∀ memory ∈ c.memories, memory.isRangeFree 0 (16 * share) = true) ∧
        c.Confined (Bank.Run 0 (2 * share)) (BankedRing.after (runTowers a b program split c)) := by
    intro e refused
    rw [refused]
    exact ⟨0, fun _ _ => rfl, .refl c⟩
  cases program with
  | tower family =>
    have isTower : ¬ (!(Program.tower family).isTower) = true := Bool.false_ne_true
    cases ready : c.prepare a b split with
    | error e =>
      apply nothing
      simp only [runTowers, if_neg isTower, run_get, ready, run_lift_error]
      rfl
    | ok batch =>
    simp only [runTowers, if_neg isTower, run_get, ready, run_lift_ok]
    obtain ⟨_, _, _, _, _, _, _, _, _, _, stagedFirst, stagedSecond⟩ := prepared ready
    have area : 16 * batch.partition.share = 2 * batch.partition.operandBytes := by
      unfold Partition.operandBytes
      omega
    obtain ⟨reached, fresh, memories⟩ : ∃ reached, load (.tower family) c = .ok () reached ∧
        reached.memories = c.memories := ⟨_, load_eq_ok _, rfl⟩
    have onProgram : ∀ span, c.Confined span reached := fun _ =>
      (load_confined (.tower family)).of_ok fresh (.refl c)
    rw [run_bind_ok fresh]
    by_cases free : ∀ memory ∈ c.memories,
      memory.isRangeFree 0 (2 * batch.partition.operandBytes) = true
    · refine ⟨batch.partition.share, by rwa [area], ?_⟩
      have copying : Keeps (c.Confined (Bank.Run 0 (2 * batch.partition.share))) (fun _ => True)
          (copyIn batch) :=
        copyIn_confined (Partition.length_of_stage stagedFirst)
          (Partition.length_of_stage stagedSecond)
      refine after_bind (fun e refused copied => (copying.of_error copied (onProgram _)).1)
        fun _ staged copied => ?_
      obtain ⟨armed, word⟩ := armed_of_copyIn (every_load family fresh) copied
      have finished := execute_bind_confined armed word fun _ =>
        collect_keeps_of batch (fun _ _ _ _ => trivial) fun _ _ _ _ _ _ _ _ => trivial
      refine (copying.of_ok copied (onProgram _)).trans (finished.mono fun i own => ?_)
      unfold Bank.Run Partition.operandBytes at *
      omega
    · rw [← memories] at free
      obtain ⟨e, refused⟩ := copyIn_refused free
      rw [run_bind_error refused]
      exact ⟨0, fun _ _ => rfl, onProgram _⟩
  | _ => exact nothing rfl

end Towers
end Controller
end BankedRing
