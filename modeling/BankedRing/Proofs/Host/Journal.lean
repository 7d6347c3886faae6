import BankedRing.Proofs.Device.Report
import BankedRing.Proofs.Host.Layers

/-! The logs of the units and the execution log. A launch that comes back takes the lines of its
units with it, failed or not, counts itself and leaves one block; nothing else writes to a log. So
between two calls all units are silent, and the execution log is the text it was opened with and
one block for each launch, in the order of their numbers. -/
namespace BankedRing

namespace Pool
variable {settings : Settings} {pool : Pool} {devices : List Device}

/-- No unit has a line that has not been read. -/
def Silent (pool : Pool) : Prop := pool.Every fun device => device.log = []

theorem silent_drainLogs (pool : Pool) : pool.drainLogs.2.Silent := by
  intro device member
  obtain ⟨_, _, rfl⟩ := List.mem_map.mp member
  rfl

theorem load_silent (path : Path) : Keeps Silent (fun _ => True) (load path) := by
  intro pool silent
  refine ⟨?_, fun _ _ _ => trivial⟩
  rcases load_cases path pool with ⟨_, refused⟩ | ⟨program, _, loads⟩
  · rw [refused]
    exact silent
  · rw [loads]
    intro device member
    obtain ⟨old, here, rfl⟩ := List.mem_map.mp member
    exact silent old here

/-- The units that a launch runs: none without a program on record, else those that the next
schedule gives a turn. -/
def runs (pool : Pool) (unit : Nat) : Bool :=
  pool.loaded.isSome && turns (pool.schedules.headD .inOrder) pool.devices unit

/-- What the units log in a launch, unit by unit. -/
def launchLines (pool : Pool) : List (List String) :=
  pool.devices.mapIdx fun unit device => if pool.runs unit then device.lines else []

/-- A launch of the pool goes through. -/
def succeeds (pool : Pool) : Bool := (answer (launch pool)).toOption.isSome

section Launch

theorem logs_launchEach (schedule : Schedule) (devices : List Device) :
    (launchEach schedule devices).1.map (·.log) = devices.mapIdx fun unit device =>
      device.log ++ if turns schedule devices unit then device.lines else [] := by
  rw [devices_launchEach, ← mapIdx_eq_map, List.mapIdx_mapIdx]
  refine congrArg (List.mapIdx · devices) (funext₂ fun unit device => ?_)
  simp only [Function.comp_apply]
  split
  · exact device.log_after_launch
  · exact (List.append_nil _).symm

theorem logs_launch (silent : pool.Silent) :
    (after (launch pool)).devices.map (·.log) = pool.launchLines := by
  cases record : pool.loaded with
  | none =>
    have refused : launch pool = .error .noProgramLoaded pool := by rw [launch, record]; rfl
    have idle : ∀ unit, pool.runs unit = false := fun unit => by rw [runs, record]; rfl
    simp only [refused, launchLines, idle, Bool.false_eq_true, if_false, mapIdx_eq_map]
    exact List.map_congr_left silent
  | some program =>
    have ran : (after (launch pool)).devices =
        (launchEach (pool.schedules.headD .inOrder) pool.devices).1 := by
      rw [launch, record]
      exact settle_devices _ _ _ _
    rw [ran, logs_launchEach, launchLines]
    refine List.mapIdx_eq_iff.mpr fun unit => ?_
    rw [List.getElem?_mapIdx]
    refine Option.map_congr fun device found => ?_
    rw [silent device (List.mem_of_getElem? found), List.nil_append, runs, record]
    rfl

theorem runs_of_succeeds (succeeds : pool.succeeds = true) {unit : Nat} {device : Device}
    (found : pool.devices[unit]? = some device) :
    pool.runs unit = true ∧ device.finishes = true := by
  obtain ⟨_, done⟩ := exists_ok_of_toOption succeeds
  obtain ⟨reached, ran⟩ := of_answer done
  have each := launched_of_ok ran
  obtain ⟨_, launched⟩ := each device (List.mem_of_getElem? found)
  refine ⟨Bool.and_eq_true_iff.mpr ⟨?_, turns_of_ok each unit⟩, Device.finishes_of_ok launched⟩
  cases record : pool.loaded with
  | none =>
    rw [launch, record] at ran
    cases ran
  | some program => rfl

/-- A launch that fails has run the unit whose failure it reports. -/
theorem runs_of_failed {e : Error} (failed : answer (launch pool) = .error e) :
    e = .noProgramLoaded ∨
      ∃ (unit : Nat) (device : Device), pool.devices[unit]? = some device ∧
        pool.runs unit = true ∧
        ∃ fault stopped, Device.launch device = .error fault stopped ∧
          e = .ofFault (.execution stopped.id) fault := by
  obtain ⟨reached, failed⟩ := of_answer_error failed
  unfold launch at failed
  split at failed
  · cases failed
    exact .inl rfl
  · rename_i loaded
    obtain ⟨_, fault, reported, rfl⟩ := settle_eq_error failed
    obtain ⟨unit, device, found, turn, stopped, own, rfl⟩ := failed_of_launchEach reported
    refine .inr ⟨unit, device, found, Bool.and_eq_true_iff.mpr ⟨?_, turn⟩, fault, stopped, own, rfl⟩
    exact Option.isSome_iff_ne_none.mpr fun none => loaded (Option.isNone_iff_eq_none.mpr none)

/-- Any units may be those that a launch has run, if one of them fails. -/
theorem runs_chosen {ran : List Nat} {reported failing : Nat} {rest : List Schedule}
    {device : Device} (loaded : pool.loaded.isSome = true)
    (schedules : pool.schedules = .chosen ran reported :: rest) (member : failing ∈ ran)
    (found : pool.devices[failing]? = some device) (fails : device.finishes = false) (unit : Nat) :
    pool.runs unit = ran.contains unit := by
  have stops : (ran.all fun other =>
      (((pool.devices.map fun device => (attempt device).2)[other]?).join).isNone) = false := by
    refine List.all_eq_false.mpr ⟨failing, member, ?_⟩
    rw [List.getElem?_map, found]
    intro finishes
    obtain ⟨reached, ran⟩ := attempt_snd_eq_none.mp (Option.isNone_iff_eq_none.mp finishes)
    rw [Device.finishes_of_ok ran] at fails
    cases fails
  rw [runs, loaded, schedules, Bool.true_and]
  show (ran.contains unit || _) = _
  rw [stops, Bool.or_false]

variable (accepted : settings.Accepted) (homogeneous : pool.Homogeneous settings)
include accepted homogeneous

theorem unrecorded_of_trap {trap : Trap} (trapped : answer (launch pool) = .error (.trapped trap)) :
    ¬ settings.shape.Recorded ∧ pool.loaded ≠ some .boot := by
  obtain ⟨stopped, failed⟩ := of_answer_error trapped
  rcases launch_fault failed with unloaded | ⟨device, member, fault, left, own, same⟩
  · cases unloaded
  · obtain ⟨unit, found⟩ := List.mem_iff_getElem?.mp member
    cases fault with
    | trapped cause =>
      obtain ⟨streams, unrecorded⟩ :=
        Device.streams_of_trap accepted (homogeneous.row unit device found) own
      rw [(homogeneous.furnished.units device member).program] at streams
      exact ⟨unrecorded, streams⟩
    | _ => cases same

/-- A launch that traps finds no unit with a line to log. -/
theorem silent_of_trap (silent : pool.Silent) {trap : Trap}
    (trapped : answer (launch pool) = .error (.trapped trap)) :
    (after (launch pool)).Silent := by
  obtain ⟨unrecorded, streams⟩ := unrecorded_of_trap accepted homogeneous trapped
  refine every_of_related (launch_related (fun _ => id) fun device member quiet => ?_) silent
  obtain ⟨unit, found⟩ := List.mem_iff_getElem?.mp member
  rw [Device.log_of_unrecorded, quiet]
  · rwa [(homogeneous.furnished.units device member).program]
  · rwa [(homogeneous.row unit device found).shape]

end Launch
end Pool

namespace ExecutionLog

/-- A log after a text that it takes or refuses. -/
def extended (log : ExecutionLog) (text : String) : ExecutionLog :=
  (log.append text).toOption.getD log

theorem content_extended (log : ExecutionLog) (text : String) :
    (log.extended text).content = log.content ++ if log.refusal.isNone then text else "" := by
  unfold extended append
  cases log.refusal with
  | none => rfl
  | some refusal => exact (String.append_empty).symm

end ExecutionLog

namespace Controller
variable {settings : Settings} {origin c reached : Controller} {launched later : List Controller}

/-- A launch that never comes back. -/
def Traps (c : Controller) : Prop := ∃ trap, answer (execute c) = .error (.trapped trap)

/-- The block that a launch from a controller adds to a log that takes it. -/
def block (c : Controller) (number : Nat) : String :=
  launchRecord number c.loadedPath c.pool.launchLines c.pool.succeeds

/-- What a launch from a controller adds to its log: the block, unless the log refuses it. -/
def written (c : Controller) (number : Nat) : String :=
  if c.executionLog.all (·.refusal.isNone) then c.block number else ""

/-- What a launch that comes back leaves: the lines of its units, one more on the count and a block
under that number. -/
structure Concluded (c reached : Controller) : Prop where
  lastLogs : reached.lastLogs = c.pool.launchLines
  launches : reached.launches = c.launches + 1
  content : reached.executionLog.map (·.content) =
    c.executionLog.map fun log => log.content ++ c.written (c.launches + 1)

section Execute

theorem after_conclude (outcome : Option Error) (c : Controller) :
    after (conclude outcome c) = { c with
      pool := c.pool.drainLogs.2
      lastLogs := c.pool.devices.map (·.log)
      launches := c.launches + 1
      executionLog := c.executionLog.map (·.extended
        (launchRecord (c.launches + 1) c.loadedPath (c.pool.devices.map (·.log))
          outcome.isNone)) } := by
  obtain ⟨pool, settings, memories, loadedPath, executionLog, lastLogs, launches⟩ := c
  cases executionLog with
  | none => cases outcome <;> rfl
  | some log =>
    obtain ⟨content, readable, refusal⟩ := log
    cases refusal <;> cases outcome <;> rfl

/-- A launch traps on the units, or it is concluded. -/
theorem execute_cases (c : Controller) :
    (c.Traps ∧ ∃ trap, answer (Pool.launch c.pool) = .error (.trapped trap) ∧
      after (execute c) = { c with pool := after (Pool.launch c.pool) }) ∨
    (¬ c.Traps ∧ ∃ outcome, outcome.isNone = c.pool.succeeds ∧
      after (execute c) = after
        (conclude outcome { c with pool := after (Pool.launch c.pool) })) := by
  have concludes : ∀ (outcome : Option Error) (pool : Pool), (∀ e, outcome = some e → e.Returned) →
      ∀ trap, answer (conclude outcome { c with pool }) ≠ .error (.trapped trap) := by
    intro outcome pool returned trap died
    obtain ⟨stopped, died⟩ := of_answer_error died
    have keeps : Keeps (fun _ => True) Error.Returned (conclude outcome) :=
      conclude_keeps_of (fun _ _ _ _ _ => trivial) (fun _ => rfl) returned
    cases (keeps.of_error died trivial).2
  unfold Traps execute Pool.succeeds
  cases Pool.launch c.pool with
  | ok _ pool =>
    refine .inr ⟨?_, none, rfl, rfl⟩
    rintro ⟨trap, died⟩
    exact concludes none pool nofun trap died
  | error e pool =>
    cases e with
    | trapped trap => exact .inl ⟨⟨trap, rfl⟩, trap, rfl, rfl⟩
    | _ =>
      refine .inr ⟨?_, some _, rfl, rfl⟩
      rintro ⟨trap, died⟩
      exact concludes (some _) pool (fun _ same => by cases same; rfl) trap died

theorem after_trap (traps : c.Traps) :
    after (execute c) = { c with pool := after (Pool.launch c.pool) } := by
  rcases execute_cases c with ⟨_, _, _, left⟩ | ⟨returns, _⟩
  · exact left
  · exact absurd traps returns

theorem concluded_of_returns (silent : c.pool.Silent) (returns : ¬ c.Traps) :
    c.Concluded (after (execute c)) := by
  rcases execute_cases c with ⟨traps, _⟩ | ⟨_, outcome, succeeds, left⟩
  · exact absurd traps returns
  have lines := Pool.logs_launch silent
  rw [left, after_conclude]
  refine ⟨lines, rfl, ?_⟩
  dsimp only
  rw [lines, succeeds, Option.map_map]
  unfold written
  cases c.executionLog with
  | none => rfl
  | some log => exact congrArg some (log.content_extended _)

end Execute

/-- Units that are all alike, with nothing in their logs. -/
structure Orderly (settings : Settings) (c : Controller) : Prop where
  homogeneous : c.pool.Homogeneous settings
  silent : c.pool.Silent

section Order

theorem after_loadPath (path : Path) (c : Controller) :
    ∃ loadedPath, after (loadPath path c) =
      { c with pool := after (Pool.load path c.pool), loadedPath } := by
  rcases Pool.load_cases path c.pool with ⟨unknown, refused⟩ | ⟨program, _, loads⟩
  · rw [loadPath_refused unknown, refused]
    exact ⟨c.loadedPath, rfl⟩
  · rw [loadPath, run_bind_ok (onPool_eq_ok loads c), loads]
    exact ⟨some path, rfl⟩

theorem Orderly.loadPath (orderly : c.Orderly settings) (path : Path) :
    (after (Controller.loadPath path c)).Orderly settings := by
  obtain ⟨_, left⟩ := after_loadPath path c
  rw [left]
  exact ⟨orderly.homogeneous.called (.load path), (Pool.load_silent path c.pool orderly.silent).1⟩

theorem Orderly.scatter (orderly : c.Orderly settings) (target : String) (offset : Nat)
    (buffers : List (List UInt8)) :
    (after (onPool (Pool.scatter target offset buffers) c)).Orderly settings := by
  rw [after_onPool]
  exact ⟨orderly.homogeneous.called (.scatter target offset buffers),
    (Pool.scatter_every (fun _ => Device.receive_log _ _ _) c.pool orderly.silent).1⟩

theorem Orderly.broadcast (orderly : c.Orderly settings) (target : String) (offset : Nat)
    (bytes : List UInt8) :
    (after (onPool (Pool.broadcast target offset bytes) c)).Orderly settings := by
  rw [after_onPool]
  exact ⟨orderly.homogeneous.called (.broadcast target offset bytes),
    (Pool.broadcast_every (Device.receive_log _ _ _) c.pool orderly.silent).1⟩

/-- A launch that is concluded empties the logs, and one that traps finds them empty. -/
theorem Orderly.execute (accepted : settings.Accepted) (orderly : c.Orderly settings) :
    (after (Controller.execute c)).Orderly settings := by
  have launched := orderly.homogeneous.called .launch
  rcases execute_cases c with ⟨_, trap, trapped, left⟩ | ⟨_, outcome, _, left⟩
  · rw [left]
    exact ⟨launched, Pool.silent_of_trap accepted orderly.homogeneous orderly.silent trapped⟩
  · rw [left, after_conclude]
    exact ⟨launched.called .drainLogs, Pool.silent_drainLogs _⟩

end Order

/-- How a controller gets on, with the states from which its launches set out, in their order. A
launch that traps is not among them. Between two calls the file behind the log may become
unwritable, or writable again. -/
inductive Course (origin : Controller) : Controller → List Controller → Prop
  | refl : Course origin origin []
  | load {c : Controller} {launched : List Controller} (path : Path) :
    Course origin c launched → Course origin (after (loadPath path c)) launched
  | scatter {c : Controller} {launched : List Controller} (target : String) (offset : Nat)
      (buffers : List (List UInt8)) :
    Course origin c launched →
    Course origin (after (onPool (Pool.scatter target offset buffers) c)) launched
  | broadcast {c : Controller} {launched : List Controller} (target : String) (offset : Nat)
      (bytes : List UInt8) :
    Course origin c launched →
    Course origin (after (onPool (Pool.broadcast target offset bytes) c)) launched
  | book {c : Controller} {launched : List Controller} (memories : List Allocator) :
    Course origin c launched → Course origin { c with memories } launched
  | relog {c : Controller} {launched : List Controller} (refusal : Option FileRefusal) :
    Course origin c launched →
      Course origin { c with executionLog := c.executionLog.map fun log => { log with refusal } }
        launched
  | launch {c : Controller} {launched : List Controller} :
    ¬ c.Traps → Course origin c launched → Course origin (after (execute c)) (launched ++ [c])
  | trap {c : Controller} {launched : List Controller} :
    c.Traps → Course origin c launched → Course origin (after (execute c)) launched

namespace Course

theorem trans (course : origin.Course c launched) (rest : c.Course reached later) :
    origin.Course reached (launched ++ later) := by
  induction rest with
  | refl =>
    rw [List.append_nil]
    exact course
  | load path _ ih => exact ih.load path
  | scatter target offset buffers _ ih => exact ih.scatter target offset buffers
  | broadcast target offset bytes _ ih => exact ih.broadcast target offset bytes
  | book memories _ ih => exact ih.book memories
  | relog refusal _ ih => exact ih.relog refusal
  | launch returns _ ih =>
    rw [← List.append_assoc]
    exact ih.launch returns
  | trap traps _ ih => exact ih.trap traps

theorem orderly (accepted : settings.Accepted) (start : origin.Orderly settings)
    (course : origin.Course c launched) :
    c.Orderly settings := by
  induction course with
  | refl => exact start
  | load path _ ih => exact ih.loadPath path
  | scatter target offset buffers _ ih => exact ih.scatter target offset buffers
  | broadcast target offset bytes _ ih => exact ih.broadcast target offset bytes
  | book _ _ ih | relog _ _ ih => exact ⟨ih.homogeneous, ih.silent⟩
  | launch _ _ ih | trap _ _ ih => exact ih.execute accepted

end Course

/-- What the launches of a course have left: the lines of the last one, one more on the count for
each, and their blocks in their order. -/
structure Journal (origin c : Controller) (launched : List Controller) : Prop where
  lastLogs : c.lastLogs = (launched.getLast?.map (·.pool.launchLines)).getD origin.lastLogs
  launches : c.launches = origin.launches + launched.length
  content : c.executionLog.map (·.content) = origin.executionLog.map fun log =>
    log.content ++ String.join (launched.mapIdx fun k state =>
      state.written (origin.launches + (k + 1)))

namespace Journal

theorem refl (c : Controller) : Journal c c [] := by
  refine ⟨rfl, rfl, ?_⟩
  cases c.executionLog with
  | none => rfl
  | some log => exact congrArg some String.append_empty.symm

/-- What is neither a launch nor a text of the log leaves the journal as it is. -/
theorem of_same (journal : Journal origin c launched) (lastLogs : reached.lastLogs = c.lastLogs)
    (launches : reached.launches = c.launches)
    (content : reached.executionLog.map (·.content) = c.executionLog.map (·.content)) :
    Journal origin reached launched :=
  ⟨lastLogs.trans journal.lastLogs, launches.trans journal.launches, content.trans journal.content⟩

theorem concluded (journal : Journal origin c launched) (concluded : c.Concluded reached) :
    Journal origin reached (launched ++ [c]) := by
  refine ⟨?_, ?_, ?_⟩
  · rw [concluded.lastLogs, List.getLast?_concat]
    rfl
  · rw [concluded.launches, journal.launches, List.length_append, List.length_singleton,
      Nat.add_assoc]
  · have longer : (c.executionLog.map (·.content)).map (· ++ c.written (c.launches + 1)) =
        c.executionLog.map fun log => log.content ++ c.written (c.launches + 1) :=
          Option.map_map _ _ _
    rw [concluded.content, ← longer, journal.content, Option.map_map, List.mapIdx_concat,
      String.join_append,
      journal.launches, Nat.add_assoc]
    refine Option.map_congr fun log _ => ?_
    show _ ++ _ ++ _ = _ ++ (_ ++ _)
    rw [String.append_assoc]
    rfl

end Journal

/-- Whatever happens to an orderly controller, its launches are in the journal. -/
theorem Course.journal (accepted : settings.Accepted) (start : origin.Orderly settings)
    (course : origin.Course c launched) : Journal origin c launched := by
  induction course with
  | refl => exact .refl origin
  | @load c _ path _ ih =>
    obtain ⟨_, left⟩ := after_loadPath path c
    rw [left]
    exact ih.of_same rfl rfl rfl
  | scatter _ _ _ _ ih | broadcast _ _ _ _ ih =>
    rw [after_onPool]
    exact ih.of_same rfl rfl rfl
  | book _ _ ih => exact ih.of_same rfl rfl rfl
  | relog refusal _ ih => exact ih.of_same rfl rfl (Option.map_map _ _ _)
  | launch returns course ih =>
    exact ih.concluded (concluded_of_returns (course.orderly accepted start).silent returns)
  | trap traps _ ih =>
    rw [after_trap traps]
    exact ih.of_same rfl rfl rfl

/-- A journal is a text in front of what is written later. -/
theorem Journal.grows (journal : Journal origin c launched) :
    ∀ log ∈ origin.executionLog, ∃ longer ∈ c.executionLog, ∃ text,
      longer.content = log.content ++ text := by
  intro log opened
  have content := journal.content
  rw [Option.mem_def.mp opened] at content
  obtain ⟨longer, found, same⟩ := Option.map_eq_some_iff.mp content
  exact ⟨longer, found, _, same⟩

theorem Command.course (command : Command) :
    Keeps (fun c => ∃ launched, origin.Course c launched) (fun _ => True) command.run := by
  have executes : Keeps (fun c => ∃ launched, origin.Course c launched) (fun _ => True)
      Controller.execute := by
    rintro c ⟨launched, course⟩
    refine ⟨?_, fun _ _ _ => trivial⟩
    by_cases traps : c.Traps
    · exact ⟨launched, course.trap traps⟩
    · exact ⟨launched ++ [c], course.launch traps⟩
  rcases command.steady_or with steady | ⟨bytes, rfl⟩ | ⟨address, rfl⟩
  · refine Command.steady_keeps_of steady ?_ ?_ ?_ executes
    · exact fun path c ⟨launched, course⟩ => ⟨⟨launched, course.load path⟩, fun _ _ _ => trivial⟩
    · exact fun target offset buffers c ⟨launched, course⟩ =>
        ⟨⟨launched, course.scatter target offset buffers⟩, fun _ _ _ => trivial⟩
    · exact fun target offset bytes c ⟨launched, course⟩ =>
        ⟨⟨launched, course.broadcast target offset bytes⟩, fun _ _ _ => trivial⟩
  · rintro c ⟨launched, course⟩
    obtain ⟨memories, same⟩ := after_allocate bytes c
    refine ⟨⟨launched, ?_⟩, fun _ _ _ => trivial⟩
    rw [Command.run, after_discard, same]
    exact course.book memories
  · rintro c ⟨launched, course⟩
    obtain ⟨memories, same⟩ := after_deallocate address c
    refine ⟨⟨launched, ?_⟩, fun _ _ _ => trivial⟩
    rw [Command.run, same]
    exact course.book memories

section Start

/-- A controller whose units have the boot program, and have not run it yet. -/
def booting (settings : Settings) (executionLog : Option ExecutionLog) (schedules : List Schedule)
    (count : Nat) :
    Controller :=
  { unbooted settings executionLog schedules count with
    pool := loaded .boot (unbooted settings executionLog schedules count).pool
    loadedPath := some (Program.boot.path settings.programDirectory) }

theorem silent_booting (executionLog : Option ExecutionLog) (schedules : List Schedule)
    (count : Nat) :
    (booting settings executionLog schedules count).pool.Silent := by
  intro device member
  obtain ⟨_, fresh, rfl⟩ := List.mem_map.mp member
  obtain ⟨_, _, rfl⟩ := List.mem_map.mp fresh
  rfl

theorem course_of_start {openLog : Path → Except FileRefusal ExecutionLog}
    {schedules : List Schedule} (started : start settings openLog schedules = .ok c) :
    ∃ opened count, (settings.logFile.mapM fun path => (openLog path).mapError Error.logFile) =
      .ok opened ∧
      (booting settings opened schedules count).Orderly settings ∧
      (booting settings opened schedules count).Course c
        [booting settings opened schedules count] := by
  obtain ⟨_, _, started⟩ := bind_eq_ok.mp started
  cases acquired : Pool.acquire settings settings.units settings.profile (Pool.empty schedules) with
  | error e pool =>
    rw [acquired] at started
    cases started
  | ok count pool =>
    rw [acquired] at started
    obtain ⟨opened, opens, started⟩ := bind_eq_ok.mp started
    have homogeneous :=
      (Pool.homogeneous_acquired acquired).called
        (.load (Program.boot.path settings.programDirectory))
    obtain ⟨_, _, rfl⟩ := Pool.acquire_eq_ok acquired
    dsimp only at started
    split at started
    · rename_i ran
      cases started
      have booted : execute (booting settings opened schedules count) = .ok () c := by
        rwa [run_bind_ok (load_eq_ok .boot)] at ran
      have returns : ¬ (booting settings opened schedules count).Traps := by
        rintro ⟨trap, died⟩
        rw [booted] at died
        cases died
      have launched := Course.refl.launch returns
      rw [booted] at launched
      refine ⟨opened, count, opens, ⟨?_, silent_booting opened schedules count⟩, launched⟩
      simp only [Pool.Call.run, Pool.load, Program.ofPath?_path] at homogeneous
      exact homogeneous
    · cases started

end Start

theorem not_traps_of_recorded (accepted : settings.Accepted) (orderly : c.Orderly settings)
    (recorded : settings.shape.Recorded) : ¬ c.Traps := by
  intro traps
  rcases execute_cases c with ⟨_, trap, trapped, _⟩ | ⟨returns, _⟩
  · exact (Pool.unrecorded_of_trap accepted orderly.homogeneous trapped).1 recorded
  · exact returns traps

/-- What the logs hold after launches of which the last one took its lines with it: nothing on the
units, the lines of those that ran in it on the controller, and a block of each launch, under its
number, behind the text that the execution log was opened with. A launch that went through has run
all units to their end, and one that failed has run the unit that it reports. -/
structure Logged (opened : Option ExecutionLog) (launched : List Controller) (c : Controller) :
    Prop where
  silent : ∀ device ∈ c.pool.devices, device.log = []
  entries : ∀ last, launched.getLast? = some last → c.lastLogs.length = last.units
  lines : ∀ last, launched.getLast? = some last → ∀ (unit : Nat) (device : Device),
    last.pool.devices[unit]? = some device →
      c.lastLogs[unit]? = some (if last.pool.runs unit then device.lines else []) ∧
        device.lines.length = if device.finishes then 1 else 0
  launches : c.launches = launched.length
  content : c.executionLog.map (·.content) = opened.map fun log =>
    log.content ++ String.join (launched.mapIdx fun k state => state.written (k + 1))
  through : ∀ state ∈ launched, state.pool.succeeds = true → ∀ (unit : Nat) (device : Device),
    state.pool.devices[unit]? = some device → state.pool.runs unit = true ∧ device.finishes = true
  failed : ∀ state ∈ launched, ∀ e, answer (Pool.launch state.pool) = .error e →
    e = .noProgramLoaded ∨
      ∃ (unit : Nat) (device : Device), state.pool.devices[unit]? = some device ∧
        state.pool.runs unit = true ∧
        ∃ fault stopped, Device.launch device = .error fault stopped ∧
          e = .ofFault (.execution stopped.id) fault

theorem Journal.logged (journal : Journal origin c launched) (silent : c.pool.Silent)
    (fresh : origin.launches = 0) :
    c.Logged origin.executionLog launched := by
  have read : ∀ last, launched.getLast? = some last → c.lastLogs = last.pool.launchLines := by
    intro last final
    rw [journal.lastLogs, final]
    rfl
  refine ⟨silent, fun last final => ?_, fun last final unit device found =>
    ⟨?_, device.length_lines⟩, ?_, ?_,
    fun _ _ succeeds _ _ => Pool.runs_of_succeeds succeeds, fun _ _ _ => Pool.runs_of_failed⟩
  · rw [read last final, Pool.launchLines, List.length_mapIdx]
    rfl
  · rw [read last final, Pool.launchLines, List.getElem?_mapIdx, found]
    rfl
  · rw [journal.launches, fresh, Nat.zero_add]
  · simp only [journal.content, fresh, Nat.zero_add]

/-- Logs belong to the launch that wrote them: wherever commands lead a started controller to,
failing ones included, its logs hold what its launches have left, the boot being the first. A
command adds to the text of the execution log at most. A launch that comes back, failed or not, is
concluded; one that traps, as it does at most where the tasklets cannot be recorded, changes nothing
but the units. -/
theorem launches_logged (accepted : settings.Accepted)
    {openLog : Path → Except FileRefusal ExecutionLog} {schedules : List Schedule}
    (started : start settings openLog schedules = .ok origin) (course : origin.Course c launched) :
    (∃ opened boot,
      (settings.logFile.mapM fun path => (openLog path).mapError Error.logFile) = .ok opened ∧
      boot.loadedPath = some (Program.boot.path settings.programDirectory) ∧
      boot.pool.loaded = some .boot ∧
      c.Logged opened (boot :: launched)) ∧
    (∀ command : Command, ∃ later, origin.Course (after (command.run c)) (launched ++ later) ∧
      ∀ log ∈ c.executionLog, ∃ longer ∈ (after (command.run c)).executionLog, ∃ text,
        longer.content = log.content ++ text) ∧
    (¬ c.Traps → c.Concluded (after (execute c))) ∧
    (c.Traps → ¬ settings.shape.Recorded ∧
      after (execute c) = { c with pool := (after (execute c)).pool }) := by
  obtain ⟨opened, count, opens, orderly, booted⟩ := course_of_start started
  have whole := booted.trans course
  have here := whole.orderly accepted orderly
  refine ⟨⟨opened, booting settings opened schedules count, opens, rfl, rfl, ?_⟩, fun command => ?_,
    concluded_of_returns here.silent, fun traps => ⟨fun recorded => ?_, ?_⟩⟩
  · exact (whole.journal accepted orderly).logged here.silent rfl
  · obtain ⟨later, next⟩ := (command.course c ⟨[], .refl⟩).1
    exact ⟨later, course.trans next, (next.journal accepted here).grows⟩
  · exact not_traps_of_recorded accepted here recorded traps
  · rw [after_trap traps]

section Examples

/-- Two small units whose launches go to a file. -/
def filed : Settings := { narrow with units := .count 2, logFile := some "exec.log" }

theorem filed_accepted : filed.Accepted := ⟨rfl, by decide⟩

/-- Both units have the program for sums, the first one without a modulus. -/
def lopsided (c : Controller) : Controller :=
  after (onPool (Pool.scatter modulusSymbol 0 [Bytes.ofWord 0, Bytes.ofWord 97])
    (after (load (.tower .add) c)))

/-- A launch behind the boot that fails on the first unit, when the second has run. -/
theorem launches_logged_failed :
    ∃ origin boot : Controller,
      start filed (fun _ => .ok (.given "")) [.inOrder, .chosen [1, 0] 0] = .ok origin ∧
      origin.Course (after (execute origin.lopsided)) [origin.lopsided] ∧
      answer (execute origin.lopsided) = .error (.execution 0 (.invalidModulus 0)) ∧
      (after (execute origin.lopsided)).lastLogs = [[], ["dcrt-add: 0 residues mod 97"]] ∧
      (after (execute origin.lopsided)).Logged (some (.given "")) [boot, origin.lopsided] := by
  have ran : (do
      let origin ← start filed (fun _ => .ok (.given "")) [.inOrder, .chosen [1, 0] 0]
      return (answer (execute origin.lopsided), (after (execute origin.lopsided)).lastLogs) :
        Except Error _) =
      .ok (.error (.execution 0 (.invalidModulus 0)), [[], ["dcrt-add: 0 residues mod 97"]]) := by
    decide +kernel
  obtain ⟨origin, started, ran⟩ := bind_eq_ok.mp ran
  obtain ⟨failed, drained⟩ := Prod.mk.inj (Except.ok.inj ran)
  have returns : ¬ origin.lopsided.Traps := by
    rintro ⟨trap, died⟩
    cases failed.symm.trans died
  have course : origin.Course _ [origin.lopsided] :=
    ((Course.refl.load _).scatter _ _ _).launch returns
  obtain ⟨⟨opened, boot, opens, _, _, logged⟩, _⟩ := launches_logged filed_accepted started course
  cases opens
  exact ⟨origin, boot, started, course, failed, drained, logged⟩

/-- The text of that session where the second unit has no turn. -/
example : (do
    let origin ← start filed (fun _ => .ok (.given "")) []
    return (after (execute origin.lopsided)).executionLog.map fun log : ExecutionLog =>
      log.content) =
    .ok (some ("== launch 1 of ./dpu/boot on 2 units: ok\n" ++
      "[unit 0] boot: unit 0 up with 1 tasklets, 8-byte caches\n" ++
      "[unit 1] boot: unit 1 up with 1 tasklets, 8-byte caches\n" ++
      "== launch 2 of ./dpu/dcrt-add on 2 units: failed\n")) := by decide +kernel

/-- Many tasklets on a unit whose launches go to a file. -/
def crowdedFiled : Settings := { crowded with logFile := some "exec.log" }

theorem crowdedFiled_accepted : crowdedFiled.Accepted := ⟨rfl, by decide⟩

/-- A launch of accepted settings that leaves no block in a writable log and does not count, since
it traps on the list of its tasklets. -/
theorem launch_unlogged :
    ∃ origin c : Controller, crowdedFiled.Accepted ∧
      start crowdedFiled (fun _ => .ok (.given "")) [] = .ok origin ∧
      origin.Course c [] ∧ c.executionLog.map (·.refusal) = some none ∧
      (after (execute c)).executionLog = c.executionLog ∧
      (after (execute c)).launches = c.launches ∧
      ¬ c.Concluded (after (execute c)) := by
  have ran : (do
      let origin ← start crowdedFiled (fun _ => .ok (.given "")) []
      let c := after (load (.tower .add) origin)
      return (answer (execute c), c.executionLog.map (·.refusal)) : Except Error _) =
        .ok (.error (.trapped .oversized), some none) := by decide +kernel
  obtain ⟨origin, started, ran⟩ := bind_eq_ok.mp ran
  obtain ⟨died, writable⟩ := Prod.mk.inj (Except.ok.inj ran)
  have left := after_trap ⟨_, died⟩
  have course : origin.Course (after (load (.tower .add) origin)) [] := Course.refl.load _
  refine ⟨origin, _, crowdedFiled_accepted, started, course, writable, by rw [left], by rw [left],
    fun concluded => ?_⟩
  have counted := concluded.launches
  rw [left] at counted
  exact absurd counted (Nat.ne_of_lt (Nat.lt_succ_self _))

end Examples
end Controller
end BankedRing
