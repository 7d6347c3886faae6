import BankedRing.Proofs.Host.Homogeneous
import BankedRing.Proofs.Host.Tenure

/-! The layers agree on the program. A controller remembers the path that it loaded last, its
pool the program, and every unit the program that it runs. All three change together or not at
all, whatever the owner and the clients of the controller do. -/
namespace BankedRing

namespace Registry
variable {handle : Handle} {P : Controller → Prop} {α : Type} {step : Controller.Step α}

/-- A locked step behind any handle keeps what it keeps of the controller behind one. -/
theorem locked_holds (other : Handle) (keeps : Keeps P (fun _ => True) step) :
    Keeps (Holds handle P) (fun _ => True) (locked other step) := by
  intro registry holds
  refine ⟨?_, fun _ _ _ => trivial⟩
  by_cases own : handle = other
  · subst own
    exact holds.locked keeps
  · obtain ⟨shared, found, held⟩ := holds
    exact ⟨shared, (locked_elsewhere own).trans found, held⟩

theorem direct_holds {registry : Registry} (keeps : Keeps P (fun _ => True) step)
    (holds : Holds handle P registry) :
    Holds handle P (after (direct handle step registry)) := by
  obtain ⟨shared, found, held⟩ := holds
  exact ⟨_, direct_entry found, (keeps shared.controller held).1⟩

end Registry

namespace Resident
variable {settings : Settings} {handle : Handle} {P : Controller → Prop}

section Keeping
variable (commands : ∀ command : Controller.Command, Keeps P (fun _ => True) command.run)
include commands

theorem allocate_keeps (bytes : Nat) : Keeps P (fun _ => True) (Controller.allocate bytes) := by
  intro c held
  refine ⟨?_, fun _ _ _ => trivial⟩
  have kept := (commands (.allocate bytes) c held).1
  rwa [Controller.Command.run, after_discard] at kept

theorem reserve_holds (home : Handle) (length : Nat) :
    Keeps (Registry.Holds handle P) (fun _ => True) (reserve home length) := by
  refine Registry.locked_holds home (.get fun _ _ => .lift_bind (fun _ _ => ?_) fun _ _ => trivial)
  exact .bind (allocate_keeps commands _) fun _ => .pure _

theorem release_holds (v : Resident) : Keeps (Registry.Holds handle P)
    (fun _ => True) v.release := by
  intro registry holds
  rw [after_release]
  exact ⟨(Registry.locked_holds v.handle (commands (.deallocate v.address)) registry holds).1,
    fun _ _ _ => trivial⟩

theorem complete_holds (v : Resident) {step : Step Unit}
    (keeps : Keeps (Registry.Holds handle P) (fun _ => True) step) :
    Keeps (Registry.Holds handle P) (fun _ => True) (v.complete step) := by
  intro registry holds
  refine ⟨?_, fun _ _ _ => trivial⟩
  have stepped := (keeps registry holds).1
  cases outcome : step registry with
  | ok value reached =>
    rw [outcome] at stepped
    rw [complete_of_ok outcome]
    exact stepped
  | error e reached =>
    rw [outcome] at stepped
    rw [complete_of_error outcome]
    exact (release_holds commands v reached stepped).1

theorem perform_holds (v : Resident) (m : Word) (action : Action) (result : Option Resident) :
    Keeps (Registry.Holds handle P) (fun _ => True) (v.perform m action result) := by
  intro registry holds
  refine ⟨?_, fun _ _ _ => trivial⟩
  rcases perform_cases v m action result registry with ⟨e, refused, _⟩ | ⟨program, block, ran⟩
  · rw [refused]
    exact holds
  · rw [ran]
    exact (Registry.locked_holds v.handle (commands (.runBlock program block)) registry holds).1

theorem switchModulus_holds (v : Resident) (m new : Word) :
    Keeps (Registry.Holds handle P) (fun _ => True) (v.switchModulus m new) :=
  .guard trivial fun _ => Registry.locked_holds v.handle
    (commands (.runBlock .modular (v.modularBlock .switchModulus m new 0 none).encode))

theorem creation_holds (creation : Creation) : Keeps (Registry.Holds handle P)
    (fun _ => True) creation.run := by
  have copies : ∀ home values address distribution, Keeps (Registry.Holds handle P) (fun _ => True)
      (Registry.locked home (Controller.copyTo values address distribution)) :=
        fun home values address distribution =>
    Registry.locked_holds home (commands (.copyTo values address distribution))
  have given : ∀ home values,
      Keeps (Registry.Holds handle P) (fun _ => True) (ofValues home values) := fun home values =>
    .bind (reserve_holds commands _ _) fun v => complete_holds commands v (copies _ _ _ _)
  cases creation with
  | given home values => exact given home values
  | reduced home values m =>
    refine .guard trivial fun _ => ?_
    dsimp only
    split
    · exact .throw_bind trivial
    · exact given home values
  | blank home length =>
    exact .bind (reserve_holds commands _ _) fun v => complete_holds commands v (copies _ _ _ _)
  | derived v m action =>
    exact .bind (reserve_holds commands _ _) fun r =>
      complete_holds commands r (perform_holds commands _ _ _ _)

end Keeping

/-- What a started controller has, commands keep and the state of the execution log does not
matter for, the controller has whatever is done with it. -/
theorem holds_of_visited (started : ∀ openLog schedules c,
    Controller.start settings openLog schedules = .ok c → P c)
    (commands : ∀ command : Controller.Command, Keeps P (fun _ => True) command.run)
    (relogged : ∀ c executionLog, P c → P { c with executionLog })
    {admits : List Resident → Controller.Command → Prop} {registry : Registry}
    {tenants : List Resident} (visited : Visited settings handle admits registry tenants) :
    registry.Holds handle P := by
  induction visited with
  | @start registry openLog schedules c length ran =>
    refine ⟨⟨c, false⟩, ?_, started openLog schedules c ran⟩
    rw [← length, List.getElem?_append_right (Nat.le_refl _), Nat.sub_self]
    rfl
  | elsewhere _ same ih =>
    obtain ⟨shared, found, held⟩ := ih
    exact ⟨shared, same.trans found, held⟩
  | relog executionLog _ found ih =>
    obtain ⟨shared, here, held⟩ := ih
    cases here.symm.trans found
    exact ⟨_, List.getElem?_set_self (List.getElem?_eq_some_iff.mp found).1,
      relogged _ executionLog held⟩
  | poison _ ih =>
    obtain ⟨⟨c, p⟩, found, held⟩ := ih
    refine ⟨⟨c, true⟩, ?_, held⟩
    rw [Registry.poison, List.getElem?_modify_eq, found]
    rfl
  | direct command _ _ ih => exact Registry.direct_holds (commands command) ih
  | locked command _ _ ih => exact ih.locked (commands command)
  | created creation _ _ ran ih => exact (creation_holds commands creation).of_ok ran ih
  | refused creation _ _ ran ih => exact ((creation_holds commands creation).of_error ran ih).1
  | update v m action _ _ ih => exact (perform_holds commands v m action none _ ih).1
  | switchModulus v m new _ _ ih => exact (switchModulus_holds commands v m new _ ih).1
  | read v _ _ ih =>
    exact (Registry.locked_holds v.handle (.get fun _ _ => .lift fun _ _ => trivial) _ ih).1
  | release _ _ ih => exact (release_holds commands _ _ ih).1

end Resident

namespace Controller
variable {settings : Settings} {c : Controller}

/-- A program that the controller's path names, the pool has on record and every unit runs. -/
structure Runs (program : Program) (c : Controller) : Prop where
  path : ∃ path, c.loadedPath = some path ∧ Program.ofPath? path = some program
  pool : c.pool.Furnished (some program)

/-- All layers name one program. -/
def Agrees (c : Controller) : Prop := ∃ program, c.Runs program

section Loading

theorem loadPath_refused {path : Path} (unknown : Program.ofPath? path = none) (c : Controller) :
    loadPath path c = .error (.unknownBinary path) c := by
  rcases Pool.load_cases path c.pool with ⟨_, refused⟩ | ⟨program, known, _⟩
  · have stopped : onPool (Pool.load path) c = .error (.unknownBinary path) c := by
      rw [onPool, refused]
    rw [loadPath, run_bind_error stopped]
  · cases unknown.symm.trans known

theorem loadPath_runs {path : Path} {program : Program}
    (known : Program.ofPath? path = some program) (c : Controller) :
    ∃ reached, loadPath path c = .ok () reached ∧ reached.Runs program := by
  rcases Pool.load_cases path c.pool with ⟨unknown, _⟩ | ⟨found, named, loads⟩
  · cases known.symm.trans unknown
  · cases known.symm.trans named
    have went := onPool_eq_ok loads c
    rw [loadPath, run_bind_ok went]
    exact ⟨_, rfl, ⟨path, rfl, known⟩, Pool.furnished_load program c.pool⟩

theorem loadPath_agrees (path : Path) : Keeps Agrees (fun _ => True) (loadPath path) := by
  intro c agrees
  refine ⟨?_, fun _ _ _ => trivial⟩
  cases named : Program.ofPath? path with
  | none =>
    rw [loadPath_refused named]
    exact agrees
  | some program =>
    obtain ⟨reached, ran, runs⟩ := loadPath_runs named c
    rw [ran]
    exact ⟨program, runs⟩

theorem load_runs (program : Program) (c : Controller) :
    ∃ reached, load program c = .ok () reached ∧ reached.Runs program :=
  loadPath_runs (Program.ofPath?_path program _) c

end Loading

theorem onPool_agrees {step : Pool.Step Unit}
    (keeps : ∀ loaded, Keeps (Pool.Furnished loaded) (fun _ => True) step) :
    Keeps Agrees (fun _ => True) (onPool step) := by
  rintro c ⟨program, path, furnished⟩
  rw [after_onPool]
  exact ⟨⟨program, path, (keeps _ c.pool furnished).1⟩, fun _ _ _ => trivial⟩

theorem execute_agrees : Keeps Agrees (fun _ => True) execute := by
  refine execute_keeps_of (fun c _ _ _ agrees => ?_) (fun _ => trivial) (onPool_agrees fun _ =>
    Pool.launch_furnished)
  obtain ⟨program, path, furnished⟩ := agrees
  exact ⟨program, path, Pool.furnished_drainLogs furnished⟩

theorem Command.agrees (command : Command) : Keeps Agrees (fun _ => True) command.run := by
  rcases command.steady_or with steady | ⟨bytes, rfl⟩ | ⟨address, rfl⟩
  · exact Command.steady_keeps_of steady loadPath_agrees
      (fun _ _ _ => onPool_agrees fun _ => Pool.scatter_furnished _ _ _)
      (fun _ _ _ => onPool_agrees fun _ => Pool.broadcast_furnished _ _ _) execute_agrees
  · rintro c ⟨program, path, furnished⟩
    obtain ⟨_, same⟩ := after_allocate bytes c
    refine ⟨?_, fun _ _ _ => trivial⟩
    rw [Command.run, after_discard, same]
    exact ⟨program, path, furnished⟩
  · rintro c ⟨program, path, furnished⟩
    obtain ⟨_, same⟩ := after_deallocate address c
    refine ⟨?_, fun _ _ _ => trivial⟩
    rw [Command.run, same]
    exact ⟨program, path, furnished⟩

theorem start_agrees {openLog : Path → Except FileRefusal ExecutionLog} {schedules : List Schedule}
    (h : start settings openLog schedules = .ok c) : c.Agrees := by
  obtain ⟨_, _, h⟩ := bind_eq_ok.mp h
  split at h
  · cases h
  · obtain ⟨executionLog, _, h⟩ := bind_eq_ok.mp h
    dsimp only at h
    split at h
    · rename_i ran
      cases h
      obtain ⟨_, booted, loads, launched⟩ := run_bind_eq_ok.mp ran
      obtain ⟨reached, loaded, runs⟩ := load_runs .boot _
      cases loaded.symm.trans loads
      exact execute_agrees.of_ok launched ⟨_, runs⟩
    · cases h

end Controller

/-- In every state that owner and clients bring a controller to, failing steps included, the
path that it loaded last names the program on record, and every unit runs that program. A
program can be loaded whatever the directory, and a path that names none changes nothing. -/
theorem Resident.layers_agree {settings : Settings} {handle : Handle} {registry : Registry}
    {tenants : List Resident} {shared : SharedController}
    (visited : Visited settings handle (fun _ _ => True) registry tenants)
    (found : registry[handle]? = some shared) :
    (∃ path program, shared.controller.loadedPath = some path ∧
      Program.ofPath? path = some program ∧
      shared.controller.pool.loaded = some program ∧
      ∀ device ∈ shared.controller.pool.devices,
        device.program.map Program.name = some program.name) ∧
    (∀ program, ∃ reached, Controller.load program shared.controller = .ok () reached ∧
      reached.Runs program) ∧
    ∀ path, Program.ofPath? path = none →
      Controller.loadPath path shared.controller =
        .error (.unknownBinary path) shared.controller := by
  obtain ⟨_, here, program, ⟨path, loadedPath, named⟩, furnished⟩ :=
    holds_of_visited (fun _ _ _ => Controller.start_agrees) Controller.Command.agrees
      (fun _ _ ⟨program, path, furnished⟩ => ⟨program, path, furnished⟩) visited
  cases here.symm.trans found
  refine ⟨⟨path, program, loadedPath, named, furnished.record, fun device member => ?_⟩,
    fun program => Controller.load_runs program _, fun path unknown =>
      Controller.loadPath_refused unknown _⟩
  rw [(furnished.units device member).program]
  rfl

/-- A fresh controller has one program on all its units, and keeps it when it is to load what no
program is called. -/
theorem Resident.layers_agree_standard :
    ∃ c : Controller, Controller.start {} (fun _ => .error .notFound) [] = .ok c ∧
      (∃ program, c.pool.loaded = some program ∧
        ∀ device ∈ c.pool.devices, device.program.map Program.name = some program.name) ∧
      (∃ reached, Controller.load .modular c = .ok () reached ∧ reached.Runs .modular) ∧
      Controller.loadPath "bin/dcrt-div" c = .error (.unknownBinary "bin/dcrt-div") c := by
  obtain ⟨c, started, _⟩ := Controller.standard_starts (fun _ => .error .notFound) []
  have visited : Visited {} 0 (fun _ _ => True) ([] ++ [⟨c, false⟩]) [] := .start rfl started
  obtain ⟨⟨_, program, _, _, record, units⟩, loads, unknown⟩ := layers_agree visited rfl
  exact ⟨c, started, ⟨program, record, units⟩, loads .modular, unknown "bin/dcrt-div" (by decide)⟩

end BankedRing
