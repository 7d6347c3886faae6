import BankedRing.Proofs.Host.Footprint
import BankedRing.Proofs.Host.Resident

/-! The history of one controller and of the vectors that live on it. Whatever its clients
and its owner do, finished, refused or dead on the way, is made of a few moves: a step that
leaves the allocators alone, a grant to a new vector, the release of one, and the owner's own
allocations. What these moves preserve holds in every state that a controller gets into. -/
namespace BankedRing
namespace Controller
variable {settings : Settings} {c : Controller}

/-- Commands that have nothing to do with the allocators. -/
def Command.Steady : Command → Prop
  | .allocate _ | .deallocate _ => False
  | _ => True

theorem Command.steady_or (command : Command) :
    command.Steady ∨ (∃ bytes, command = .allocate bytes) ∨ ∃ address,
    command = .deallocate address := by
  cases command with
  | allocate bytes => exact .inr (.inl ⟨bytes, rfl⟩)
  | deallocate address => exact .inr (.inr ⟨address, rfl⟩)
  | _ => exact .inl trivial

/-- A steady command is made of loads, transfers and launches, and keeps what they keep. -/
theorem Command.steady_keeps_of {P : Controller → Prop} {command : Command}
    (steady : command.Steady) (loading : ∀ path, Keeps P (fun _ => True) (loadPath path))
    (scattering : ∀ target offset buffers, Keeps P (fun _ => True)
      (onPool (Pool.scatter target offset buffers)))
    (broadcasting : ∀ target offset bytes, Keeps P (fun _ => True)
      (onPool (Pool.broadcast target offset bytes)))
    (launching : Keeps P (fun _ => True) Controller.execute) :
    Keeps P (fun _ => True) command.run := by
  have loads : ∀ program, Keeps P (fun _ => True) (Controller.load program) :=
    fun _ => .get fun _ _ => loading _
  have copying : ∀ batch, Keeps P (fun _ => True) (Controller.copyIn batch) := fun _ =>
    copyIn_keeps_of (scattering _ _ _) (broadcasting _ _ _) (scattering _ _ _) (scattering _ _ _)
      (fun _ _ => trivial) fun _ => trivial
  cases command with
  | load path => exact loading path
  | copyIn batch => exact copying batch
  | execute => exact launching
  | runTowers a b program split =>
    refine .bind (.guard trivial fun _ => .get fun _ _ => .lift_bind (fun batch _ => ?_) fun _ _ =>
      trivial)
      fun _ => .pure _
    exact .bind (loads program) fun _ => .bind (copying batch) fun _ => .bind launching fun _ =>
      collect_keeps_of batch (fun _ _ _ _ => trivial) fun _ _ _ _ _ _ _ _ => trivial
  | copyTo values offset distribution =>
    cases distribution with
    | broadcast => exact broadcasting _ _ _
    | scatter => exact .get fun _ _ => .lift_bind (fun _ _ => scattering _ _ _) fun _ _ => trivial
  | send symbol bytes => exact broadcasting _ _ _
  | runBlock program block =>
    exact .bind (loads program) fun _ => .bind (broadcasting _ _ _) fun _ => launching
  | allocate bytes => exact steady.elim
  | deallocate address => exact steady.elim

theorem Command.steady_keeps {command : Command} (steady : command.Steady) :
    Keeps (c.Confined fun _ => True) (fun _ => True) command.run := by
  refine Command.steady_keeps_of steady loadPath_confined (fun _ _ _ => ?_) (fun _ _ _ => ?_)
    fun current confined => ?_
  · exact onPool_confined fun _ => Pool.scatter_confined fun _ _ _ _ _ => trivial
  · exact onPool_confined fun _ => Pool.broadcast_confined fun _ _ _ => trivial
  · exact ⟨confined.trans (execute_confined fun _ _ _ _ _ _ _ => trivial), fun _ _ _ => trivial⟩

theorem Command.Steady.confined {command : Command} (steady : command.Steady) (c : Controller) :
    c.Confined (fun _ => True) (after (command.run c)) :=
  (Command.steady_keeps steady c (.refl c)).1

theorem start_confined (accepted : settings.Accepted)
    {openLog : Path → Except FileRefusal ExecutionLog} {schedules : List Schedule}
    (h : start settings openLog schedules = .ok c) : ∃ executionLog count,
      (unbooted settings executionLog schedules count).Sound settings count ∧
        (unbooted settings executionLog schedules count).Confined (fun _ => True) c := by
  unfold start at h
  rw [accepted.valid, ok_bind] at h
  cases acquired : Pool.acquire settings settings.units settings.profile (Pool.empty schedules) with
  | error e pool =>
    rw [acquired] at h
    cases h
  | ok count pool =>
    rw [acquired] at h
    dsimp only at h
    obtain ⟨executionLog, _, h⟩ := bind_eq_ok.mp h
    obtain ⟨units, host, rfl⟩ := Pool.acquire_eq_ok acquired
    have booting : Keeps ((unbooted settings executionLog schedules count).Confined fun _ => True)
      (fun _ => True)
        (do load .boot; execute : Step Unit) :=
      .bind (load_confined _) fun _ =>
        Command.steady_keeps (show Command.execute.Steady from trivial)
    split at h
    · rename_i ran
      cases h
      exact ⟨executionLog, count,
        ⟨rfl, units, host, Pool.built_new settings count _, _, shared_blank accepted, rfl⟩,
        booting.of_ok ran (.refl _)⟩
    · cases h

section Allocating

theorem after_allocate (bytes : Nat) (c : Controller) :
    ∃ memories, after (allocate bytes c) = { c with memories } := by
  simp only [allocate, run_get]
  generalize allocateEach bytes c.memories = outcome
  obtain ⟨memories, addresses, refusal⟩ := outcome
  cases refusal with
  | some e => exact ⟨_, rfl⟩
  | none =>
    cases addresses with
    | nil => exact ⟨_, rfl⟩
    | cons address others =>
      dsimp only
      split
      · exact ⟨memories, rfl⟩
      · exact ⟨_, rfl⟩

theorem pool_allocate (bytes : Nat) (c : Controller) :
    (after (allocate bytes c)).pool = c.pool := by
  obtain ⟨_, same⟩ := after_allocate bytes c
  rw [same]

theorem after_deallocate (address : UInt32) (c : Controller) :
    ∃ memories, after (deallocate address c) = { c with memories } := by
  simp only [deallocate, run_get]
  generalize deallocateEach address c.memories = outcome
  obtain ⟨memories, refusal⟩ := outcome
  cases refusal <;> exact ⟨memories, rfl⟩

theorem pool_deallocate (address : UInt32) (c : Controller) :
    (after (deallocate address c)).pool = c.pool := by
  obtain ⟨_, same⟩ := after_deallocate address c
  rw [same]

end Allocating
end Controller

namespace Resident

/-- The ways to a new vector. -/
inductive Creation where
  | given (handle : Handle) (values : List Word)
  | reduced (handle : Handle) (values : List Word) (m : Word)
  | blank (handle : Handle) (length : Nat)
  | derived (v : Resident) (m : Word) (action : Action)

def Creation.run : Creation → Step Resident
  | .given handle values => ofValues handle values
  | .reduced handle values m => ofResidues handle values m
  | .blank handle length => zeros handle length
  | .derived v m action => v.derive m action

/-- The controller that a new vector is to live on. -/
def Creation.handle : Creation → Handle
  | .given handle _ | .reduced handle _ _ | .blank handle _ => handle
  | .derived v _ _ => v.handle

theorem checkPeer_returns (v other : Resident) : Returns (v.checkPeer other) :=
  .guard (f := fun _ => _) rfl fun _ => by
    split
    · exact .error rfl
    · exact .ok _

/-- An operation is refused at once or becomes one locked block. -/
theorem perform_cases (v : Resident) (m : Word) (action : Action) (result : Option Resident)
    (registry : Registry) :
    (∃ e, v.perform m action result registry = .error e registry ∧ e.Returned) ∨
      ∃ program block, v.perform m action result registry =
        Registry.locked v.handle (Controller.runBlock program block) registry := by
  by_cases supported : Modulus.isSupported m = true
  · have open' : ¬ (!Modulus.isSupported m) = true := by simp [supported]
    cases action with
    | combine family argument =>
      cases argument with
      | scalar value =>
        refine .inr ?_
        simp only [perform, combine, if_neg open', run_pure_bind]
        cases family with
        | mul =>
          simp only [Modulus.barrettConstant_eq_ok supported]
          exact ⟨_, _, rfl⟩
        | _ => exact ⟨_, _, rfl⟩
      | vector other =>
        cases checked : v.checkPeer other with
        | error e =>
          refine .inl ⟨e, ?_, checkPeer_returns v other e checked⟩
          simp only [perform, combine, if_neg open', checked, run_lift_error]
        | ok _ =>
          refine .inr ?_
          simp only [perform, combine, if_neg open', checked, run_lift_ok]
          cases family with
          | mul =>
            simp only [Modulus.barrettConstant_eq_ok supported]
            exact ⟨_, _, rfl⟩
          | _ => exact ⟨_, _, rfl⟩
    | _ =>
      refine .inr ?_
      simp only [perform, runModular, if_neg open']
      exact ⟨_, _, rfl⟩
  · refine .inl ⟨.invalidModulus m, ?_, rfl⟩
    have refused : (!Modulus.isSupported m) = true := by simpa using supported
    cases action with
    | combine family argument => simp only [perform, combine, if_pos refused, run_throw_bind]
    | _ => simp only [perform, runModular, if_pos refused, run_throw_bind]

variable {settings : Settings} {handle : Handle}
  {admits : List Resident → Controller.Command → Prop} {tenants : List Resident}

/-- What a controller behind a handle goes through, with the vectors that live on it, where
the owner allocates and releases on his own account only as admitted. A step that has died
poisons the lock, and nothing lifts that. -/
inductive Tenure (settings : Settings) (handle : Handle)
    (admits : List Resident → Controller.Command → Prop) :
    SharedController → List Resident → Prop
  | started {openLog : Path → Except FileRefusal ExecutionLog} {schedules : List Schedule}
      {c : Controller} :
    Controller.start settings openLog schedules = .ok c →
    Tenure settings handle admits ⟨c, false⟩ []
  | stepped {c reached : Controller} {p q : Bool} {tenants : List Resident} :
    Tenure settings handle admits ⟨c, p⟩ tenants → c.Confined (fun _ => True) reached →
    (p = true → q = true) →
    Tenure settings handle admits ⟨reached, q⟩ tenants
  | granted {c reached : Controller} {address : UInt32} {perUnit : Nat} {tenants : List Resident} :
    Tenure settings handle admits ⟨c, false⟩ tenants →
    Controller.allocate (perUnit * 8) c = .ok address reached →
    Tenure settings handle admits ⟨reached,
      false⟩ (⟨handle, address, perUnit * c.units, perUnit⟩ :: tenants)
  | freed {c : Controller} {q : Bool} {tenants : List Resident} {v : Resident} :
    Tenure settings handle admits ⟨c, false⟩ tenants → v ∈ tenants →
    Tenure settings handle admits ⟨after (Controller.deallocate v.address c), q⟩ (tenants.erase v)
  | abandoned {c : Controller} {tenants : List Resident} {v : Resident} :
    Tenure settings handle admits ⟨c, true⟩ tenants → v ∈ tenants →
    Tenure settings handle admits ⟨c, true⟩ (tenants.erase v)
  | allocated {c : Controller} {p q : Bool} {tenants : List Resident} (bytes : Nat) :
    Tenure settings handle admits ⟨c, p⟩ tenants → admits tenants (.allocate bytes) →
    (p = true → q = true) →
    Tenure settings handle admits ⟨after (Controller.allocate bytes c), q⟩ tenants
  | deallocated {c : Controller} {p q : Bool} {tenants : List Resident} (address : UInt32) :
    Tenure settings handle admits ⟨c, p⟩ tenants → admits tenants (.deallocate address) →
    (p = true → q = true) →
    Tenure settings handle admits ⟨after (Controller.deallocate address c), q⟩ tenants

namespace Tenure
variable {shared : SharedController}

theorem own (tenure : Tenure settings handle admits shared tenants) :
    ∀ v ∈ tenants, v.handle = handle := by
  induction tenure with
  | started => nofun
  | stepped _ _ _ ih => exact ih
  | granted _ _ ih => exact List.forall_mem_cons.mpr ⟨rfl, ih⟩
  | freed _ _ ih => exact fun v kept => ih v (List.mem_of_mem_erase kept)
  | abandoned _ _ ih => exact fun v kept => ih v (List.mem_of_mem_erase kept)
  | allocated _ _ _ _ ih => exact ih
  | deallocated _ _ _ _ ih => exact ih

theorem sound (accepted : settings.Accepted)
    (tenure : Tenure settings handle admits shared tenants) :
    ∃ count, shared.controller.Sound settings count := by
  induction tenure with
  | started started =>
    obtain ⟨_, count, sound, confined⟩ := Controller.start_confined accepted started
    exact ⟨count, confined.sound sound⟩
  | stepped _ confined _ ih =>
    obtain ⟨count, sound⟩ := ih
    exact ⟨count, confined.sound sound⟩
  | granted _ ran ih =>
    obtain ⟨count, sound⟩ := ih
    exact ⟨count, (Controller.allocate_keeps _).of_ok ran sound⟩
  | freed _ _ ih =>
    obtain ⟨count, sound⟩ := ih
    exact ⟨count, (Controller.deallocate_keeps _ _ sound).1⟩
  | abandoned _ _ ih => exact ih
  | allocated bytes _ _ _ ih =>
    obtain ⟨count, sound⟩ := ih
    exact ⟨count, (Controller.allocate_keeps bytes _ sound).1⟩
  | deallocated address _ _ _ ih =>
    obtain ⟨count, sound⟩ := ih
    exact ⟨count, (Controller.deallocate_keeps address _ sound).1⟩

/-- A vector stands where it was reserved, whatever becomes of its memory. -/
theorem placed (accepted : settings.Accepted)
    (tenure : Tenure settings handle admits shared tenants) :
    ∀ v ∈ tenants, v.Placed settings shared.controller.units := by
  induction tenure with
  | started => nofun
  | stepped _ confined _ ih => exact confined.units.symm ▸ ih
  | @granted c reached address perUnit tenants tenure ran ih =>
    obtain ⟨count, sound⟩ := tenure.sound accepted
    have units : reached.units = c.units := by
      rw [(Controller.allocate_granted sound ran).1]
      rfl
    exact units.symm ▸ List.forall_mem_cons.mpr ⟨Controller.placed_of_granted sound ran, ih⟩
  | @freed c q tenants v _ _ ih =>
    have units : (after (Controller.deallocate v.address c)).units = c.units :=
      congrArg Pool.units (Controller.pool_deallocate _ c)
    exact fun w kept => units.symm ▸ ih w (List.mem_of_mem_erase kept)
  | abandoned _ _ ih => exact fun w kept => ih w (List.mem_of_mem_erase kept)
  | @allocated c _ _ _ bytes _ _ _ ih =>
    have units : (after (Controller.allocate bytes c)).units = c.units :=
      congrArg Pool.units (Controller.pool_allocate bytes c)
    exact units.symm ▸ ih
  | @deallocated c _ _ _ address _ _ _ ih =>
    have units : (after (Controller.deallocate address c)).units = c.units :=
      congrArg Pool.units (Controller.pool_deallocate address c)
    exact units.symm ▸ ih

/-- As long as the owner does not release a live vector's memory, every live vector has
memory of its own. -/
theorem tenanted (accepted : settings.Accepted)
    (spared : ∀ tenants address, admits tenants (.deallocate address) → ∀ v ∈ tenants,
      v.address ≠ address)
    (tenure : Tenure settings handle admits shared tenants) :
    Controller.Tenanted settings tenants shared.controller := by
  induction tenure with
  | started started =>
    obtain ⟨_, count, sound, confined⟩ := Controller.start_confined accepted started
    exact ⟨⟨count, confined.sound sound⟩, nofun, .nil⟩
  | @stepped c reached _ _ _ _ confined _ ih =>
    obtain ⟨count, sound⟩ := ih.sound
    have records : reached.records = c.records := by
      rw [Controller.records, confined.memories, ← Controller.records]
    refine ⟨⟨count, confined.sound sound⟩, ?_, ih.apart⟩
    show ∀ v : Resident, v ∈ _ → v.Housed reached.units reached.records
    rw [confined.units, records]
    exact ih.housed
  | @granted c reached address perUnit tenants tenure ran ih =>
    obtain ⟨count, sound⟩ := tenure.sound accepted
    obtain ⟨same, kept, fresh, blocks, room, members⟩ := Controller.allocate_granted sound ran
    exact Controller.tenanted_cons ih kept (by rw [same]; rfl) fresh members rfl room
  | @freed c _ tenants v _ member ih =>
    have first := ih.perm (List.perm_cons_erase member)
    have others : ∀ w ∈ tenants.erase v, w.address ≠ v.address := fun w kept =>
      ((List.pairwise_cons.mp first.apart).1 w kept).symm
    exact Controller.deallocate_tenanted others first.tail
  | abandoned _ member ih => exact (ih.perm (List.perm_cons_erase member)).tail
  | allocated bytes _ _ _ ih => exact Controller.allocate_tenanted bytes ih
  | deallocated address _ admitted _ ih =>
    exact Controller.deallocate_tenanted (spared _ _ admitted) ih

/-- A vector whose words are the same as before reads as before, refused or not. -/
theorem read_same {registry left : Registry} {c reached : Controller} {p : Bool} {v : Resident}
    (accepted : settings.Accepted)
    (tenure : Tenure settings handle admits ⟨c, p⟩ tenants) (live : v ∈ tenants)
    (found : registry[handle]? = some ⟨c, p⟩) (entry : left[handle]? = some ⟨reached, p⟩)
    (confined : c.Confined (fun _ => True) reached) (same : v.words reached = v.words c) :
    answer (v.toList left) = answer (v.toList registry) := by
  have own := tenure.own v live
  subst own
  cases p with
  | true =>
    have refused : ∀ {registry : Registry} {c : Controller}, registry[v.handle]? = some ⟨c, true⟩ →
        v.toList registry = .error .poisoned registry := fun here => Registry.locked_poisoned here
    rw [refused entry, refused found]
    rfl
  | false =>
    obtain ⟨count, sound⟩ := tenure.sound accepted
    have placed := tenure.placed accepted v live
    rw [toList_eq_ok accepted sound found placed,
      toList_eq_ok accepted (confined.sound sound) entry (confined.units.symm ▸ placed)]
    exact congrArg Except.ok same

end Tenure

/-- The handle names a controller with a history of so many live vectors. -/
def Held (settings : Settings) (handle : Handle)
    (admits : List Resident → Controller.Command → Prop) (tenants : List Resident)
    (registry : Registry) : Prop :=
  ∃ shared, registry[handle]? = some shared ∧ Tenure settings handle admits shared tenants

section Holding
variable {registry : Registry} {v : Resident}

theorem Held.set {shared : SharedController} (known : handle < registry.length)
    (tenure : Tenure settings handle admits shared tenants) :
    Held settings handle admits tenants (registry.set handle shared) :=
  ⟨shared, List.getElem?_set_self known, tenure⟩

theorem Held.entry {other : Registry} (held : Held settings handle admits tenants registry)
    (same : other[handle]? = registry[handle]?) : Held settings handle admits tenants other := by
  obtain ⟨shared, found, tenure⟩ := held
  exact ⟨shared, same.trans found, tenure⟩

theorem Held.locked {α : Type} {step : Controller.Step α} {others : List Resident}
    (held : Held settings handle admits tenants registry)
    (moves : ∀ c, Tenure settings handle admits ⟨c, false⟩ tenants →
      Tenure settings handle admits ⟨after (step c), Registry.trapped (step c)⟩ others)
    (refused : ∀ c, Tenure settings handle admits ⟨c, true⟩ tenants →
      Tenure settings handle admits ⟨c, true⟩ others) :
    Held settings handle admits others (after (Registry.locked handle step registry)) := by
  obtain ⟨⟨c, poisoned⟩, found, tenure⟩ := held
  cases poisoned with
  | true =>
    rw [Registry.locked_poisoned found]
    exact ⟨_, found, refused c tenure⟩
  | false => exact ⟨_, Registry.locked_entry found, moves c tenure⟩

theorem Held.locked_steady {α : Type} {step : Controller.Step α}
    (held : Held settings handle admits tenants registry)
    (steady : ∀ c : Controller, c.Confined (fun _ => True) (after (step c))) :
    Held settings handle admits tenants (after (Registry.locked handle step registry)) :=
  held.locked (fun c tenure => tenure.stepped (steady c) nofun) fun _ tenure => tenure

theorem Tenure.command {c : Controller} {p q : Bool}
    (tenure : Tenure settings handle admits ⟨c, p⟩ tenants) {command : Controller.Command}
    (admitted : admits tenants command) (still : p = true → q = true) :
    Tenure settings handle admits ⟨after (command.run c), q⟩ tenants := by
  rcases command.steady_or with steady | ⟨bytes, rfl⟩ | ⟨address, rfl⟩
  · exact tenure.stepped (steady.confined c) still
  · rw [Controller.Command.run, after_discard]
    exact tenure.allocated bytes admitted still
  · exact tenure.deallocated address admitted still

theorem perform_held (own : v.handle = handle) (held : Held settings handle admits tenants registry)
    (m : Word) (action : Action) (result : Option Resident) :
    Held settings handle admits tenants (after (v.perform m action result registry)) := by
  rcases perform_cases v m action result registry with ⟨e, refused, _⟩ | ⟨program, block, ran⟩
  · rw [refused]
    exact held
  · rw [ran, own]
    have steady : Controller.Command.Steady (.runBlock program block) := trivial
    exact held.locked_steady steady.confined

theorem switchModulus_held (own : v.handle = handle)
    (held : Held settings handle admits tenants registry) (m new : Word) :
    Held settings handle admits tenants (after (v.switchModulus m new registry)) := by
  unfold switchModulus runModular
  by_cases refused : (!Modulus.isSupported m) = true
  · simp only [if_pos refused, run_throw_bind]
    exact held
  · let block := v.modularBlock .switchModulus m new 0 none
    have steady : Controller.Command.Steady (.runBlock .modular block.encode) := trivial
    simp only [if_neg refused, own]
    exact held.locked_steady steady.confined

theorem read_held (own : v.handle = handle) (held : Held settings handle admits tenants registry) :
    Held settings handle admits tenants (after (v.toList registry)) := by
  subst own
  refine held.locked_steady fun c => ?_
  rw [run_get]
  cases c.copyFrom v.address v.perUnit <;> exact .refl c

theorem release_held (member : v ∈ tenants) (held : Held settings handle admits tenants registry) :
    Held settings handle admits (tenants.erase v) (after (v.release registry)) := by
  obtain ⟨shared, found, tenure⟩ := held
  rw [after_release, tenure.own v member]
  exact Held.locked ⟨shared, found, tenure⟩ (fun _ tenure => tenure.freed member) fun _ tenure =>
    tenure.abandoned member

/-- A new vector is live beside the others, or the others are left. -/
def Created (settings : Settings) (handle : Handle)
    (admits : List Resident → Controller.Command → Prop) (tenants : List Resident) :
    EStateM.Result Error Registry Resident → Prop
  | .ok v registry => Held settings handle admits (v :: tenants) registry
  | .error _ registry => Held settings handle admits tenants registry

theorem reserve_created (accepted : settings.Accepted)
    (held : Held settings handle admits tenants registry) (length : Nat) :
    Created settings handle admits tenants (reserve handle length registry) := by
  obtain ⟨⟨c, poisoned⟩, found, tenure⟩ := held
  have known := (List.getElem?_eq_some_iff.mp found).1
  cases poisoned with
  | true =>
    rw [reserve, Registry.locked_poisoned found]
    exact ⟨_, found, tenure⟩
  | false =>
    obtain ⟨count, sound⟩ := tenure.sound accepted
    rcases reserve_outcomes sound found length with ⟨perUnit, address, grown, rfl, granted,
      ran⟩ | ⟨e, refused⟩
    · rw [ran]
      exact Held.set known (tenure.granted granted)
    · rw [refused]
      exact Held.set known (tenure.stepped (.refl c) nofun)

/-- A reserved vector is completed, or released again. -/
theorem complete_created {step : Step Unit}
    (stepped : Held settings handle admits (v :: tenants) (after (step registry))) :
    Created settings handle admits tenants (v.complete step registry) := by
  cases outcome : step registry with
  | ok value reached =>
    rw [outcome] at stepped
    rw [complete_of_ok outcome]
    exact stepped
  | error e reached =>
    rw [outcome] at stepped
    rw [complete_of_error outcome]
    have released := release_held List.mem_cons_self stepped
    rwa [List.erase_cons_head] at released

/-- A vector that is reserved, and then completed by a step that it may take on its own. -/
theorem reserved_created (accepted : settings.Accepted) {length : Nat} {step : Resident → Step Unit}
    (held : Held settings handle admits tenants registry)
    (stepped : ∀ (v : Resident) (registry : Registry),
      Held settings handle admits (v :: tenants) registry →
      Held settings handle admits (v :: tenants) (after (step v registry))) :
    Created settings handle admits tenants ((do
      let v ← reserve handle length
      v.complete (step v) : Step Resident) registry) := by
  have reserved := reserve_created accepted held length
  cases outcome : reserve handle length registry with
  | ok v reached =>
    rw [outcome] at reserved
    rw [run_bind_ok outcome]
    exact complete_created (stepped v reached reserved)
  | error e reached =>
    rw [outcome] at reserved
    rw [run_bind_error outcome]
    exact reserved

theorem creation_created (accepted : settings.Accepted) (creation : Creation)
    (own : creation.handle = handle) (held : Held settings handle admits tenants registry) :
    Created settings handle admits tenants (creation.run registry) := by
  have copies : ∀ (values : Resident → List Word) (distribution : Distribution) (v : Resident) (registry : Registry),
      Held settings handle admits (v :: tenants) registry →
      Held settings handle admits (v :: tenants)
        (after (Registry.locked handle (Controller.copyTo (values v) v.address distribution)
          registry)) := by
    intro values distribution v registry held
    have steady : Controller.Command.Steady (.copyTo (values v) v.address distribution) := trivial
    exact held.locked_steady steady.confined
  have given : ∀ values, Created settings handle admits tenants
      (ofValues handle values registry) := fun values =>
    reserved_created accepted held (copies (fun _ => values) .scatter)
  subst own
  cases creation with
  | given home values => exact given values
  | reduced home values m =>
    simp only [Creation.run, ofResidues]
    split
    · exact held
    · cases values.zipIdx.find? fun pair => m ≤ pair.1 with
      | some unreduced => exact held
      | none => exact given values
  | blank home length =>
    exact reserved_created accepted held (copies (fun v => List.replicate v.perUnit 0) .broadcast)
  | derived v m action =>
    exact reserved_created accepted held fun r _ held => perform_held rfl held m action (some r)

end Holding

/-- The states of a registry that the clients and the owner of a controller lead to, with the
vectors that are live on it. The owner gives admitted commands only, and writes to the
execution log may begin or cease to succeed at any time. -/
inductive Visited (settings : Settings) (handle : Handle)
    (admits : List Resident → Controller.Command → Prop) :
    Registry → List Resident → Prop
  | start {registry : Registry} {openLog : Path → Except FileRefusal ExecutionLog}
      {schedules : List Schedule} {c : Controller} :
    registry.length = handle → Controller.start settings openLog schedules = .ok c →
    Visited settings handle admits (registry ++ [⟨c, false⟩]) []
  | elsewhere {registry other : Registry} {tenants : List Resident} :
    Visited settings handle admits registry tenants → other[handle]? = registry[handle]? →
    Visited settings handle admits other tenants
  | relog {registry : Registry} {tenants : List Resident} {c : Controller} {p : Bool}
    (executionLog : Option ExecutionLog) : Visited settings handle admits registry tenants →
    registry[handle]? = some ⟨c, p⟩ →
    Visited settings handle admits (registry.set handle ⟨{ c with executionLog }, p⟩) tenants
  | poison {registry : Registry} {tenants : List Resident} :
    Visited settings handle admits registry tenants →
    Visited settings handle admits (registry.poison handle) tenants
  | direct {registry : Registry} {tenants : List Resident} (command : Controller.Command) :
    Visited settings handle admits registry tenants → admits tenants command →
    Visited settings handle admits (after (Registry.direct handle command.run registry)) tenants
  | locked {registry : Registry} {tenants : List Resident} (command : Controller.Command) :
    Visited settings handle admits registry tenants → admits tenants command →
    Visited settings handle admits (after (Registry.locked handle command.run registry)) tenants
  | created {registry after : Registry} {tenants : List Resident} {v : Resident}
      (creation : Creation) :
    Visited settings handle admits registry tenants → creation.handle = handle →
    creation.run registry = .ok v after → Visited settings handle admits after (v :: tenants)
  | refused {registry after : Registry} {tenants : List Resident} {e : Error}
      (creation : Creation) :
    Visited settings handle admits registry tenants → creation.handle = handle →
    creation.run registry = .error e after → Visited settings handle admits after tenants
  | update {registry : Registry} {tenants : List Resident} (v : Resident) (m : Word)
      (action : Action) :
    Visited settings handle admits registry tenants → v.handle = handle →
    Visited settings handle admits (after (v.update m action registry)) tenants
  | switchModulus {registry : Registry} {tenants : List Resident} (v : Resident) (m new : Word) :
    Visited settings handle admits registry tenants → v.handle = handle →
    Visited settings handle admits (after (v.switchModulus m new registry)) tenants
  | read {registry : Registry} {tenants : List Resident} (v : Resident) :
    Visited settings handle admits registry tenants → v.handle = handle →
    Visited settings handle admits (after (v.toList registry)) tenants
  | release {registry : Registry} {tenants : List Resident} {v : Resident} :
    Visited settings handle admits registry tenants → v ∈ tenants →
    Visited settings handle admits (after (v.release registry)) (tenants.erase v)

/-- Whatever clients and owner do is a history of the controller. -/
theorem held_of_visited (accepted : settings.Accepted) {registry : Registry}
    (visited : Visited settings handle admits registry tenants) :
    Held settings handle admits tenants registry := by
  induction visited with
  | @start registry openLog schedules c length started =>
    refine ⟨⟨c, false⟩, ?_, .started started⟩
    rw [← length, List.getElem?_append_right (Nat.le_refl _), Nat.sub_self]
    rfl
  | elsewhere _ same ih => exact ih.entry same
  | relog executionLog _ found ih =>
    obtain ⟨shared, here, tenure⟩ := ih
    cases here.symm.trans found
    exact Held.set (List.getElem?_eq_some_iff.mp found).1 (tenure.stepped ⟨rfl, rfl, .refl _⟩ id)
  | poison _ ih =>
    obtain ⟨⟨c, p⟩, found, tenure⟩ := ih
    refine ⟨⟨c, true⟩, ?_, tenure.stepped (.refl c) fun _ => rfl⟩
    rw [Registry.poison, List.getElem?_modify_eq, found]
    rfl
  | direct command _ admitted ih =>
    obtain ⟨⟨c, p⟩, found, tenure⟩ := ih
    exact ⟨_, Registry.direct_entry found,
      tenure.command admitted fun poisoned => by simp [poisoned]⟩
  | locked command _ admitted ih =>
    exact ih.locked (fun _ tenure => tenure.command admitted nofun) fun _ tenure => tenure
  | created creation _ own ran ih =>
    have made := creation_created accepted creation own ih
    rwa [ran] at made
  | refused creation _ own ran ih =>
    have made := creation_created accepted creation own ih
    rwa [ran] at made
  | update v m action _ own ih => exact perform_held own ih m action none
  | switchModulus v m new _ own ih => exact switchModulus_held own ih m new
  | read v _ own ih => exact read_held own ih
  | release _ member ih => exact release_held member ih

section First
variable {count perUnit : Nat} {c reached : Controller} {v : Resident}

/-- The first vector on a fresh controller finds room for all that the banks hold. -/
theorem first_given (accepted : settings.Accepted) (sound : c.Sound settings count)
    (memories : c.memories = Controller.allocators (Controller.blank settings) count)
    (logging : c.Logging) (values : List Word) (even : values.length = perUnit * count)
    (room : (Controller.blank settings).blocksFor (perUnit * 8) ≤
      settings.bankBytes / Allocator.standardBlockBytes) :
    ∃ (v : Resident) (reached : Controller),
      ofValues 0 values [⟨c, false⟩] = .ok v [⟨reached, false⟩] ∧
      v.handle = 0 ∧ v.perUnit = perUnit ∧ reached.Sound settings count ∧ reached.Logging ∧
      v.Housed reached.units reached.records ∧ v.words reached = values := by
  have found : ([⟨c, false⟩] : Registry)[0]? = some ⟨c, false⟩ := rfl
  rw [← sound.count_eq] at even
  rcases reserve_cases sound found even with ⟨address, grown, reserved, _⟩ | ⟨_, refused, _⟩
  · obtain ⟨reached, ran, kept, still, own, housed, words⟩ :=
      ofValues_eq_ok accepted sound found even reserved
    exact ⟨_, reached, ran, own, rfl, kept, still logging, housed, words⟩
  · obtain ⟨address, grown, granted⟩ := Controller.allocate_blank accepted sound memories room
    cases (reserve_eq sound found even granted).symm.trans refused

theorem visited_first {openLog : Path → Except FileRefusal ExecutionLog} {schedules : List Schedule}
    (started : Controller.start settings openLog schedules = .ok c) {values : List Word}
    (ran : ofValues 0 values [⟨c, false⟩] = .ok v [⟨reached, false⟩]) :
    Visited settings 0 admits [⟨reached, false⟩] [v] := by
  have start : Visited settings 0 admits ([] ++ [⟨c, false⟩]) [] := .start rfl started
  exact .created (.given 0 values) start rfl ran

end First
end Resident

namespace Registry
variable {registry : Registry}

/-- Every controller has been started from accepted settings, and its owner and its clients
have done with it whatever they like. -/
def Attainable (registry : Registry) : Prop :=
  ∀ (handle : Handle) (shared : SharedController), registry[handle]? = some shared →
    ∃ (settings : Settings) (tenants : List Resident), settings.Accepted ∧
      Resident.Visited settings handle (fun _ _ => True) registry tenants

namespace Attainable

theorem nil : Attainable [] := by
  intro handle shared found
  rw [List.getElem?_nil] at found
  cases found

theorem sound (attainable : registry.Attainable) {handle : Handle} {shared : SharedController}
    (found : registry[handle]? = some shared) :
    ∃ settings count, settings.Accepted ∧ shared.controller.Sound settings count := by
  obtain ⟨settings, _, accepted, visited⟩ := attainable handle shared found
  obtain ⟨_, here, tenure⟩ := Resident.held_of_visited accepted visited
  cases here.symm.trans found
  obtain ⟨count, sound⟩ := tenure.sound accepted
  exact ⟨settings, count, accepted, sound⟩

theorem locked (attainable : registry.Attainable) (handle : Handle) (command : Controller.Command) :
    Attainable (after (Registry.locked handle command.run registry)) := by
  intro other shared found
  by_cases own : other = handle
  · subst own
    cases here : registry[other]? with
    | none =>
      rw [locked_missing here, after, here] at found
      cases found
    | some before =>
      obtain ⟨settings, tenants, accepted, visited⟩ := attainable other before here
      exact ⟨settings, tenants, accepted, .locked command visited trivial⟩
  · have same : (after (Registry.locked handle command.run registry))[other]? = registry[other]? :=
      locked_elsewhere own
    obtain ⟨settings, tenants, accepted, visited⟩ := attainable other shared (same.symm.trans found)
    exact ⟨settings, tenants, accepted, .elsewhere visited same⟩

theorem of_started {settings : Settings} {openLog : Path → Except FileRefusal ExecutionLog}
    {schedules : List Schedule} {c : Controller} (accepted : settings.Accepted)
    (started : Controller.start settings openLog schedules = .ok c) :
    Attainable [⟨c, false⟩] := by
  intro handle shared found
  obtain rfl : handle = 0 := Nat.lt_one_iff.mp (List.getElem?_eq_some_iff.mp found).1
  exact ⟨settings, [], accepted, Resident.Visited.start (List.length_nil) started⟩

end Attainable
end Registry
end BankedRing
