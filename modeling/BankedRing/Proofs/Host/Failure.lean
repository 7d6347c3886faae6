import BankedRing.Proofs.Host.Tenure

/-! Operations that fail. A launch goes from unit to unit and keeps what it has done before it
stops, so a failed operation leaves everything as it was only because each of its faults comes
from the parameter block or from the shape that all units share, and comes before the first
word is written. A result that was reserved is released again, block by block. -/
namespace BankedRing

namespace Controller
variable {settings : Settings} {count : Nat} {c : Controller}

/-- Units that cannot record their tasklets write nothing. -/
theorem unrecorded_confined (sound : c.Sound settings count)
    (unrecorded : ¬ settings.shape.Recorded) {program : Program} {block : List UInt8}
    (symbols : program.symbols = [(blockSymbol, block.length)]) :
    c.Confined (fun _ => False) (after (runBlock program block c)) := by
  refine runBlock_confined symbols fun device member _ _ recorded => ?_
  obtain ⟨i, found⟩ := List.mem_iff_getElem?.mp member
  rw [(sound.pool.units i device found).shape] at recorded
  exact absurd recorded unrecorded

/-- A modular block that its program refuses makes no unit write anything. -/
theorem unchecked_confined {block : ModularBlock} (failed : block.check ≠ .ok ()) (c : Controller) :
    c.Confined (fun _ => False) (after (runBlock .modular block.encode c)) := by
  have symbols : Program.modular.symbols = [(blockSymbol, block.encode.length)] := by
    rw [block.length_encode]
    rfl
  refine runBlock_confined symbols fun device _ region aimed _ => ?_
  have decoded := block.decode_encode []
  rw [List.append_nil] at decoded
  have program : (device.asked .modular block.encode).program = some .modular := rfl
  simp only [Device.aim, program, Device.symbol_asked symbols, ok_bind, decoded] at aimed
  obtain ⟨_, checked, _⟩ := bind_eq_ok.mp aimed
  exact absurd checked failed

theorem deallocate_allocate (sound : c.Sound settings count) {bytes : Nat} {address : UInt32}
    {grown reached : Controller} (granted : allocate bytes c = .ok address grown)
    (memories : reached.memories = grown.memories) :
    deallocate address reached = .ok () { reached with memories := c.memories } := by
  obtain ⟨memory, shared, same⟩ := sound.memories
  cases outcome : memory.allocate bytes with
  | error e => cases (allocate_of_error sound.units same outcome).symm.trans granted
  | ok pair =>
    obtain ⟨_, larger⟩ := pair
    cases (allocate_of_ok sound.units same outcome).symm.trans granted
    have valid := (Allocator.allocate_eq_ok shared.valid outcome).1
    rw [deallocate_of_ok memories valid (Allocator.deallocate_allocate shared.valid outcome), same]

end Controller

namespace Resident
variable {settings : Settings} {count : Nat} {c : Controller} {registry left : Registry}
    {v : Resident} {m : Word}
  {action : Action} {result : Option Resident} {e : Error}

section Requested
variable {peer : Option Resident} {operation : Operation} {step : Step Unit}
  (accepted : settings.Accepted) (sound : c.Sound settings count)
  (found : registry[v.handle]? = some ⟨c, false⟩) (placed : v.Placed settings c.units)
  (second : ∀ other, peer = some other → other.Placed settings c.units ∧ other.perUnit = v.perUnit)
  (target : ∀ r, result = some r → r.Placed settings c.units ∧ r.perUnit = v.perUnit)
  (requests : v.Requests step (v.region peer result) operation)
  (admitted : operation.Admitted) (binary : operation.isBinary = peer.isSome)
  (reduced : ∀ x ∈ v.words c, x < operation.modulus)
  (reducedSecond : ∀ other, peer = some other → ∀ y ∈ other.words c, y < operation.modulus)
include accepted sound found placed second target requests admitted binary reduced reducedSecond

/-- A request is written on all units and refused by the log at most, or it dies, on units that
cannot record their tasklets, before anything is written. -/
theorem requested_cases :
    (∃ out reached, operation.kernel (v.words c) (peerWords peer c) = .ok out ∧
      out.length = v.length ∧
      c.Wrote (result.getD v).address.toNat (fun i => slice (i * v.perUnit) v.perUnit out) reached ∧
      (step registry = .ok () (registry.set v.handle ⟨reached, false⟩) ∨
        ∃ refusal, step registry =
          .error (.logFile refusal) (registry.set v.handle ⟨reached, false⟩))) ∨
    ∃ trap stopped, step registry = .error (.trapped trap) (registry.set v.handle ⟨stopped, true⟩) ∧
      c.Confined (fun _ => False) stopped := by
  obtain ⟨program, block, asks, behind⟩ := requests
  rw [behind]
  by_cases recorded : settings.shape.Recorded
  · obtain ⟨out, reached, computed, length, wrote, ⟨ran, _⟩ | ⟨_, refusal, refused⟩⟩ :=
      request_written sound placed second target accepted recorded asks admitted binary
        reduced reducedSecond
    · exact .inl ⟨out, reached, computed, length, wrote, .inl (Registry.locked_ok found ran)⟩
    · exact .inl ⟨out, reached, computed, length, wrote,
        .inr ⟨refusal, Registry.locked_error found refused⟩⟩
  · obtain ⟨stopped, trapped⟩ := Controller.runBlock_unrecorded accepted sound asks
      (fun i device here => grants_region sound placed second target here) recorded
    have confined := Controller.unrecorded_confined sound recorded asks.symbols
    rw [trapped] at confined
    exact .inr ⟨.oversized, stopped, Registry.locked_error found trapped, confined⟩

theorem requested_total (returned : e.Returned) (unlogged : ∀ refusal, e ≠ .logFile refusal)
    (left : Registry) :
    step registry ≠ .error e left := by
  intro failed
  rcases requested_cases accepted sound found placed second target requests admitted binary reduced
    reducedSecond with
    ⟨_, _, _, _, _, ran | ⟨refusal, refused⟩⟩ | ⟨trap, stopped, died, _⟩
  · cases ran.symm.trans failed
  · cases refused.symm.trans failed
    exact unlogged refusal rfl
  · cases died.symm.trans failed
    cases returned

end Requested

/-- Behind a handle whose lock is open nothing but its controller has been replaced, by one with
the same allocations and the same words in all banks. -/
def Idle (registry : Registry) (handle : Handle) (c : Controller) (left : Registry) : Prop :=
  ∃ reached, left = registry.set handle ⟨reached, false⟩ ∧ c.Confined (fun _ => False) reached

theorem checkPeer_eq_ok {other : Resident} (h : v.checkPeer other = .ok ()) :
    other.handle = v.handle ∧ other.length = v.length := by
  obtain ⟨own, h⟩ := guard_eq_ok.mp h
  refine ⟨(not_not.mp own).symm, ?_⟩
  by_contra different
  rw [if_pos (Ne.symm different)] at h
  cases h

theorem idle_self {handle : Handle} (here : registry[handle]? = some ⟨c, false⟩) :
    Idle registry handle c registry :=
  ⟨c, (Registry.set_entry here).symm, .refl c⟩

section Failing
variable (accepted : settings.Accepted) (sound : c.Sound settings count)
  (found : registry[v.handle]? = some ⟨c, false⟩) (placed : v.Placed settings c.units)
  (target : ∀ r, result = some r → r.Placed settings c.units ∧ r.perUnit = v.perUnit)
  (reduced : Modulus.isSupported m = true → ∀ x ∈ v.words c, x < m)
  (returned : e.Returned) (unlogged : ∀ refusal, e ≠ .logFile refusal)

include accepted sound found placed target reduced returned unlogged

/-- A failed operation of the modular program has written nothing, whether the host refused
its modulus or the units refused its block. -/
theorem runModular_idle {form : ModularForm} {p q : Word}
    (placement : form.placement = placementOf result)
    (failed : v.runModular form m p q result registry = .error e left) :
    Idle registry v.handle c left := by
  by_cases supported : Modulus.isSupported m = true
  · by_cases checked : (v.modularBlock form m p q result).check = .ok ()
    · have valid := ModularBlock.valid_of_check checked
      have requests :=
        runModular_requests (bytes_lt accepted placed) supported (fun r same => (target r same).2)
        placement checked
      have alone : ∀ other : Resident, none = some other →
          other.Placed settings c.units ∧ other.perUnit = v.perUnit := nofun
      have total := requested_total accepted sound found placed alone target requests
        (ModularBlock.admitted_operation valid) (ModularBlock.isBinary_operation _)
        (by rw [ModularBlock.modulus_operation]; exact reduced supported) nofun
          returned unlogged left
      exact absurd failed total
    · have confined := Controller.unchecked_confined checked c
      have accepted : ¬ (!Modulus.isSupported m) = true := by simp [supported]
      simp only [runModular, if_neg accepted] at failed
      cases outcome : Controller.runBlock .modular (v.modularBlock form m p q result).encode c with
      | ok _ reached => cases (Registry.locked_ok found outcome).symm.trans failed
      | error _ reached =>
        rw [outcome] at confined
        cases (Registry.locked_error found outcome).symm.trans failed
        exact ⟨reached, by rw [returned], confined⟩
  · have refused : (!Modulus.isSupported m) = true := by simpa using supported
    simp only [runModular, if_pos refused, run_throw_bind] at failed
    cases failed
    exact idle_self found

variable (peers : ∀ other, action.peer = some other → other.handle = v.handle →
    other.Placed settings c.units ∧
  (Modulus.isSupported m = true → ∀ y ∈ other.words c, y < m))
include peers

theorem perform_total (supported : Modulus.isSupported m = true) (valid : action.Valid)
    (agree : ∀ other, action.peer = some other → other.handle = v.handle ∧ other.length = v.length)
    (left : Registry) : v.perform m action result registry ≠ .error e left := by
  intro failed
  have units : 0 < c.units := sound.count_eq.symm ▸ sound.units
  have second : ∀ other, action.peer = some other → other.Placed settings c.units ∧
      other.perUnit = v.perUnit := by
    intro other same
    have own := (peers other same (agree other same).1).1
    exact ⟨own, placed.perUnit_eq own units (agree other same).2⟩
  have requests :=
    perform_requests (bytes_lt accepted placed) supported (fun r same => (target r same).2) valid
    fun other same => ⟨(agree other same).1, (agree other same).2, (second other same).2⟩
  refine requested_total accepted sound found placed second target requests
    (action.admitted_operation supported valid) (action.isBinary_operation m) ?_ ?_ returned
      unlogged left failed
  · rw [action.modulus_operation]
    exact reduced supported
  · intro other same
    rw [action.modulus_operation]
    exact (peers other same (agree other same).1).2 supported

/-- A failed operation has written nothing. -/
theorem perform_idle (failed : v.perform m action result registry = .error e left) :
    Idle registry v.handle c left := by
  cases action with
  | combine family argument =>
    by_cases supported : Modulus.isSupported m = true
    · have total := fun agree =>
        perform_total accepted sound found placed target reduced returned unlogged peers supported
          trivial agree left
      cases argument with
      | scalar value => exact absurd failed (total nofun)
      | vector other =>
        cases checked : v.checkPeer other with
        | error e' =>
          have open' : ¬ (!Modulus.isSupported m) = true := by simp [supported]
          simp only [perform, combine, if_neg open', checked, run_lift_error] at failed
          cases failed
          exact idle_self found
        | ok _ =>
          refine absurd failed (total ?_)
          rintro _ ⟨⟩
          exact checkPeer_eq_ok checked
    · have refused : (!Modulus.isSupported m) = true := by simpa using supported
      simp only [perform, combine, if_pos refused, run_throw_bind] at failed
      cases failed
      exact idle_self found
  | _ =>
    exact runModular_idle accepted sound found placed target reduced returned unlogged rfl failed

omit target in
/-- A vector that could not be computed leaves no trace: what was reserved for it is released. -/
theorem derive_idle
    (failed : v.derive m action registry = .error e left) : Idle registry v.handle c left := by
  rcases reserve_outcomes sound found v.length with
    ⟨perUnit, address, grown, even, granted, reserved⟩ | ⟨_, refused⟩
  · let r : Resident := ⟨v.handle, address, v.length, perUnit⟩
    obtain ⟨same, kept, _⟩ := Controller.allocate_granted sound granted
    have units : grown.units = c.units := by rw [same]; rfl
    have words : ∀ w : Resident, w.words grown = w.words c := fun w => by rw [same]; rfl
    have room : r.Placed settings c.units := by
      have own : (⟨v.handle, address, perUnit * c.units, perUnit⟩ : Resident).Placed
          settings c.units :=
        Controller.placed_of_granted sound granted
      rwa [← even] at own
    have share : r.perUnit = v.perUnit :=
      placed.perUnit_eq room (sound.count_eq.symm ▸ sound.units) rfl
    have entry := Registry.getElem?_set_handle found ⟨grown, false⟩
    have run := run_bind_ok (f := fun r => r.complete (v.perform m action (some r))) reserved
    rw [derive, run] at failed
    cases outcome : v.perform m action (some r) (registry.set v.handle ⟨grown, false⟩) with
    | ok _ reached => cases (complete_of_ok outcome).symm.trans failed
    | error e' stopped =>
      cases (complete_of_error outcome).symm.trans failed
      obtain ⟨reached, rfl, confined⟩ := perform_idle accepted kept entry (units.symm ▸ placed)
        (fun w named => by
          cases named
          exact ⟨units.symm ▸ room, share⟩)
        (by rw [words]; exact reduced) returned unlogged
        (fun other argued home => by
          rw [units, words]
          exact peers other argued home) outcome
      -- The granted blocks were free and theirs is the only new record, so its release restores the
      -- allocators.
      have last := Registry.getElem?_set_handle entry ⟨reached, false⟩
      have freed :=
        Registry.locked_ok last (Controller.deallocate_allocate sound granted confined.memories)
      refine ⟨{ reached with memories := c.memories }, ?_, ?_, rfl, ?_⟩
      · refine (after_release r _).trans ((congrArg after freed).trans ?_)
        show List.set _ v.handle _ = _
        rw [List.set_set, List.set_set]
      · rw [same] at confined
        exact confined.settings
      · rw [same] at confined
        exact confined.pool
  · cases (run_bind_error refused).symm.trans failed
    exact ⟨c, by rw [returned], .refl c⟩

end Failing

/-- What can be asked of a vector: a result over it, a result of its own, or another modulus. -/
inductive Request where
  | update (action : Action)
  | derive (action : Action)
  | switchModulus (new : Word)

def Request.run (v : Resident) (m : Word) : Request → Step Unit
  | .update action => v.update m action
  | .derive action => do
    let _ ← v.derive m action
  | .switchModulus new => v.switchModulus m new

/-- The vector on the right-hand side. -/
def Request.peer : Request → Option Resident
  | .update action | .derive action => action.peer
  | .switchModulus _ => none

namespace Request
variable {request : Request}

/-- Behind a poisoned lock nothing is done at all. -/
theorem poisoned_unchanged (found : registry[v.handle]? = some ⟨c, true⟩)
    (failed : request.run v m registry = .error e left) : left = registry := by
  have performed : ∀ action, v.perform m action none registry = .error e left →
      left = registry := by
    intro action failed
    rcases perform_cases v m action none registry with ⟨_, refused, _⟩ | ⟨program, block, ran⟩
    · cases refused.symm.trans failed
      rfl
    · rw [ran, Registry.locked_poisoned found] at failed
      cases failed
      rfl
  cases request with
  | update action => exact performed action failed
  | derive action =>
    have refused : reserve v.handle v.length registry = .error .poisoned registry :=
      Registry.locked_poisoned found
    have derived : v.derive m action registry = .error .poisoned registry := run_bind_error refused
    cases (run_bind_error derived).symm.trans failed
    rfl
  | switchModulus new =>
    simp only [run, Resident.switchModulus, runModular] at failed
    split at failed
    · cases failed
      rfl
    · cases (Registry.locked_poisoned found).symm.trans failed
      rfl

theorem idle_of_failed (accepted : settings.Accepted) (sound : c.Sound settings count)
    (found : registry[v.handle]? = some ⟨c, false⟩) (placed : v.Placed settings c.units)
    (reduced : Modulus.isSupported m = true → ∀ x ∈ v.words c, x < m)
    (peers : ∀ other, request.peer = some other → other.handle = v.handle →
      other.Placed settings c.units ∧
      (Modulus.isSupported m = true → ∀ y ∈ other.words c, y < m))
    (returned : e.Returned) (unlogged : ∀ refusal, e ≠ .logFile refusal)
    (failed : request.run v m registry = .error e left) : Idle registry v.handle c left := by
  have alone : ∀ r : Resident, none = some r → r.Placed settings c.units ∧ r.perUnit = v.perUnit :=
    nofun
  cases request with
  | update action =>
    exact perform_idle accepted sound found placed alone reduced returned unlogged peers failed
  | derive action =>
    cases outcome : v.derive m action registry with
    | ok r reached => cases (run_bind_ok outcome).symm.trans failed
    | error e' reached =>
      cases (run_bind_error outcome).symm.trans failed
      exact derive_idle accepted sound found placed reduced returned unlogged peers outcome
  | switchModulus new =>
    exact runModular_idle accepted sound found placed alone reduced returned unlogged rfl failed

end Request

/-- A vector operation that fails changes nothing, except where it is only the execution log
that refuses: on every unit, of every controller, the live allocations and all words are the
same as before the call, and so are the contents of the live vectors. -/
theorem failure_changes_nothing {handle : Handle} {tenants : List Resident} {request : Request}
    (accepted : settings.Accepted)
    (visited : Visited settings handle (fun _ _ => True) registry tenants) (live : v ∈ tenants)
    (reduced : Modulus.isSupported m = true → ∀ a, answer (v.toList registry) = .ok a →
      ∀ x ∈ a, x < m)
    (peers : ∀ other, request.peer = some other → other.handle = handle → other ∈ tenants ∧
      (Modulus.isSupported m = true → ∀ b, answer (other.toList registry) = .ok b → ∀ y ∈ b, y < m))
    (failed : request.run v m registry = .error e left) (returned : e.Returned)
    (unlogged : ∀ refusal, e ≠ .logFile refusal) :
    (∀ home, home ≠ handle → left[home]? = registry[home]?) ∧
    (∃ c reached poisoned, registry[handle]? = some ⟨c, poisoned⟩ ∧
      left[handle]? = some ⟨reached, poisoned⟩ ∧
      reached.memories = c.memories ∧ reached.units = c.units ∧
      ∀ (unit : Nat) (device : Device), c.pool.devices[unit]? = some device → ∃ stopped : Device,
        reached.pool.devices[unit]? = some stopped ∧
        ∀ i, stopped.bank.wordAt i = device.bank.wordAt i) ∧
    ∀ w ∈ tenants, answer (w.toList left) = answer (w.toList registry) := by
  obtain ⟨⟨c, poisoned⟩, found, tenure⟩ := held_of_visited accepted visited
  have own := tenure.own
  cases poisoned with
  | true =>
    rw [← own v live] at found
    cases Request.poisoned_unchanged found failed
    rw [own v live] at found
    refine ⟨fun _ _ => rfl, ⟨c, c, true, found, found, rfl, rfl, ?_⟩, fun _ _ => rfl⟩
    intro unit device here
    exact ⟨device, here, fun _ => rfl⟩
  | false =>
    obtain ⟨count, sound⟩ := tenure.sound accepted
    have placed : ∀ w ∈ tenants, w.Placed settings c.units := tenure.placed accepted
    have answers : ∀ w ∈ tenants, answer (w.toList registry) = .ok (w.words c) := by
      intro w member
      rw [toList_eq_ok accepted sound (own w member ▸ found) (placed w member)]
      rfl
    have idle : Idle registry v.handle c left := by
      refine Request.idle_of_failed accepted sound (own v live ▸ found) (placed v live) ?_ ?_
        returned unlogged failed
      · intro supported
        exact reduced supported _ (answers v live)
      · intro other named home
        obtain ⟨member, below⟩ := peers other named (home.trans (own v live))
        exact ⟨placed other member, fun supported => below supported _ (answers other member)⟩
    rw [own v live] at idle
    obtain ⟨reached, rfl, confined⟩ := idle
    have entry := Registry.getElem?_set_handle found ⟨reached, false⟩
    refine ⟨?_, ⟨c, reached, false, found, entry, confined.memories, confined.units, ?_⟩, ?_⟩
    · intro home different
      exact List.getElem?_set_ne different.symm
    · intro unit device here
      obtain ⟨stopped, there, same⟩ := confined.pool.device here
      exact ⟨stopped, there, fun i => same.bank.outside i id⟩
    · intro w member
      exact tenure.read_same accepted member found entry (confined.mono fun _ => False.elim)
        (confined.words fun _ _ => id)

/-- A vector on a single unit, and its sum with a vector of another controller: the room that
was reserved for the sum is free again. -/
theorem failure_changes_nothing_narrow :
    ∃ (v : Resident) (c reached : Controller) (e : Error) (left : Registry),
      Visited Controller.narrow 0 (fun _ _ => True) [⟨c, false⟩] [v] ∧
      answer (v.toList [⟨c, false⟩]) = .ok [10] ∧
      (Request.derive (.combine .add (.vector ⟨1, 0, 1, 1⟩))).run v 97 [⟨c, false⟩] =
        .error e left ∧
      left[0]? = some ⟨reached, false⟩ ∧ reached.memories = c.memories ∧
          answer (v.toList left) = .ok [10] := by
  have ran : (do
      let c ← Controller.start Controller.narrow (fun _ => .error .notFound) []
      answer ((do
        let v ← ofValues 0 [10]
        let filled ← get
        return (filled.map SharedController.poisoned, answer (v.toList filled),
          answer ((Request.derive (.combine .add (.vector ⟨1, 0, 1, 1⟩))).run v 97 filled)) :
          Step (List Bool × Except Error (List Word) × Except Error Unit)) [⟨c, false⟩])) =
        .ok ([false], .ok [10], .error (.shapeMismatch .foreignVector)) := by decide +kernel
  obtain ⟨c, started, ran⟩ := bind_eq_ok.mp ran
  obtain ⟨_, ran⟩ := of_answer ran
  obtain ⟨v, filled, made, ran⟩ := run_bind_eq_ok.mp ran
  rw [run_get] at ran
  obtain ⟨unpoisoned, rest⟩ := Prod.mk.inj (EStateM.Result.ok.inj ran).1
  obtain ⟨read, failed⟩ := Prod.mk.inj rest
  obtain ⟨left, failed⟩ := of_answer_error failed
  obtain ⟨⟨last, _⟩, rfl, rfl⟩ := List.map_eq_singleton_iff.mp unpoisoned
  have visited : Visited Controller.narrow 0 (fun _ _ => True) [⟨last, false⟩] [v] :=
    visited_first started made
  have reduced : Modulus.isSupported 97 = true → ∀ a, answer (v.toList [⟨last, false⟩]) = .ok a →
      ∀ x ∈ a, x < 97 := by
    intro _ a same
    cases read.symm.trans same
    simp
  have apart : ∀ other, (Request.derive (.combine .add (.vector ⟨1, 0, 1, 1⟩))).peer = some other →
    other.handle = 0 →
      other ∈ [v] ∧ (Modulus.isSupported 97 = true →
        ∀ b, answer (other.toList [⟨last, false⟩]) = .ok b →
        ∀ y ∈ b, y < 97) := by
    intro other same home
    cases same
    cases home
  obtain ⟨_, ⟨_, reached, _, here, there, same, _⟩, still⟩ :=
    failure_changes_nothing Controller.narrow_accepted
    visited List.mem_cons_self reduced apart failed rfl nofun
  cases here
  exact ⟨v, last, reached, _, left, visited, read, failed, there, same,
    (still v List.mem_cons_self).trans read⟩

end Resident
end BankedRing
