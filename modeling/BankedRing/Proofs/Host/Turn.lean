import BankedRing.Polynomial.Arithmetic
import BankedRing.Proofs.Host.Ledger

/-! A client's turn with the lock. A client lets go of the lock between its turns, also halfway
through the creation of a vector. One turn, whether it succeeds or fails, keeps the ledger and
the banks in agreement and changes no vector but its target: an operation writes inside the
target's share, and a run over towers stages in front of all shares. -/
namespace BankedRing.Resident

/-- What a client does with the lock in hand, with the type of its answer. -/
inductive Turn : Type → Type
  | reserve (length : Nat) : Turn Resident
  | fill (v : Resident) (values : List Word) : Turn Unit
  | clear (v : Resident) : Turn Unit
  | perform (v : Resident) (m : Word) (action : Action) (result : Option Resident) : Turn Unit
  | switchModulus (v : Resident) (m new : Word) : Turn Unit
  | read (v : Resident) : Turn (List Word)
  | release (v : Resident) : Turn Unit
  | towers (a b : List Tower) (program : Program) (split : Nat) : Turn (List Tower)

namespace Turn
variable {α : Type}

def run (handle : Handle) : Turn α → Step α
  | .reserve length => Resident.reserve handle length
  | .fill v values => Registry.locked handle (Controller.copyTo values v.address .scatter)
  | .clear v =>
    Registry.locked handle (Controller.copyTo (List.replicate v.perUnit 0) v.address .broadcast)
  | .perform v m action result => v.perform m action result
  | .switchModulus v m new => v.switchModulus m new
  | .read v => v.toList
  | .release v => v.release
  | .towers a b program split => Registry.locked handle (Controller.runTowers a b program split)

/-- Turns on live vectors, with operations that are asked for properly: supported moduli, valid
parameters, operands of one length with residues below the modulus. -/
def Proper (ledger : Ledger) : Turn α → Prop
  | .reserve _ | .towers .. => True
  | .fill v values => v ∈ ledger.tenants ∧ values.length = v.length
  | .clear v | .read v | .release v => v ∈ ledger.tenants
  | .perform v m action result =>
    Modulus.isSupported m = true ∧ action.Valid ∧ ledger.Reduced m v ∧
      (∀ other, action.peer = some other → other.length = v.length ∧ ledger.Reduced m other) ∧
      ∀ r, result = some r → r ∈ ledger.tenants ∧ r.length = v.length
  | .switchModulus v m new =>
    Modulus.isSupported m = true ∧ Modulus.isSupported new = true ∧ ledger.Reduced m v

/-- The vector that a turn is to change. -/
def target : Turn α → Option Resident
  | .fill v _ | .clear v | .switchModulus v _ _ | .release v => some v
  | .perform v _ _ result => some (result.getD v)
  | .reserve _ | .read _ | .towers .. => none

/-- The ledger after a turn and its answer. -/
def record (ledger : Ledger) : Turn α → Except Error α → Ledger
  | .reserve _, .ok v => ledger.grant v
  | .reserve _, .error _ => ledger
  | .fill v values, answer => ledger.settle v (.ok values) answer
  | .clear v, answer => ledger.settle v (.ok (List.replicate v.length 0)) answer
  | .perform v m action result, answer =>
    ledger.settle (result.getD v)
      ((action.operation m).kernel (ledger.words v) (ledger.peerWords action.peer)) answer
  | .switchModulus v m new, answer =>
    ledger.settle v ((Operation.switchModulus m new).kernel (ledger.words v) []) answer
  | .release v, _ => ledger.drop v
  | .read _, _ => ledger
  | .towers .., _ => ledger

/-- The creation of a vector takes two turns, and a third one if it fails. -/
theorem ofValues_eq (handle : Handle) (values : List Word) : ofValues handle values = (do
    let v ← (Turn.reserve values.length).run handle
    v.complete ((Turn.fill v values).run handle)) := rfl

theorem zeros_eq (handle : Handle) (length : Nat) : zeros handle length = (do
    let v ← (Turn.reserve length).run handle
    v.complete ((Turn.clear v).run handle)) := rfl

theorem derive_eq (v : Resident) (m : Word) (action : Action) : v.derive m action = (do
    let r ← (Turn.reserve v.length).run v.handle
    r.complete ((Turn.perform v m action (some r)).run v.handle)) := rfl

theorem onPool_eq (family : Family) (x y : TowerPolynomial) (offload : Offload)
    (registry : Registry) :
    ∃ split, TowerPolynomial.onPool family x y offload registry =
      (Turn.towers x.towers y.towers (.tower family) split).run offload.handle registry := by
  cases found : registry[offload.handle]? with
  | none =>
    exact ⟨0, by simp only [TowerPolynomial.onPool, run, Registry.locked, Registry.direct, found]⟩
  | some shared =>
    refine ⟨offload.split.getD
      (Partition.defaultSplit shared.controller.units x.towers.length x.parameters.ringDimension),
      ?_⟩
    simp only [TowerPolynomial.onPool, run, Registry.locked, Registry.direct, found, run_get]

end Turn

section Turns
variable {settings : Settings} {registry : Registry} {handle : Handle} {c : Controller} {p : Bool}
    {ledger : Ledger}
  {v : Resident} {computed : Checked (List Word)} {α : Type}

/-- After a turn the banks and the ledger agree again, and the words of all vectors but the
turn's target are the same as before. -/
def Turn.Isolated (turn : Turn α) (handle : Handle) (registry : Registry) (ledger : Ledger)
    (c : Controller) : Prop :=
  ∃ reached q, (after (turn.run handle registry))[handle]? = some ⟨reached, q⟩ ∧
    (turn.record ledger (answer (turn.run handle registry))).Agrees reached ∧
    ∀ w ∈ ledger.tenants, turn.target ≠ some w → w.words reached = w.words c

namespace Turn
variable (accepted : settings.Accepted)
  (tenure : Tenure settings handle (fun _ _ => False) ⟨c, p⟩ ledger.tenants)
  (found : registry[handle]? = some ⟨c, p⟩) (agrees : ledger.Agrees c)
include accepted tenure found agrees

theorem isolated_of_settled {turn : Turn Unit} (live : v ∈ ledger.tenants)
    (aims : turn.target = some v)
    (enters : ∀ answer, turn.record ledger answer = ledger.settle v computed answer)
    (settled : Settled registry handle c v computed (turn.run handle registry)) :
    turn.Isolated handle registry ledger c := by
  have tenanted := tenure.tenanted accepted fun _ _ none => none.elim
  obtain ⟨reached, q, entry, agreed, others⟩ := settled.agrees found tenanted agrees live
  refine ⟨reached, q, entry, by rwa [enters], fun w other apart => others w other ?_⟩
  rintro rfl
  exact apart aims

theorem fill_isolated {values : List Word} (live : v ∈ ledger.tenants)
    (length : values.length = v.length) :
    (Turn.fill v values).Isolated handle registry ledger c := by
  obtain ⟨count, sound⟩ := tenure.sound accepted
  have placed := tenure.placed accepted v live
  have even : values.length = v.perUnit * c.units := length.trans placed.even
  refine isolated_of_settled accepted tenure found agrees live rfl (fun _ => rfl) ?_
  refine settled_copy found (congrArg Except.ok (flatMap_slices even).symm)
    (fun i inside => length_slice_even even inside) ?_
  exact Controller.copyTo_scatter_eq_ok accepted sound placed.aligned placed.inside
    (sound.count_eq ▸ even)

theorem clear_isolated (live : v ∈ ledger.tenants) :
    (Turn.clear v).Isolated handle registry ledger c := by
  obtain ⟨count, sound⟩ := tenure.sound accepted
  have placed := tenure.placed accepted v live
  have zeros : (List.range c.units).flatMap (fun _ => List.replicate v.perUnit (0 : Word)) =
      List.replicate v.length 0 := by
    refine List.eq_replicate_iff.mpr ⟨?_, fun x member => ?_⟩
    · rw [length_flatMap fun _ _ => List.length_replicate, List.length_range,
        placed.even, Nat.mul_comm]
    · obtain ⟨_, _, member⟩ := List.mem_flatMap.mp member
      exact List.eq_of_mem_replicate member
  refine isolated_of_settled accepted tenure found agrees live rfl (fun _ => rfl) ?_
  refine settled_copy found (congrArg Except.ok zeros.symm) (fun _ _ => List.length_replicate) ?_
  exact Controller.copyTo_broadcast_eq_ok accepted sound placed.aligned placed.inside
    List.length_replicate

theorem perform_isolated {m : Word} {action : Action} {result : Option Resident}
    (proper : (Turn.perform v m action result).Proper ledger) :
    (Turn.perform v m action result).Isolated handle registry ledger c := by
  obtain ⟨supported, valid, reduced, peers, results⟩ := proper
  obtain ⟨count, sound⟩ := tenure.sound accepted
  have units : 0 < c.units := sound.count_eq.symm ▸ sound.units
  have own := tenure.own
  have placed : ∀ w ∈ ledger.tenants, w.Placed settings c.units := tenure.placed accepted
  have first := placed v reduced.1
  obtain ⟨words, below⟩ := reduced.words agrees
  have second : ∀ other, action.peer = some other → other.Placed settings c.units ∧
      other.perUnit = v.perUnit := by
    intro other argued
    obtain ⟨length, live, _⟩ := peers other argued
    exact ⟨placed other live, first.perUnit_eq (placed other live) units length⟩
  have goal : ∀ r, result = some r → r.Placed settings c.units ∧ r.perUnit = v.perUnit := by
    intro r named
    obtain ⟨live, length⟩ := results r named
    exact ⟨placed r live, first.perUnit_eq (placed r live) units length⟩
  have live : result.getD v ∈ ledger.tenants := by
    cases result with
    | none => exact reduced.1
    | some r => exact (results r rfl).1
  have seconds : ledger.peerWords action.peer = Resident.peerWords action.peer c := by
    cases argued : action.peer with
    | none => rfl
    | some other => exact ((peers other argued).2.words agrees).1
  have requests :=
    perform_requests (bytes_lt accepted first) supported (fun r named => (goal r named).2) valid
    fun other argued =>
      ⟨(own other (peers other argued).2.1).trans (own v reduced.1).symm, (peers other argued).1,
      (second other argued).2⟩
  have home := own v reduced.1
  subst home
  refine isolated_of_settled accepted tenure found agrees live rfl (fun _ => rfl) ?_
  rw [words, seconds]
  refine settled_requested accepted sound found first second goal requests
    (action.admitted_operation supported valid) (action.isBinary_operation m) ?_ ?_
  · rw [action.modulus_operation]
    exact below
  · intro other argued
    rw [action.modulus_operation]
    exact ((peers other argued).2.words agrees).2

theorem switchModulus_isolated {m new : Word}
    (proper : (Turn.switchModulus v m new).Proper ledger) :
    (Turn.switchModulus v m new).Isolated handle registry ledger c := by
  obtain ⟨supported, valid, reduced⟩ := proper
  obtain ⟨count, sound⟩ := tenure.sound accepted
  have placed := tenure.placed accepted v reduced.1
  obtain ⟨words, below⟩ := reduced.words agrees
  have alone : ∀ other : Resident, none = some other →
      other.Placed settings c.units ∧ other.perUnit = v.perUnit := nofun
  have home := tenure.own v reduced.1
  subst home
  refine isolated_of_settled accepted tenure found agrees reduced.1 rfl (fun _ => rfl) ?_
  rw [words]
  exact settled_requested accepted sound found placed alone alone
    (switchModulus_requests (bytes_lt accepted placed) supported valid) ⟨supported,
      valid⟩ rfl below nofun

theorem reserve_isolated (length : Nat) :
    (Turn.reserve length).Isolated handle registry ledger c := by
  have known := (List.getElem?_eq_some_iff.mp found).1
  unfold Isolated
  simp only [run]
  cases p with
  | true =>
    have refused : Resident.reserve handle length registry = .error .poisoned registry :=
      Registry.locked_poisoned found
    rw [refused]
    exact ⟨c, true, found, agrees, fun _ _ _ => rfl⟩
  | false =>
    obtain ⟨count, sound⟩ := tenure.sound accepted
    rcases reserve_outcomes sound found length with ⟨perUnit, address, grown, _, granted,
      ran⟩ | ⟨e, refused⟩
    · have same : ∀ w : Resident, w.words grown = w.words c := by
        intro w
        rw [(Controller.allocate_granted sound granted).1]
        rfl
      rw [ran]
      exact ⟨grown, false, List.getElem?_set_self known,
        Ledger.agrees_grant agrees (fun w _ => same w) _,
        fun w _ _ => same w⟩
    · rw [refused]
      exact ⟨c, e.isTrap, List.getElem?_set_self known, agrees, fun _ _ _ => rfl⟩

theorem read_isolated (live : v ∈ ledger.tenants) :
    (Turn.read v).Isolated handle registry ledger c := by
  have home := tenure.own v live
  subst home
  have unchanged : after (v.toList registry) = registry := by
    cases p with
    | true => exact congrArg after (Registry.locked_poisoned found)
    | false =>
      obtain ⟨count, sound⟩ := tenure.sound accepted
      exact congrArg after (toList_eq_ok accepted sound found (tenure.placed accepted v live))
  exact ⟨c, p, (congrArg (·[v.handle]?) unchanged).trans found, agrees, fun _ _ _ => rfl⟩

omit accepted in
theorem release_isolated (live : v ∈ ledger.tenants) :
    (Turn.release v).Isolated handle registry ledger c := by
  have home := tenure.own v live
  subst home
  unfold Isolated
  simp only [run, after_release]
  cases p with
  | true =>
    rw [Registry.locked_poisoned found]
    exact ⟨c, true, found, Ledger.agrees_drop agrees (fun _ _ => rfl) v, fun _ _ _ => rfl⟩
  | false =>
    have same : ∀ w : Resident, w.words (after (Controller.deallocate v.address c)) =
        w.words c := by
      intro w
      rw [words, Controller.words, Controller.pool_deallocate]
      rfl
    exact ⟨_, _, Registry.locked_entry found, Ledger.agrees_drop agrees (fun w _ => same w) v,
      fun w _ _ => same w⟩

theorem towers_isolated (a b : List Tower) (program : Program) (split : Nat) :
    (Turn.towers a b program split).Isolated handle registry ledger c := by
  unfold Isolated
  simp only [run]
  cases p with
  | true =>
    rw [Registry.locked_poisoned found]
    exact ⟨c, true, found, agrees, fun _ _ _ => rfl⟩
  | false =>
    have tenanted := tenure.tenanted accepted fun _ _ none => none.elim
    obtain ⟨count, sound⟩ := tenanted.sound
    obtain ⟨share, free, confined⟩ := Controller.runTowers_confined a b program split c
    have same : ∀ w ∈ ledger.tenants,
        w.words (after (Controller.runTowers a b program split c)) = w.words c := by
      intro w live
      -- A batch goes in only where no record meets its staging area, and every share lies in a
      -- record.
      refine confined.words fun i inside staged => ?_
      have behind := Controller.behind_of_free sound (tenanted.housed w live) free
      unfold Bank.Run at inside staged
      omega
    exact ⟨_, _, Registry.locked_entry found, Ledger.agrees_of_same agrees same,
      fun w live _ => same w live⟩

/-- One turn of one client, whatever becomes of it. -/
theorem isolated {turn : Turn α} (proper : turn.Proper ledger) :
    turn.Isolated handle registry ledger c := by
  cases turn with
  | reserve length => exact reserve_isolated accepted tenure found agrees length
  | fill v values => exact fill_isolated accepted tenure found agrees proper.1 proper.2
  | clear v => exact clear_isolated accepted tenure found agrees proper
  | perform v m action result => exact perform_isolated accepted tenure found agrees proper
  | switchModulus v m new => exact switchModulus_isolated accepted tenure found agrees proper
  | read v => exact read_isolated accepted tenure found agrees proper
  | release v => exact release_isolated tenure found agrees proper
  | towers a b program split => exact towers_isolated accepted tenure found agrees a b program split

end Turn

end Turns

namespace Turn
variable {settings : Settings} {registry : Registry} {handle : Handle} {c : Controller}
    {ledger : Ledger}
  {v w : Resident} {α : Type}

/-- A turn moves the controller along, with the vectors that are live after it. -/
theorem held {turn : Turn α} (accepted : settings.Accepted)
    (held : Held settings handle (fun _ _ => False) ledger.tenants registry)
    (proper : turn.Proper ledger) :
    Held settings handle (fun _ _ => False)
      (turn.record ledger (answer (turn.run handle registry))).tenants
      (after (turn.run handle registry)) := by
  have own : ∀ v ∈ ledger.tenants, v.handle = handle := by
    obtain ⟨shared, found, tenure⟩ := held
    exact tenure.own
  have copies : ∀ (v : Resident) values distribution,
      Held settings handle (fun _ _ => False) ledger.tenants
        (after (Registry.locked handle (Controller.copyTo values v.address distribution)
          registry)) := by
    intro v values distribution
    have steady : Controller.Command.Steady (.copyTo values v.address distribution) := trivial
    exact held.locked_steady steady.confined
  cases turn with
  | reserve length =>
    have created := reserve_created accepted held length
    simp only [run]
    cases outcome : Resident.reserve handle length registry with
    | ok v reached => rwa [outcome] at created
    | error e reached => rwa [outcome] at created
  | fill v values =>
    simp only [record, Ledger.tenants_settle]
    exact copies v values .scatter
  | clear v =>
    simp only [record, Ledger.tenants_settle]
    exact copies v _ .broadcast
  | perform v m action result =>
    simp only [record, Ledger.tenants_settle]
    exact perform_held (own v proper.2.2.1.1) held m action result
  | switchModulus v m new =>
    simp only [record, Ledger.tenants_settle]
    exact switchModulus_held (own v proper.2.2.1) held m new
  | read v => exact read_held (own v proper) held
  | release v => exact release_held proper held
  | towers a b program split =>
    refine held.locked_steady fun c => ?_
    obtain ⟨share, _, confined⟩ := Controller.runTowers_confined a b program split c
    exact confined.mono fun _ _ => trivial

/-- In the ledger, too, a turn changes its target only. -/
theorem record_other {turn : Turn α} {answer : Except Error α} (live : w ∈ ledger.tenants)
    (fresh : (turn.record ledger answer).tenants.Pairwise fun v w => v.address ≠ w.address)
    (other : turn.target ≠ some w) :
    w ∈ (turn.record ledger answer).tenants ∧
    (turn.record ledger answer).contents w = ledger.contents w := by
  cases turn with
  | reserve length =>
    cases answer with
    | error e => exact ⟨live, rfl⟩
    | ok v =>
      have different : w ≠ v := by
        rintro rfl
        exact (List.pairwise_cons.mp fresh).1 w live rfl
      exact ⟨List.mem_cons_of_mem v live, Ledger.contents_grant_other different⟩
  | release v =>
    exact ⟨(List.mem_erase_of_ne fun same => other (congrArg some same.symm)).mpr live, rfl⟩
  | read v => exact ⟨live, rfl⟩
  | towers a b program split => exact ⟨live, rfl⟩
  | _ => exact ⟨by rwa [record, Ledger.tenants_settle],
      Ledger.contents_settle_other fun same => other (congrArg some same.symm)⟩

end Turn

end BankedRing.Resident
