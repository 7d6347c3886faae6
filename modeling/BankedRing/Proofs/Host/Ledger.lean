import Mathlib.Data.List.Nodup
import BankedRing.Proofs.Host.Failure

/-! A ledger of what every live vector should hold if it were alone, kept beside the banks. A
step that computes words for one vector writes them, or is refused with all words as they
were; the shares of the vectors are apart, so that the ledger and the banks are changed alike
and go on agreeing. -/
namespace BankedRing.Resident

/-- The live vectors, and what each of them should hold once it has been given anything. -/
structure Ledger where
  tenants : List Resident
  contents : Resident → Option (List Word)

namespace Ledger

def empty : Ledger := ⟨[], fun _ => none⟩

/-- A vector that has been reserved. -/
def grant (ledger : Ledger) (v : Resident) : Ledger :=
  ⟨v :: ledger.tenants, Function.update ledger.contents v none⟩

def drop (ledger : Ledger) (v : Resident) : Ledger := ⟨ledger.tenants.erase v, ledger.contents⟩

def put (ledger : Ledger) (v : Resident) (words : List Word) : Ledger :=
  ⟨ledger.tenants, Function.update ledger.contents v (some words)⟩

variable {ledger : Ledger} {v w : Resident}

@[simp] theorem contents_grant_self : (ledger.grant v).contents v = none := Function.update_self ..

@[simp] theorem contents_grant_other (other : w ≠ v) :
    (ledger.grant v).contents w = ledger.contents w :=
  Function.update_of_ne other ..

@[simp] theorem contents_put_self {words : List Word} :
    (ledger.put v words).contents v = some words :=
  Function.update_self ..

@[simp] theorem contents_put_other {words : List Word} (other : w ≠ v) :
    (ledger.put v words).contents w = ledger.contents w := Function.update_of_ne other ..

/-- Enters what has been computed for a vector, unless it was refused. The execution log comes
last, and what it refuses has been written. -/
def settle (ledger : Ledger) (v : Resident) (computed : Checked (List Word))
    (answer : Except Error Unit) : Ledger :=
  match computed, answer with
  | .ok words, .ok _ | .ok words, .error (.logFile _) => ledger.put v words
  | _, _ => ledger

@[simp] theorem tenants_settle (computed : Checked (List Word)) (answer : Except Error Unit) :
    (ledger.settle v computed answer).tenants = ledger.tenants := by
  unfold settle
  split <;> rfl

theorem contents_settle_other {computed : Checked (List Word)} {answer : Except Error Unit}
    (other : w ≠ v) :
    (ledger.settle v computed answer).contents w = ledger.contents w := by
  unfold settle
  split
  · exact contents_put_other other
  · exact contents_put_other other
  · rfl

def words (ledger : Ledger) (v : Resident) : List Word := (ledger.contents v).getD []

/-- The words on the right-hand side, none where there is no such operand. -/
def peerWords (ledger : Ledger) (peer : Option Resident) : List Word :=
  match peer with
  | some other => ledger.words other
  | none => []

/-- A vector of the ledger has words, all of them below the modulus. -/
def Reduced (ledger : Ledger) (m : Word) (v : Resident) : Prop :=
  v ∈ ledger.tenants ∧ ∃ words, ledger.contents v = some words ∧ ∀ x ∈ words, x < m

/-- The banks hold what the ledger says. -/
def Agrees (ledger : Ledger) (c : Controller) : Prop :=
  ∀ v ∈ ledger.tenants, ∀ words, ledger.contents v = some words → v.words c = words

end Ledger

section Agreement
variable {settings : Settings} {count : Nat} {c reached : Controller} {ledger : Ledger}
    {v w : Resident} {m : Word}

namespace Ledger

theorem agrees_of_same (agrees : ledger.Agrees c)
    (same : ∀ w ∈ ledger.tenants, w.words reached = w.words c) : ledger.Agrees reached :=
  fun w live words given => (same w live).trans (agrees w live words given)

theorem agrees_grant (agrees : ledger.Agrees c)
    (same : ∀ w ∈ ledger.tenants, w.words reached = w.words c) (v : Resident) :
    (ledger.grant v).Agrees reached := by
  intro w live words given
  by_cases fresh : w = v
  · rw [fresh, contents_grant_self] at given
    cases given
  · rw [contents_grant_other fresh] at given
    rcases List.mem_cons.mp live with rfl | live
    · exact absurd rfl fresh
    · exact agrees_of_same agrees same w live words given

theorem agrees_drop (agrees : ledger.Agrees c)
    (same : ∀ w ∈ ledger.tenants, w.words reached = w.words c) (v : Resident) :
    (ledger.drop v).Agrees reached :=
  fun w live words given => agrees_of_same agrees same w (List.mem_of_mem_erase live) words given

theorem agrees_put (agrees : ledger.Agrees c)
    (same : ∀ w ∈ ledger.tenants, w ≠ v → w.words reached = w.words c) :
    (ledger.put v (v.words reached)).Agrees reached := by
  intro w live words given
  by_cases own : w = v
  · rw [own, contents_put_self] at given
    rw [own]
    exact Option.some.inj given
  · rw [contents_put_other own] at given
    exact (same w live own).trans (agrees w live words given)

theorem Reduced.words (reduced : ledger.Reduced m v) (agrees : ledger.Agrees c) :
    ledger.words v = v.words c ∧ ∀ x ∈ v.words c, x < m := by
  obtain ⟨live, words, given, below⟩ := reduced
  have same := agrees v live words given
  rw [Ledger.words, given, same]
  exact ⟨rfl, below⟩

end Ledger

/-- What is written over the share of one live vector is its new contents, and leaves the others. -/
theorem agrees_of_wrote (tenanted : Controller.Tenanted settings ledger.tenants c)
    (agrees : ledger.Agrees c) (live : v ∈ ledger.tenants) {row : Nat → List Word}
    (sizes : ∀ i, i < c.units → (row i).length = v.perUnit)
    (wrote : c.Wrote v.address.toNat row reached) :
    (ledger.put v ((List.range c.units).flatMap row)).Agrees reached ∧
      ∀ w ∈ ledger.tenants, w ≠ v → w.words reached = w.words c := by
  have others : ∀ w ∈ ledger.tenants, w ≠ v → w.words reached = w.words c := by
    intro w other different
    obtain ⟨count, sound⟩ := tenanted.sound
    -- Live vectors at one address are one vector, and records at different addresses share no
    -- block.
    have addresses : w.address ≠ v.address := fun same =>
      different (List.inj_on_of_nodup_map (List.pairwise_map.mpr tenanted.apart) other live same)
    exact wrote.words_of_disjoint sizes
      (Controller.apart_of_housed sound (tenanted.housed w other)
        (tenanted.housed v live) addresses)
  have own : v.words reached = (List.range c.units).flatMap row := wrote.words sizes
  exact ⟨own ▸ Ledger.agrees_put agrees others, others⟩

end Agreement

/-- How a turn ends that computes words for a vector: they are written, and the log may refuse
afterwards, or the turn is refused and all words stay. -/
inductive Settled (registry : Registry) (handle : Handle) (c : Controller) (v : Resident)
    (computed : Checked (List Word)) : EStateM.Result Error Registry Unit → Prop
  | written {row : Nat → List Word} {reached : Controller} :
    computed = .ok ((List.range c.units).flatMap row) →
    (∀ i, i < c.units → (row i).length = v.perUnit) →
    c.Wrote v.address.toNat row reached →
    Settled registry handle c v computed (.ok () (registry.set handle ⟨reached, false⟩))
  | unlogged {row : Nat → List Word} {reached : Controller} (refusal : FileRefusal) :
    computed = .ok ((List.range c.units).flatMap row) →
    (∀ i, i < c.units → (row i).length = v.perUnit) →
    c.Wrote v.address.toNat row reached →
    Settled registry handle c v computed
      (.error (.logFile refusal) (registry.set handle ⟨reached, false⟩))
  | refused {e : Error} {reached : Controller} {q : Bool} : (∀ refusal, e ≠ .logFile refusal) →
    c.Confined (fun _ => False) reached →
    Settled registry handle c v computed (.error e (registry.set handle ⟨reached, q⟩))

section Settling
variable {settings : Settings} {count : Nat} {registry : Registry} {handle : Handle}
    {c : Controller} {p : Bool}
  {ledger : Ledger} {v : Resident} {computed : Checked (List Word)}
  {outcome : EStateM.Result Error Registry Unit}

theorem Settled.agrees (settled : Settled registry handle c v computed outcome)
    (found : registry[handle]? = some ⟨c, p⟩)
    (tenanted : Controller.Tenanted settings ledger.tenants c) (agrees : ledger.Agrees c)
    (live : v ∈ ledger.tenants) :
    ∃ reached q, (after outcome)[handle]? = some ⟨reached, q⟩ ∧
      (ledger.settle v computed (answer outcome)).Agrees reached ∧
      ∀ w ∈ ledger.tenants, w ≠ v → w.words reached = w.words c := by
  have known := (List.getElem?_eq_some_iff.mp found).1
  cases settled with
  | written done sizes wrote =>
    obtain ⟨agreed, others⟩ := agrees_of_wrote tenanted agrees live sizes wrote
    exact ⟨_, false, List.getElem?_set_self known, done ▸ agreed, others⟩
  | unlogged refusal done sizes wrote =>
    obtain ⟨agreed, others⟩ := agrees_of_wrote tenanted agrees live sizes wrote
    exact ⟨_, false, List.getElem?_set_self known, done ▸ agreed, others⟩
  | @refused e reached q unlogged confined =>
    have same : ∀ w ∈ ledger.tenants, w.words reached = w.words c :=
      fun w _ => confined.words fun _ _ => id
    refine ⟨reached, q, List.getElem?_set_self known, ?_, fun w other _ => same w other⟩
    have kept : ledger.settle v computed (.error e) = ledger := by
      unfold Ledger.settle
      split
      · cases ‹Except.error e = Except.ok _›
      · exact absurd (Except.error.inj ‹_›) (unlogged _)
      · rfl
    exact kept.symm ▸ Ledger.agrees_of_same agrees same

theorem settled_poisoned {step : Controller.Step Unit}
    (found : registry[handle]? = some ⟨c, true⟩) :
    Settled registry handle c v computed (Registry.locked handle step registry) := by
  have refused : Settled registry handle c v computed
      (.error .poisoned (registry.set handle ⟨c, true⟩)) :=
    .refused nofun (.refl c)
  rwa [Registry.set_entry found, ← Registry.locked_poisoned found] at refused

theorem settled_copy {values : List Word} {distribution : Distribution} {row : Nat → List Word}
    (found : registry[handle]? = some ⟨c, p⟩)
    (done : computed = .ok ((List.range c.units).flatMap row))
    (sizes : ∀ i, i < c.units → (row i).length = v.perUnit)
    (copied : Controller.copyTo values v.address distribution c = .ok ()
      (c.put v.address.toNat row)) :
    Settled registry handle c v computed
      (Registry.locked handle (Controller.copyTo values v.address distribution) registry) := by
  cases p with
  | true => exact settled_poisoned found
  | false =>
    rw [Registry.locked_ok found copied]
    exact .written done sizes (c.wrote_put v.address.toNat row)

/-- An operation on live vectors, over itself or into another vector. -/
theorem settled_requested {peer result : Option Resident} {operation : Operation} {step : Step Unit}
    (accepted : settings.Accepted) (sound : c.Sound settings count)
    (found : registry[v.handle]? = some ⟨c, p⟩) (placed : v.Placed settings c.units)
    (second : ∀ other, peer = some other → other.Placed settings c.units ∧
      other.perUnit = v.perUnit)
    (goal : ∀ r, result = some r → r.Placed settings c.units ∧ r.perUnit = v.perUnit)
    (requests : v.Requests step (v.region peer result) operation)
    (admitted : operation.Admitted) (binary : operation.isBinary = peer.isSome)
    (reduced : ∀ x ∈ v.words c, x < operation.modulus)
    (reducedSecond : ∀ other, peer = some other → ∀ y ∈ other.words c, y < operation.modulus) :
    Settled registry v.handle c (result.getD v)
      (operation.kernel (v.words c) (Resident.peerWords peer c))
      (step registry) := by
  cases p with
  | true =>
    obtain ⟨program, block, _, behind⟩ := requests
    rw [behind]
    exact settled_poisoned found
  | false =>
  rcases requested_cases accepted sound found placed second goal requests admitted binary reduced
    reducedSecond with
    ⟨out, reached, computed, length, wrote, ran⟩ | ⟨trap, stopped, died, confined⟩
  · have even : out.length = v.perUnit * c.units := length.trans placed.even
    have share : (result.getD v).perUnit = v.perUnit := by
      cases result with
      | none => rfl
      | some r => exact (goal r rfl).2
    have sizes : ∀ i, i < c.units →
        (slice (i * v.perUnit) v.perUnit out).length = (result.getD v).perUnit :=
      fun i inside => (length_slice_even even inside).trans share.symm
    rw [← flatMap_slices even] at computed
    rcases ran with ran | ⟨refusal, refused⟩
    · rw [ran]
      exact .written computed sizes wrote
    · rw [refused]
      exact .unlogged refusal computed sizes wrote
  · rw [died]
    exact .refused nofun confined

end Settling

end BankedRing.Resident
