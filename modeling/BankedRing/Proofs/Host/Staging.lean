import BankedRing.Proofs.Host.Clients
import BankedRing.Proofs.Host.Towers

/-! A batch that is driven step by step. The staging area is looked over once, when the batch
goes in; the launch comes later, and writes over the first operand. Vectors that were live at
the look are behind the staging area and keep their words. A vector that is created between
the look and the launch may be given the staging area itself, and loses its words. -/
namespace BankedRing
namespace Controller
variable {settings : Settings} {count bytes : Nat} {c : Controller} {family : Family}

/-- All units have a tower program and the length of its operands. -/
def Armed (family : Family) (bytes : Nat) (c : Controller) : Prop :=
  c.pool.Every (Device.Armed family bytes)

theorem copyTo_armed (values : List Word) (offset : UInt32) (distribution : Distribution) :
    Keeps (Armed family bytes) (fun _ => True) (copyTo values offset distribution) := by
  cases distribution with
  | broadcast => exact onPool_every (Pool.broadcast_every (Device.receive_bank_armed _ _))
  | scatter =>
    refine .get fun _ _ => .lift_bind (fun _ _ => ?_) fun _ _ => trivial
    exact onPool_every (Pool.scatter_every fun _ => Device.receive_bank_armed _ _)

theorem allocate_armed (size : Nat) : Keeps (Armed family bytes) (fun _ => True)
    (allocate size) := by
  intro c armed
  refine ⟨?_, fun _ _ _ => trivial⟩
  rw [Armed, pool_allocate]
  exact armed

theorem deallocate_armed (address : UInt32) : Keeps (Armed family bytes) (fun _ => True)
    (deallocate address) := by
  intro c armed
  refine ⟨?_, fun _ _ _ => trivial⟩
  rw [Armed, pool_deallocate]
  exact armed

/-- A batch that has gone in under a tower program found its staging area free, and its units
wait for the launch. -/
theorem staged {batch : Batch} {reached : Controller}
    (h : (do load (.tower family); copyIn batch : Step Unit) c = .ok () reached) :
    reached.Armed family batch.partition.operandBytes ∧ batch.partition.operandBytes < UInt32.size ∧
      ∀ memory ∈ c.memories, memory.isRangeFree 0 (2 * batch.partition.operandBytes) = true := by
  obtain ⟨_, loaded, fresh, copied⟩ := run_bind_eq_ok.mp h
  have same : loaded.memories = c.memories := by
    cases (load_eq_ok _).symm.trans fresh
    rfl
  obtain ⟨armed, word⟩ := armed_of_copyIn (every_load family fresh) copied
  refine ⟨armed, word, ?_⟩
  by_contra taken
  rw [← same] at taken
  obtain ⟨e, refused⟩ := copyIn_refused taken
  cases refused.symm.trans copied

end Controller

namespace Resident
variable {settings : Settings} {handle : Handle} {registry staged reached : Registry}
  {tenants present : List Resident} {family : Family} {bytes : Nat}

/-- Creations, reads and drops of vectors, in any order; no program is loaded and none is run. -/
inductive Quiet (handle : Handle) (registry : Registry) (tenants : List Resident) :
    Registry → List Resident → Prop
  | rest : Quiet handle registry tenants registry tenants
  | created {reached after : Registry} {present : List Resident} {v : Resident}
      (creation : Creation) :
    Quiet handle registry tenants reached present → creation.handle = handle →
    (∀ w m action, creation ≠ .derived w m action) → creation.run reached = .ok v after →
    Quiet handle registry tenants after (v :: present)
  | refused {reached after : Registry} {present : List Resident} {e : Error} (creation : Creation) :
    Quiet handle registry tenants reached present → creation.handle = handle →
    (∀ w m action, creation ≠ .derived w m action) → creation.run reached = .error e after →
    Quiet handle registry tenants after present
  | read {reached : Registry} {present : List Resident} (v : Resident) :
    Quiet handle registry tenants reached present → v.handle = handle →
    Quiet handle registry tenants (after (v.toList reached)) present
  | release {reached : Registry} {present : List Resident} {v : Resident} :
    Quiet handle registry tenants reached present → v ∈ present →
    Quiet handle registry tenants (after (v.release reached)) (present.erase v)

section Waiting
variable {v : Resident}

/-- The units behind a handle wait for the launch of a batch. -/
abbrev Waiting (handle : Handle) (family : Family) (bytes : Nat) : Registry → Prop :=
  Registry.Holds handle (Controller.Armed family bytes)

theorem release_waiting (own : v.handle = handle) (h : Waiting handle family bytes registry) :
    Waiting handle family bytes (after (v.release registry)) := by
  rw [after_release, own]
  exact h.locked (Controller.deallocate_armed v.address)

theorem reserve_waiting (length : Nat) (h : Waiting handle family bytes registry) :
    Waiting handle family bytes (after (reserve handle length registry)) := by
  have keeps : Keeps (Controller.Armed family bytes) (fun _ => True) (do
      let perUnit ← (← get).evenShare length
      let address ← Controller.allocate (perUnit * 8)
      return ⟨handle, address, length, perUnit⟩ : Controller.Step Resident) :=
    .get fun _ _ =>
      .lift_bind (fun _ _ => .bind (Controller.allocate_armed _) fun _ => .pure _) fun _ _ =>
        trivial
  exact h.locked keeps

theorem filled_waiting (length : Nat) (values : Resident → List Word) (distribution : Distribution)
    (h : Waiting handle family bytes registry) : Waiting handle family bytes (after ((do
      let v ← reserve handle length
      v.complete (Registry.locked handle (Controller.copyTo (values v) v.address distribution)) :
      Step Resident)
        registry)) := by
  have reserved := reserve_waiting length h
  refine after_bind (fun e refused outcome => ?_) fun v granted outcome => ?_
  · rwa [outcome] at reserved
  · rw [outcome] at reserved
    have copied : Waiting handle family bytes
        (after (Registry.locked handle (Controller.copyTo (values v) v.address distribution)
          granted)) :=
      reserved.locked (Controller.copyTo_armed _ _ _)
    have own := handle_of_reserve outcome
    cases filling : Registry.locked handle (Controller.copyTo (values v) v.address distribution)
      granted with
    | ok _ filled =>
      rw [filling] at copied
      rw [complete_of_ok filling]
      exact copied
    | error e stopped =>
      rw [filling] at copied
      rw [complete_of_error filling]
      exact release_waiting own copied

theorem creation_waiting (creation : Creation) (own : creation.handle = handle)
    (plain : ∀ w m action, creation ≠ .derived w m action)
    (h : Waiting handle family bytes registry) :
    Waiting handle family bytes (after (creation.run registry)) := by
  subst own
  cases creation with
  | given home values => exact filled_waiting _ (fun _ => values) .scatter h
  | reduced home values m =>
    simp only [Creation.run, ofResidues]
    split
    · exact h
    · cases values.zipIdx.find? fun pair => m ≤ pair.1 with
      | some unreduced => exact h
      | none => exact filled_waiting _ (fun _ => values) .scatter h
  | blank home length => exact filled_waiting _ (fun v => List.replicate v.perUnit 0) .broadcast h
  | derived w m action => exact absurd rfl (plain w m action)

/-- However many vectors come and go, the batch stays where it is, and the vectors have a
history. -/
theorem Quiet.waiting (accepted : settings.Accepted)
    {admits : List Resident → Controller.Command → Prop}
    (quiet : Quiet handle staged tenants reached present)
    (held : Held settings handle admits tenants staged) (h : Waiting handle family bytes staged) :
    Held settings handle admits present reached ∧ Waiting handle family bytes reached := by
  induction quiet with
  | rest => exact ⟨held, h⟩
  | created creation _ own plain ran ih =>
    have made := creation_created accepted creation own ih.1
    have still := creation_waiting creation own plain ih.2
    rw [ran] at made still
    exact ⟨made, still⟩
  | refused creation _ own plain ran ih =>
    have made := creation_created accepted creation own ih.1
    have still := creation_waiting creation own plain ih.2
    rw [ran] at made still
    exact ⟨made, still⟩
  | read v _ own ih =>
    have keeps : Keeps (Controller.Armed family bytes) (fun _ => True)
        (do (← get).copyFrom v.address v.perUnit : Controller.Step (List Word)) :=
      .get fun _ _ => .lift fun _ _ => trivial
    refine ⟨read_held own ih.1, ?_⟩
    subst own
    exact ih.2.locked keeps
  | release _ member ih =>
    obtain ⟨shared, found, tenure⟩ := ih.1
    exact ⟨release_held member ih.1, release_waiting (tenure.own _ member) ih.2⟩

end Waiting

/-- A batch that has gone in waits behind the handle, and all vectors that are live then stand
behind both of its operands. -/
theorem held_of_staging {batch : Batch} (accepted : settings.Accepted)
    (visited : Visited settings handle Spared registry tenants)
    (staging : Registry.direct handle (do Controller.load (.tower family); Controller.copyIn batch) registry =
      .ok () staged) :
    Held settings handle Spared tenants staged ∧
      Waiting handle family batch.partition.operandBytes staged ∧
      batch.partition.operandBytes < UInt32.size ∧
      ∀ v ∈ tenants, 2 * batch.partition.operandBytes ≤ v.address.toNat := by
  obtain ⟨shared, found, tenure⟩ := held_of_visited accepted visited
  obtain ⟨_, loaded, here, ran, rfl⟩ := Registry.direct_inv staging
  cases here.symm.trans found
  obtain ⟨first, poisoned⟩ := shared
  have known := (List.getElem?_eq_some_iff.mp found).1
  obtain ⟨armed, word, free⟩ := Controller.staged ran
  have keeps : Keeps (first.Confined fun _ => True) (fun _ => True)
      (do Controller.load (.tower family); Controller.copyIn batch : Controller.Step Unit) :=
    .bind (Controller.load_confined _) fun _ =>
      Controller.Command.steady_keeps (show Controller.Command.Steady (.copyIn batch) from trivial)
  have tenanted := tenure.tenanted accepted fun _ _ others v member same =>
    others v member (congrArg _ same.symm)
  obtain ⟨count, sound⟩ := tenanted.sound
  refine ⟨Held.set known (tenure.stepped (keeps.of_ok ran (.refl first)) id),
    ⟨_, List.getElem?_set_self known, armed⟩, word, ?_⟩
  intro v live
  exact Controller.behind_of_free sound (tenanted.housed v live) free

/-- A batch has gone in under a tower program, and vectors have come and gone since. The launch
leaves the words of every vector that was live when the batch went in, and of every other
vector that does not stand in the first operand of the batch. -/
theorem execute_spares_staged {batch : Batch} (accepted : settings.Accepted)
    (visited : Visited settings handle Spared registry tenants)
    (staging : Registry.direct handle (do Controller.load (.tower family); Controller.copyIn batch) registry =
      .ok () staged) (quiet : Quiet handle staged tenants reached present) :
    ∃ c poisoned, reached[handle]? = some ⟨c, poisoned⟩ ∧
      (after (Registry.direct handle Controller.execute reached))[handle]? =
        some ⟨after (Controller.execute c), poisoned || Registry.trapped (Controller.execute c)⟩ ∧
      ∀ w ∈ present, w ∈ tenants ∨ batch.partition.operandBytes ≤ w.address.toNat →
        w.words (after (Controller.execute c)) = w.words c ∧
        (Registry.trapped (Controller.execute c) = false →
          answer (w.toList (after (Registry.direct handle Controller.execute reached))) =
            answer (w.toList reached)) := by
  obtain ⟨held, waiting, word, older⟩ := held_of_staging accepted visited staging
  obtain ⟨⟨⟨c, p⟩, entry, tenure⟩, ⟨shared, here, armed⟩⟩ := quiet.waiting accepted held waiting
  cases here.symm.trans entry
  have launched := Controller.execute_armed armed word
  have launch : (after (Registry.direct handle Controller.execute reached))[handle]? =
    some ⟨after (Controller.execute c), p || Registry.trapped (Controller.execute c)⟩ :=
      Registry.direct_entry entry
  refine ⟨c, p, entry, launch, fun w live apart => ?_⟩
  have behind : batch.partition.operandBytes ≤ w.address.toNat := by
    -- The area was looked at before the younger vectors were there: only their address speaks for
    -- them.
    rcases apart with old | behind
    · have clear := older w old
      omega
    · exact behind
  have words : w.words (after (Controller.execute c)) = w.words c := by
    refine launched.words fun i own inside => ?_
    unfold Bank.Run at own inside
    omega
  refine ⟨words, fun finished => ?_⟩
  rw [finished, Bool.or_false] at launch
  exact tenure.read_same accepted live entry launch (launched.mono fun _ _ => trivial) words

section Examples
open Controller (narrow narrow_accepted)

/-- Two vectors on the two blocks of a unit. The first one is dropped, and its block is free. -/
theorem narrow_session :
    ∃ (w : Resident) (c : Controller), Visited narrow 0 Spared [⟨c, false⟩] [w] ∧
      ∀ memory ∈ c.memories, memory.isRangeFree 0 16 = true := by
  have ran : (do
      let c ← Controller.start narrow (fun _ => .error .notFound) []
      answer ((do
        let v ← ofValues 0 [10]
        let _ ← ofValues 0 [20]
        v.release
        return (← get).map fun shared : SharedController =>
          (shared.poisoned, shared.controller.memories.all fun memory => memory.isRangeFree 0 16) :
          Step (List (Bool × Bool))) [⟨c, false⟩])) = .ok [(false, true)] := by decide +kernel
  obtain ⟨c, started, ran⟩ := bind_eq_ok.mp ran
  obtain ⟨_, ran⟩ := of_answer ran
  obtain ⟨v, one, first, ran⟩ := run_bind_eq_ok.mp ran
  obtain ⟨w, two, second, ran⟩ := run_bind_eq_ok.mp ran
  obtain ⟨_, three, dropped, ran⟩ := run_bind_eq_ok.mp ran
  have fresh : Visited narrow 0 Spared ([] ++ [⟨c, false⟩]) [] := .start rfl started
  have both : Visited narrow 0 Spared two [w, v] :=
    .created (.given 0 [20]) (.created (.given 0 [10]) fresh rfl first) rfl second
  have alone : Visited narrow 0 Spared three ([w, v].erase v) := by
    have released := Visited.release both (v := v) (by simp)
    rwa [dropped] at released
  have different : w ≠ v := by
    obtain ⟨_, _, tenanted⟩ := (hosts_of_visited narrow_accepted both).holds
    rintro rfl
    exact (List.pairwise_cons.mp tenanted.apart).1 w List.mem_cons_self rfl
  rw [List.erase_cons_tail (by simpa using different), List.erase_cons_head] at alone
  obtain ⟨⟨last, poisoned⟩, rfl, state⟩ :=
    List.map_eq_singleton_iff.mp (EStateM.Result.ok.inj ran).1
  obtain ⟨unpoisoned, free⟩ := Prod.mk.inj state
  cases unpoisoned
  exact ⟨w, last, alone, List.all_eq_true.mp free⟩

/-- A batch goes in beside the vector of the session, and another vector is made, or finds no
room. The launch leaves the word of the first. -/
theorem execute_spares_staged_narrow :
    ∃ (batch : Batch) (w : Resident) (registry staged reached : Registry) (present : List Resident) (c : Controller)
      (poisoned : Bool), Visited narrow 0 Spared registry [w] ∧
      Registry.direct 0 (do Controller.load (.tower .add); Controller.copyIn batch) registry =
        .ok () staged ∧
      Quiet 0 staged [w] reached present ∧ w ∈ present ∧ reached[0]? = some ⟨c, poisoned⟩ ∧
      w.words (after (Controller.execute c)) = w.words c := by
  obtain ⟨w, last, visited, free⟩ := narrow_session
  obtain ⟨shared, here, tenure⟩ := held_of_visited narrow_accepted visited
  cases here
  obtain ⟨count, sound⟩ := tenure.sound narrow_accepted
  have deals : last.Deals [⟨97, [1]⟩] [⟨97, [1]⟩] 1 1 := by
    refine ⟨⟨by decide, rfl, by decide, by decide, by decide⟩, by decide, by decide, ?_, ?_, ?_⟩
    · exact sound.count_eq.symm ▸ sound.units
    · intro memory member
      exact (Controller.isRangeFree_iff_live (Controller.valid_of_mem sound member) (by decide)).mp
        (free memory member)
    · rw [sound.configured]
      decide
  obtain ⟨partition, _, _, _, _, ran⟩ := Controller.stage_eq_ok narrow_accepted sound deals .add
  have staging :=
    Registry.locked_ok (rfl : ([⟨last, false⟩] : Registry)[0]? = some ⟨last, false⟩) ran
  rw [Registry.locked_eq_direct rfl] at staging
  obtain ⟨reached, present, quiet, older⟩ : ∃ reached present, Quiet 0 _ [w] reached present ∧
      w ∈ present := by
    cases made : Creation.run (.given 0 [30]) (List.set [⟨last, false⟩] 0 ⟨_, false⟩) with
    | ok u filled => exact ⟨filled, _, .created (.given 0 [30]) .rest rfl nofun made, by simp⟩
    | error e refused => exact ⟨refused, _, .refused (.given 0 [30]) .rest rfl nofun made, by simp⟩
  obtain ⟨c, poisoned, entry, _, spares⟩ := execute_spares_staged narrow_accepted visited staging quiet
  exact ⟨_, w, _, _, reached, present, c, poisoned, visited, staging, quiet, older, entry,
    (spares w older (.inl List.mem_cons_self)).1⟩

/-- The look at the staging area does not cover what comes between it and the launch: a vector
that is made while a batch waits is given the area itself, and the launch changes its word. -/
theorem staging_overwritten :
    ∃ (batch : Batch) (u : Resident) (registry staged filled launched : Registry) (tenants present : List Resident),
      narrow.Accepted ∧ Visited narrow 0 Spared registry tenants ∧
      Registry.direct 0 (do Controller.load (.tower .add); Controller.copyIn batch) registry =
        .ok () staged ∧
      Quiet 0 staged tenants filled present ∧
      Registry.direct 0 Controller.execute filled = .ok () launched ∧
      u ∈ present ∧ answer (u.toList filled) = .ok [30] ∧
      answer (u.toList launched) ≠ .ok [30] := by
  have ran : (do
      let c ← Controller.start narrow (fun _ => .error .notFound) []
      let batch ← c.prepare [⟨97, [1]⟩] [⟨97, [1]⟩] 1
      answer ((do
        Registry.direct 0 (do Controller.load (.tower .add); Controller.copyIn batch)
        let u ← ofValues 0 [30]
        let filled ← get
        Registry.direct 0 Controller.execute
        let launched ← get
        return (answer (u.toList filled), answer (u.toList launched)) :
          Step (Except Error (List Word) × Except Error (List Word)))
        [⟨c, false⟩])) = .ok (.ok [30], .ok [31]) := by decide +kernel
  obtain ⟨c, started, ran⟩ := bind_eq_ok.mp ran
  obtain ⟨batch, _, ran⟩ := bind_eq_ok.mp ran
  obtain ⟨_, ran⟩ := of_answer ran
  obtain ⟨_, staged, staging, ran⟩ := run_bind_eq_ok.mp ran
  obtain ⟨u, filled, made, ran⟩ := run_bind_eq_ok.mp ran
  rw [run_get] at ran
  obtain ⟨_, launched, executed, ran⟩ := run_bind_eq_ok.mp ran
  rw [run_get] at ran
  obtain ⟨before, overwritten⟩ := Prod.mk.inj (EStateM.Result.ok.inj ran).1
  have fresh : Visited narrow 0 Spared ([] ++ [⟨c, false⟩]) [] := .start rfl started
  refine ⟨batch, u, _, staged, filled, launched, [], [u], narrow_accepted, fresh, staging,
    .created (.given 0 [30]) .rest rfl nofun made, executed, List.mem_cons_self, before, ?_⟩
  rw [overwritten]
  decide

end Examples
end Resident
end BankedRing
