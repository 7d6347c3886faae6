import BankedRing.Proofs.Host.Tenure

/-! Clients of one controller. A client creates, updates and drops vectors behind the lock,
the owner gives direct commands, and anything may happen elsewhere; as long as nobody takes
a live vector's memory away, the live vectors stay housed. In every such state an operation
on a vector computes what the host computes on its words. -/
namespace BankedRing.Resident

/-- A registry with a sound controller behind the handle, and vectors that are housed there. -/
structure Hosts (settings : Settings) (handle : Handle) (tenants : List Resident)
    (registry : Registry) : Prop where
  holds : Registry.Holds handle (Controller.Tenanted settings tenants) registry
  own : ∀ v ∈ tenants, v.handle = handle

section Keeping
variable {settings : Settings} {handle : Handle} {registry : Registry} {tenants : List Resident}

/-- Commands that take no live vector's memory away. -/
def Spared (tenants : List Resident) (command : Controller.Command) : Prop :=
  ∀ v ∈ tenants, command ≠ .deallocate v.address

/-- Where no live vector's memory is taken away, the live vectors are housed. -/
theorem hosts_of_visited (accepted : settings.Accepted)
    (visited : Visited settings handle Spared registry tenants) :
    Hosts settings handle tenants registry := by
  obtain ⟨shared, found, tenure⟩ := held_of_visited accepted visited
  refine ⟨⟨shared, found, tenure.tenanted accepted fun _ _ others v member same => ?_⟩, tenure.own⟩
  exact others v member (congrArg _ same.symm)

end Keeping

section Operating
variable {settings : Settings} {count : Nat} {c : Controller} {registry : Registry}
    {v : Resident} {m : Word}
  {action : Action} (accepted : settings.Accepted) (recorded : settings.shape.Recorded)
  (sound : c.Sound settings count) (found : registry[v.handle]? = some ⟨c, false⟩)
  (logging : c.Logging)
  (housed : v.Housed c.units c.records) (supported : Modulus.isSupported m = true)
  (reduced : ∀ x ∈ v.words c, x < m)
include accepted recorded sound found logging housed supported reduced

/-- What a peer has to be for an operation on a vector. -/
def Peers (v : Resident) (m : Word) (action : Action) (c : Controller) : Prop :=
  ∀ other, action.peer = some other → other.handle = v.handle ∧ other.length = v.length ∧
    other.Housed c.units c.records ∧ ∀ y ∈ other.words c, y < m

theorem perform_eq_ok (valid : action.Valid) (peers : v.Peers m action c) (result : Option Resident)
    (target : ∀ r, result = some r → r.Housed c.units c.records ∧ r.perUnit = v.perUnit) :
    ∃ out after, (action.operation m).kernel (v.words c) (peerWords action.peer c) = .ok out ∧
      v.perform m action result registry = .ok () (registry.set v.handle ⟨after, false⟩) ∧
      after.Sound settings count ∧ after.units = c.units ∧ after.records = c.records ∧
      after.Logging ∧
      (result.getD v).words after = out ∧
      ∀ w : Resident, w.Housed c.units c.records → w.address ≠ (result.getD v).address →
        w.words after = w.words c := by
  have placed := fun {w : Resident} => Controller.placed_of_housed (v := w) sound
  have units : 0 < c.units := sound.count_eq.symm ▸ sound.units
  have perUnit : ∀ other, action.peer = some other → other.perUnit = v.perUnit := fun other same =>
    (placed housed).perUnit_eq (placed (peers other same).2.2.1) units (peers other same).2.1
  refine requested_eq_ok accepted sound recorded found logging housed
    (fun other same => ⟨(peers other same).2.2.1, perUnit other same⟩) target
    (perform_requests (bytes_lt accepted (placed housed)) supported
      (fun r same => (target r same).2) valid
      fun other same => ⟨(peers other same).1, (peers other same).2.1, perUnit other same⟩)
    (action.admitted_operation supported valid) (action.isBinary_operation m) ?_ fun other same =>
      ?_
  · rw [action.modulus_operation]
    exact reduced
  · rw [action.modulus_operation]
    exact (peers other same).2.2.2

theorem update_eq_ok (valid : action.Valid) (peers : v.Peers m action c) :
    ∃ out left, (action.operation m).kernel (v.words c) (peerWords action.peer c) = .ok out ∧
      v.update m action registry = .ok () left ∧ answer (v.toList left) = .ok out := by
  obtain ⟨out, after, computed, ran, kept, units, records, _, words, _⟩ :=
    perform_eq_ok accepted recorded sound found logging housed supported reduced
      valid peers none nofun
  refine ⟨out, _, computed, ran, ?_⟩
  rw [toList_eq_ok accepted kept (Registry.getElem?_set_handle found _)
        (Controller.placed_of_housed kept (units ▸ records ▸ housed))]
  exact congrArg Except.ok words

/-- A new vector gets the result, unless there is no memory for it. -/
theorem derive_cases (valid : action.Valid) (peers : v.Peers m action c) {out : List Word}
    (computed : (action.operation m).kernel (v.words c) (peerWords action.peer c) = .ok out) :
    (∃ unit bytes left, v.derive m action registry = .error (.memoryExhausted unit bytes) left) ∨
      ∃ result left, v.derive m action registry = .ok result left ∧
        answer (result.toList left) = .ok out ∧
        ∀ w : Resident, w.handle = v.handle → w.Housed c.units c.records →
          answer (w.toList left) = .ok (w.words c) := by
  rcases reserve_cases sound found housed.even with
    ⟨address, grown, reserved, same, kept, fresh, blocks, room, members⟩ | ⟨_, refused, exhausted⟩
  · refine .inr ?_
    let result : Resident := ⟨v.handle, address, v.length, v.perUnit⟩
    have units : grown.units = c.units := by rw [same]; rfl
    have words : ∀ w : Resident, w.words grown = w.words c := fun w => by rw [same]; rfl
    have still : ∀ {w : Resident}, w.Housed c.units c.records →
        w.Housed grown.units grown.records := fun own => by
      rw [units]
      exact own.mono fun _ owned => (members _).mpr (.inr owned)
    have placed : result.Housed grown.units grown.records :=
      ⟨by rw [units]; exact housed.even, blocks, (members _).mpr (.inl rfl), room⟩
    have peers : v.Peers m action grown := by
      intro other argued
      obtain ⟨handle, length, own, below⟩ := peers other argued
      exact ⟨handle, length, still own, by rw [words]; exact below⟩
    have seconds : peerWords action.peer grown = peerWords action.peer c := by
      cases action.peer with
      | none => rfl
      | some other => exact words other
    have logging : grown.Logging := by
      rw [same]
      exact logging
    obtain ⟨answered, after, again, ran, sound, afterUnits, records, _, written, apart⟩ :=
      perform_eq_ok accepted recorded kept (Registry.getElem?_set_handle found _) logging
        (still housed) supported
        (by rw [words]; exact reduced) valid peers (some result) fun r named => by
          cases named
          exact ⟨placed, rfl⟩
    rw [words, seconds, computed] at again
    cases again
    have completed : result.complete (v.perform m action (some result))
      (registry.set v.handle ⟨grown, false⟩) =
        .ok result ((registry.set v.handle ⟨grown, false⟩).set v.handle ⟨after, false⟩) := by
      simp only [complete, ran]
    have entry : ((registry.set v.handle ⟨grown, false⟩).set v.handle ⟨after, false⟩)[v.handle]? =
        some ⟨after, false⟩ := Registry.getElem?_set_handle (Registry.getElem?_set_handle found _) _
    refine ⟨result, _, (run_bind_ok reserved).trans completed, ?_, fun w handle own => ?_⟩
    · rw [toList_eq_ok accepted sound (v := result) entry
        (Controller.placed_of_housed sound (afterUnits ▸ records ▸ placed))]
      exact congrArg Except.ok written
    · have different : w.address ≠ address := by
        obtain ⟨blocks, owned, _⟩ := own.owned
        exact fresh _ owned
      rw [toList_eq_ok accepted sound (handle ▸ entry)
        (Controller.placed_of_housed sound (afterUnits ▸ records ▸ still own))]
      exact congrArg Except.ok ((apart w (still own) different).trans (words w))
  · cases exhausted (counted_of_placed accepted (Controller.placed_of_housed sound housed))
    exact .inl ⟨_, _, _, run_bind_error refused⟩

end Operating

theorem first_vector {settings : Settings} {admits : List Resident → Controller.Command → Prop}
    {count perUnit : Nat} {c : Controller} (accepted : settings.Accepted)
    {openLog : Path → Except FileRefusal ExecutionLog} {schedules : List Schedule}
    (started : Controller.start settings openLog schedules = .ok c) (sound : c.Sound settings count)
    (memories : c.memories = Controller.allocators (Controller.blank settings) count)
    (logging : c.Logging) (values : List Word) (even : values.length = perUnit * count)
    (room : (Controller.blank settings).blocksFor (perUnit * 8) ≤
      settings.bankBytes / Allocator.standardBlockBytes) :
    ∃ (v : Resident) (after : Controller), Visited settings 0 admits [⟨after, false⟩] [v] ∧
      v.handle = 0 ∧
      after.Sound settings count ∧ after.Logging ∧ v.Housed after.units after.records ∧
      answer (v.toList [⟨after, false⟩]) = .ok values := by
  obtain ⟨v, after, ran, own, _, kept, still, housed, words⟩ :=
    first_given accepted sound memories logging values even room
  refine ⟨v, after, visited_first started ran, own, kept, still, housed, ?_⟩
  rw [toList_eq_ok accepted kept (own ▸ rfl) (Controller.placed_of_housed kept housed)]
  exact congrArg Except.ok words

/-- Operations on a live vector compute what the host computes on the words of the vector
and of its peer: in place they replace the vector's words, otherwise they find no memory or
leave the operands as they are beside the result. -/
theorem operations_exact {settings : Settings} {handle : Handle} {registry : Registry}
    {tenants : List Resident} {v : Resident} {m : Word} {c : Controller}
    (accepted : settings.Accepted) (recorded : settings.shape.Recorded)
    (visited : Visited settings handle Spared registry tenants)
    (found : registry[handle]? = some ⟨c, false⟩) (logging : c.Logging) (live : v ∈ tenants)
    (supported : Modulus.isSupported m = true)
    (reduced : ∀ a, answer (v.toList registry) = .ok a → ∀ x ∈ a, x < m) :
    ∃ a, answer (v.toList registry) = .ok a ∧ a.length = v.length ∧
      (∀ new, Modulus.isSupported new = true → ∃ out left,
        (Operation.switchModulus m new).kernel a [] = .ok out ∧
        v.switchModulus m new registry = .ok () left ∧ answer (v.toList left) = .ok out) ∧
      ∀ action : Action, action.Valid →
        (∀ other, action.peer = some other → other ∈ tenants ∧ other.length = v.length ∧
          ∀ b, answer (other.toList registry) = .ok b → ∀ y ∈ b, y < m) →
        ∃ b out, (∀ other, action.peer = some other → answer (other.toList registry) = .ok b) ∧
          (action.operation m).kernel a b = .ok out ∧
          (∃ left, v.update m action registry = .ok () left ∧ answer (v.toList left) = .ok out) ∧
          ((∃ unit bytes left, v.derive m action registry =
            .error (.memoryExhausted unit bytes) left) ∨
            ∃ result left, v.derive m action registry = .ok result left ∧
              answer (result.toList left) = .ok out ∧ answer (v.toList left) = .ok a ∧
              ∀ other, action.peer = some other → answer (other.toList left) = .ok b) := by
  obtain ⟨⟨shared, here, tenanted⟩, own⟩ := hosts_of_visited accepted visited
  cases here.symm.trans found
  obtain ⟨count, sound⟩ := tenanted.sound
  obtain rfl := own v live
  have housed := tenanted.housed v live
  have answers : ∀ w ∈ tenants, answer (w.toList registry) = .ok (w.words c) := by
    intro w member
    rw [toList_eq_ok accepted sound (own w member ▸ found)
      (Controller.placed_of_housed sound (tenanted.housed w member))]
    rfl
  have reduced := reduced _ (answers v live)
  refine ⟨v.words c, answers v live, length_words housed.even, fun new valid => ?_,
    fun action valid argument => ?_⟩
  · have alone : ∀ other : Resident, none = some other →
        other.Housed c.units c.records ∧ other.perUnit = v.perUnit := nofun
    obtain ⟨out, after, computed, ran, kept, units, records, _, words, _⟩ :=
      requested_eq_ok accepted sound recorded found logging housed alone alone
        (switchModulus_requests (bytes_lt accepted (Controller.placed_of_housed sound housed))
          supported valid)
          ⟨supported, valid⟩ rfl reduced nofun
    refine ⟨out, _, computed, ran, ?_⟩
    rw [toList_eq_ok accepted kept (Registry.getElem?_set_handle found _)
        (Controller.placed_of_housed kept (units ▸ records ▸ housed))]
    exact congrArg Except.ok words
  · have peers : v.Peers m action c := by
      intro other argued
      obtain ⟨member, length, below⟩ := argument other argued
      exact ⟨own other member, length, tenanted.housed other member, below _ (answers other member)⟩
    have seconds : ∀ other, action.peer = some other → peerWords action.peer c = other.words c := by
      intro other argued
      rw [argued]
      rfl
    obtain ⟨out, left, computed, updated, read⟩ :=
      update_eq_ok accepted recorded sound found logging housed supported reduced valid peers
    refine ⟨peerWords action.peer c, out, fun other argued => ?_, computed,
      ⟨left, updated, read⟩, ?_⟩
    · rw [seconds other argued]
      exact answers other (argument other argued).1
    · rcases derive_cases accepted recorded sound found logging housed supported reduced valid
        peers computed with
        exhausted | ⟨result, left, derived, read, others⟩
      · exact .inl exhausted
      · refine .inr ⟨result, left, derived, read, others v rfl housed, fun other argued => ?_⟩
        rw [seconds other argued]
        exact others other (peers other argued).1 (peers other argued).2.2.1

/-- A vector of four words on the standard units, added to itself. -/
theorem operations_exact_standard :
    ∃ (v : Resident) (c : Controller), Visited {} 0 Spared [⟨c, false⟩] [v] ∧ c.Logging ∧
      answer (v.toList [⟨c, false⟩]) = .ok [1, 2, 3, 4] ∧
      ∃ left, v.update 97 (.combine .add (.vector v)) [⟨c, false⟩] = .ok () left ∧
        answer (v.toList left) = .ok [2, 4, 6, 8] := by
  obtain ⟨c, started, sound, logging, memories⟩ :=
    Controller.standard_starts (fun _ => .error .notFound) []
  obtain ⟨v, after, visited, own, _, still, _, read⟩ :=
    first_vector Controller.standard_accepted started sound
    memories logging [1, 2, 3, 4] rfl (by decide)
  have reduced : ∀ a, answer (v.toList [⟨after, false⟩]) = .ok a → ∀ x ∈ a, x < 97 := by
    intro a same
    cases read.symm.trans same
    simp
  obtain ⟨a, first, _, _, operated⟩ :=
    operations_exact Controller.standard_accepted Controller.standard_recorded
    visited rfl still (List.mem_singleton_self v) (m := 97) (by decide) reduced
  cases read.symm.trans first
  have itself : ∀ other, (Action.combine .add (.vector v)).peer = some other →
      other ∈ [v] ∧ other.length = v.length ∧
        ∀ b, answer (other.toList [⟨after, false⟩]) = .ok b → ∀ y ∈ b, y < 97 := by
    intro other argued
    cases argued
    exact ⟨List.mem_singleton_self v, rfl, reduced⟩
  obtain ⟨b, out, second, computed, updated, _⟩ :=
    operated (.combine .add (.vector v)) trivial itself
  cases read.symm.trans (second v rfl)
  have sum : (Action.operation 97 (.combine .add (.vector v))).kernel [1, 2, 3, 4] [1, 2, 3, 4] =
      .ok [2, 4, 6, 8] := rfl
  cases sum.symm.trans computed
  exact ⟨v, after, visited, still, read, updated⟩

/-- Accepted settings do not suffice: with more tasklets than the host can record, an
operation on a live vector ends in a trap. -/
theorem operations_crowded :
    ∃ (v : Resident) (c : Controller), Controller.crowded.Accepted ∧
      Visited Controller.crowded 0 Spared [⟨c, false⟩] [v] ∧ c.Logging ∧
      Modulus.isSupported 97 = true ∧ answer (v.toList [⟨c, false⟩]) = .ok [1] ∧
      Action.parity.Valid ∧
      ¬ ∃ left, v.update 97 .parity [⟨c, false⟩] = .ok () left := by
  obtain ⟨c, started, sound, logging, memories⟩ :=
    Controller.crowded_starts (fun _ => .error .notFound) []
  obtain ⟨v, after, visited, own, kept, still, housed, read⟩ :=
    first_vector Controller.crowded_accepted started sound
    memories logging [1] rfl (by decide)
  refine ⟨v, after, Controller.crowded_accepted, visited, still, by decide, read, trivial, ?_⟩
  have placed := Controller.placed_of_housed kept housed
  have requests : v.Requests (v.perform 97 .parity none) (v.region none none)
      (Action.parity.operation 97) :=
    perform_requests (bytes_lt Controller.crowded_accepted placed) (by decide) nofun trivial nofun
  obtain ⟨program, block, asks, behind⟩ := requests
  have alone : ∀ other : Resident, none = some other →
      other.Placed Controller.crowded after.units ∧ other.perUnit = v.perUnit := nofun
  obtain ⟨stopped, trapped⟩ := Controller.runBlock_unrecorded Controller.crowded_accepted kept asks
    (fun i device found => grants_region kept placed alone alone found)
      Controller.crowded_unrecorded
  rintro ⟨left, ran⟩
  have found : ([⟨after, false⟩] : Registry)[v.handle]? = some ⟨after, false⟩ := by rw [own]; rfl
  rw [update, behind, Registry.locked_error found trapped] at ran
  cases ran

end BankedRing.Resident
