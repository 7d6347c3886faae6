import BankedRing.Proofs.Host.Turn

/-! Clients that share a controller. The turns of any number of clients may follow each other
in any order. What one turn keeps is kept by all of them: every vector holds what the
operations on it have computed, whatever the other clients have done in between. -/
namespace BankedRing.Resident

/-- The turns of any number of clients, one after the other, with the ledger that is kept of
them. What stands behind other handles may change in between, writes to the execution log may
begin or cease to succeed, and a client may die with the lock in hand. -/
inductive Interleaved (settings : Settings) (handle : Handle) : Registry → Ledger → Prop
  | start {registry : Registry} {openLog : Path → Except FileRefusal ExecutionLog}
      {schedules : List Schedule} {c : Controller} :
    registry.length = handle → Controller.start settings openLog schedules = .ok c →
    Interleaved settings handle (registry ++ [⟨c, false⟩]) .empty
  | elsewhere {registry other : Registry} {ledger : Ledger} :
    Interleaved settings handle registry ledger → other[handle]? = registry[handle]? →
    Interleaved settings handle other ledger
  | relog {registry : Registry} {ledger : Ledger} {c : Controller} {p : Bool}
      (executionLog : Option ExecutionLog) :
    Interleaved settings handle registry ledger → registry[handle]? = some ⟨c, p⟩ →
    Interleaved settings handle (registry.set handle ⟨{ c with executionLog }, p⟩) ledger
  | poison {registry : Registry} {ledger : Ledger} :
    Interleaved settings handle registry ledger →
    Interleaved settings handle (registry.poison handle) ledger
  | turn {registry : Registry} {ledger : Ledger} {α : Type} (turn : Turn α) :
    Interleaved settings handle registry ledger → turn.Proper ledger →
    Interleaved settings handle (after (turn.run handle registry))
      (turn.record ledger (answer (turn.run handle registry)))

theorem Interleaved.answered {settings : Settings} {handle : Handle} {registry left : Registry}
    {ledger : Ledger} {α : Type} {value : α}
    (interleaved : Interleaved settings handle registry ledger) (turn : Turn α)
    (proper : turn.Proper ledger) (ran : turn.run handle registry = .ok value left) :
    Interleaved settings handle left (turn.record ledger (.ok value)) := by
  have next := interleaved.turn turn proper
  rwa [ran] at next

section Clients
variable {settings : Settings} {registry : Registry} {handle : Handle} {ledger : Ledger}

/-- Ledger and banks agree however the clients' turns fall. -/
theorem booked_of_interleaved (accepted : settings.Accepted)
    (interleaved : Interleaved settings handle registry ledger) :
    ∃ c p, registry[handle]? = some ⟨c, p⟩ ∧
      Tenure settings handle (fun _ _ => False) ⟨c, p⟩ ledger.tenants ∧
      ledger.Agrees c := by
  induction interleaved with
  | @start registry openLog schedules c length started =>
    refine ⟨c, false, ?_, .started started, nofun⟩
    rw [← length, List.getElem?_append_right (Nat.le_refl _), Nat.sub_self]
    rfl
  | elsewhere _ same ih =>
    obtain ⟨c, p, found, kept⟩ := ih
    exact ⟨c, p, same.trans found, kept⟩
  | relog executionLog _ found ih =>
    obtain ⟨c, p, here, tenure, agrees⟩ := ih
    cases here.symm.trans found
    exact ⟨_, _, List.getElem?_set_self (List.getElem?_eq_some_iff.mp found).1,
      tenure.stepped ⟨rfl, rfl, .refl _⟩ id, agrees⟩
  | poison _ ih =>
    obtain ⟨c, p, found, tenure, agrees⟩ := ih
    refine ⟨c, true, ?_, tenure.stepped (.refl c) fun _ => rfl, agrees⟩
    rw [Registry.poison, List.getElem?_modify_eq, found]
    rfl
  | turn turn _ proper ih =>
    obtain ⟨c, p, found, tenure, agrees⟩ := ih
    obtain ⟨reached, q, entry, agreed, _⟩ := Turn.isolated accepted tenure found agrees proper
    obtain ⟨shared, here, moved⟩ := Turn.held accepted ⟨_, found, tenure⟩ proper
    cases here.symm.trans entry
    exact ⟨reached, q, entry, moved, agreed⟩

/-- Clients that share a controller are isolated from each other. In any order of their turns,
finished or refused, every vector that has been given words holds what the operations on it
have computed, from the words of their right-hand sides at that time, and reads so as long as
the lock is not poisoned. A further turn of whomever leaves the ledger in agreement with the
banks, and changes the words of no vector but its target. -/
theorem clients_isolated (accepted : settings.Accepted)
    (interleaved : Interleaved settings handle registry ledger) :
    ∃ c p, registry[handle]? = some ⟨c, p⟩ ∧
      (∀ v ∈ ledger.tenants, ∀ words, ledger.contents v = some words →
        v.words c = words ∧ (p = false → v.toList registry = .ok words registry)) ∧
      ∀ {α : Type} (turn : Turn α), turn.Proper ledger →
        ∃ reached q, (after (turn.run handle registry))[handle]? = some ⟨reached, q⟩ ∧
          (turn.record ledger (answer (turn.run handle registry))).Agrees reached ∧
          ∀ w ∈ ledger.tenants, turn.target ≠ some w → w.words reached = w.words c ∧
            w ∈ (turn.record ledger (answer (turn.run handle registry))).tenants ∧
            (turn.record ledger (answer (turn.run handle registry))).contents w =
              ledger.contents w := by
  obtain ⟨c, p, found, tenure, agrees⟩ := booked_of_interleaved accepted interleaved
  refine ⟨c, p, found, ?_, ?_⟩
  · intro v live words given
    have holds := agrees v live words given
    refine ⟨holds, ?_⟩
    rintro rfl
    obtain ⟨count, sound⟩ := tenure.sound accepted
    rw [toList_eq_ok accepted sound (tenure.own v live ▸ found) (tenure.placed accepted v live),
      holds]
  · intro α turn proper
    obtain ⟨reached, q, entry, agreed, others⟩ := Turn.isolated accepted tenure found agrees proper
    obtain ⟨shared, _, moved⟩ := Turn.held accepted ⟨_, found, tenure⟩ proper
    have apart := (moved.tenanted accepted fun _ _ none => none.elim).apart
    refine ⟨reached, q, entry, agreed, fun w live other => ?_⟩
    exact ⟨others w live other, Turn.record_other live apart other⟩

section Examples
open Controller (narrow narrow_accepted)

/-- Two clients on two blocks. The second one reserves and gives up between the turns of the
first. -/
theorem clients_isolated_narrow :
    ∃ (v : Resident) (registry : Registry) (ledger : Ledger), Interleaved narrow 0 registry ledger ∧
      ledger.tenants = [v] ∧ ledger.contents v = some [15] ∧
      v.toList registry = .ok [15] registry := by
  have ran : (do
      let c ← Controller.start narrow (fun _ => .error .notFound) []
      answer ((do
        let v ← (Turn.reserve 1).run 0
        let w ← (Turn.reserve 1).run 0
        (Turn.fill v [10]).run 0
        (Turn.release w).run 0
        (Turn.perform v 97 (.combine .add (.scalar 5)) none).run 0
        return (v.length, (← get).map SharedController.poisoned) : Step (Nat × List Bool))
        [⟨c, false⟩])) = .ok (1, [false]) := by decide +kernel
  obtain ⟨c, started, ran⟩ := bind_eq_ok.mp ran
  obtain ⟨_, ran⟩ := of_answer ran
  obtain ⟨v, one, first, ran⟩ := run_bind_eq_ok.mp ran
  obtain ⟨w, two, second, ran⟩ := run_bind_eq_ok.mp ran
  obtain ⟨_, three, filled, ran⟩ := run_bind_eq_ok.mp ran
  obtain ⟨_, four, dropped, ran⟩ := run_bind_eq_ok.mp ran
  obtain ⟨_, five, added, ran⟩ := run_bind_eq_ok.mp ran
  obtain ⟨long, unpoisoned⟩ := Prod.mk.inj (EStateM.Result.ok.inj ran).1
  let given := ((Ledger.empty.grant v).grant w).put v [10]
  have fresh : Interleaved narrow 0 ([] ++ [⟨c, false⟩]) .empty := .start rfl started
  have live : v ∈ ((Ledger.empty.grant v).grant w).tenants :=
    List.mem_cons_of_mem w List.mem_cons_self
  have words : Interleaved narrow 0 three given :=
    ((fresh.answered (.reserve 1) trivial first).answered (.reserve 1) trivial second).answered
      (.fill v [10])
      ⟨live, long.symm⟩ filled
  have alone : Interleaved narrow 0 four (given.drop w) :=
    words.answered (.release w) List.mem_cons_self dropped
  have kept : (given.drop w).tenants = [v] := List.erase_cons_head w [v]
  have ten : (given.drop w).contents v = some [10] := Ledger.contents_put_self
  have proper : (Turn.perform v 97 (.combine .add (.scalar 5)) none).Proper (given.drop w) :=
    ⟨by decide, trivial, ⟨kept ▸ List.mem_cons_self, _, ten, by simp⟩, nofun, nofun⟩
  have interleaved := alone.answered _ proper added
  have record : (Turn.perform v 97 (.combine .add (.scalar 5)) none).record
    (given.drop w) (.ok ()) =
      (given.drop w).put v [15] := by
    simp only [Turn.record, Action.peer, Ledger.peerWords, Ledger.words, ten]
    rfl
  rw [record] at interleaved
  have fifteen : ((given.drop w).put v [15]).contents v = some [15] := Ledger.contents_put_self
  obtain ⟨_, p, found, holds, _⟩ := clients_isolated narrow_accepted interleaved
  obtain ⟨shared, rfl, open'⟩ := List.map_eq_singleton_iff.mp unpoisoned
  cases found
  exact ⟨v, _, (given.drop w).put v [15], interleaved, kept, fifteen,
    (holds v (kept ▸ List.mem_cons_self) _ fifteen).2 open'⟩

end Examples
end Clients

end BankedRing.Resident
